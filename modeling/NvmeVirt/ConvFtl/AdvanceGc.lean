/-
# The collection's write pointer moves on

The collection fills its line in plain striping order, so how far each die is
written follows from the pointer alone (`gcFront`).  Each branch of the `GC_IO`
part of `advance_write_pointer` moves the pointer to the next page of that
order, the last one to a free line.
-/

import NvmeVirt.ConvFtl.AdvanceUser

namespace NvmeVirt

open Outcome

/-! ### The striping order -/

section

variable {spp : Ssdparams} {wp : WritePointer} {d : ℕ × ℕ}

/-- How far the dies are written once the page under the pointer is handed out. -/
def gcNext (spp : Ssdparams) (wp : WritePointer) (d : ℕ × ℕ) : ℕ :=
  if d = (wp.ch, wp.lun) then wp.pg + 1 else gcFront spp wp d

/-- The pointer is on the last page of a one-shot page. -/
theorem oneshot_end {os pg : ℕ} (hos : 0 < os) (h : (pg + 1) % os = 0) :
    pg + 1 = pg / os * os + os := by
  have h1 := Nat.div_add_mod pg os
  have h2 := Nat.mod_lt pg hos
  have h3 : pg % os + 1 = os := by
    by_contra hne
    have : (pg + 1) % os = pg % os + 1 := by
      rw [Nat.add_mod, Nat.mod_eq_of_lt (show 1 < os by omega),
        Nat.mod_eq_of_lt (show pg % os + 1 < os by omega)]
    omega
  have h4 : os * (pg / os) = pg / os * os := mul_comm _ _
  omega

theorem oneshot_inside {os pg : ℕ} (h : (pg + 1) % os ≠ 0) : (pg + 1) / os = pg / os := by
  rw [Nat.succ_div, if_neg fun hd => h (Nat.mod_eq_zero_of_dvd hd), add_zero]

/-- Inside a one-shot page only the current die goes on. -/
theorem gcFront_page (h : (wp.pg + 1) % spp.pgsPerOneshotpg ≠ 0) :
    gcFront spp { wp with pg := wp.pg + 1 } d = gcNext spp wp d := by
  have hd : d = (wp.ch, wp.lun) ↔ d.1 = wp.ch ∧ d.2 = wp.lun := Prod.ext_iff
  simp only [gcFront, gcNext, oneshot_inside h, hd]
  split_ifs <;> omega

/-- To the next channel of the row. -/
theorem gcFront_ch (hos : 0 < spp.pgsPerOneshotpg) (h : (wp.pg + 1) % spp.pgsPerOneshotpg = 0) :
    gcFront spp { wp with pg := wp.pg + 1 - spp.pgsPerOneshotpg, ch := wp.ch + 1 } d
      = gcNext spp wp d := by
  have hend := oneshot_end hos h
  have hrow : wp.pg + 1 - spp.pgsPerOneshotpg
      = wp.pg / spp.pgsPerOneshotpg * spp.pgsPerOneshotpg := by omega
  have hd : ∀ a b : ℕ, d = (a, b) ↔ d.1 = a ∧ d.2 = b := fun a b => Prod.ext_iff
  simp only [gcFront, gcNext, hd, hrow, Nat.mul_div_cancel _ hos]
  split_ifs <;> omega

/-- To the next die of the row's channels. -/
theorem gcFront_lun (hos : 0 < spp.pgsPerOneshotpg) (h : (wp.pg + 1) % spp.pgsPerOneshotpg = 0)
    (hd : d ∈ spp.dies) (hch : wp.ch + 1 = spp.nchs) :
    gcFront spp { wp with pg := wp.pg + 1 - spp.pgsPerOneshotpg, ch := 0, lun := wp.lun + 1 } d
      = gcNext spp wp d := by
  have hend := oneshot_end hos h
  have hrow : wp.pg + 1 - spp.pgsPerOneshotpg
      = wp.pg / spp.pgsPerOneshotpg * spp.pgsPerOneshotpg := by omega
  have hde : ∀ a b : ℕ, d = (a, b) ↔ d.1 = a ∧ d.2 = b := fun a b => Prod.ext_iff
  obtain ⟨h1, h2⟩ := Ssdparams.mem_dies.1 hd
  simp only [gcFront, gcNext, hde, hrow, Nat.mul_div_cancel _ hos]
  split_ifs <;> omega

/-- The row is full. -/
theorem gcNext_row (hos : 0 < spp.pgsPerOneshotpg) (h : (wp.pg + 1) % spp.pgsPerOneshotpg = 0)
    (hd : d ∈ spp.dies) (hch : wp.ch + 1 = spp.nchs) (hlun : wp.lun + 1 = spp.lunsPerCh) :
    gcNext spp wp d = wp.pg + 1 := by
  have hend := oneshot_end hos h
  have hde : d = (wp.ch, wp.lun) ↔ d.1 = wp.ch ∧ d.2 = wp.lun := Prod.ext_iff
  obtain ⟨h1, h2⟩ := Ssdparams.mem_dies.1 hd
  simp only [gcFront, gcNext, hde]
  split_ifs <;> omega

/-- At the start of a row all dies are written as far as the pointer. -/
theorem gcFront_start (wp : WritePointer) (hch : wp.ch = 0) (hlun : wp.lun = 0)
    (hpg : wp.pg / spp.pgsPerOneshotpg * spp.pgsPerOneshotpg = wp.pg) :
    gcFront spp wp d = wp.pg := by
  unfold gcFront
  simp only [hch, hlun, hpg]
  split_ifs
  · omega
  · rfl
  · rfl

end

namespace ConvFtl

variable {f : ConvFtl} {vs : List ℕ} {front : ℕ × ℕ → ℕ → ℕ} {d : ℕ × ℕ} {l : ℕ}

theorem Handed.gcNext_eq (h : f.Handed vs front .gc) (hd : d ∈ f.ssd.sp.dies) :
    f.nextFront .gc front d f.gcWp.curline = gcNext f.ssd.sp f.gcWp d := by
  unfold gcNext
  split_ifs with hdd
  · subst hdd
    simp [nextFront, getWp]
  · simp only [nextFront, getWp]
    rw [setFront_die hdd]
    exact (h.ptr .gc).front d hd

/-- **The pointer moves inside its line** to a page that continues the striping order. -/
theorem Handed.moveGc (h : f.Handed vs front .gc) (wp : WritePointer)
    (hcur : wp.curline = f.gcWp.curline) (hblk : wp.blk = f.gcWp.blk) (hpl : wp.pl = f.gcWp.pl)
    (hd : (wp.ch, wp.lun) ∈ f.ssd.sp.dies)
    (hfront : ∀ d ∈ f.ssd.sp.dies, gcFront f.ssd.sp wp d = gcNext f.ssd.sp f.gcWp d)
    (hroom : wp.pg < f.ssd.sp.pgsPerBlk)
    (hstay : (f.gcWp.pg + 1) % f.ssd.sp.pgsPerOneshotpg ≠ 0 →
      wp = { f.gcWp with pg := f.gcWp.pg + 1 }) :
    Sound { f with gcWp := wp } vs (f.nextFront .gc front) := by
  have hw := h.ptr .user
  have hg := h.ptr .gc
  refine {
    geom := h.geom, homed := ?_, nand := h.nand, stats := h.stats, ptr := fun io => ?_
    free := fun l hl d hd => h.next_free hl hd, closed := fun l hl d hd => h.next_closed hl hd
    history := h.history, run := fun io => ?_ }
  · show f.lm.Homed f.ssd.sp.blksPerPl (f.wp.curline :: wp.curline :: vs)
    rw [hcur]
    exact h.homed
  · cases io with
    | user =>
      refine { hw with front := fun e he => ?_ }
      rw [nextFront_line h.curline_ne]
      exact hw.front e he
    | gc =>
      refine {
        blk := ?_, pl := hpl.trans hg.pl, die := hd, front := fun e he => ?_, pg := ?_
        room := fun _ => hroom }
      · show wp.blk = wp.curline
        rw [hblk, hcur]
        exact hg.blk
      · show f.nextFront .gc front e wp.curline = gcFront f.ssd.sp wp e
        rw [hcur, hfront e he]
        exact h.gcNext_eq he
      · show wp.pg = gcFront f.ssd.sp wp (wp.ch, wp.lun)
        simp [gcFront]
  · cases io with
    | user => exact h.other .user (by decide)
    | gc =>
      obtain ⟨rest, hrest, hchain⟩ := h.run
      have hlog : handOuts .gc ({ f with gcWp := wp } : ConvFtl).log = f.gcWp.page :: rest := hrest
      rw [hlog]
      refine List.isChain_cons_cons.2 ⟨fun hne => ?_, hchain⟩
      simp [WritePointer.page, getWp, pageAt, hstay hne]

/-- **The `GC_IO` branch of `advance_write_pointer`** keeps the invariant. -/
theorem Handed.advanceGc (h : f.Handed vs front .gc) :
    Ends f.advanceGc (fun f' => f'.Sound vs (f.nextFront .gc front) ∧ Advanced f f')
      (fun e => e = .noFreeLine ∧ f.Exhausted front .gc) := by
  have hg := h.ptr .gc
  have hroom : f.gcWp.pg < f.ssd.sp.pgsPerBlk := h.room
  have hos := h.geom.oneshotpg_pos
  obtain ⟨hch, hlun⟩ : f.gcWp.ch < f.ssd.sp.nchs ∧ f.gcWp.lun < f.ssd.sp.lunsPerCh :=
    Ssdparams.mem_dies.1 hg.die
  have hcur := h.curline_lt .gc
  have hc1 : checkAddr f.gcWp.pg f.ssd.sp.pgsPerBlk = .ok () := nvmevAssert_eq_ok.2 hroom
  have hc2 : checkAddr f.gcWp.ch f.ssd.sp.nchs = .ok () := nvmevAssert_eq_ok.2 hch
  have hc3 : checkAddr f.gcWp.lun f.ssd.sp.lunsPerCh = .ok () := nvmevAssert_eq_ok.2 hlun
  have hc4 : checkAddr f.gcWp.blk f.ssd.sp.blksPerPl = .ok () :=
    nvmevAssert_eq_ok.2 (by rw [show f.gcWp.blk = f.gcWp.curline from hg.blk]; exact hcur)
  unfold ConvFtl.advanceGc
  simp only [hc1, hc2, hc3, hc4, ok_bind]
  split_ifs with h1 h2 h3 h4
  · -- inside a one-shot page
    refine ⟨h.moveGc _ rfl rfl rfl hg.die (fun d _ => gcFront_page h1) ?_ fun _ => rfl, rfl, rfl,
      rfl, rfl, rfl, rfl⟩
    refine lt_of_le_of_ne hroom fun he => h1 ?_
    rw [show f.gcWp.pg + 1 = f.ssd.sp.pgsPerBlk from he, h.geom.oneshotpgs, Nat.mul_mod_left]
  all_goals rw [not_not] at h1
  · -- the next channel
    exact ⟨h.moveGc _ rfl rfl rfl
      (Ssdparams.mem_dies.2 ⟨by dsimp only; omega, hlun⟩) (fun d _ => gcFront_ch hos h1)
      (by dsimp only; omega) fun hne => absurd h1 hne, rfl, rfl, rfl, rfl, rfl, rfl⟩
  all_goals rw [not_not] at h2
  · -- the next die of the channels
    exact ⟨h.moveGc _ rfl rfl rfl
      (Ssdparams.mem_dies.2 ⟨h.geom.nchs_pos, by dsimp only; omega⟩)
      (fun d hd => gcFront_lun hos h1 hd h2) (by dsimp only; omega) fun hne => absurd h1 hne,
      rfl, rfl, rfl, rfl, rfl, rfl⟩
  all_goals
    rw [not_not] at h3
    have hend := oneshot_end hos h1
    have hback : f.gcWp.pg + 1 - f.ssd.sp.pgsPerOneshotpg + f.ssd.sp.pgsPerOneshotpg
      = f.gcWp.pg + 1 := by omega
  · -- the next row
    refine ⟨h.moveGc _ rfl rfl rfl
      (Ssdparams.mem_dies.2 ⟨h.geom.nchs_pos, h.geom.luns_pos⟩) (fun d hd => ?_) ?_
      fun hne => absurd h1 hne, rfl, rfl, rfl, rfl, rfl, rfl⟩
    · rw [gcNext_row hos h1 hd h2 h3, hback]
      refine gcFront_start { f.gcWp with ch := 0, lun := 0, pg := f.gcWp.pg + 1 } rfl rfl ?_
      dsimp only
      rw [hend, ← Nat.succ_mul, Nat.mul_div_cancel _ hos]
    · dsimp only
      omega
  · -- the line is used up
    have hppb : f.gcWp.pg + 1 = f.ssd.sp.pgsPerBlk := by omega
    have hfull : ∀ d ∈ f.ssd.sp.dies,
        f.nextFront .gc front d f.gcWp.curline = f.ssd.sp.pgsPerBlk := fun d hd => by
      rw [h.gcNext_eq hd, gcNext_row hos h1 hd h2 h3, hppb]
    obtain ⟨lm, hlm, htake⟩ := h.newLine .advanceWritePointer hfull
    rw [show f.lm.retireLine .advanceWritePointer f.ssd.sp f.gcWp.curline = .ok lm from hlm, ok_bind]
    refine htake.bind fun r hn => ?_
    obtain ⟨l, lm'⟩ := r
    have hchk : checkAddr (lm'.lines l).id f.ssd.sp.blksPerPl = .ok () :=
      nvmevAssert_eq_ok.2 (by rw [hn.id]; exact hn.lt)
    have hpl : f.gcWp.pl = 0 := hg.pl
    simp only [hchk, ok_bind, nvmevAssert_bind hpl]
    have hstart : ∀ d, gcFront f.ssd.sp { f.gcWp with
        curline := l, blk := (lm'.lines l).id, ch := 0, lun := 0, pg := 0 } d = 0 := fun d =>
      gcFront_start _ rfl rfl (by simp)
    refine ⟨?_, rfl, rfl, rfl, rfl, rfl, rfl⟩
    refine {
      geom := h.geom, homed := ?_, nand := h.nand, stats := hn.stats, ptr := fun io => ?_
      free := hn.free, closed := hn.closed, history := h.history, run := fun io => ?_ }
    · exact hn.homed.perm_held (List.Perm.swap _ _ _)
    · cases io with
      | user =>
        have hw := h.ptr .user
        refine { hw with front := fun e he => ?_ }
        rw [nextFront_line h.curline_ne]
        exact hw.front e he
      | gc =>
        exact {
          blk := hn.id, pl := hpl
          die := Ssdparams.mem_dies.2 ⟨h.geom.nchs_pos, h.geom.luns_pos⟩
          front := fun d hd => (hn.fresh d hd).trans (hstart d).symm
          pg := (hstart (0, 0)).symm
          room := fun hpos => hpos }
    · cases io with
      | user => exact h.other .user (by decide)
      | gc =>
        obtain ⟨rest, hrest, hchain⟩ := h.run
        have hlog : handOuts .gc f.log = f.gcWp.page :: rest := hrest
        simp only [hlog]
        exact List.isChain_cons_cons.2 ⟨fun hne => absurd h1 hne, hchain⟩

end ConvFtl

end NvmeVirt
