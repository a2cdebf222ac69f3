/-
# The user write pointer moves on

From the state in which a page has been handed out, the user branch of
`advance_write_pointer` and `advance_write_pointer_cleanver` lead back to the
invariant: to the next page of the die, to a die with a page left, or to a free
line.  The only way to stop is that no free line is left.
-/

import NvmeVirt.ConvFtl.PageMarks
import NvmeVirt.ConvFtl.Walk

namespace NvmeVirt

open Outcome

namespace ConvFtl

variable {f : ConvFtl} {vs : List ℕ} {front : ℕ × ℕ → ℕ → ℕ} {d : ℕ × ℕ} {l : ℕ} {io : IoType}

/-- What moving a write pointer leaves alone. -/
structure Advanced (f f' : ConvFtl) : Prop where
  ssd : f'.ssd = f.ssd
  cp : f'.cp = f.cp
  maptbl : f'.maptbl = f.maptbl
  rmap : f'.rmap = f.rmap
  wfc : f'.wfc = f.wfc
  log : f'.log = f.log

/-- The line of the write pointer is used up and no line is free. -/
def Exhausted (f : ConvFtl) (front : ℕ × ℕ → ℕ → ℕ) (io : IoType) : Prop :=
  f.lm.freeLineList = [] ∧
    ∀ d ∈ f.ssd.sp.dies, f.nextFront io front d (f.getWp io).curline = f.ssd.sp.pgsPerBlk

/-! ### Lines other than the write pointer's -/

theorem nextFront_line (h : l ≠ (f.getWp io).curline) : f.nextFront io front d l = front d l :=
  setFront_line h

theorem Handed.curline_lt (h : f.Handed vs front io) (io' : IoType) :
    (f.getWp io').curline < f.ssd.sp.blksPerPl := by
  cases io'
  · exact h.homed.held_lt (by simp [getWp])
  · exact h.homed.held_lt (by simp [getWp])

theorem Handed.curline_mem (io' : IoType) :
    (f.getWp io').curline ∈ f.wp.curline :: f.gcWp.curline :: vs := by
  cases io' <;> simp [getWp]

/-- The two write pointers stand on different lines. -/
theorem Handed.curline_ne (h : f.Handed vs front io) : f.wp.curline ≠ f.gcWp.curline := by
  have := h.homed.held_nodup
  simp only [List.nodup_cons, List.mem_cons, not_or] at this
  exact this.1.1

theorem Handed.next_free (h : f.Handed vs front io) (hl : l ∈ f.lm.freeLineList)
    (hd : d ∈ f.ssd.sp.dies) : f.nextFront io front d l = 0 := by
  rw [nextFront_line fun hc => h.homed.not_free (Handed.curline_mem io) (hc ▸ hl)]
  exact h.free l hl d hd

theorem Handed.next_closed (h : f.Handed vs front io) (hl : f.lm.Closed l)
    (hd : d ∈ f.ssd.sp.dies) : f.nextFront io front d l = f.ssd.sp.pgsPerBlk := by
  rw [nextFront_line fun hc => h.homed.not_closed (.inl (Handed.curline_mem io)) (hc ▸ hl)]
  exact h.closed l hl d hd

/-- The counters of the line the pointer leaves add up to its size. -/
theorem Handed.used_up (h : f.Handed vs front io) (hv : (f.getWp io).curline ∉ vs)
    (hfull : ∀ d ∈ f.ssd.sp.dies,
      f.nextFront io front d (f.getWp io).curline = f.ssd.sp.pgsPerBlk) :
    (f.lm.lines (f.getWp io).curline).vpc + (f.lm.lines (f.getWp io).curline).ipc
      = f.ssd.sp.pgsPerLine := by
  obtain ⟨h1, h2⟩ := h.stats _ (h.curline_lt io) hv
  rw [h1, h2, ← Finset.sum_add_distrib, ← h.geom.card_mul, ← smul_eq_mul, ← Finset.sum_const]
  refine Finset.sum_congr rfl fun d hd => ?_
  rw [(h.nand d hd _ (h.curline_lt io)).1.vpc_add_ipc, hfull d hd]

theorem Handed.curline_not_vs (h : f.Handed vs front io) (io' : IoType) :
    (f.getWp io').curline ∉ vs := by
  have := h.homed.held_nodup
  simp only [List.nodup_cons, List.mem_cons, not_or] at this
  cases io'
  · exact this.1.2
  · exact this.2.1

/-! ### The page counters -/

/-- The page counters once the page under the user write pointer is handed out. -/
def nextCounter (f : ConvFtl) : ℕ → ℕ :=
  Function.update f.pageCounter (f.ssd.sp.dieIdx f.wp.ch f.wp.lun)
    (f.pageCounter (f.ssd.sp.dieIdx f.wp.ch f.wp.lun) + 1)

/-- The page counters follow the fronts of the user's line. -/
theorem Handed.nextCounter_eq (h : f.Handed vs front .user) (hd : d ∈ f.ssd.sp.dies) :
    f.nextCounter (f.ssd.sp.dieIdx d.1 d.2) = f.nextFront .user front d f.wp.curline := by
  have hw := h.ptr .user
  by_cases hdd : d = (f.wp.ch, f.wp.lun)
  · subst hdd
    have hpg : f.wp.pg = f.pageCounter (f.ssd.sp.dieIdx f.wp.ch f.wp.lun) := hw.pg
    simp [nextCounter, nextFront, getWp, ← hpg]
  · have hne : f.ssd.sp.dieIdx d.1 d.2 ≠ f.ssd.sp.dieIdx f.wp.ch f.wp.lun :=
      fun he => hdd (Ssdparams.dieIdx_inj hd hw.die he)
    have hfr : front d f.wp.curline = f.pageCounter (f.ssd.sp.dieIdx d.1 d.2) := hw.front d hd
    simp only [nextCounter, nextFront, getWp]
    rw [Function.update_of_ne hne, setFront_die hdd, hfr]

theorem Handed.next_le (h : f.Handed vs front io) (hd : d ∈ f.ssd.sp.dies)
    (hl : l < f.ssd.sp.blksPerPl) : f.nextFront io front d l ≤ f.ssd.sp.pgsPerBlk :=
  (h.nand d hd l hl).1.le

/-- **The pointer moves to a die of its line with a page left.** -/
theorem Handed.moveUser (h : f.Handed vs front .user) (hd : d ∈ f.ssd.sp.dies)
    (hroom : f.nextCounter (f.ssd.sp.dieIdx d.1 d.2) < f.ssd.sp.pgsPerBlk)
    (hstay : (f.wp.pg + 1) % f.ssd.sp.pgsPerOneshotpg ≠ 0 → d = (f.wp.ch, f.wp.lun)) :
    Sound (syncPg { f with
      pageCounter := f.nextCounter, wp := { f.wp with ch := d.1, lun := d.2 } }) vs
      (f.nextFront .user front) := by
  have hw := h.ptr .user
  have hg := h.ptr .gc
  refine {
    geom := h.geom, homed := h.homed, nand := h.nand, stats := h.stats, ptr := fun io => ?_
    free := fun l hl d hd => h.next_free hl hd, closed := fun l hl d hd => h.next_closed hl hd
    history := h.history, run := fun io => ?_ }
  · cases io with
    | user =>
      exact {
        blk := hw.blk, pl := hw.pl, die := hd, front := fun e he => (h.nextCounter_eq he).symm
        pg := rfl, room := fun _ => hroom }
    | gc =>
      refine { hg with front := fun e he => ?_ }
      rw [nextFront_line h.curline_ne.symm]
      exact hg.front e he
  · cases io with
    | user =>
      obtain ⟨rest, hrest, hchain⟩ := h.run
      have hlog : handOuts .user (syncPg { f with
        pageCounter := f.nextCounter, wp := { f.wp with ch := d.1, lun := d.2 } }).log
          = f.wp.page :: rest := hrest
      rw [hlog]
      refine List.isChain_cons_cons.2 ⟨fun hne => ?_, hchain⟩
      obtain rfl := hstay hne
      have hpg : f.wp.pg = f.pageCounter (f.ssd.sp.dieIdx f.wp.ch f.wp.lun) := hw.pg
      simp [WritePointer.page, getWp, syncPg, nextCounter, pageAt, ← hpg]
    | gc => exact h.other .gc (by decide)

/-! ### A new line -/

/-- The lines held besides the one of a write pointer. -/
def others (f : ConvFtl) (vs : List ℕ) : IoType → List ℕ
  | .user => f.gcWp.curline :: vs
  | .gc => f.wp.curline :: vs

/-- The write pointer `io` has given up its line and got the free line `l`. -/
structure NewLine (f : ConvFtl) (vs : List ℕ) (front : ℕ × ℕ → ℕ → ℕ) (io : IoType) (l : ℕ)
    (lm : LineMgmt) : Prop where
  homed : lm.Homed f.ssd.sp.blksPerPl (l :: f.others vs io)
  id : (lm.lines l).id = l
  lt : l < f.ssd.sp.blksPerPl
  fresh : ∀ d ∈ f.ssd.sp.dies, f.nextFront io front d l = 0
  free : ∀ k ∈ lm.freeLineList, ∀ d ∈ f.ssd.sp.dies, f.nextFront io front d k = 0
  closed : ∀ k, lm.Closed k → ∀ d ∈ f.ssd.sp.dies,
    f.nextFront io front d k = f.ssd.sp.pgsPerBlk
  stats : LineStats f.ssd lm.lines vs

/-- **A used-up line is retired and a free line taken,** unless there is none. -/
theorem Handed.newLine (h : f.Handed vs front io) (fn : Fn)
    (hfull : ∀ d ∈ f.ssd.sp.dies,
      f.nextFront io front d (f.getWp io).curline = f.ssd.sp.pgsPerBlk) :
    ∃ lm, f.lm.retireLine fn f.ssd.sp (f.getWp io).curline = .ok lm ∧
      Ends lm.takeFreeLine (fun r => f.NewLine vs front io r.1 r.2)
        (fun e => e = .noFreeLine ∧ f.Exhausted front io) := by
  have hheld : f.lm.Homed f.ssd.sp.blksPerPl ((f.getWp io).curline :: f.others vs io) := by
    refine h.homed.perm_held ?_
    cases io
    · exact List.Perm.refl _
    · exact List.Perm.swap _ _ _
  obtain ⟨lm, hlm, hh, hfree, hclosed, hstat⟩ := hheld.retireLine fn
    (h.used_up (h.curline_not_vs io) hfull)
  refine ⟨lm, hlm, ?_⟩
  unfold LineMgmt.takeFreeLine
  cases hn : lm.getNextFreeLine with
  | none =>
    refine ⟨rfl, ?_, hfull⟩
    rw [← hfree]
    exact LineMgmt.getNextFreeLine_eq_none.1 hn
  | some r =>
    obtain ⟨l, lm'⟩ := r
    obtain ⟨hh', hl, hfull', hpq, hlines⟩ := hh.getNextFreeLine hn
    have hmem : l ∈ f.lm.freeLineList := by rw [← hfree, hl]; exact List.mem_cons_self
    have hlt : l < f.ssd.sp.blksPerPl := h.homed.free_lt hmem
    refine {
      homed := hh', id := hh'.id l hlt, lt := hlt, fresh := fun d hd => h.next_free hmem hd
      free := fun k hk d hd => h.next_free ?_ hd, closed := fun k hk d hd => ?_
      stats := fun k hk hkv => ?_ }
    · rw [← hfree, hl]
      exact List.mem_cons_of_mem _ hk
    · have hk' : lm.Closed k := by
        unfold LineMgmt.Closed at hk ⊢
        rwa [← hfull', ← hpq]
      rcases (hclosed k).1 hk' with rfl | hk'
      · exact hfull d hd
      · exact h.next_closed hk' hd
    · have hs := stat_eq (hstat k)
      simp only [hlines]
      rw [hs.2.1, hs.2.2]
      exact h.stats k hk hkv

/-- **The user pointer moves to a free line** once its own is used up. -/
theorem Handed.leaveLine (h : f.Handed vs front .user) (fn : Fn)
    (hos : (f.wp.pg + 1) % f.ssd.sp.pgsPerOneshotpg = 0)
    (hfull : ∀ d ∈ f.ssd.sp.dies, f.ssd.sp.pgsPerBlk ≤ f.nextCounter (f.ssd.sp.dieIdx d.1 d.2)) :
    Ends (do
      let cnt ← resetPageCounter fn f.ssd.sp f.nextCounter
      let lm ← f.lm.retireLine fn f.ssd.sp f.wp.curline
      checkAddr f.wp.blk f.ssd.sp.blksPerPl
      let (l, lm) ← lm.takeFreeLine
      let blk := (lm.lines l).id
      checkAddr blk f.ssd.sp.blksPerPl
      nvmevAssert fn (cnt 0 = 0)
      .ok (syncPg { f with
        pageCounter := cnt
        lm := lm
        wp := { f.wp with curline := l, blk := blk, ch := 0, lun := 0, pl := 0 } }))
      (fun f' => f'.Sound vs (f.nextFront .user front) ∧ Advanced f f')
      (fun e => e = .noFreeLine ∧ f.Exhausted front .user) := by
  have hw := h.ptr .user
  have hcur := h.curline_lt .user
  have hfull' : ∀ d ∈ f.ssd.sp.dies,
      f.nextFront .user front d f.wp.curline = f.ssd.sp.pgsPerBlk := fun d hd =>
    le_antisymm (h.next_le hd hcur) (h.nextCounter_eq hd ▸ hfull d hd)
  have hd0 : ((0, 0) : ℕ × ℕ) ∈ f.ssd.sp.dies :=
    Ssdparams.mem_dies.2 ⟨h.geom.nchs_pos, h.geom.luns_pos⟩
  obtain ⟨cnt, hcnt, hzero⟩ := resetPageCounter_spec fn
    fun d hd => (h.nextCounter_eq hd).trans (hfull' d hd)
  obtain ⟨lm, hlm, htake⟩ := h.newLine fn hfull'
  have hblk : checkAddr f.wp.blk f.ssd.sp.blksPerPl = .ok () :=
    nvmevAssert_eq_ok.2 (by rw [show f.wp.blk = f.wp.curline from hw.blk]; exact hcur)
  have hidx0 : f.ssd.sp.dieIdx 0 0 = 0 := by simp [Ssdparams.dieIdx]
  have hcnt0 : cnt 0 = 0 := by
    have := hzero _ hd0
    rwa [hidx0] at this
  rw [hcnt, ok_bind, show f.lm.retireLine fn f.ssd.sp f.wp.curline = .ok lm from hlm, ok_bind, hblk,
    ok_bind]
  refine htake.bind fun r hn => ?_
  obtain ⟨l, lm'⟩ := r
  have hchk : checkAddr (lm'.lines l).id f.ssd.sp.blksPerPl = .ok () :=
    nvmevAssert_eq_ok.2 (by rw [hn.id]; exact hn.lt)
  simp only [hchk, ok_bind, nvmevAssert_bind hcnt0]
  refine ⟨?_, rfl, rfl, rfl, rfl, rfl, rfl⟩
  refine {
    geom := h.geom, homed := hn.homed, nand := h.nand, stats := hn.stats, ptr := fun io => ?_
    free := hn.free, closed := hn.closed, history := h.history, run := fun io => ?_ }
  · cases io with
    | user =>
      exact {
        blk := hn.id, pl := rfl, die := hd0
        front := fun d hd => (hn.fresh d hd).trans (hzero d hd).symm
        pg := rfl
        room := fun hppb => by
          show cnt (f.ssd.sp.dieIdx 0 0) < f.ssd.sp.pgsPerBlk
          rw [hidx0, hcnt0]
          exact hppb }
    | gc =>
      have hg := h.ptr .gc
      refine { hg with front := fun e he => ?_ }
      rw [nextFront_line h.curline_ne.symm]
      exact hg.front e he
  · cases io with
    | user =>
      obtain ⟨rest, hrest, hchain⟩ := h.run
      have hlog : handOuts .user (syncPg { f with
          pageCounter := cnt
          lm := lm'
          wp := { f.wp with
            curline := l, blk := (lm'.lines l).id, ch := 0, lun := 0, pl := 0 } }).log
          = f.wp.page :: rest := hrest
      rw [hlog]
      exact List.isChain_cons_cons.2 ⟨fun hne => absurd hos hne, hchain⟩
    | gc => exact h.other .gc (by decide)

/-! ### `advance_write_pointer` and its cleaner version -/

/-- The end of a one-shot page: to a die with a page left or to a free line. -/
theorem Handed.leaveDie (h : f.Handed vs front .user) (fn : Fn)
    (hos : (f.wp.pg + 1) % f.ssd.sp.pgsPerOneshotpg = 0) :
    Ends (ConvFtl.leaveDie { f with pageCounter := f.nextCounter } fn)
      (fun f' => f'.Sound vs (f.nextFront .user front) ∧ Advanced f f')
      (fun e => e = .noFreeLine ∧ f.Exhausted front .user) := by
  obtain ⟨r, hr, hsome, hnone⟩ := walkDies_spec f.nextCounter (h.ptr .user).die
  have hr' : walkDies f.ssd.sp f.nextCounter f.wp.ch f.wp.lun (f.ssd.sp.nchs * f.ssd.sp.lunsPerCh)
      (f.wp.ch, f.wp.lun) = .ok r := hr
  unfold ConvFtl.leaveDie
  simp only [hr', ok_bind]
  cases r with
  | none => exact h.leaveLine fn hos (hnone rfl)
  | some d =>
    obtain ⟨hd, hroom⟩ := hsome d rfl
    exact ⟨h.moveUser hd hroom fun hne => absurd hos hne, rfl, rfl, rfl, rfl, rfl, rfl⟩

/-- A page that does not complete a one-shot page leaves room in its block. -/
theorem Handed.room_of_mod (h : f.Handed vs front .user)
    (hne : (f.wp.pg + 1) % f.ssd.sp.pgsPerOneshotpg ≠ 0) :
    f.nextCounter (f.ssd.sp.dieIdx f.wp.ch f.wp.lun) < f.ssd.sp.pgsPerBlk := by
  have hpg : f.wp.pg = f.pageCounter (f.ssd.sp.dieIdx f.wp.ch f.wp.lun) := (h.ptr .user).pg
  have hroom : f.wp.pg < f.ssd.sp.pgsPerBlk := h.room
  simp only [nextCounter, Function.update_self, ← hpg]
  refine lt_of_le_of_ne hroom fun he => hne ?_
  rw [he, h.geom.oneshotpgs, Nat.mul_mod_left]

/-- **The user branch of `advance_write_pointer`** keeps the invariant. -/
theorem Handed.advanceUser (h : f.Handed vs front .user) :
    Ends f.advanceUser (fun f' => f'.Sound vs (f.nextFront .user front) ∧ Advanced f f')
      (fun e => e = .noFreeLine ∧ f.Exhausted front .user) := by
  have hpg : f.wp.pg = f.pageCounter (f.ssd.sp.dieIdx f.wp.ch f.wp.lun) := (h.ptr .user).pg
  have hroom : f.pageCounter (f.ssd.sp.dieIdx f.wp.ch f.wp.lun) < f.ssd.sp.pgsPerBlk :=
    hpg ▸ h.room
  have hself : f.nextCounter (f.ssd.sp.dieIdx f.wp.ch f.wp.lun) = f.wp.pg + 1 := by
    simp [nextCounter, ← hpg]
  have hchk : checkAddr (f.pageCounter (f.ssd.sp.dieIdx f.wp.ch f.wp.lun)) f.ssd.sp.pgsPerBlk
      = .ok () := nvmevAssert_eq_ok.2 hroom
  unfold ConvFtl.advanceUser
  simp only [hchk, ok_bind]
  show Ends (if f.nextCounter (f.ssd.sp.dieIdx f.wp.ch f.wp.lun) % f.ssd.sp.pgsPerOneshotpg ≠ 0
    then .ok (syncPg { f with pageCounter := f.nextCounter })
    else ConvFtl.leaveDie { f with pageCounter := f.nextCounter } .advanceWritePointer) _ _
  rw [hself]
  split_ifs with hos
  · exact ⟨h.moveUser (h.ptr .user).die (h.room_of_mod hos) fun _ => rfl, rfl, rfl, rfl, rfl, rfl,
      rfl⟩
  · exact h.leaveDie _ (not_not.1 hos)

/-- The cleaner stays on a die only while the die has a page left. -/
theorem room_of_stay {spp : Ssdparams} {degree random : ℕ} {counter conti : ℤ} {final room : Bool}
    (h : (cleanverTurn spp degree counter conti final room random).stay = true) :
    room = true := by
  unfold cleanverTurn at h
  dsimp only at h
  split_ifs at h <;> simp_all

/-- **`advance_write_pointer_cleanver`** keeps the invariant, whatever it decides. -/
theorem Handed.advanceCleanver (h : f.Handed vs front .user) (degree : ℕ) (counter conti : ℤ)
    (final : Bool) (random : ℕ) :
    Ends (f.advanceWritePointerCleanver degree counter conti final random)
      (fun r => r.1.Sound vs (f.nextFront .user front) ∧ Advanced f r.1)
      (fun e => e = .noFreeLine ∧ f.Exhausted front .user) := by
  have hpg : f.wp.pg = f.pageCounter (f.ssd.sp.dieIdx f.wp.ch f.wp.lun) := (h.ptr .user).pg
  have hroom : f.pageCounter (f.ssd.sp.dieIdx f.wp.ch f.wp.lun) < f.ssd.sp.pgsPerBlk :=
    hpg ▸ h.room
  have hself : f.nextCounter (f.ssd.sp.dieIdx f.wp.ch f.wp.lun) = f.wp.pg + 1 := by
    simp [nextCounter, ← hpg]
  have hchk : checkAddr (f.pageCounter (f.ssd.sp.dieIdx f.wp.ch f.wp.lun)) f.ssd.sp.pgsPerBlk
      = .ok () := nvmevAssert_eq_ok.2 hroom
  have hnext : Function.update f.pageCounter (f.ssd.sp.dieIdx f.wp.ch f.wp.lun)
      (f.pageCounter (f.ssd.sp.dieIdx f.wp.ch f.wp.lun) + 1) = f.nextCounter := rfl
  unfold ConvFtl.advanceWritePointerCleanver
  simp only [hchk, ok_bind, hnext, hself]
  split_ifs with hos hstay hsus
  · exact ⟨h.moveUser (h.ptr .user).die (h.room_of_mod hos) fun _ => rfl, rfl, rfl, rfl, rfl, rfl,
      rfl⟩
  · have hlt := of_decide_eq_true (room_of_stay hstay)
    exact ⟨h.moveUser (h.ptr .user).die (hself ▸ hlt) fun _ => rfl, rfl, rfl, rfl, rfl, rfl, rfl⟩
  · exact (h.leaveDie _ (not_not.1 hos)).bind fun f' hf' => hf'
  · exact (h.leaveDie _ (not_not.1 hos)).bind fun f' hf' => hf'

end ConvFtl

end NvmeVirt
