/-
# The order in which a line is filled

The collection fills its line in plain striping order: one-shot page by one-shot
page, over the channels, then over their dies, then row by row.  The user branch
of `advance_write_pointer` keeps a counter for each die and searches for the next
die with room.  On a freshly opened line both hand out the same pages and close
the line at the same page (`userOrder_eq_gcOrder`).
-/

import NvmeVirt.ConvFtl.Start

namespace NvmeVirt

open Outcome

/-- A place in a line: channel, die and page. -/
abbrev Spot := ℕ × ℕ × ℕ

/-- The place a write pointer stands on. -/
def WritePointer.spot (wp : WritePointer) : Spot := (wp.ch, wp.lun, wp.pg)

/-- The place of a page. -/
def Ppa.spot (p : Ppa) : Spot := (p.ch, p.lun, p.pg)

namespace Ssdparams

variable {spp : Ssdparams} {s t : Spot}

/-- The blocks are whole one-shot pages. -/
structure Striped (spp : Ssdparams) : Prop where
  nchs_pos : 0 < spp.nchs
  luns_pos : 0 < spp.lunsPerCh
  oneshot_pos : 0 < spp.pgsPerOneshotpg
  oneshot_dvd : spp.pgsPerOneshotpg ∣ spp.pgsPerBlk
  blk_pos : 0 < spp.pgsPerBlk

/-- The geometries of the driver are striped, unless their blocks are empty. -/
theorem Geometry.striped (g : spp.Geometry) (h : 0 < spp.pgsPerBlk) : spp.Striped :=
  ⟨g.nchs_pos, g.luns_pos, g.oneshotpg_pos, Dvd.intro_left _ g.oneshotpgs.symm, h⟩

/-- The places of a line. -/
def InLine (spp : Ssdparams) (s : Spot) : Prop :=
  s.1 < spp.nchs ∧ s.2.1 < spp.lunsPerCh ∧ s.2.2 < spp.pgsPerBlk

/-! ### The striping order -/

/-- The place after `s` in striping order: the next page of the one-shot page, else the same row on
the next channel, else on the next die of the channels, else the next row. -/
def stripeNext (spp : Ssdparams) (s : Spot) : Option Spot :=
  if (s.2.2 + 1) % spp.pgsPerOneshotpg ≠ 0 then some (s.1, s.2.1, s.2.2 + 1)
  else if s.1 + 1 < spp.nchs then some (s.1 + 1, s.2.1, s.2.2 + 1 - spp.pgsPerOneshotpg)
  else if s.2.1 + 1 < spp.lunsPerCh then some (0, s.2.1 + 1, s.2.2 + 1 - spp.pgsPerOneshotpg)
  else if s.2.2 + 1 < spp.pgsPerBlk then some (0, 0, s.2.2 + 1)
  else none

/-- The `k`-th place of a line in striping order. -/
def stripeAt (spp : Ssdparams) (k : ℕ) : Spot :=
  let oneshot := k / spp.pgsPerOneshotpg
  (oneshot % spp.nchs, oneshot / spp.nchs % spp.lunsPerCh,
    oneshot / spp.nchs / spp.lunsPerCh * spp.pgsPerOneshotpg + k % spp.pgsPerOneshotpg)

/-- The number of a place in striping order. -/
def stripeNo (spp : Ssdparams) (s : Spot) : ℕ :=
  ((s.2.2 / spp.pgsPerOneshotpg * spp.lunsPerCh + s.2.1) * spp.nchs + s.1) * spp.pgsPerOneshotpg
    + s.2.2 % spp.pgsPerOneshotpg

/-- The pages of a line. -/
def linePages (spp : Ssdparams) : ℕ := spp.lunsPerCh * spp.nchs * spp.pgsPerBlk

/-- The next place of a line, with the conditions of the branches of `advance_write_pointer`. -/
theorem stripeNext_cases (spp : Ssdparams) (ch lun pg : ℕ) :
    ((pg + 1) % spp.pgsPerOneshotpg ≠ 0 ∧ spp.stripeNext (ch, lun, pg) = some (ch, lun, pg + 1)) ∨
    ((pg + 1) % spp.pgsPerOneshotpg = 0 ∧ ch + 1 < spp.nchs ∧
      spp.stripeNext (ch, lun, pg) = some (ch + 1, lun, pg + 1 - spp.pgsPerOneshotpg)) ∨
    ((pg + 1) % spp.pgsPerOneshotpg = 0 ∧ ¬ ch + 1 < spp.nchs ∧ lun + 1 < spp.lunsPerCh ∧
      spp.stripeNext (ch, lun, pg) = some (0, lun + 1, pg + 1 - spp.pgsPerOneshotpg)) ∨
    ((pg + 1) % spp.pgsPerOneshotpg = 0 ∧ ¬ ch + 1 < spp.nchs ∧ ¬ lun + 1 < spp.lunsPerCh ∧
      pg + 1 < spp.pgsPerBlk ∧ spp.stripeNext (ch, lun, pg) = some (0, 0, pg + 1)) ∨
    ((pg + 1) % spp.pgsPerOneshotpg = 0 ∧ ¬ ch + 1 < spp.nchs ∧ ¬ lun + 1 < spp.lunsPerCh ∧
      ¬ pg + 1 < spp.pgsPerBlk ∧ spp.stripeNext (ch, lun, pg) = none) := by
  unfold stripeNext
  by_cases hin : (pg + 1) % spp.pgsPerOneshotpg = 0
  · by_cases hch : ch + 1 < spp.nchs
    · simp [hin, hch]
    by_cases hlun : lun + 1 < spp.lunsPerCh
    · simp [hin, hch, hlun]
    by_cases hpg : pg + 1 < spp.pgsPerBlk
    · simp [hin, hch, hlun, hpg]
    · simp [hin, hch, hlun, hpg]
  · simp [hin]

theorem Striped.stripeAt_stripeNo (h : spp.Striped) (hs : spp.InLine s) :
    spp.stripeAt (spp.stripeNo s) = s := by
  obtain ⟨ch, lun, pg⟩ := s
  obtain ⟨h1, h2, -⟩ := hs
  have hos := h.oneshot_pos
  have hmod := Nat.mod_lt pg hos
  dsimp only at h1 h2
  have hoff : spp.stripeNo (ch, lun, pg) % spp.pgsPerOneshotpg = pg % spp.pgsPerOneshotpg := by
    simp [stripeNo, Nat.add_mod]
  have hone : spp.stripeNo (ch, lun, pg) / spp.pgsPerOneshotpg =
      (pg / spp.pgsPerOneshotpg * spp.lunsPerCh + lun) * spp.nchs + ch := by
    unfold stripeNo
    rw [mul_comm, Nat.mul_add_div hos, Nat.div_eq_of_lt hmod, add_zero]
  have hdie : ((pg / spp.pgsPerOneshotpg * spp.lunsPerCh + lun) * spp.nchs + ch) / spp.nchs =
      pg / spp.pgsPerOneshotpg * spp.lunsPerCh + lun := by
    rw [mul_comm, Nat.mul_add_div h.nchs_pos, Nat.div_eq_of_lt h1, add_zero]
  have hrow : (pg / spp.pgsPerOneshotpg * spp.lunsPerCh + lun) / spp.lunsPerCh =
      pg / spp.pgsPerOneshotpg := by
    rw [mul_comm, Nat.mul_add_div h.luns_pos, Nat.div_eq_of_lt h2, add_zero]
  unfold stripeAt
  dsimp only
  rw [hoff, hone, hdie, hrow]
  refine Prod.ext ?_ (Prod.ext ?_ ?_)
  · simp [Nat.add_mod, Nat.mod_eq_of_lt h1]
  · simp [Nat.add_mod, Nat.mod_eq_of_lt h2]
  · exact Nat.div_add_mod' pg _

theorem Striped.stripeNo_lt (h : spp.Striped) (hs : spp.InLine s) :
    spp.stripeNo s < spp.linePages := by
  obtain ⟨ch, lun, pg⟩ := s
  obtain ⟨h1, h2, h3⟩ := hs
  obtain ⟨rows, hrows⟩ := h.oneshot_dvd
  have hrow : pg / spp.pgsPerOneshotpg < rows := by
    rw [Nat.div_lt_iff_lt_mul h.oneshot_pos, mul_comm, ← hrows]
    exact h3
  have hline : spp.linePages = rows * spp.lunsPerCh * spp.nchs * spp.pgsPerOneshotpg := by
    unfold linePages
    rw [hrows]
    ring
  rw [hline]
  exact digit_lt (digit_lt (digit_lt hrow h2) h1) (Nat.mod_lt _ h.oneshot_pos)

/-- The number of the first place of a one-shot page. -/
theorem stripeNo_start (hos : 0 < spp.pgsPerOneshotpg) (ch lun row : ℕ) :
    spp.stripeNo (ch, lun, row * spp.pgsPerOneshotpg) =
      ((row * spp.lunsPerCh + lun) * spp.nchs + ch) * spp.pgsPerOneshotpg := by
  simp [stripeNo, Nat.mul_div_cancel _ hos]

/-- The number after the last place of a one-shot page. -/
theorem stripeNo_end (hos : 0 < spp.pgsPerOneshotpg) (ch lun : ℕ) {pg : ℕ}
    (h : (pg + 1) % spp.pgsPerOneshotpg = 0) :
    spp.stripeNo (ch, lun, pg) + 1 =
      ((pg / spp.pgsPerOneshotpg * spp.lunsPerCh + lun) * spp.nchs + (ch + 1)) *
        spp.pgsPerOneshotpg := by
  have hend := oneshot_end hos h
  have hdm := Nat.div_add_mod' pg spp.pgsPerOneshotpg
  have hlast : pg % spp.pgsPerOneshotpg + 1 = spp.pgsPerOneshotpg := by omega
  unfold stripeNo
  rw [← add_assoc, Nat.succ_mul]
  dsimp only
  omega

/-- **The next place has the next number,** and the last one none after it. -/
theorem Striped.stripeNext_spec (h : spp.Striped) (hs : spp.InLine s) :
    (∀ t, spp.stripeNext s = some t → spp.InLine t ∧ spp.stripeNo t = spp.stripeNo s + 1) ∧
      (spp.stripeNext s = none → spp.stripeNo s + 1 = spp.linePages) := by
  obtain ⟨ch, lun, pg⟩ := s
  obtain ⟨h1, h2, h3⟩ := hs
  dsimp only at h1 h2 h3
  have hos := h.oneshot_pos
  have hrow : ∀ pg, (pg + 1) % spp.pgsPerOneshotpg = 0 → pg + 1 - spp.pgsPerOneshotpg =
      pg / spp.pgsPerOneshotpg * spp.pgsPerOneshotpg ∧
      pg + 1 = (pg / spp.pgsPerOneshotpg + 1) * spp.pgsPerOneshotpg := fun pg h0 => by
    have hend := oneshot_end hos h0
    rw [Nat.succ_mul]
    omega
  rcases spp.stripeNext_cases ch lun pg with
    ⟨hin, ho⟩ | ⟨hin, hc, ho⟩ | ⟨hin, hc, hl, ho⟩ | ⟨hin, hc, hl, hp, ho⟩ | ⟨hin, hc, hl, hp, ho⟩
  · -- the next page of the one-shot page
    rw [ho]
    refine ⟨?_, nofun⟩
    rintro t ⟨⟩
    obtain ⟨rows, hrows⟩ := h.oneshot_dvd
    have hlt : pg + 1 ≠ spp.pgsPerBlk := fun he => hin (by rw [he, hrows, Nat.mul_mod_right])
    refine ⟨⟨h1, h2, by dsimp only; omega⟩, ?_⟩
    have hm1 := Nat.div_add_mod pg spp.pgsPerOneshotpg
    have hm2 := Nat.div_add_mod (pg + 1) spp.pgsPerOneshotpg
    unfold stripeNo
    dsimp only
    rw [oneshot_inside hin] at hm2 ⊢
    omega
  · -- the next channel
    rw [ho, stripeNo_end hos ch lun hin]
    refine ⟨?_, nofun⟩
    rintro t ⟨⟩
    refine ⟨⟨hc, h2, by dsimp only; omega⟩, ?_⟩
    rw [(hrow pg hin).1, stripeNo_start hos]
  · -- the next die of the channels
    rw [ho, stripeNo_end hos ch lun hin, show ch + 1 = spp.nchs by omega]
    refine ⟨?_, nofun⟩
    rintro t ⟨⟩
    refine ⟨⟨h.nchs_pos, hl, by dsimp only; omega⟩, ?_⟩
    rw [(hrow pg hin).1, stripeNo_start hos]
    ring
  · -- the next row
    rw [ho, stripeNo_end hos ch lun hin, show ch + 1 = spp.nchs by omega]
    refine ⟨?_, nofun⟩
    rintro t ⟨⟩
    refine ⟨⟨h.nchs_pos, h.luns_pos, hp⟩, ?_⟩
    rw [(hrow pg hin).2, stripeNo_start hos, show spp.lunsPerCh = lun + 1 by omega]
    ring
  · -- the last place
    rw [ho, stripeNo_end hos ch lun hin, show ch + 1 = spp.nchs by omega]
    refine ⟨nofun, fun _ => ?_⟩
    unfold linePages
    rw [show spp.pgsPerBlk = pg + 1 by omega, (hrow pg hin).2,
      show spp.lunsPerCh = lun + 1 by omega]
    ring

end Ssdparams

/-! ### The line of a write pointer -/

/-- **The end of a line** in both branches of `advance_write_pointer`: the line is retired and a
free one taken. -/
def ConvFtl.closeLine (f : ConvFtl) (io : IoType) : Except Fault (ℕ × LineMgmt) := do
  let lm ← f.lm.retireLine .advanceWritePointer f.ssd.sp (f.getWp io).curline
  checkAddr (f.getWp io).blk f.ssd.sp.blksPerPl
  let (l, lm) ← lm.takeFreeLine
  checkAddr (lm.lines l).id f.ssd.sp.blksPerPl
  .ok (l, lm)

namespace ConvFtl

variable {f f' g : ConvFtl} {io : IoType}

/-- A write pointer stands on the first place of its line, which is its only plane's, and the page
counters of the user's line are zero. -/
structure Opened (f : ConvFtl) (io : IoType) : Prop where
  spot : (f.getWp io).spot = (0, 0, 0)
  pl : (f.getWp io).pl = 0
  counters : io = .user → ∀ d ∈ f.ssd.sp.dies, f.pageCounter (f.ssd.sp.dieIdx d.1 d.2) = 0

/-- What runs between two hand-outs of a write pointer leaves the pointer and, for the user's, the
page counters alone. -/
structure KeepsPointer (io : IoType) (f f' : ConvFtl) : Prop where
  sp : f'.ssd.sp = f.ssd.sp
  wp : f'.getWp io = f.getWp io
  counters : io = .user → f'.pageCounter = f.pageCounter

/-- `advance_write_pointer` stays on the line, and the next page can be handed out. -/
def Stays (f : ConvFtl) (io : IoType) : Prop :=
  ∃ f', f.advanceWritePointer io = .ok f' ∧ f'.lm = f.lm ∧
    (f'.getWp io).curline = (f.getWp io).curline ∧ ∃ p, f'.getNewPage io = .ok p

/-- `advance_write_pointer` closes the line: it ends as the end of the line does, on a freshly
opened one. -/
def Closes (f : ConvFtl) (io : IoType) : Prop :=
  ∃ next : ℕ → LineMgmt → ConvFtl,
    f.advanceWritePointer io = (f.closeLine io >>= fun r => .ok (next r.1 r.2)) ∧
    ∀ l lm, ((next l lm).getWp io).curline = l ∧ (next l lm).lm = lm ∧ (next l lm).Opened io

/-- The places handed out in a line that was opened in the state `f`, up to the state in which
`advance_write_pointer` leaves the last of them. -/
inductive LineRun (io : IoType) (f : ConvFtl) : List Spot → ConvFtl → Prop
  | first {g : ConvFtl} {p : Ppa} (hp : f.getNewPage io = .ok p) (hg : KeepsPointer io f g) :
    LineRun io f [p.spot] g
  | next {spots : List Spot} {g g' h' h : ConvFtl} {p : Ppa} (hrun : LineRun io f spots g)
    (hadv : g.advanceWritePointer io = .ok g') (hlm : g'.lm = g.lm)
    (hh' : KeepsPointer io g' h') (hp : h'.getNewPage io = .ok p) (hh : KeepsPointer io h' h) :
    LineRun io f (spots ++ [p.spot]) h

/-- The bookkeeping of a write pointer on its line follows the striping order. -/
structure OnStripe (f : ConvFtl) (io : IoType) : Prop where
  inLine : f.ssd.sp.InLine (f.getWp io).spot
  pl : (f.getWp io).pl = 0
  counters : io = .user → ∀ d ∈ f.ssd.sp.dies,
    f.pageCounter (f.ssd.sp.dieIdx d.1 d.2) = gcFront f.ssd.sp f.wp d

theorem OnStripe.die (h : f.OnStripe io) :
    ((f.getWp io).ch, (f.getWp io).lun) ∈ f.ssd.sp.dies :=
  Ssdparams.mem_dies.2 ⟨h.inLine.1, h.inLine.2.1⟩

theorem Opened.onStripe (h : f.Opened io) (hs : f.ssd.sp.Striped) : f.OnStripe io := by
  refine ⟨?_, h.pl, fun hu d hd => ?_⟩
  · rw [h.spot]
    exact ⟨hs.nchs_pos, hs.luns_pos, hs.blk_pos⟩
  · subst hu
    obtain ⟨hch, hr⟩ := Prod.mk.inj h.spot
    obtain ⟨hlun, hpg⟩ := Prod.mk.inj hr
    rw [h.counters rfl d hd]
    have hpg' : f.wp.pg = 0 := hpg
    exact ((gcFront_start f.wp hch hlun (by simp [hpg'])).trans hpg').symm

theorem OnStripe.keep (h : f.OnStripe io) (hk : KeepsPointer io f f') : f'.OnStripe io := by
  obtain ⟨h1, h2, h3⟩ := h
  refine ⟨by rwa [hk.sp, hk.wp], by rwa [hk.wp], fun hu => ?_⟩
  have hw := hk.wp
  subst hu
  have hw' : f'.wp = f.wp := hw
  rw [hk.sp, hk.counters rfl, hw']
  exact h3 rfl

/-- `get_new_page` hands out the place of the pointer, cut to the fields of `struct ppa`. -/
theorem OnStripe.getNewPage (h : f.OnStripe io) :
    f.getNewPage io = .ok (Ppa.ofFields (f.getWp io).ch (f.getWp io).lun 0 (f.getWp io).blk
      (f.getWp io).pg) := by
  unfold ConvFtl.getNewPage
  dsimp only
  rw [h.pl]
  exact nvmevAssert_bind rfl _

/-- Where a step of a pointer leads: to the next place of the line or to another line. -/
def Advances (f : ConvFtl) (io : IoType) : Option Spot → Prop
  | some s => ∃ f', f.advanceWritePointer io = .ok f' ∧ f'.lm = f.lm ∧
      (f'.getWp io).curline = (f.getWp io).curline ∧ f'.ssd.sp = f.ssd.sp ∧
      (f'.getWp io).spot = s ∧ f'.OnStripe io
  | none => f.Closes io

/-! ### The `GC_IO` branch -/

/-- **The `GC_IO` branch follows the striping order.** -/
theorem OnStripe.advanceGc (hs : f.ssd.sp.Striped) (h : f.OnStripe .gc) :
    f.Advances .gc (f.ssd.sp.stripeNext f.gcWp.spot) := by
  obtain ⟨hch, hlun, hpg⟩ : f.gcWp.ch < f.ssd.sp.nchs ∧ f.gcWp.lun < f.ssd.sp.lunsPerCh ∧
    f.gcWp.pg < f.ssd.sp.pgsPerBlk := h.inLine
  have hpl : f.gcWp.pl = 0 := h.pl
  have hc1 : checkAddr f.gcWp.pg f.ssd.sp.pgsPerBlk = .ok () := nvmevAssert_eq_ok.2 hpg
  have hc2 : checkAddr f.gcWp.ch f.ssd.sp.nchs = .ok () := nvmevAssert_eq_ok.2 hch
  have hc3 : checkAddr f.gcWp.lun f.ssd.sp.lunsPerCh = .ok () := nvmevAssert_eq_ok.2 hlun
  have hstep : ∀ ch lun pg, f.ssd.sp.stripeNext f.gcWp.spot = some (ch, lun, pg) →
      f.advanceGc = .ok { f with gcWp := { f.gcWp with ch := ch, lun := lun, pg := pg } } →
      f.Advances .gc (f.ssd.sp.stripeNext f.gcWp.spot) := by
    intro ch lun pg hsome hadv
    rw [hsome]
    exact ⟨_, hadv, rfl, rfl, rfl, rfl, ((hs.stripeNext_spec h.inLine).1 _ hsome).1, hpl,
      fun h => by cases h⟩
  rcases f.ssd.sp.stripeNext_cases f.gcWp.ch f.gcWp.lun f.gcWp.pg with
    ⟨hin, ho⟩ | ⟨hin, hc, ho⟩ | ⟨hin, hc, hl, ho⟩ | ⟨hin, hc, hl, hp, ho⟩ | ⟨hin, hc, hl, hp, ho⟩
  · -- inside a one-shot page
    refine hstep _ _ _ ho ?_
    unfold ConvFtl.advanceGc
    simp only [hc1, ok_bind]
    rw [if_pos hin]
    rfl
  · -- the next channel
    refine hstep _ _ _ ho ?_
    unfold ConvFtl.advanceGc
    simp only [hc1, hc2, ok_bind]
    rw [if_neg (not_not.2 hin), if_pos (by omega)]
    rfl
  · -- the next die of the channels
    refine hstep _ _ _ ho ?_
    unfold ConvFtl.advanceGc
    simp only [hc1, hc2, hc3, ok_bind]
    rw [if_neg (not_not.2 hin), if_neg (by omega), if_pos (by omega)]
    rfl
  · -- the next row
    have hend := oneshot_end hs.oneshot_pos hin
    have hback : f.gcWp.pg + 1 - f.ssd.sp.pgsPerOneshotpg + f.ssd.sp.pgsPerOneshotpg
      = f.gcWp.pg + 1 := by omega
    refine hstep _ _ _ ho ?_
    unfold ConvFtl.advanceGc
    simp only [hc1, hc2, hc3, ok_bind, hback]
    rw [if_neg (not_not.2 hin), if_neg (by omega), if_neg (by omega), if_pos (by omega)]
    rfl
  · -- the line is used up
    have hend := oneshot_end hs.oneshot_pos hin
    have hback : f.gcWp.pg + 1 - f.ssd.sp.pgsPerOneshotpg + f.ssd.sp.pgsPerOneshotpg
      = f.gcWp.pg + 1 := by omega
    rw [show f.ssd.sp.stripeNext f.gcWp.spot = none from ho]
    refine ⟨fun l lm => { f with lm := lm, gcWp := { f.gcWp with
      curline := l, blk := (lm.lines l).id, ch := 0, lun := 0, pg := 0 } }, ?_,
      fun l lm => ⟨rfl, rfl, rfl, hpl, fun h => by cases h⟩⟩
    show f.advanceGc = _
    unfold ConvFtl.advanceGc closeLine
    simp only [hc1, hc2, hc3, ok_bind, hback, bind_assoc, nvmevAssert_bind hpl]
    rw [if_neg (not_not.2 hin), if_neg (by omega), if_neg (by omega), if_neg (by omega)]
    rfl

/-! ### The `USER_IO` branch -/

/-- The walk stops at the next die if that has a page left. -/
theorem walkDies_next {spp : Ssdparams} {cnt : ℕ → ℕ} {d : ℕ × ℕ} (hd : d ∈ spp.dies)
    (h : cnt (spp.dieIdx (spp.nextDie d.1 d.2).1 (spp.nextDie d.1 d.2).2) < spp.pgsPerBlk) :
    walkDies spp cnt d.1 d.2 (spp.nchs * spp.lunsPerCh) d = .ok (some (spp.nextDie d.1 d.2)) := by
  obtain ⟨h1, h2⟩ := Ssdparams.mem_dies.1 hd
  have hc1 : checkAddr d.1 spp.nchs = .ok () := nvmevAssert_eq_ok.2 h1
  have hc2 : checkAddr d.2 spp.lunsPerCh = .ok () := nvmevAssert_eq_ok.2 h2
  obtain ⟨n, hn⟩ : ∃ n, spp.nchs * spp.lunsPerCh = n + 1 :=
    Nat.exists_eq_succ_of_ne_zero (Nat.mul_pos (Nat.zero_lt_of_lt h1) (Nat.zero_lt_of_lt h2)).ne'
  rw [hn]
  unfold walkDies
  simp only [hc1, hc2, ok_bind, ite_self]
  rw [if_pos h]

/-- The counters once the page under the pointer is handed out. -/
theorem OnStripe.nextCounter_eq (h : f.OnStripe .user) {d : ℕ × ℕ} (hd : d ∈ f.ssd.sp.dies) :
    f.nextCounter (f.ssd.sp.dieIdx d.1 d.2) = gcNext f.ssd.sp f.wp d := by
  have hdie : (f.wp.ch, f.wp.lun) ∈ f.ssd.sp.dies := h.die
  unfold nextCounter gcNext
  by_cases hdd : d = (f.wp.ch, f.wp.lun)
  · have hself := h.counters rfl d hd
    subst hdd
    rw [if_pos rfl, Function.update_self, hself]
    simp [gcFront]
  · rw [if_neg hdd, Function.update_of_ne fun he => hdd (Ssdparams.dieIdx_inj hd hdie he)]
    exact h.counters rfl d hd

/-- The user pointer moves to the next place if its counters continue there. -/
theorem OnStripe.moveUser (hs : f.ssd.sp.Striped) (h : f.OnStripe .user) {ch lun pg : ℕ}
    (ho : f.ssd.sp.stripeNext f.wp.spot = some (ch, lun, pg))
    (hcnt : ∀ d ∈ f.ssd.sp.dies, gcFront f.ssd.sp { f.wp with pg := pg, ch := ch, lun := lun } d =
      gcNext f.ssd.sp f.wp d)
    (hadv : f.nextCounter (f.ssd.sp.dieIdx ch lun) = pg → (ch, lun) ∈ f.ssd.sp.dies →
      pg < f.ssd.sp.pgsPerBlk → f.advanceUser = .ok (syncPg { f with
        pageCounter := f.nextCounter, wp := { f.wp with ch := ch, lun := lun } })) :
    f.Advances .user (f.ssd.sp.stripeNext f.wp.spot) := by
  have hin := ((hs.stripeNext_spec h.inLine).1 _ ho).1
  have hd : (ch, lun) ∈ f.ssd.sp.dies := Ssdparams.mem_dies.2 ⟨hin.1, hin.2.1⟩
  have hpg : f.nextCounter (f.ssd.sp.dieIdx ch lun) = pg := by
    rw [h.nextCounter_eq hd, ← hcnt _ hd]
    simp [gcFront]
  rw [ho]
  refine ⟨_, hadv hpg hd hin.2.2, rfl, rfl, rfl, ?_, ?_, h.pl, fun _ d hdd => ?_⟩
  · simp only [getWp, syncPg, WritePointer.spot, hpg]
  · simpa only [getWp, syncPg, WritePointer.spot, hpg] using hin
  · show f.nextCounter (f.ssd.sp.dieIdx d.1 d.2) = _
    rw [h.nextCounter_eq hdd, ← hcnt d hdd]
    simp only [syncPg, hpg]

/-- **The `USER_IO` branch follows the striping order.** -/
theorem OnStripe.advanceUser (hs : f.ssd.sp.Striped) (h : f.OnStripe .user) :
    f.Advances .user (f.ssd.sp.stripeNext f.wp.spot) := by
  obtain ⟨hch, hlun, hpg⟩ : f.wp.ch < f.ssd.sp.nchs ∧ f.wp.lun < f.ssd.sp.lunsPerCh ∧
    f.wp.pg < f.ssd.sp.pgsPerBlk := h.inLine
  have hdie : (f.wp.ch, f.wp.lun) ∈ f.ssd.sp.dies := h.die
  have hos := hs.oneshot_pos
  have hcur : f.pageCounter (f.ssd.sp.dieIdx f.wp.ch f.wp.lun) = f.wp.pg := by
    rw [h.counters rfl _ hdie]
    simp [gcFront]
  have hself : f.nextCounter (f.ssd.sp.dieIdx f.wp.ch f.wp.lun) = f.wp.pg + 1 := by
    simp [nextCounter, hcur]
  have hadv : f.advanceUser = if (f.wp.pg + 1) % f.ssd.sp.pgsPerOneshotpg ≠ 0
      then .ok (syncPg { f with pageCounter := f.nextCounter })
      else ConvFtl.leaveDie { f with pageCounter := f.nextCounter } .advanceWritePointer := by
    have hchk : checkAddr (f.pageCounter (f.ssd.sp.dieIdx f.wp.ch f.wp.lun)) f.ssd.sp.pgsPerBlk
        = .ok () := nvmevAssert_eq_ok.2 (hcur ▸ hpg)
    rw [← hself]
    unfold ConvFtl.advanceUser
    simp only [hchk, ok_bind]
    rfl
  -- at the end of a one-shot page the next die has room, unless the line is used up
  have hwalk : (f.wp.pg + 1) % f.ssd.sp.pgsPerOneshotpg = 0 → ∀ ch lun pg,
      f.ssd.sp.nextDie f.wp.ch f.wp.lun = (ch, lun) →
      f.nextCounter (f.ssd.sp.dieIdx ch lun) = pg → pg < f.ssd.sp.pgsPerBlk →
      f.advanceUser = .ok (syncPg { f with
        pageCounter := f.nextCounter, wp := { f.wp with ch := ch, lun := lun } }) := by
    intro hin ch lun pg hn hpg' hroom
    have hw := walkDies_next hdie
      (show f.nextCounter _ < _ by rw [hn]; dsimp only; omega)
    dsimp only at hw
    rw [hn] at hw
    rw [hadv, if_neg (not_not.2 hin)]
    unfold ConvFtl.leaveDie
    dsimp only
    rw [hw]
    rfl
  rcases f.ssd.sp.stripeNext_cases f.wp.ch f.wp.lun f.wp.pg with
    ⟨hin, ho⟩ | ⟨hin, hc, ho⟩ | ⟨hin, hc, hl, ho⟩ | ⟨hin, hc, hl, hp, ho⟩ | ⟨hin, hc, hl, hp, ho⟩
  · -- inside a one-shot page
    refine h.moveUser hs ho (fun d _ => gcFront_page hin) fun _ _ _ => ?_
    rw [hadv, if_pos hin]
  · -- the next channel
    refine h.moveUser hs ho (fun d _ => gcFront_ch hos hin) fun hpg' hd hroom =>
      hwalk hin _ _ _ ?_ hpg' hroom
    unfold Ssdparams.nextDie
    rw [if_neg (by omega)]
  · -- the next die of the channels
    refine h.moveUser hs ho (fun d hd => gcFront_lun hos hin hd (by omega)) fun hpg' hd hroom =>
      hwalk hin _ _ _ ?_ hpg' hroom
    unfold Ssdparams.nextDie
    rw [if_pos (by omega), if_neg (by omega)]
  · -- the next row
    refine h.moveUser hs ho (fun d hd => ?_) fun hpg' hd hroom => hwalk hin _ _ _ ?_ hpg' hroom
    · rw [gcNext_row hos hin hd (by omega) (by omega)]
      refine gcFront_start { f.wp with ch := 0, lun := 0, pg := f.wp.pg + 1 } rfl rfl ?_
      exact Nat.div_mul_cancel (Nat.dvd_of_mod_eq_zero hin)
    · unfold Ssdparams.nextDie
      rw [if_pos (by omega), if_pos (by omega)]
  · -- the line is used up
    have hfull : ∀ d ∈ f.ssd.sp.dies,
        f.nextCounter (f.ssd.sp.dieIdx d.1 d.2) = f.ssd.sp.pgsPerBlk := fun d hd => by
      rw [h.nextCounter_eq hd, gcNext_row hos hin hd (by omega) (by omega)]
      omega
    obtain ⟨r, hw, hsome, -⟩ := walkDies_spec f.nextCounter hdie
    obtain rfl : r = none := Option.eq_none_iff_forall_not_mem.2 fun d hd => by
      obtain ⟨hdd, hlt⟩ := hsome d hd
      rw [hfull d hdd] at hlt
      exact lt_irrefl _ hlt
    obtain ⟨cnt, hcnt, hzero⟩ := resetPageCounter_spec .advanceWritePointer hfull
    have hd0 : ((0, 0) : ℕ × ℕ) ∈ f.ssd.sp.dies := Ssdparams.mem_dies.2 ⟨hs.nchs_pos, hs.luns_pos⟩
    have hcnt0 : cnt 0 = 0 := by
      have := hzero _ hd0
      rwa [show f.ssd.sp.dieIdx 0 0 = 0 by simp [Ssdparams.dieIdx]] at this
    rw [show f.ssd.sp.stripeNext f.wp.spot = none from ho]
    refine ⟨fun l lm => syncPg { f with pageCounter := cnt, lm := lm, wp := { f.wp with
      curline := l, blk := (lm.lines l).id, ch := 0, lun := 0, pl := 0 } }, ?_,
      fun l lm => ⟨rfl, rfl, ?_, rfl, fun _ => hzero⟩⟩
    · show f.advanceUser = _
      rw [hadv, if_neg (not_not.2 hin)]
      unfold ConvFtl.leaveDie closeLine
      dsimp only at hw ⊢
      rw [hw]
      simp only [ok_bind, hcnt, bind_assoc, nvmevAssert_bind hcnt0]
      rfl
    · show ((0, 0, cnt (f.ssd.sp.dieIdx 0 0)) : Spot) = (0, 0, 0)
      rw [hzero _ hd0]

/-- **A closed line is counted.** -/
theorem closedCnt_closeLine {l : ℕ} {lm : LineMgmt} (h : f.closeLine io = .ok (l, lm)) :
    lm.fullLineCnt + lm.victimLineCnt = f.lm.fullLineCnt + f.lm.victimLineCnt + 1 := by
  unfold closeLine at h
  simp only [bind_eq_ok] at h
  obtain ⟨lm₁, hretire, -, -, ⟨l', lm₂⟩, htake, -, -, h⟩ := h
  cases h
  have hcnt : lm₁.fullLineCnt + lm₁.victimLineCnt =
      f.lm.fullLineCnt + f.lm.victimLineCnt + 1 := by
    unfold LineMgmt.retireLine at hretire
    dsimp only at hretire
    split_ifs at hretire
    · obtain ⟨-, -, hretire⟩ := bind_eq_ok.1 hretire
      cases hretire
      dsimp only
      omega
    · simp only [bind_eq_ok] at hretire
      obtain ⟨-, -, -, -, -, -, hretire⟩ := hretire
      cases hretire
      dsimp only
      omega
  rw [← hcnt]
  unfold LineMgmt.takeFreeLine at htake
  cases hnext : lm₁.getNextFreeLine with
  | none =>
    rw [hnext] at htake
    cases htake
  | some r =>
    rw [hnext] at htake
    cases htake
    unfold LineMgmt.getNextFreeLine at hnext
    split at hnext
    · cases hnext
    · cases hnext
      rfl

/-- A line is not closed where the line lists stay as they are. -/
theorem Closes.lm_ne (h : f.Closes io) (hadv : f.advanceWritePointer io = .ok f') :
    f'.lm ≠ f.lm := by
  obtain ⟨next, hout, hnext⟩ := h
  rw [hout] at hadv
  obtain ⟨⟨l, lm⟩, hclose, hadv⟩ := bind_eq_ok.1 hadv
  cases hadv
  intro he
  have := closedCnt_closeLine hclose
  rw [(hnext l lm).2.1] at he
  rw [he] at this
  omega

/-! ### A line from its opening -/

/-- **Each branch of `advance_write_pointer` follows the striping order.** -/
theorem OnStripe.advance (hs : f.ssd.sp.Striped) (h : f.OnStripe io) :
    f.Advances io (f.ssd.sp.stripeNext (f.getWp io).spot) := by
  cases io with
  | user => exact h.advanceUser hs
  | gc => exact h.advanceGc hs

/-- A place as `struct ppa` holds it. -/
def cutSpot (s : Spot) : Spot := (s.1 % 2 ^ 8, s.2.1 % 2 ^ 8, s.2.2 % 2 ^ 16)

/-- What a run from the opening of a line leads to. -/
structure Filled (spp : Ssdparams) (io : IoType) (spots : List Spot) (g : ConvFtl) : Prop where
  sp : g.ssd.sp = spp
  on : g.OnStripe io
  no : spp.stripeNo (g.getWp io).spot + 1 = spots.length
  spots : spots = (List.range spots.length).map fun k => cutSpot (spp.stripeAt k)

/-- The next page handed out on the line. -/
theorem Filled.snoc {spp : Ssdparams} {spots : List Spot} (hs : spp.Striped) {p : Ppa}
    (hsp : g.ssd.sp = spp) (hon : g.OnStripe io)
    (hno : spp.stripeNo (g.getWp io).spot = spots.length)
    (hspots : spots = (List.range spots.length).map fun k => cutSpot (spp.stripeAt k))
    (hp : g.getNewPage io = .ok p) (hg : KeepsPointer io g f) :
    Filled spp io (spots ++ [p.spot]) f := by
  have hat : spp.stripeAt spots.length = (g.getWp io).spot := by
    rw [← hno]
    exact hs.stripeAt_stripeNo (hsp ▸ hon.inLine)
  rw [hon.getNewPage] at hp
  obtain rfl := Except.ok.inj hp
  refine ⟨hg.sp.trans hsp, hon.keep hg, ?_, ?_⟩
  · rw [hg.wp, hno, List.length_append, List.length_singleton]
  · rw [List.length_append, List.length_singleton, List.range_succ, List.map_append, ← hspots,
      List.map_singleton, hat]
    rfl

/-- **A run from the opening of a line hands out its places in striping order.** -/
theorem LineRun.filled {spots : List Spot} (hs : f.ssd.sp.Striped) (ho : f.Opened io)
    (h : LineRun io f spots g) : Filled f.ssd.sp io spots g := by
  induction h with
  | first hp hg =>
    have hno : f.ssd.sp.stripeNo (f.getWp io).spot = ([] : List Spot).length := by
      rw [ho.spot]
      simp [Ssdparams.stripeNo]
    exact Filled.snoc hs rfl (ho.onStripe hs) hno rfl hp hg
  | @next spots g g' h' h p hrun hadv hlm hh' hp hh ih =>
    have hstep := ih.on.advance (ih.sp ▸ hs)
    obtain ⟨o, hnext⟩ : ∃ o, g.ssd.sp.stripeNext (g.getWp io).spot = o := ⟨_, rfl⟩
    rw [hnext] at hstep
    cases o with
    | none =>
      -- the end of the line changes the line lists
      exact absurd hlm (Closes.lm_ne hstep hadv)
    | some s =>
      obtain ⟨f', hadv', -, -, hsp, hspot, hon⟩ := hstep
      obtain rfl := Except.ok.inj (hadv'.symm.trans hadv)
      have hno := ((ih.sp ▸ hs).stripeNext_spec ih.on.inLine).1 s hnext
      refine Filled.snoc hs (hh'.sp.trans (hsp.trans ih.sp)) (hon.keep hh') ?_ ih.spots hp hh
      rw [hh'.wp, hspot, ← ih.no, ← ih.sp]
      exact hno.2

/-- **The line is closed exactly at its last page.** -/
theorem Filled.stays_or_closes {spp : Ssdparams} {spots : List Spot} (hs : spp.Striped)
    (h : Filled spp io spots g) :
    g.Stays io ∧ spots.length < spp.linePages ∨ g.Closes io ∧ spots.length = spp.linePages := by
  have hs' : g.ssd.sp.Striped := h.sp ▸ hs
  have hspec := hs'.stripeNext_spec h.on.inLine
  have hstep := h.on.advance hs'
  have hno := h.no
  rw [← h.sp] at hno ⊢
  cases hnext : g.ssd.sp.stripeNext (g.getWp io).spot with
  | none =>
    rw [hnext] at hstep
    exact .inr ⟨hstep, hno.symm.trans (hspec.2 hnext)⟩
  | some s =>
    rw [hnext] at hstep
    obtain ⟨f', hadv, hlm, hcur, hsp, hspot, hon⟩ := hstep
    obtain ⟨hin, hnos⟩ := hspec.1 s hnext
    refine .inl ⟨⟨f', hadv, hlm, hcur, _, hon.getNewPage⟩, ?_⟩
    rw [← hno, ← hnos]
    exact hs'.stripeNo_lt hin

/-- **The whole line can be run through.** -/
theorem Opened.exists_lineRun (hs : f.ssd.sp.Striped) (ho : f.Opened io) (n : ℕ)
    (hn : n < f.ssd.sp.linePages) : ∃ spots g, LineRun io f spots g ∧ spots.length = n + 1 := by
  induction n with
  | zero => exact ⟨_, f, .first (ho.onStripe hs).getNewPage ⟨rfl, rfl, fun _ => rfl⟩, rfl⟩
  | succ n ih =>
    obtain ⟨spots, g, hrun, hlen⟩ := ih (by omega)
    rcases (hrun.filled hs ho).stays_or_closes hs with ⟨⟨f', hadv, hlm, -, p, hp⟩, -⟩ | ⟨-, hl⟩
    · refine ⟨_, f', .next hrun hadv hlm ⟨rfl, rfl, fun _ => rfl⟩ hp ⟨rfl, rfl, fun _ => rfl⟩, ?_⟩
      rw [List.length_append, hlen, List.length_singleton]
    · omega

/-! ### What the driver runs between two hand-outs -/

/-- The geometry, both pointers and the page counters are the same. -/
structure SamePointers (f f' : ConvFtl) : Prop where
  sp : f'.ssd.sp = f.ssd.sp
  wp : f'.wp = f.wp
  gcWp : f'.gcWp = f.gcWp
  counters : f'.pageCounter = f.pageCounter

theorem SamePointers.trans {f'' : ConvFtl} (h : SamePointers f f') (h' : SamePointers f' f'') :
    SamePointers f f'' :=
  ⟨h'.sp.trans h.sp, h'.wp.trans h.wp, h'.gcWp.trans h.gcWp, h'.counters.trans h.counters⟩

theorem SamePointers.keeps (h : SamePointers f f') (io : IoType) : KeepsPointer io f f' := by
  refine ⟨h.sp, ?_, fun _ => h.counters⟩
  cases io with
  | user => exact h.wp
  | gc => exact h.gcWp

theorem KeepsPointer.refl (io : IoType) (f : ConvFtl) : KeepsPointer io f f :=
  ⟨rfl, rfl, fun _ => rfl⟩

theorem KeepsPointer.trans {f'' : ConvFtl} (h : KeepsPointer io f f')
    (h' : KeepsPointer io f' f'') : KeepsPointer io f f'' :=
  ⟨h'.sp.trans h.sp, h'.wp.trans h.wp, fun hu => (h'.counters hu).trans (h.counters hu)⟩

theorem same_setMaptblEnt (lpn : ℕ) (p : Ppa) :
    Ends (f.setMaptblEnt lpn p) (SamePointers f) fun _ => True :=
  (Ends.trivial _).bind fun _ _ => ⟨rfl, rfl, rfl, rfl⟩

theorem same_setRmapEnt (lpn : ℕ) (p : Ppa) :
    Ends (f.setRmapEnt lpn p) (SamePointers f) fun _ => True :=
  (Ends.trivial _).bind fun _ _ => ⟨rfl, rfl, rfl, rfl⟩

theorem same_markPageValid (p : Ppa) :
    Ends (f.markPageValid p) (SamePointers f) fun _ => True :=
  (Ends.trivial _).bind fun _ _ => (Ends.trivial _).bind fun _ _ => (Ends.trivial _).bind fun _ _ =>
    (Ends.trivial _).bind fun _ _ => ⟨rfl, rfl, rfl, rfl⟩

theorem same_markPageInvalid (p : Ppa) :
    Ends (f.markPageInvalid p) (SamePointers f) fun _ => True :=
  (Ends.trivial _).bind fun _ _ => (Ends.trivial _).bind fun _ _ => (Ends.trivial _).bind fun _ _ =>
    (Ends.trivial _).bind fun _ _ => (Ends.trivial _).bind fun _ _ => ⟨rfl, rfl, rfl, rfl⟩

theorem same_markBlockFree (p : Ppa) :
    Ends (f.markBlockFree p) (SamePointers f) fun _ => True :=
  (Ends.trivial _).bind fun _ _ => (Ends.trivial _).bind fun _ _ => (Ends.trivial _).bind fun _ _ =>
    ⟨rfl, rfl, rfl, rfl⟩

theorem same_invalidateOld (p : Ppa) :
    Ends (f.invalidateOld p) (SamePointers f) fun _ => True := by
  unfold invalidateOld
  split_ifs
  · exact (same_markPageInvalid p).bind fun g hg =>
      (same_setRmapEnt _ _).mono (fun _ h => hg.trans h) fun _ h => h
  · exact ⟨rfl, rfl, rfl, rfl⟩

/-- The new place of a page is entered in the tables and marked valid. -/
theorem same_enter (lpn : ℕ) (p : Ppa) (e : FlashEv) :
    Ends (do
      let f ← (f.note e).setMaptblEnt lpn p
      let f ← f.setRmapEnt lpn p
      f.markPageValid p) (SamePointers f) fun _ => True := by
  refine (same_setMaptblEnt lpn p).bind fun f₁ h₁ => (same_setRmapEnt lpn p).bind fun f₂ h₂ =>
    (same_markPageValid p).mono (fun f₃ h₃ => ?_) fun _ h => h
  have h₀ : SamePointers f (f.note e) := ⟨rfl, rfl, rfl, rfl⟩
  exact ((h₀.trans h₁).trans h₂).trans h₃

/-- **A page write hands out the page of the user pointer** and leaves both pointers alone until it
advances the user's. -/
theorem same_remapPage (lpn : ℕ) :
    Ends (f.remapPage lpn) (fun r => SamePointers f r.1 ∧ f.getNewPage .user = .ok r.2)
      fun _ => True := by
  unfold remapPage
  refine (Ends.trivial _).bind fun old _ => (same_invalidateOld old).bind fun g hg => ?_
  have hnew : g.getNewPage .user = f.getNewPage .user := by
    unfold ConvFtl.getNewPage
    rw [show g.getWp .user = f.getWp .user from hg.wp]
  rw [hnew]
  refine (Ends.with_eq (Ends.trivial _)).bind fun p hp => ?_
  have henter := same_enter (f := g) lpn p (.handOut .user lpn p)
  have hassoc : ∀ k : ConvFtl → Except Fault (ConvFtl × Ppa),
      (do
        let f ← (g.note (.handOut .user lpn p)).setMaptblEnt lpn p
        let f ← f.setRmapEnt lpn p
        let f ← f.markPageValid p
        k f) = (do
        let f ← (g.note (.handOut .user lpn p)).setMaptblEnt lpn p
        let f ← f.setRmapEnt lpn p
        f.markPageValid p) >>= k := fun k => by simp only [bind_assoc]
  rw [hassoc]
  exact henter.bind fun f₁ h₁ => ⟨hg.trans h₁, hp.2⟩

/-- The `GC_IO` branch moves only the collection's pointer. -/
theorem keeps_advanceGc : Ends f.advanceGc (KeepsPointer .user f) fun _ => True := by
  unfold ConvFtl.advanceGc
  refine (Ends.trivial _).bind fun _ _ => ?_
  by_cases hin : (f.gcWp.pg + 1) % f.ssd.sp.pgsPerOneshotpg ≠ 0
  · rw [if_pos hin]
    exact ⟨rfl, rfl, fun _ => rfl⟩
  rw [if_neg hin]
  refine (Ends.trivial _).bind fun _ _ => ?_
  by_cases hch : f.gcWp.ch + 1 ≠ f.ssd.sp.nchs
  · rw [if_pos hch]
    exact ⟨rfl, rfl, fun _ => rfl⟩
  rw [if_neg hch]
  refine (Ends.trivial _).bind fun _ _ => ?_
  by_cases hlun : f.gcWp.lun + 1 ≠ f.ssd.sp.lunsPerCh
  · rw [if_pos hlun]
    exact ⟨rfl, rfl, fun _ => rfl⟩
  rw [if_neg hlun]
  dsimp only
  split_ifs
  · exact ⟨rfl, rfl, fun _ => rfl⟩
  · exact (Ends.trivial _).bind fun _ _ => (Ends.trivial _).bind fun _ _ =>
      (Ends.trivial _).bind fun _ _ => (Ends.trivial _).bind fun _ _ =>
      (Ends.trivial _).bind fun _ _ => ⟨rfl, rfl, fun _ => rfl⟩

theorem keeps_gcWritePage (old : Ppa) :
    Ends (f.gcWritePage old) (KeepsPointer .user f) fun _ => True := by
  unfold gcWritePage
  refine (Ends.trivial _).bind fun lpn _ => (Ends.trivial _).bind fun _ _ =>
    (Ends.trivial _).bind fun p _ => ?_
  have henter := same_enter (f := f) lpn p (.handOut .gc lpn p)
  have := henter.bind fun g hg => keeps_advanceGc.mono
    (fun _ h => (hg.keeps .user).trans h) fun _ h => h
  simp only [bind_assoc] at this
  exact this

theorem keeps_cleanOneFlashpg (p : Ppa) :
    Ends (f.cleanOneFlashpg p) (KeepsPointer .user f) fun _ => True := by
  unfold cleanOneFlashpg
  refine (Ends.trivial _).bind fun cnt _ => ?_
  split_ifs
  · exact .refl .user f
  · refine Ends.forRange (fun _ => KeepsPointer .user f) (.refl .user f) fun i _ g hg => ?_
    refine (Ends.trivial _).bind fun _ _ => ?_
    split_ifs
    · exact (keeps_gcWritePage _).mono (fun _ h => hg.trans h) fun _ h => h
    · exact hg

theorem keeps_gcDie (l flashpg ch lun : ℕ) :
    Ends (f.gcDie l flashpg ch lun) (KeepsPointer .user f) fun _ => True := by
  unfold gcDie
  refine (keeps_cleanOneFlashpg _).bind fun g hg => ?_
  split_ifs
  · exact (same_markBlockFree _).mono (fun _ h => hg.trans (h.keeps .user)) fun _ h => h
  · exact hg

/-- **A collection leaves the user pointer alone.** -/
theorem keeps_doGc (force : Bool) :
    Ends (f.doGc force) (fun r => KeepsPointer .user f r.1) fun _ => True := by
  unfold doGc
  dsimp only
  split
  · exact .refl .user f
  · rename_i l lm _
    refine Ends.bind (Q := KeepsPointer .user f) ?_ fun g hg =>
      hg.trans ⟨rfl, rfl, fun _ => rfl⟩
    refine Ends.forRange (fun _ => KeepsPointer .user f) ⟨rfl, rfl, fun _ => rfl⟩ fun i _ g hg => ?_
    refine Ends.forRange (fun _ => KeepsPointer .user f) hg fun j _ g hg => ?_
    exact Ends.forRange (fun _ => KeepsPointer .user f) hg fun k _ g hg =>
      (keeps_gcDie _ _ _ _).mono (fun _ h => hg.trans h) fun _ h => h

theorem keeps_checkAndRefillWriteCredit :
    Ends f.checkAndRefillWriteCredit (KeepsPointer .user f) fun _ => True := by
  unfold checkAndRefillWriteCredit forgroundGc
  split_ifs
  · rw [bind_assoc]
    exact (keeps_doGc true).bind fun r hr => hr.trans ⟨rfl, rfl, fun _ => rfl⟩
  · exact ⟨rfl, rfl, fun _ => rfl⟩
  · exact .refl .user f

/-- **Page writes of the host that stay on the line are a run of the line,** with the collections
they trigger. -/
theorem LineRun.writePage {spots : List Spot} {g' h' h : ConvFtl} {p : Ppa} {lpn : ℕ}
    (hrun : LineRun .user f spots g) (hadv : g.advanceWritePointer .user = .ok g')
    (hlm : g'.lm = g.lm) (hfill : g'.consumeWriteCredit.checkAndRefillWriteCredit = .ok h')
    (hmap : h'.remapPage lpn = .ok (h, p)) : LineRun .user f (spots ++ [p.spot]) h := by
  have hcredit : KeepsPointer .user g' g'.consumeWriteCredit := ⟨rfl, rfl, fun _ => rfl⟩
  have hk := hcredit.trans (keeps_checkAndRefillWriteCredit.of_ok hfill)
  obtain ⟨hsame, hp⟩ := (same_remapPage lpn).of_ok hmap
  exact .next hrun hadv hlm hk hp (hsame.keeps .user)

end ConvFtl

/-- **The counters of the user branch refine the striping order.**  On a freshly opened line the
`USER_IO` branch with all page counters zero and the `GC_IO` branch hand out the same places, and
stay on the line or close it at the same page, which is the last one of the line; whatever runs in
between leaves the pointer and the counters alone. -/
theorem userOrder_eq_gcOrder {spp : Ssdparams} (hs : spp.Striped) {fu fg gu gg : ConvFtl}
    (hu : fu.ssd.sp = spp) (hg : fg.ssd.sp = spp) (hou : fu.Opened .user) (hog : fg.Opened .gc)
    {us gs : List Spot} (hru : ConvFtl.LineRun .user fu us gu) (hrg : ConvFtl.LineRun .gc fg gs gg)
    (hlen : us.length = gs.length) :
    us = gs ∧ us = (List.range us.length).map (fun k => ConvFtl.cutSpot (spp.stripeAt k)) ∧
      (gu.Stays .user ∧ gg.Stays .gc ∧ us.length < spp.linePages ∨
        gu.Closes .user ∧ gg.Closes .gc ∧ us.length = spp.linePages) := by
  subst hu
  have hfu := hru.filled hs hou
  have hfg := hrg.filled (hg ▸ hs) hog
  rw [hg] at hfg
  refine ⟨?_, hfu.spots, ?_⟩
  · rw [hfu.spots, hfg.spots, hlen]
  · rcases hfu.stays_or_closes hs with ⟨h1, h2⟩ | ⟨h1, h2⟩
    · rcases hfg.stays_or_closes hs with ⟨h3, -⟩ | ⟨-, h4⟩
      · exact .inl ⟨h1, h3, h2⟩
      · omega
    · rcases hfg.stays_or_closes hs with ⟨-, h4⟩ | ⟨h3, -⟩
      · omega
      · exact .inr ⟨h1, h3, h2⟩

/-- Both write pointers of a fresh instance stand on freshly opened lines. -/
theorem convInitFtl_opened {cpp : ConvParams} {spp : Ssdparams} {f : ConvFtl}
    (h : convInitFtl cpp (ssdInit spp) = .ok f) (io : IoType) :
    f.ssd.sp = spp ∧ f.Opened io := by
  unfold convInitFtl at h
  simp only [bind_eq_ok] at h
  obtain ⟨-, -, lm₀, hlm₀, ⟨wp, lm₁⟩, hwp, ⟨gcWp, lm₂⟩, hgc, h⟩ := h
  obtain ⟨-, -, -, -, -, hh₀⟩ := initLines_homed hlm₀
  obtain ⟨hwpe, hh₁, -⟩ := prepareWritePointer_spec hh₀ hwp
  obtain ⟨hgce, -⟩ := prepareWritePointer_spec hh₁ hgc
  cases h
  refine ⟨rfl, ?_, ?_, fun _ _ _ => rfl⟩
  · cases io with
    | user => exact congrArg WritePointer.spot hwpe
    | gc => exact congrArg WritePointer.spot hgce
  · cases io with
    | user => exact congrArg WritePointer.pl hwpe
    | gc => exact congrArg WritePointer.pl hgce

/-- Two channels with two dies each, and blocks of two one-shot pages of two pages. -/
def stripedConfigs : FtlConfigs where
  maxCon := 1
  ssdPartitions := 1
  nandChannels := 2
  lunsPerNandCh := 2
  plnsPerLun := 1
  flashPageSize := 8192
  oneshotPageSize := 8192
  blksPerPln := 3
  blkSize := 0
  writeUnitSize := 512
  globalWbSize := 8192
  writeEarlyCompletion := true

/-- A line of sixteen pages is filled in the same order by both branches, and closed at its end. -/
theorem userOrder_eq_gcOrder_sixteen : ∃ (us : List Spot) (gu gg : ConvFtl),
    us = [(0, 0, 0), (0, 0, 1), (1, 0, 0), (1, 0, 1), (0, 1, 0), (0, 1, 1), (1, 1, 0), (1, 1, 1),
      (0, 0, 2), (0, 0, 3), (1, 0, 2), (1, 0, 3), (0, 1, 2), (0, 1, 3), (1, 1, 2), (1, 1, 3)] ∧
      gu.Closes .user ∧ gg.Closes .gc := by
  obtain ⟨spp, hspp⟩ : ∃ spp, ssdInitParams (48 * 4096) 1 stripedConfigs = .ok spp := ⟨_, rfl⟩
  obtain ⟨f, hf⟩ : ∃ f, convInitFtl convInitParams (ssdInit spp) = .ok f := by
    cases hspp
    exact ⟨_, rfl⟩
  have hval : spp.Striped ∧ spp.linePages = 16 ∧
      (List.range 16).map (fun k => ConvFtl.cutSpot (spp.stripeAt k)) =
        [(0, 0, 0), (0, 0, 1), (1, 0, 0), (1, 0, 1), (0, 1, 0), (0, 1, 1), (1, 1, 0), (1, 1, 1),
          (0, 0, 2), (0, 0, 3), (1, 0, 2), (1, 0, 3), (0, 1, 2), (0, 1, 3), (1, 1, 2),
          (1, 1, 3)] := by
    cases hspp
    exact ⟨⟨by decide, by decide, by decide, by decide, by decide⟩, by decide, by decide⟩
  obtain ⟨hs, hline, horder⟩ := hval
  obtain ⟨hsp, hou⟩ := convInitFtl_opened hf .user
  obtain ⟨-, hog⟩ := convInitFtl_opened hf .gc
  obtain ⟨us, gu, hru, hlu⟩ := hou.exists_lineRun (hsp ▸ hs) 15 (by rw [hsp, hline]; decide)
  obtain ⟨gs, gg, hrg, hlg⟩ := hog.exists_lineRun (hsp ▸ hs) 15 (by rw [hsp, hline]; decide)
  obtain ⟨-, hus, hend⟩ := userOrder_eq_gcOrder hs hsp hsp hou hog hru hrg (hlu.trans hlg.symm)
  rcases hend with ⟨-, -, hlt⟩ | ⟨h1, h2, -⟩
  · omega
  · exact ⟨us, gu, gg, by rw [hus, hlu]; exact horder, h1, h2⟩

end NvmeVirt
