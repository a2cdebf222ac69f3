/-
# Collections in runs

In every state a run reaches on a geometry that fits `struct ppa`, a collection moves
and erases one line and nothing else.

The geometry has to fit.  With 65538 lines of two pages the addresses of the lines
65536 and 65537 are those of the lines 0 and 1.  Writing the logical pages in order
fills the lines below them, one page a command and without a collection; the state
behind `n` commands is `filled n`.  From there a few overwrites put the write pointer
of the collections on line 65537, and a collection of line 1 copies into a block it
has just erased.
-/

import NvmeVirt.ConvFtl.GcExact

namespace NvmeVirt

open Outcome

/-- **A collection is exact** in every reachable state: with a free line it returns, with 0 after it
has moved and erased one line and nothing else, and with -1 when nothing has changed. -/
theorem convRun_gcEnds (size : ℕ) (cfg : FtlConfigs) {ns₀ ns : ConvNs}
    (hinit : convInitNamespace size cfg = .ok ns₀) (hfit : ns₀.sp.FitsPpa) (ops : List ConvOp)
    (hrun : runList ConvNs.exec ns₀ ops = .ok ns) {q : ℕ} (hq : q < ns₀.nrParts) (force : Bool) :
    ((ns.ftls q).lm.freeLineList ≠ [] → ∃ r, (ns.ftls q).doGc force = .ok r) ∧
      ∀ r, (ns.ftls q).doGc force = .ok r → (ns.ftls q).GcEnds r := by
  have hk := ((convInitNamespace_inv hinit hfit).1.run ops).of_ok hrun
  have hgc := (hk.inv.ftl q (by rw [hk.nrParts]; exact hq)).doGc force
  refine ⟨fun hfree => ?_, fun r hr => hgc.of_ok hr⟩
  obtain ⟨r, hr, -⟩ := (hgc.mono (fun _ h => h) fun _ he => hfree he).exists_ok
  exact ⟨r, hr⟩

/-- Two pages fill a line, the first is written again, and the collection moves the second. -/
theorem convRun_gcEnds_tiny : ∃ (f : ConvFtl) (r : ConvFtl × ℤ), f.doGc true = .ok r ∧
    f.GcEnds r ∧ r.2 = 0 ∧ f.OnLine 0 1 ∧ ¬ r.1.OnLine 0 1 := by
  obtain ⟨ns₀, hinit, hns₀⟩ := exists_ok_of_any (x := convInitNamespace tinySize tinyConfigs)
    (p := fun ns₀ : ConvNs =>
      decide (((ns₀.sp.nchs ≤ 2 ^ 8 ∧ ns₀.sp.lunsPerCh ≤ 2 ^ 8) ∧
        ns₀.sp.blksPerPl ≤ 2 ^ 16 ∧ ns₀.sp.pgsPerBlk ≤ 2 ^ 16) ∧ 0 < ns₀.nrParts) &&
      (runList ConvNs.exec ns₀ [.write 0 15, .release 8192, .write 0 7]).toOption.any
        fun ns : ConvNs =>
          decide ((ns.ftls 0).lm.freeLineList ≠ [] ∧ (ns.ftls 0).OnLine 0 1) &&
          ((ns.ftls 0).doGc true).toOption.any fun r : ConvFtl × ℤ =>
            decide (r.2 = 0 ∧ ¬ r.1.OnLine 0 1)) (by decide +kernel)
  obtain ⟨hfits, hns⟩ := Bool.and_eq_true_iff.1 hns₀
  obtain ⟨⟨⟨hnchs, hluns⟩, hblks, hpgs⟩, hparts⟩ := of_decide_eq_true hfits
  obtain ⟨ns, hrun, hns⟩ := exists_ok_of_any hns
  obtain ⟨hstart, hgc⟩ := Bool.and_eq_true_iff.1 hns
  obtain ⟨hfree, hon⟩ := of_decide_eq_true hstart
  obtain ⟨r, hr, hmoved⟩ := exists_ok_of_any hgc
  obtain ⟨h0, hoff⟩ := of_decide_eq_true hmoved
  obtain ⟨hreturns, hends⟩ := convRun_gcEnds tinySize tinyConfigs hinit
    ⟨hnchs, hluns, hblks, hpgs⟩ _ hrun hparts true
  obtain ⟨r', hr'⟩ := hreturns hfree
  cases hr.symm.trans hr'
  exact ⟨_, r, hr, hends r hr, h0, hon, hoff⟩

/-! ### More lines than the addresses tell apart -/

/-- Two dies, blocks of one page and 65538 lines. -/
def wideConfigs : FtlConfigs :=
  { tinyConfigs with nandChannels := 2, blksPerPln := 65538, globalWbSize := 2 ^ 30 }

/-- The capacity of the wide configuration. -/
def wideSize : ℕ := 65538 * 2 * 4096

/-- Its geometry. -/
def wideParams : Ssdparams where
  secsz := 512
  secsPerPg := 8
  pgsz := 4096
  pgsPerFlashpg := 1
  flashpgsPerBlk := 1
  pgsPerOneshotpg := 1
  oneshotpgsPerBlk := 1
  pgsPerBlk := 1
  blksPerPl := 65538
  plsPerLun := 1
  lunsPerCh := 1
  nchs := 2
  writeUnitSize := 512
  writeEarlyCompletion := true
  pgsPerPl := 65538
  pgsPerLun := 65538
  pgsPerCh := 65538
  ttPgs := 131076
  blksPerLun := 65538
  pgsPerLine := 2
  blksPerLine := 2
  ttLines := 65538
  ttLuns := 2
  writeBufferSize := 2 ^ 30
  maxCon := 1

namespace WideLines

/-- The line of the `k`-th pair of pages: line 1 is the one of the collections. -/
def lineOf (k : ℕ) : ℕ := if k = 0 then 0 else k + 1

/-- The logical page on channel `ch` of line `l`, when the pages are written in order. -/
def lpnAt (ch l : ℕ) : ℕ := 2 * (l - 1) + ch

/-- Of the pages below `n` one is on channel `ch` of line `l`. -/
def Written (n ch l : ℕ) : Prop := l ≠ 1 ∧ ch < 2 ∧ lpnAt ch l < n

instance (n ch l : ℕ) : Decidable (Written n ch l) := inferInstanceAs (Decidable (_ ∧ _))

/-- The place of a logical page. -/
def placeOf (l : ℕ) : Ppa := pageAt (l % 2, 0) (lineOf (l / 2)) 0

/-- A block whose page is valid. -/
def fullBlk : NandBlock where
  pg := Function.update (fun _ => ssdInitNandPage wideParams) 0
    { ssdInitNandPage wideParams with status := .valid }
  npgs := 1
  ipc := 0
  vpc := 1
  eraseCnt := 0
  wp := 0

/-- The history of `n` page writes. -/
def handOuts : ℕ → List FlashEv
  | 0 => []
  | n + 1 => .handOut .user n (placeOf n) :: handOuts n

/-- The instance when the logical pages below `n` are written. -/
def filled (n : ℕ) : ConvFtl where
  ssd := {
    sp := wideParams
    blk := fun a => if a.lun = 0 ∧ a.pl = 0 ∧ Written n a.ch a.blk then fullBlk
      else ssdInitNandBlk wideParams }
  cp := convInitParams
  maptbl := fun l => if l < n then placeOf l else unmappedPpa
  rmap := fun i => if Written n (i / 65538) (i % 65538) then lpnAt (i / 65538) (i % 65538)
    else invalidLpn
  wp := { curline := lineOf (n / 2), ch := n % 2, lun := 0, pg := 0, blk := lineOf (n / 2), pl := 0 }
  gcWp := { curline := 1, ch := 0, lun := 0, pg := 0, blk := 1, pl := 0 }
  lm := {
    lines := fun l => {
      id := l, ipc := 0, vpc := if l = 1 then 0 else min 2 (n - lpnAt 0 l), pos := 0 }
    freeLineList := List.range' (n / 2 + 2) (65536 - n / 2)
    victimLinePq := Pqueue.pqueueInit 65538
    fullLineList := if n / 2 = 0 then [] else 0 :: List.range' 2 (n / 2 - 1)
    ttLines := 65538
    freeLineCnt := 65536 - n / 2
    victimLineCnt := 0
    fullLineCnt := n / 2 }
  wfc := { writeCredits := 2 - n % 2, creditsToRefill := 2 }
  pageCounter := fun i => if i = 0 then n % 2 else 0
  log := handOuts n

/-- The namespace then. -/
def filledNs (n : ℕ) : ConvNs where
  nrParts := 1
  size := 501763828
  ftls := Function.update (fun _ => filled 0) 0 (filled n)
  writeBuffer := { size := 2 ^ 30, remaining := 2 ^ 30 - 4096 * n }

/-- The namespace with room set apart for one more page. -/
def allocated (n : ℕ) : ConvNs := { filledNs n with writeBuffer := (filledNs (n + 1)).writeBuffer }

/-- The write of one logical page. -/
def writeOf (l : ℕ) : ConvOp := .write (8 * l) 7

section

variable {n ch l : ℕ}

/-! ### The places -/

theorem lineOf_ne_one (k : ℕ) : lineOf k ≠ 1 := by
  unfold lineOf
  split_ifs <;> omega

theorem lpnAt_lineOf (n : ℕ) : lpnAt (n % 2) (lineOf (n / 2)) = n := by
  unfold lpnAt lineOf
  split_ifs <;> omega

/-- The page written next. -/
theorem written_succ : Written (n + 1) ch l ↔ Written n ch l ∨ ch = n % 2 ∧ l = lineOf (n / 2) := by
  unfold Written lpnAt lineOf
  split_ifs <;> omega

theorem not_written (n : ℕ) : ¬ Written n (n % 2) (lineOf (n / 2)) := by
  rintro ⟨-, -, h⟩
  rw [lpnAt_lineOf] at h
  exact lt_irrefl n h

/-- The lines that are filled are numbered by `struct ppa`. -/
theorem lineOf_lt (hn : n < 131068) : lineOf (n / 2) < 65536 := by
  unfold lineOf
  split_ifs <;> omega

theorem pgidx_placeOf (n : ℕ) :
    wideParams.pgidx (placeOf n) = n % 2 * 65538 + lineOf (n / 2) := by
  simp [Ssdparams.pgidx, wideParams, placeOf, pageAt]

/-! ### The parts of the next state -/

theorem filled_maptbl (n : ℕ) :
    Function.update (filled n).maptbl n (placeOf n) = (filled (n + 1)).maptbl := by
  funext l
  by_cases hl : l = n
  · subst hl
    rw [Function.update_self]
    exact (if_pos (Nat.lt_succ_self l)).symm
  · rw [Function.update_of_ne hl]
    exact if_congr (by omega) rfl rfl

theorem filled_rmap (hn : n < 131068) :
    Function.update (filled n).rmap (wideParams.pgidx (placeOf n)) n = (filled (n + 1)).rmap := by
  have hlt := lineOf_lt hn
  rw [pgidx_placeOf]
  funext i
  by_cases hi : i = n % 2 * 65538 + lineOf (n / 2)
  · have hch : i / 65538 = n % 2 := by omega
    have hline : i % 65538 = lineOf (n / 2) := by omega
    rw [hi, Function.update_self, ← hi]
    show n = if Written (n + 1) (i / 65538) (i % 65538) then lpnAt (i / 65538) (i % 65538)
      else invalidLpn
    rw [hch, hline, if_pos (written_succ.2 (.inr ⟨rfl, rfl⟩)), lpnAt_lineOf]
  · rw [Function.update_of_ne hi]
    refine if_congr ?_ rfl rfl
    rw [written_succ]
    exact (or_iff_left (by omega)).symm

theorem filled_blk (n : ℕ) :
    Function.update (filled n).ssd.blk (placeOf n).blkAddr fullBlk = (filled (n + 1)).ssd.blk := by
  funext a
  by_cases ha : a = (placeOf n).blkAddr
  · subst ha
    rw [Function.update_self]
    exact (if_pos ⟨rfl, rfl, written_succ.2 (.inr ⟨rfl, rfl⟩)⟩).symm
  · rw [Function.update_of_ne ha]
    refine if_congr (and_congr_right fun hlun => and_congr_right fun hpl => ?_) rfl rfl
    rw [written_succ]
    refine (or_iff_left ?_).symm
    rintro ⟨hch, hblk⟩
    obtain ⟨ch, lun, pl, blk⟩ := a
    exact ha (by rw [show lun = 0 from hlun, show pl = 0 from hpl, show ch = _ from hch,
      show blk = _ from hblk]; rfl)

theorem filled_lines (n : ℕ) :
    Function.update (filled n).lm.lines (lineOf (n / 2)) {
        (filled n).lm.lines (lineOf (n / 2)) with
        vpc := ((filled n).lm.lines (lineOf (n / 2))).vpc + 1 } = (filled (n + 1)).lm.lines := by
  have hne := lineOf_ne_one (n / 2)
  funext l
  by_cases hl : l = lineOf (n / 2)
  · subst hl
    rw [Function.update_self]
    simp only [filled, if_neg hne, Line.mk.injEq, true_and, and_true]
    unfold lpnAt lineOf
    split_ifs <;> omega
  · rw [Function.update_of_ne hl]
    simp only [filled, Line.mk.injEq, true_and, and_true]
    unfold lineOf at hl
    unfold lpnAt
    split_ifs at hl ⊢ <;> omega

/-! ### A page write -/

/-- The instance when page `n` has its place and the write pointer has not moved. -/
def placed (n : ℕ) : ConvFtl := { filled (n + 1) with
  wp := (filled n).wp
  lm := { (filled n).lm with lines := (filled (n + 1)).lm.lines }
  wfc := (filled n).wfc
  pageCounter := (filled n).pageCounter }

theorem getMaptblEnt_filled (hn : n < 131068) : (filled n).getMaptblEnt n = .ok unmappedPpa := by
  have hin : n < (filled n).ssd.sp.ttPgs := show n < 131076 by omega
  unfold ConvFtl.getMaptblEnt
  rw [defined_bind hin]
  exact congrArg Except.ok (if_neg (lt_irrefl n))

theorem getNewPage_filled (hn : n < 131068) : (filled n).getNewPage .user = .ok (placeOf n) := by
  have hlt : lineOf (n / 2) < 2 ^ 16 := lineOf_lt hn
  have hch : n % 2 < 2 ^ 8 := by omega
  have hfields : Ppa.ofFields (n % 2) 0 0 (lineOf (n / 2)) 0 = placeOf n := by
    unfold Ppa.ofFields placeOf pageAt
    rw [Nat.mod_eq_of_lt hlt, Nat.mod_eq_of_lt hch]
    rfl
  show (nvmevAssert .getNewPage ((Ppa.ofFields (n % 2) 0 0 (lineOf (n / 2)) 0).pl = 0) >>=
    fun _ => Except.ok (Ppa.ofFields (n % 2) 0 0 (lineOf (n / 2)) 0)) = _
  rw [hfields]
  rfl

theorem setMaptblEnt_filled (hn : n < 131068) :
    ((filled n).note (.handOut .user n (placeOf n))).setMaptblEnt n (placeOf n) =
      .ok { filled n with maptbl := (filled (n + 1)).maptbl, log := handOuts (n + 1) } := by
  have hin : n < ((filled n).note (.handOut .user n (placeOf n))).ssd.sp.ttPgs :=
    show n < 131076 by omega
  unfold ConvFtl.setMaptblEnt
  rw [nvmevAssert_bind hin, ← filled_maptbl]
  rfl

theorem setRmapEnt_filled (hn : n < 131068) :
    { filled n with
        maptbl := (filled (n + 1)).maptbl, log := handOuts (n + 1) }.setRmapEnt n (placeOf n) =
      .ok { filled n with
        maptbl := (filled (n + 1)).maptbl
        rmap := (filled (n + 1)).rmap
        log := handOuts (n + 1) } := by
  have hlt := lineOf_lt hn
  have hin : (filled n).ssd.sp.pgidx (placeOf n) < (filled n).ssd.sp.ttPgs := by
    show wideParams.pgidx (placeOf n) < 131076
    rw [pgidx_placeOf]
    omega
  unfold ConvFtl.setRmapEnt ConvFtl.ppa2pgidx
  rw [nvmevAssert_bind hin, ok_bind, ← filled_rmap hn]
  rfl

theorem markPageValid_filled (hn : n < 131068) :
    { filled n with
        maptbl := (filled (n + 1)).maptbl
        rmap := (filled (n + 1)).rmap
        log := handOuts (n + 1) }.markPageValid (placeOf n) = .ok (placed n) := by
  have hlt := lineOf_lt hn
  have hvalid : wideParams.validPpa (placeOf n) :=
    ⟨show n % 2 < 2 by omega, Nat.one_pos, Nat.one_pos, show lineOf (n / 2) < 65538 by omega,
      Nat.one_pos⟩
  have hblk : (filled n).ssd.blk (placeOf n).blkAddr = ssdInitNandBlk wideParams :=
    if_neg fun h => not_written n h.2.2
  have hfree : ((filled n).ssd.getPg (placeOf n)).status = .free := by
    unfold Ssd.getPg Ssd.getBlk
    rw [hblk]
    rfl
  have hmarked : ((filled n).ssd.setPgStatus (placeOf n) .valid).getBlk (placeOf n) =
      { fullBlk with vpc := 0 } := by
    unfold Ssd.setPgStatus Ssd.setBlk Ssd.getBlk
    dsimp only
    rw [Function.update_self, hblk]
    rfl
  have hssd : ((filled n).ssd.setPgStatus (placeOf n) .valid).setBlk (placeOf n) fullBlk =
      (filled (n + 1)).ssd := by
    unfold Ssd.setPgStatus Ssd.setBlk
    dsimp only
    rw [Function.update_idem, filled_blk]
    rfl
  have hvpc : ((filled n).lm.lines (lineOf (n / 2))).vpc < 2 := by
    have hne := lineOf_ne_one (n / 2)
    simp only [filled, if_neg hne]
    unfold lpnAt lineOf
    split_ifs <;> omega
  refine bind_eq_ok.2 ⟨(), defined_eq_ok.2 hvalid, ?_⟩
  refine bind_eq_ok.2 ⟨(), nvmevAssert_eq_ok.2 hfree, ?_⟩
  dsimp only
  rw [hmarked]
  refine bind_eq_ok.2 ⟨(), nvmevAssert_eq_ok.2 Nat.one_pos, ?_⟩
  refine bind_eq_ok.2 ⟨_, bind_eq_ok.2 ⟨(), nvmevAssert_eq_ok.2 hvpc, rfl⟩, ?_⟩
  refine congrArg Except.ok ?_
  unfold placed LineMgmt.setLine
  rw [← filled_lines]
  congr 1

theorem remapPage_filled (hn : n < 131068) :
    (filled n).remapPage n = .ok (placed n, placeOf n) := by
  have hold : (filled n).invalidateOld unmappedPpa = .ok (filled n) := rfl
  unfold ConvFtl.remapPage
  rw [getMaptblEnt_filled hn, ok_bind, hold, ok_bind, getNewPage_filled hn, ok_bind]
  dsimp only
  rw [setMaptblEnt_filled hn, ok_bind, setRmapEnt_filled hn, ok_bind, markPageValid_filled hn,
    ok_bind]

/-- From the first die the walk finds the second one. -/
theorem walkDies_first {cnt : ℕ → ℕ} (h : cnt 1 = 0) :
    walkDies wideParams cnt 0 0 2 (0, 0) = .ok (some (1, 0)) := by
  have hdie : cnt (wideParams.dieIdx 1 0) < wideParams.pgsPerBlk := by
    show cnt 1 < 1
    omega
  exact bind_eq_ok.2 ⟨(), rfl, if_pos hdie⟩

/-- From the second one it finds none. -/
theorem walkDies_second {cnt : ℕ → ℕ} (h0 : cnt 0 = 1) (h1 : cnt 1 = 1) :
    walkDies wideParams cnt 1 0 2 (1, 0) = .ok none := by
  have hfirst : ¬ cnt (wideParams.dieIdx 0 0) < wideParams.pgsPerBlk := by
    show ¬ cnt 0 < 1
    omega
  have hsecond : ¬ cnt (wideParams.dieIdx 1 0) < wideParams.pgsPerBlk := by
    show ¬ cnt 1 < 1
    omega
  have hlast : walkDies wideParams cnt 1 0 1 (0, 0) = .ok none :=
    bind_eq_ok.2 ⟨(), rfl, (if_neg hsecond).trans (if_pos rfl)⟩
  exact bind_eq_ok.2 ⟨(), rfl, bind_eq_ok.2 ⟨(), rfl, (if_neg hfirst).trans hlast⟩⟩

/-- The first page of a line: the write pointer goes to the second die. -/
theorem advance_even (h : n % 2 = 0) :
    (placed n).advanceWritePointer .user = .ok { filled (n + 1) with wfc := (filled n).wfc } := by
  have hhalf : (n + 1) / 2 = n / 2 := by omega
  have hrest : (n + 1) % 2 = 1 := by omega
  have hcnt : Function.update (filled n).pageCounter (n % 2 * 1 + 0)
      ((filled n).pageCounter (n % 2 * 1 + 0) + 1) = (filled (n + 1)).pageCounter := by
    funext i
    simp only [filled, h, hrest, Function.update_apply]
    split_ifs <;> omega
  have hwalk : walkDies wideParams (filled (n + 1)).pageCounter 0 0 2 (0, 0) = .ok (some (1, 0)) :=
    walkDies_first rfl
  have hroom : (filled n).pageCounter (n % 2 * 1 + 0) < 1 := by
    show (if n % 2 * 1 + 0 = 0 then n % 2 else 0) < 1
    rw [h]
    decide
  have hwp : { (filled n).wp with ch := 1, lun := 0, pg := 0 } = (filled (n + 1)).wp := by
    simp [filled, hhalf, hrest]
  have hlm : { (filled n).lm with lines := (filled (n + 1)).lm.lines } = (filled (n + 1)).lm := by
    simp [filled, hhalf]
  refine bind_eq_ok.2 ⟨(), nvmevAssert_eq_ok.2 hroom, ?_⟩
  refine (if_neg (not_not.2 (Nat.mod_one _))).trans ?_
  refine bind_eq_ok.2 ⟨some (1, 0), ?_, congrArg Except.ok ?_⟩
  · show walkDies wideParams (Function.update (filled n).pageCounter (n % 2 * 1 + 0)
      ((filled n).pageCounter (n % 2 * 1 + 0) + 1)) (n % 2) 0 2 (n % 2, 0) = _
    rw [hcnt, h]
    exact hwalk
  · show { filled (n + 1) with
      wp := { (filled n).wp with
        ch := 1
        lun := 0
        pg := Function.update (filled n).pageCounter (n % 2 * 1 + 0)
          ((filled n).pageCounter (n % 2 * 1 + 0) + 1) 1 }
      lm := { (filled n).lm with lines := (filled (n + 1)).lm.lines }
      wfc := (filled n).wfc
      pageCounter := Function.update (filled n).pageCounter (n % 2 * 1 + 0)
        ((filled n).pageCounter (n % 2 * 1 + 0) + 1) } = _
    rw [hcnt, hlm]
    dsimp only
    rw [← hwp]
    rfl

theorem resetPageCounter_full {cnt : ℕ → ℕ} (h0 : cnt 0 = 1) (h1 : cnt 1 = 1) :
    resetPageCounter .advanceWritePointer wideParams cnt =
      .ok (Function.update (Function.update cnt 0 0) 1 0) := by
  have hsecond : Function.update cnt 0 0 1 = 1 := by rw [Function.update_of_ne Nat.one_ne_zero, h1]
  refine bind_eq_ok.2 ⟨Function.update cnt 0 0, ?_, ?_⟩
  · exact bind_eq_ok.2 ⟨cnt, rfl, bind_eq_ok.2 ⟨cnt, rfl, bind_eq_ok.2
      ⟨(), nvmevAssert_eq_ok.2 h0, rfl⟩⟩⟩
  · exact bind_eq_ok.2 ⟨_, rfl, bind_eq_ok.2 ⟨(), nvmevAssert_eq_ok.2 hsecond, rfl⟩⟩

/-- The line goes to the full list. -/
theorem retireLine_placed (h : n % 2 = 1) :
    (placed n).lm.retireLine .advanceWritePointer wideParams (lineOf (n / 2)) =
      .ok { (placed n).lm with
        fullLineList := (filled n).lm.fullLineList ++ [lineOf (n / 2)]
        fullLineCnt := n / 2 + 1 } := by
  have hne := lineOf_ne_one (n / 2)
  have hvpc : ((placed n).lm.lines (lineOf (n / 2))).vpc = 2 := by
    simp only [placed, filled, if_neg hne]
    unfold lpnAt lineOf
    split_ifs <;> omega
  refine (if_pos hvpc).trans ?_
  exact bind_eq_ok.2 ⟨(), rfl, rfl⟩

theorem takeFreeLine_cons {lm : LineMgmt} (h : ∃ rest, lm.freeLineList = l :: rest) :
    lm.takeFreeLine = .ok (l, { lm.listDelInit l with freeLineCnt := lm.freeLineCnt - 1 }) := by
  obtain ⟨rest, h⟩ := h
  unfold LineMgmt.takeFreeLine LineMgmt.getNextFreeLine
  rw [h]

/-- The next line comes off the free list. -/
theorem takeFreeLine_placed (h : n % 2 = 1) (hn : n < 131068) :
    { (placed n).lm with
        fullLineList := (filled n).lm.fullLineList ++ [lineOf (n / 2)]
        fullLineCnt := n / 2 + 1 }.takeFreeLine =
      .ok (lineOf ((n + 1) / 2), (filled (n + 1)).lm) := by
  have hhalf : (n + 1) / 2 = n / 2 + 1 := by omega
  have hfree : (filled n).lm.freeLineList =
      (n / 2 + 2) :: List.range' (n / 2 + 3) (65536 - (n / 2 + 1)) := by
    show List.range' (n / 2 + 2) (65536 - n / 2) = _
    rw [show 65536 - n / 2 = 65536 - (n / 2 + 1) + 1 by omega, List.range'_succ]
  have hfull : (filled n).lm.fullLineList ++ [lineOf (n / 2)] = 0 :: List.range' 2 (n / 2) := by
    show (if n / 2 = 0 then [] else 0 :: List.range' 2 (n / 2 - 1)) ++ [lineOf (n / 2)] = _
    cases n / 2 with
    | zero => rfl
    | succ k =>
      rw [if_neg (Nat.succ_ne_zero k), List.range'_1_concat, Nat.add_comm 2 k]
      rfl
  have hkept : (0 :: List.range' 2 (n / 2)).erase (n / 2 + 2) = 0 :: List.range' 2 (n / 2) :=
    List.erase_of_not_mem (by rw [List.mem_cons, List.mem_range'_1]; omega)
  have hnext : lineOf ((n + 1) / 2) = n / 2 + 2 := by
    rw [hhalf]
    rfl
  have hfree' : (filled (n + 1)).lm.freeLineList = (filled n).lm.freeLineList.erase (n / 2 + 2) := by
    rw [hfree, List.erase_cons_head]
    show List.range' ((n + 1) / 2 + 2) (65536 - (n + 1) / 2) = _
    rw [hhalf]
  have hfull' : (filled (n + 1)).lm.fullLineList =
      ((filled n).lm.fullLineList ++ [lineOf (n / 2)]).erase (n / 2 + 2) := by
    rw [hfull, hkept]
    show (if (n + 1) / 2 = 0 then [] else 0 :: List.range' 2 ((n + 1) / 2 - 1)) = _
    rw [hhalf]
    rfl
  have hcnt : (filled (n + 1)).lm.freeLineCnt = 65536 - n / 2 - 1 := by
    show 65536 - (n + 1) / 2 = _
    omega
  have hfullCnt : (filled (n + 1)).lm.fullLineCnt = n / 2 + 1 := hhalf
  rw [hnext]
  refine Eq.trans (takeFreeLine_cons ⟨_, hfree⟩) (congrArg Except.ok (Prod.ext rfl ?_))
  show { (filled (n + 1)).lm with
    freeLineList := (filled n).lm.freeLineList.erase (n / 2 + 2)
    fullLineList := ((filled n).lm.fullLineList ++ [lineOf (n / 2)]).erase (n / 2 + 2)
    freeLineCnt := 65536 - n / 2 - 1
    fullLineCnt := n / 2 + 1 } = (filled (n + 1)).lm
  rw [← hfree', ← hfull', ← hcnt, ← hfullCnt]

/-- The second page: the line is full, and the write pointer goes to the next free one. -/
theorem advance_odd (h : n % 2 = 1) (hn : n < 131068) :
    (placed n).advanceWritePointer .user = .ok { filled (n + 1) with wfc := (filled n).wfc } := by
  have hlt := lineOf_lt hn
  have hrest : (n + 1) % 2 = 0 := by omega
  have hnext : lineOf ((n + 1) / 2) < 65538 := by
    unfold lineOf
    split_ifs <;> omega
  have hroom : (filled n).pageCounter (n % 2 * 1 + 0) < 1 := by
    show (if n % 2 * 1 + 0 = 0 then n % 2 else 0) < 1
    rw [h]
    decide
  obtain ⟨cnt, hcnt⟩ : ∃ cnt, cnt = Function.update (filled n).pageCounter (n % 2 * 1 + 0)
    ((filled n).pageCounter (n % 2 * 1 + 0) + 1) := ⟨_, rfl⟩
  have h0 : cnt 0 = 1 := by
    rw [hcnt, h]
    exact h
  have h1 : cnt 1 = 1 := by
    rw [hcnt, h]
    rfl
  have hreset : Function.update (Function.update cnt 0 0) 1 0 = (filled (n + 1)).pageCounter := by
    rw [hcnt]
    funext i
    simp only [filled, h, hrest, Function.update_apply]
    split_ifs <;> omega
  refine bind_eq_ok.2 ⟨(), nvmevAssert_eq_ok.2 hroom, ?_⟩
  refine (if_neg (not_not.2 (Nat.mod_one _))).trans ?_
  refine bind_eq_ok.2 ⟨none, ?_, ?_⟩
  · show walkDies wideParams (Function.update (filled n).pageCounter (n % 2 * 1 + 0)
      ((filled n).pageCounter (n % 2 * 1 + 0) + 1)) (n % 2) 0 2 (n % 2, 0) = _
    rw [← hcnt, h]
    exact walkDies_second h0 h1
  refine bind_eq_ok.2 ⟨(filled (n + 1)).pageCounter, ?_, ?_⟩
  · show resetPageCounter .advanceWritePointer wideParams (Function.update (filled n).pageCounter
      (n % 2 * 1 + 0) ((filled n).pageCounter (n % 2 * 1 + 0) + 1)) = _
    rw [← hcnt, resetPageCounter_full h0 h1, hreset]
  refine bind_eq_ok.2 ⟨_, retireLine_placed h, ?_⟩
  refine bind_eq_ok.2 ⟨(), nvmevAssert_eq_ok.2 (show lineOf (n / 2) < 65538 by omega), ?_⟩
  refine bind_eq_ok.2 ⟨_, takeFreeLine_placed h hn, ?_⟩
  refine bind_eq_ok.2 ⟨(), nvmevAssert_eq_ok.2 hnext, ?_⟩
  refine bind_eq_ok.2 ⟨(), nvmevAssert_eq_ok.2 hrest, congrArg Except.ok ?_⟩
  have hwp : (filled (n + 1)).wp = {
      curline := lineOf ((n + 1) / 2), ch := 0, lun := 0, pg := (n + 1) % 2
      blk := lineOf ((n + 1) / 2), pl := 0 } := by
    simp only [filled, hrest]
  dsimp only
  rw [hwp]
  rfl

/-- No line is queued for a collection. -/
theorem doGc_filled {f : ConvFtl} (h : f.lm.victimLinePq = Pqueue.pqueueInit 65538) :
    f.doGc true = .ok (f, -1) := by
  unfold ConvFtl.doGc LineMgmt.selectVictimLine
  dsimp only
  rw [h]
  rfl

/-- Behind the last page of a line the credits are used up. -/
theorem refill_filled (n : ℕ) :
    { filled (n + 1) with wfc := (filled n).wfc }.consumeWriteCredit.checkAndRefillWriteCredit =
      .ok (filled (n + 1)) := by
  have hgc : { filled (n + 1) with wfc := ⟨0, 2⟩ }.forgroundGc =
      .ok { filled (n + 1) with wfc := ⟨0, 2⟩ } := by
    unfold ConvFtl.forgroundGc
    split_ifs
    · rw [doGc_filled rfl]
      rfl
    · rfl
  rcases Nat.mod_two_eq_zero_or_one n with h | h
  · have hbefore : (filled n).wfc = ⟨2, 2⟩ := by simp [filled, h]
    have hbehind : (filled (n + 1)).wfc = ⟨1, 2⟩ := by simp [filled, show (n + 1) % 2 = 1 by omega]
    rw [hbefore]
    refine (if_neg Nat.one_ne_zero).trans (congrArg Except.ok ?_)
    exact congrArg (fun wfc => { filled (n + 1) with wfc := wfc }) hbehind.symm
  · have hbefore : (filled n).wfc = ⟨1, 2⟩ := by simp [filled, h]
    have hbehind : (filled (n + 1)).wfc = ⟨2, 2⟩ := by simp [filled, show (n + 1) % 2 = 0 by omega]
    rw [hbefore]
    refine (if_pos rfl).trans (bind_eq_ok.2 ⟨_, hgc, congrArg Except.ok ?_⟩)
    exact congrArg (fun wfc => { filled (n + 1) with wfc := wfc }) hbehind.symm

/-- **A page write** in the order of the pages. -/
theorem writePage_filled (hn : n < 131068) :
    (filled n).writePage n = .ok (filled (n + 1), true) := by
  have hadvance : (placed n).advanceWritePointer .user =
      .ok { filled (n + 1) with wfc := (filled n).wfc } := by
    rcases Nat.mod_two_eq_zero_or_one n with h | h
    · exact advance_even h
    · exact advance_odd h hn
  refine bind_eq_ok.2 ⟨_, remapPage_filled hn, bind_eq_ok.2 ⟨_, hadvance, ?_⟩⟩
  exact bind_eq_ok.2 ⟨_, refill_filled n, rfl⟩

theorem exec_filled (hn : n < 131068) :
    (filledNs n).exec (writeOf n) = .ok (filledNs (n + 1)) := by
  have hlast : u64 (8 * n + 7) / wideParams.secsPerPg = n := by
    show (8 * n + 7) % 2 ^ 64 / 8 = n
    omega
  have hsp : (filledNs n).sp = wideParams := rfl
  have hsp' : (allocated n).sp = wideParams := rfl
  have hend : (filledNs n).endLpn (8 * n) 7 = n := by
    unfold ConvNs.endLpn
    rw [hsp, hlast]
  have hstart : 8 * n / (filledNs n).sp.secsPerPg = n := Nat.mul_div_cancel_left n (by decide)
  have hin : (filledNs n).inFtlRange (8 * n) 7 := by
    unfold ConvNs.inFtlRange
    rw [hend, show (filledNs n).nrParts = 1 from rfl, Nat.div_one]
    show n < 131076
    omega
  have hbuf : bufferAllocate (filledNs n).writeBuffer 4096 =
      ((filledNs (n + 1)).writeBuffer, 4096) := by
    unfold bufferAllocate filledNs
    dsimp only
    rw [if_neg (by omega), Nat.mul_succ, Nat.sub_sub]
  have hwrite : (allocated n).writeLpn n =
      .ok (filledNs (n + 1), [1 * 4096]) := by
    have hftls : Function.update (Function.update (fun _ => filled 0) 0 (filled n)) (n % 1)
        (filled (n + 1)) = (filledNs (n + 1)).ftls := by
      rw [Nat.mod_one, Function.update_idem]
      rfl
    refine bind_eq_ok.2 ⟨(filled (n + 1), true), ?_, ?_⟩
    · show (Function.update (fun _ => filled 0) 0 (filled n) (n % 1)).writePage (n / 1) = _
      rw [Nat.mod_one, Nat.div_one, Function.update_self, writePage_filled hn]
    · exact congrArg (fun ftls => Except.ok ({ filledNs (n + 1) with ftls := ftls }, [1 * 4096])) hftls
  have hend' : (allocated n).endLpn (8 * n) 7 = n := by
    unfold ConvNs.endLpn
    rw [hsp', hlast]
  refine bind_eq_ok.2 ⟨(filledNs (n + 1), some [1 * 4096]), ?_, rfl⟩
  have hbytes : lbaToByte (7 + 1) = 4096 := rfl
  have hparts : 0 < (filledNs n).nrParts := Nat.one_pos
  unfold ConvNs.convWrite
  rw [defined_bind hparts]
  dsimp only
  rw [if_neg (not_not.2 hin), hbytes, hbuf]
  dsimp only
  rw [if_neg (lt_irrefl _)]
  refine bind_eq_ok.2 ⟨(filledNs (n + 1), [1 * 4096]), ?_, rfl⟩
  -- one round for the one page
  show forRange ((allocated n).endLpn (8 * n) 7 + 1 - 8 * n / (filledNs n).sp.secsPerPg) _
    (allocated n, []) = _
  rw [hend', hstart, Nat.add_sub_cancel_left]
  exact bind_eq_ok.2 ⟨_, rfl, bind_eq_ok.2 ⟨_, hwrite, rfl⟩⟩

/-- **The pages are written one after the other** without a collection. -/
theorem run_filled (n : ℕ) (hn : n ≤ 131068) :
    runList ConvNs.exec (filledNs 0) ((List.range n).map writeOf) = .ok (filledNs n) := by
  induction n with
  | zero => rfl
  | succ n ih =>
    rw [List.range_succ, List.map_append, runList_append, ih (by omega), ok_bind, List.map_singleton,
      runList_cons, exec_filled (by omega)]
    rfl

end

/-! ### The whole run -/

theorem prepareWritePointer_cons {lm : LineMgmt} {l : ℕ} {rest : List ℕ}
    (h : lm.freeLineList = l :: rest) : prepareWritePointer lm = .ok
      ({ curline := l, ch := 0, lun := 0, pg := 0, blk := (lm.lines l).id, pl := 0 },
        { lm with
          freeLineList := rest
          fullLineList := lm.fullLineList.erase l
          freeLineCnt := lm.freeLineCnt - 1 }) := by
  unfold prepareWritePointer LineMgmt.getNextFreeLine LineMgmt.listDelInit
  rw [h]
  dsimp only
  rw [List.erase_cons_head]

/-- The lines before any is taken. -/
def newLines : LineMgmt where
  lines := fun i => { id := i, ipc := 0, vpc := 0, pos := 0 }
  freeLineList := 0 :: 1 :: List.range' 2 65536
  victimLinePq := Pqueue.pqueueInit 65538
  fullLineList := []
  ttLines := 65538
  freeLineCnt := 65538
  victimLineCnt := 0
  fullLineCnt := 0

theorem initLines_wide : initLines wideParams = .ok newLines := by
  have hrange : List.range 65538 = 0 :: 1 :: List.range' 2 65536 := by
    rw [List.range_eq_range', List.range'_succ, List.range'_succ]
  unfold newLines
  rw [← hrange]
  rfl

theorem convInitFtl_wide : convInitFtl convInitParams (ssdInit wideParams) = .ok (filled 0) := by
  refine bind_eq_ok.2 ⟨(), defined_eq_ok.2 (show 131076 < 2 ^ 31 by decide), ?_⟩
  refine bind_eq_ok.2 ⟨_, initLines_wide, bind_eq_ok.2 ⟨_, prepareWritePointer_cons rfl, ?_⟩⟩
  refine bind_eq_ok.2 ⟨_, prepareWritePointer_cons rfl, congrArg Except.ok ?_⟩
  have hnone : ∀ ch l, ¬ Written 0 ch l := fun ch l h => Nat.not_lt_zero _ h.2.2
  have hssd : (filled 0).ssd = ssdInit wideParams :=
    congrArg (Ssd.mk wideParams) (funext fun a => if_neg fun h => hnone _ _ h.2.2)
  have hmaptbl : (filled 0).maptbl = fun _ => unmappedPpa := by
    funext l
    simp [filled]
  have hrmap : (filled 0).rmap = fun _ => invalidLpn := funext fun i => if_neg (hnone _ _)
  have hlines : (filled 0).lm.lines = newLines.lines := by
    funext l
    simp [filled, newLines]
  have hcnt : (filled 0).pageCounter = fun _ => 0 := by
    funext i
    simp [filled]
  have hstart : filled 0 = { filled 0 with
      ssd := ssdInit wideParams
      maptbl := fun _ => unmappedPpa
      rmap := fun _ => invalidLpn
      lm := { (filled 0).lm with lines := newLines.lines }
      pageCounter := fun _ => 0 } := by
    rw [← hssd, ← hmaptbl, ← hrmap, ← hlines, ← hcnt]
  rw [hstart]
  rfl

/-- The namespace made anew. -/
theorem convInitNamespace_wide : convInitNamespace wideSize wideConfigs = .ok (filledNs 0) := by
  obtain ⟨spp, hparams, hspp⟩ := exists_ok_of_any (x := ssdInitParams wideSize 1 wideConfigs)
    (p := fun spp => decide (spp = wideParams)) (by decide +kernel)
  obtain rfl := of_decide_eq_true hspp
  refine bind_eq_ok.2 ⟨wideParams, hparams, bind_eq_ok.2 ⟨filled 0, convInitFtl_wide, ?_⟩⟩
  have hftls : (fun _ => filled 0) = (filledNs 0).ftls := (Function.update_eq_self _ _).symm
  have hsize : u64 (wideSize * 100) / 107 = 501763828 := by decide +kernel
  have hns : filledNs 0 = { filledNs 0 with
      size := u64 (wideSize * 100) / 107, ftls := fun _ => filled 0 } := by
    rw [hftls, hsize]
    rfl
  rw [hns]
  rfl

end WideLines

open WideLines

/-- **A collection that copies onto its victim.**  All pages below line 65536 are written, then the
pages 0, 2 and 1 again: the write pointer of the collections stands on line 65537, whose address is
that of line 1.  The collection of line 1 erases its first block, copies page 3 from the second
block into it and leaves page 3 on the line it puts on the free list. -/
theorem wideLines_gc_onto_victim : ∃ ns₀ ns r, convInitNamespace wideSize wideConfigs = .ok ns₀ ∧
    runList ConvNs.exec ns₀ ((List.range 131068).map writeOf ++ [writeOf 0, writeOf 2, writeOf 1]) =
      .ok ns ∧
    (ns.ftls 0).lm.freeLineList ≠ [] ∧ (ns.ftls 0).doGc true = .ok r ∧ r.2 = 0 ∧
    ¬ (ns.ftls 0).GcEnds r := by
  have hcheck : (runList ConvNs.exec (filledNs 131068)
      [writeOf 0, writeOf 2, writeOf 1]).toOption.any (fun ns =>
        decide ((ns.ftls 0).lm.freeLineList ≠ [] ∧ 3 < (ns.ftls 0).ssd.sp.ttPgs ∧
          (ns.ftls 0).maptbl 3 = pageAt (1, 0) 1 0) &&
        ((ns.ftls 0).doGc true).toOption.any fun r =>
          decide (r.2 = 0 ∧ r.1.maptbl 3 = pageAt (0, 0) 1 0)) = true := by
    decide +kernel
  obtain ⟨ns, hrun, hp⟩ := exists_ok_of_any hcheck
  obtain ⟨hstart, hgc⟩ := Bool.and_eq_true_iff.1 hp
  obtain ⟨hfree, hin, hold⟩ := of_decide_eq_true hstart
  obtain ⟨r, hr, hp⟩ := exists_ok_of_any hgc
  obtain ⟨h0, hnew⟩ := of_decide_eq_true hp
  refine ⟨filledNs 0, ns, r, convInitNamespace_wide, ?_, hfree, hr, h0, ?_⟩
  · rw [runList_append, run_filled 131068 le_rfl, ok_bind, hrun]
  rintro (h | ⟨-, v, hv⟩)
  · rw [h] at h0
    cases h0
  by_cases hon : (ns.ftls 0).OnLine v 3
  · -- the page is still on the victim
    have hne := (hv.moved 3 hin hon).2.2.1
    rw [hnew] at hne
    have hline := hon.2
    rw [hold] at hline
    exact hne hline
  · have hkept := hv.kept 3 hin hon
    rw [hnew, hold] at hkept
    exact absurd (congrArg Ppa.ch hkept) (by decide)

end NvmeVirt
