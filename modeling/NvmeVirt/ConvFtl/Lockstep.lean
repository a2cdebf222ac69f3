/-
# Instances that are equal where it counts run in lockstep

Two instances with the same contents in the memory the driver owns end every
page write alike: the same page is handed out, the same line is picked and the
same block is erased, or both stop with the same error.  Only the position of a
line in the victim queue, read when a page of it becomes invalid, has to be a
slot of the queue; the invariant of the instance says so.
-/

import NvmeVirt.ConvFtl.Mirror
import NvmeVirt.ConvFtl.Striping

namespace NvmeVirt

open Outcome Pqueue

/-! ### The walk over the dies -/

/-- The walk reads the counters of the dies of the geometry. -/
theorem walkDies_congr {spp : Ssdparams} {cnt cnt' : ℕ → ℕ}
    (hcnt : ∀ i, i < spp.nchs * spp.lunsPerCh → cnt' i = cnt i) (ch lun fuel : ℕ) (d : ℕ × ℕ)
    (hd : d ∈ spp.dies) : walkDies spp cnt' ch lun fuel d = walkDies spp cnt ch lun fuel d := by
  induction fuel generalizing d with
  | zero => rfl
  | succ fuel ih =>
    have hnext := Ssdparams.nextDie_mem hd
    obtain ⟨h1, h2⟩ := Ssdparams.mem_dies.1 hnext
    have hroom : cnt' (spp.dieIdx (spp.nextDie d.1 d.2).1 (spp.nextDie d.1 d.2).2) =
        cnt (spp.dieIdx (spp.nextDie d.1 d.2).1 (spp.nextDie d.1 d.2).2) :=
      hcnt _ (Ssdparams.digit_lt h1 h2)
    unfold walkDies
    dsimp only
    rw [hroom, ih _ hnext]

/-- The counters of the geometry are reset on both sides. -/
theorem resetPageCounter_agree {spp : Ssdparams} {cnt cnt' : ℕ → ℕ} (fn : Fn)
    (hcnt : ∀ i, i < spp.nchs * spp.lunsPerCh → cnt' i = cnt i) :
    Agree (fun c c' : ℕ → ℕ => ∀ i, i < spp.nchs * spp.lunsPerCh → c' i = c i)
      (resetPageCounter fn spp cnt) (resetPageCounter fn spp cnt') := by
  unfold resetPageCounter
  refine Agree.forRange (fun _ (c c' : ℕ → ℕ) => ∀ i, i < spp.nchs * spp.lunsPerCh → c' i = c i) hcnt
    fun i hi c c' hc => ?_
  refine Agree.forRange (fun _ (c c' : ℕ → ℕ) => ∀ i, i < spp.nchs * spp.lunsPerCh → c' i = c i) hc
    fun j hj c c' hc => ?_
  have hlt : spp.dieIdx i j < spp.nchs * spp.lunsPerCh := Ssdparams.digit_lt hi hj
  rw [hc _ hlt]
  refine Agree.same_bind _ fun _ _ k hk => ?_
  by_cases hkd : k = spp.dieIdx i j
  · subst hkd
    simp
  · simpa [hkd] using hc k hk

namespace ConvFtl

variable {f f' : ConvFtl} {p : Ppa} {lpn : ℕ} {front : ℕ × ℕ → ℕ → ℕ}

/-! ### The write pointers -/

theorem Mirror.counter (h : f.Mirror f') {d : ℕ × ℕ} (hd : d ∈ f.ssd.sp.dies) :
    f'.pageCounter (f.ssd.sp.dieIdx d.1 d.2) = f.pageCounter (f.ssd.sp.dieIdx d.1 d.2) := by
  obtain ⟨h1, h2⟩ := Ssdparams.mem_dies.1 hd
  exact h.pageCounter _ (Ssdparams.digit_lt h1 h2)

/-- The page of the user pointer follows the counter of its die. -/
theorem Mirror.syncPg (h : f.Mirror f') : f.syncPg.Mirror f'.syncPg := by
  have hsync : f'.syncPg.wp = f.syncPg.wp := by
    unfold ConvFtl.syncPg
    dsimp only
    rw [h.wp, h.ssd.sp, h.counter h.die]
  exact { h with wp := hsync }

/-- The die of the user pointer is the same. -/
theorem Mirror.dieIdx (h : f.Mirror f') :
    f'.ssd.sp.dieIdx f'.wp.ch f'.wp.lun = f.ssd.sp.dieIdx f.wp.ch f.wp.lun := by
  rw [h.ssd.sp, h.wp]

/-- The counter of the user's die goes up on both sides. -/
theorem Mirror.count (h : f.Mirror f') {n : ℕ} (i : ℕ) :
    ConvFtl.Mirror { f with pageCounter := Function.update f.pageCounter i n }
      { f' with pageCounter := Function.update f'.pageCounter i n } :=
  { h with
    pageCounter := fun j hj => by
      by_cases hji : j = i
      · subst hji
        simp
      · simpa [hji] using h.pageCounter j hj }

theorem Mirror.leaveDie (h : f.Mirror f') (fn : Fn) :
    Agree ConvFtl.Mirror (f.leaveDie fn) (f'.leaveDie fn) := by
  unfold ConvFtl.leaveDie
  dsimp only
  rw [h.ssd.sp, h.wp, walkDies_congr h.pageCounter _ _ _ _ h.die]
  refine Agree.same_bind _ fun found hfound => ?_
  cases found with
  | some d =>
    obtain ⟨ch, lun⟩ := d
    obtain ⟨r, hr, hsome, -⟩ := walkDies_spec f.pageCounter h.die
    cases hr.symm.trans hfound
    have hd := (hsome _ rfl).1
    have hmoved : ConvFtl.Mirror { f with wp := { f.wp with ch := ch, lun := lun } }
        { f' with wp := { f.wp with ch := ch, lun := lun } } := { h with wp := rfl, die := hd }
    exact hmoved.syncPg
  | none =>
    obtain ⟨hch, hlun⟩ := Ssdparams.mem_dies.1 h.die
    have hpos : 0 < f.ssd.sp.nchs * f.ssd.sp.lunsPerCh := by
      have := Ssdparams.digit_lt hch hlun
      omega
    refine (resetPageCounter_agree fn h.pageCounter).bind fun cnt cnt' hcnt => ?_
    refine (h.lm.retireLine fn f.ssd.sp h.userLine).bind fun lm lm' hlm => ?_
    refine Agree.same_bind _ fun _ _ => hlm.takeFreeLine.bind ?_
    rintro ⟨l, lm⟩ ⟨l', lm'⟩ ⟨rfl, hl, hlm⟩
    dsimp only at hl hlm ⊢
    rw [hlm.line hl, hcnt 0 hpos]
    refine Agree.same_bind _ fun _ _ => Agree.same_bind _ fun _ _ => ?_
    have hmoved : ConvFtl.Mirror
        { f with
          pageCounter := cnt
          lm := lm
          wp := { f.wp with curline := l', blk := (lm.lines l').id, ch := 0, lun := 0, pl := 0 } }
        { f' with
          pageCounter := cnt'
          lm := lm'
          wp := { f.wp with curline := l', blk := (lm.lines l').id, ch := 0, lun := 0, pl := 0 } } :=
      { h with
        pageCounter := hcnt
        lm := hlm
        wp := rfl
        userLine := hl
        die := Ssdparams.mem_dies.2 ⟨by dsimp only; omega, by dsimp only; omega⟩ }
    exact hmoved.syncPg

theorem Mirror.advanceUser (h : f.Mirror f') :
    Agree ConvFtl.Mirror f.advanceUser f'.advanceUser := by
  unfold ConvFtl.advanceUser
  dsimp only
  rw [h.dieIdx, h.ssd.sp, h.counter h.die]
  refine Agree.same_bind _ fun _ _ => ?_
  have hcount := h.count (n := f.pageCounter (f.ssd.sp.dieIdx f.wp.ch f.wp.lun) + 1)
    (f.ssd.sp.dieIdx f.wp.ch f.wp.lun)
  refine Agree.ite (by simp) (fun _ => ?_) fun _ => hcount.leaveDie _
  exact agree_ok.2 hcount.syncPg

theorem Mirror.advanceGc (h : f.Mirror f') : Agree ConvFtl.Mirror f.advanceGc f'.advanceGc := by
  obtain ⟨ssd', cp', maptbl', rmap', wp', gcWp', lm', wfc', pageCounter', log'⟩ := f'
  obtain rfl : gcWp' = f.gcWp := h.gcWp
  obtain ⟨sp', blk'⟩ := ssd'
  obtain rfl : sp' = f.ssd.sp := h.ssd.sp
  have hmove : ∀ wpp : WritePointer, wpp.curline = f.gcWp.curline →
      ConvFtl.Mirror { f with gcWp := wpp } ⟨⟨f.ssd.sp, blk'⟩, cp', maptbl', rmap', wp', wpp, lm', wfc',
        pageCounter', log'⟩ := fun wpp hcur =>
    { h with gcWp := rfl, gcLine := by dsimp only; rw [hcur]; exact h.gcLine }
  unfold ConvFtl.advanceGc
  refine Agree.same_bind _ fun _ _ => ?_
  refine Agree.ite Iff.rfl (fun _ => agree_pure.2 (hmove _ rfl)) fun _ => ?_
  refine Agree.same_bind _ fun _ _ => ?_
  refine Agree.ite Iff.rfl (fun _ => agree_pure.2 (hmove _ rfl)) fun _ => ?_
  refine Agree.same_bind _ fun _ _ => ?_
  refine Agree.ite Iff.rfl (fun _ => agree_pure.2 (hmove _ rfl)) fun _ => ?_
  refine Agree.ite Iff.rfl (fun _ => agree_pure.2 (hmove _ rfl)) fun _ => ?_
  refine (h.lm.retireLine _ f.ssd.sp h.gcLine).bind fun lm lm' hlm => ?_
  refine Agree.same_bind _ fun _ _ => hlm.takeFreeLine.bind ?_
  rintro ⟨l, lm⟩ ⟨l', lm'⟩ ⟨rfl, hl, hlm⟩
  dsimp only at hl hlm ⊢
  rw [hlm.line hl]
  refine Agree.same_bind _ fun _ _ => Agree.same_bind _ fun _ _ => ?_
  exact agree_pure.2 { h with lm := hlm, gcWp := rfl, gcLine := hl }

theorem Mirror.advanceWritePointer (h : f.Mirror f') (io : IoType) :
    Agree ConvFtl.Mirror (f.advanceWritePointer io) (f'.advanceWritePointer io) := by
  cases io with
  | user => exact h.advanceUser
  | gc => exact h.advanceGc

theorem Mirror.advanceWritePointerCleanver (h : f.Mirror f') (degree : ℕ) (counter conti : ℤ)
    (final : Bool) (random : ℕ) :
    Agree (fun r r' => r.1.Mirror r'.1 ∧ r'.2 = r.2)
      (f.advanceWritePointerCleanver degree counter conti final random)
      (f'.advanceWritePointerCleanver degree counter conti final random) := by
  unfold ConvFtl.advanceWritePointerCleanver
  dsimp only
  rw [h.dieIdx, h.ssd.sp, h.counter h.die]
  refine Agree.same_bind _ fun _ _ => ?_
  have hcount := h.count (n := f.pageCounter (f.ssd.sp.dieIdx f.wp.ch f.wp.lun) + 1)
    (f.ssd.sp.dieIdx f.wp.ch f.wp.lun)
  simp only [Function.update_self]
  refine Agree.ite Iff.rfl (fun _ => agree_pure.2 ⟨hcount.syncPg, rfl⟩) fun _ => ?_
  refine Agree.ite Iff.rfl (fun _ => agree_pure.2 ⟨hcount.syncPg, rfl⟩) fun _ => ?_
  exact Agree.bind (hcount.leaveDie _) fun _ _ hleft => agree_pure.2 ⟨hleft, by rw [h.wp]⟩

/-! ### Collections -/

theorem Mirror.gcWritePage (h : f.Mirror f') (p : Ppa) :
    Agree ConvFtl.Mirror (f.gcWritePage p) (f'.gcWritePage p) := by
  unfold ConvFtl.gcWritePage
  rw [h.getRmapEnt, h.ssd.sp, h.getNewPage]
  refine Agree.same_bind _ fun lpn _ => Agree.same_bind _ fun _ _ => ?_
  refine Agree.same_bind _ fun p _ => ((h.note _).setMaptblEnt lpn p).bind fun f f' h => ?_
  refine (h.setRmapEnt lpn p).bind fun f f' h => ?_
  exact (h.markPageValid p).bind fun f f' h => h.advanceWritePointer .gc

/-- The states of the pages decide, and they are the same. -/
theorem Mirror.cleanOneFlashpg (h : f.Mirror f') (p : Ppa) :
    Agree ConvFtl.Mirror (f.cleanOneFlashpg p) (f'.cleanOneFlashpg p) := by
  unfold ConvFtl.cleanOneFlashpg
  dsimp only
  rw [h.ssd.sp]
  refine Agree.bind (R := fun cnt cnt' : ℕ => cnt' = cnt) ?_ fun cnt cnt' hcnt => ?_
  · refine Agree.forRange (fun _ (cnt cnt' : ℕ) => cnt' = cnt) rfl fun i _ cnt cnt' hcnt => ?_
    rw [h.accessPpa]
    refine Agree.same_bind _ fun _ hp => ?_
    rw [h.ssd.status (validPpa_of_accessPpa hp), hcnt]
    exact Agree.same_bind _ fun _ _ => rfl
  · rw [hcnt]
    refine Agree.ite Iff.rfl (fun _ => agree_pure.2 h) fun _ => ?_
    refine Agree.forRange (fun _ => ConvFtl.Mirror) h fun i _ f f' h => ?_
    rw [h.accessPpa]
    refine Agree.same_bind _ fun _ hp => ?_
    rw [h.ssd.status (validPpa_of_accessPpa hp)]
    exact Agree.ite Iff.rfl (fun _ => h.gcWritePage _) fun _ => h

theorem Mirror.gcDie (h : f.Mirror f') (l flashpg ch lun : ℕ) :
    Agree ConvFtl.Mirror (f.gcDie l flashpg ch lun) (f'.gcDie l flashpg ch lun) := by
  unfold ConvFtl.gcDie
  dsimp only
  rw [h.ssd.sp]
  refine (h.cleanOneFlashpg _).bind fun f f' h => ?_
  exact Agree.ite Iff.rfl (fun _ => h.markBlockFree _) fun _ => h

/-- **A collection** picks the same victim, copies the same pages and erases the same blocks. -/
theorem Mirror.doGc (h : f.Mirror f') (force : Bool) :
    Agree (fun r r' => r.1.Mirror r'.1 ∧ r'.2 = r.2) (f.doGc force) (f'.doGc force) := by
  have hpick := h.lm.selectVictimLine f.ssd.sp force
  unfold ConvFtl.doGc
  dsimp only
  rw [h.ssd.sp]
  generalize f.lm.selectVictimLine f.ssd.sp force = a at hpick
  generalize f'.lm.selectVictimLine f.ssd.sp force = b at hpick
  rcases hpick with @⟨⟨l, lm⟩, ⟨l', lm'⟩, hl', hl, hlm⟩ | -
  · dsimp only at hl' hl hlm ⊢
    subst hl'
    rw [hlm.line hl, hlm.id hl, h.wfc]
    have hpicked : ConvFtl.Mirror
        { f with lm := lm, wfc := { f.wfc with creditsToRefill := u32 (lm.lines l').ipc } }
        { f' with lm := lm', wfc := { f.wfc with creditsToRefill := u32 (lm.lines l').ipc } } :=
      { h with lm := hlm, wfc := rfl }
    have hround : ∀ flashpg ch lun (g g' : ConvFtl), g.Mirror g' ∧ g.ssd.sp = f.ssd.sp →
        Agree (fun a b : ConvFtl => a.Mirror b ∧ a.ssd.sp = f.ssd.sp) (g.gcDie l' flashpg ch lun)
          (g'.gcDie l' flashpg ch lun) := by
      rintro flashpg ch lun g g' ⟨hg, hsp⟩
      exact ((hg.gcDie l' flashpg ch lun).and_ends (keeps_gcDie l' flashpg ch lun)).mono
        fun a b hab => ⟨hab.1, hab.2.sp.trans hsp⟩
    have hdies := Agree.forRange (n := f.ssd.sp.flashpgsPerBlk)
      (fun _ (a b : ConvFtl) => a.Mirror b ∧ a.ssd.sp = f.ssd.sp)
      ⟨hpicked.note (.victim l'), rfl⟩ fun flashpg _ _ _ h₁ =>
        Agree.forRange (n := f.ssd.sp.nchs)
          (fun _ (a b : ConvFtl) => a.Mirror b ∧ a.ssd.sp = f.ssd.sp) h₁ fun ch _ _ _ h₂ =>
            Agree.forRange (n := f.ssd.sp.lunsPerCh)
              (fun _ (a b : ConvFtl) => a.Mirror b ∧ a.ssd.sp = f.ssd.sp) h₂ fun lun _ _ _ h₃ =>
                hround flashpg ch lun _ _ h₃
    refine hdies.bind ?_
    rintro g g' ⟨hg, hsp⟩
    have hfree : l' % 2 ^ 16 < g.ssd.sp.blksPerPl := by
      rw [hsp]
      exact (Nat.mod_le _ _).trans_lt hl
    exact agree_ok.2 ⟨{ hg with lm := hg.lm.markLineFree hfree }, rfl⟩
  · exact agree_ok.2 ⟨h, rfl⟩

theorem Mirror.shouldGcHigh (h : f.Mirror f') : f'.shouldGcHigh ↔ f.shouldGcHigh := by
  unfold ConvFtl.shouldGcHigh
  rw [h.lm.freeLineCnt, h.cp]

theorem Mirror.forgroundGc (h : f.Mirror f') :
    Agree ConvFtl.Mirror f.forgroundGc f'.forgroundGc := by
  unfold ConvFtl.forgroundGc
  refine Agree.ite h.shouldGcHigh (fun _ => ?_) fun _ => agree_pure.2 h
  exact (h.doGc true).bind fun _ _ hr => agree_pure.2 hr.1

/-- The same credit is consumed. -/
theorem Mirror.consumeWriteCredit (h : f.Mirror f') :
    f.consumeWriteCredit.Mirror f'.consumeWriteCredit := by
  unfold ConvFtl.consumeWriteCredit
  dsimp only
  rw [h.wfc]
  exact { h with wfc := rfl }

/-- **The credits run out at the same time** and are refilled alike. -/
theorem Mirror.checkAndRefillWriteCredit (h : f.Mirror f') :
    Agree ConvFtl.Mirror f.checkAndRefillWriteCredit f'.checkAndRefillWriteCredit := by
  unfold ConvFtl.checkAndRefillWriteCredit
  refine Agree.ite (by rw [h.wfc]) (fun _ => ?_) fun _ => agree_pure.2 h
  refine h.forgroundGc.bind fun f f' h => ?_
  dsimp only
  rw [h.wfc]
  exact agree_pure.2 { h with wfc := rfl }

/-! ### Page writes -/

/-- The old copy becomes invalid on both sides. -/
theorem Mirror.invalidateOld (h : f.Mirror f') {held : List ℕ}
    (hh : f.lm.Homed f.ssd.sp.blksPerPl held) (p : Ppa) :
    Agree ConvFtl.Mirror (f.invalidateOld p) (f'.invalidateOld p) := by
  unfold ConvFtl.invalidateOld
  refine Agree.ite Iff.rfl (fun _ => ?_) fun _ => h
  exact (h.markPageInvalid hh p).bind fun _ _ h => h.setRmapEnt _ _

/-- **The same page is handed out** and takes the place of the same old one. -/
theorem Mirror.remapPage (h : f.Mirror f') {held : List ℕ}
    (hh : f.lm.Homed f.ssd.sp.blksPerPl held) (lpn : ℕ) :
    Agree (fun r r' => r.1.Mirror r'.1 ∧ r'.2 = r.2) (f.remapPage lpn) (f'.remapPage lpn) := by
  unfold ConvFtl.remapPage
  rw [h.getMaptblEnt]
  refine Agree.same_bind _ fun p _ => (h.invalidateOld hh p).bind fun f f' h => ?_
  rw [h.getNewPage]
  refine Agree.same_bind _ fun p _ => ((h.note _).setMaptblEnt lpn p).bind fun f f' h => ?_
  refine (h.setRmapEnt lpn p).bind fun f f' h => (h.markPageValid p).bind fun f f' h => ?_
  exact agree_ok.2 ⟨h, rfl⟩

/-- A host write, and whether it completed a one-shot page. -/
theorem Mirror.writePage (h : f.Mirror f') (hin : f.Inv) (lpn : ℕ) :
    Agree (fun r r' => r.1.Mirror r'.1 ∧ r'.2 = r.2) (f.writePage lpn) (f'.writePage lpn) := by
  obtain ⟨front, hs⟩ := hin.sound
  unfold ConvFtl.writePage
  refine (h.remapPage hs.homed lpn).bind ?_
  rintro ⟨f, p⟩ ⟨f', p'⟩ ⟨h, rfl⟩
  refine (h.advanceWritePointer .user).bind fun f f' h => ?_
  have hlast : decide (f'.lastPgInWordline p') = decide (f.lastPgInWordline p') :=
    decide_eq_decide.2 (h.lastPgInWordline p')
  dsimp only
  rw [hlast]
  exact h.consumeWriteCredit.checkAndRefillWriteCredit.bind fun f f' h => agree_ok.2 ⟨h, rfl⟩

/-- A page of the cleaner, with the budget and the turn. -/
theorem Mirror.cleanPage (h : f.Mirror f') (hin : f.Inv) (degree : ℕ) (con conti : ℤ)
    (random lpn : ℕ) :
    Agree (fun r r' => r.1.Mirror r'.1 ∧ r'.2 = r.2) (f.cleanPage degree con conti random lpn)
      (f'.cleanPage degree con conti random lpn) := by
  obtain ⟨front, hs⟩ := hin.sound
  unfold ConvFtl.cleanPage
  refine (h.remapPage hs.homed lpn).bind ?_
  rintro ⟨f, p⟩ ⟨f', p'⟩ ⟨h, rfl⟩
  refine (h.advanceWritePointerCleanver degree con conti false random).bind ?_
  rintro ⟨f, r⟩ ⟨f', r'⟩ ⟨h, rfl⟩
  exact h.consumeWriteCredit.checkAndRefillWriteCredit.bind fun f f' h => agree_ok.2 ⟨h, rfl⟩

/-- **The loop of `phfrag_cleaner`** writes the same pages and gives up its turn at the same
one. -/
theorem Mirror.phfragCleanerLoop (h : f.Mirror f') (hin : f.Inv) (a : CleanRequest)
    (n fuel i : ℕ) (con conti : ℤ) :
    Agree (fun r r' => r.1.Mirror r'.1 ∧ r'.2 = r.2) (phfragCleanerLoop a n fuel i f con conti)
      (phfragCleanerLoop a n fuel i f' con conti) := by
  induction fuel generalizing i f f' con conti with
  | zero => exact agree_ok.2 ⟨h, rfl⟩
  | succ fuel ih =>
    unfold ConvFtl.phfragCleanerLoop
    dsimp only
    refine Agree.ite Iff.rfl (fun _ => agree_pure.2 ⟨h, rfl⟩) fun _ => ?_
    rw [h.wp]
    cases a.preempted f.wp with
    | some k => exact agree_pure.2 ⟨h, rfl⟩
    | none =>
      dsimp only
      refine ((h.cleanPage hin a.degree con conti _ _).and_ends
        (hin.cleanPage a.degree con conti _ _)).bind ?_
      rintro ⟨f, con, conti, r⟩ ⟨f', con', conti', r'⟩ ⟨⟨h, hr⟩, hk⟩
      obtain ⟨rfl, rfl, rfl⟩ : con' = con ∧ conti' = conti ∧ r' = r := by simpa using hr
      cases r' with
      | some r => exact agree_pure.2 ⟨h, rfl⟩
      | none =>
        dsimp only
        rw [h.ssd.sp]
        exact Agree.ite Iff.rfl (fun _ => agree_pure.2 ⟨h, rfl⟩) fun _ => ih h hk.inv _ _ _

end ConvFtl

/-! ### Namespaces -/

namespace ConvNs

/-- **Two namespaces that are equal** in the write buffer and in the memory of every instance. -/
structure Mirror (ns ns' : ConvNs) : Prop where
  nrParts : ns'.nrParts = ns.nrParts
  writeBuffer : ns'.writeBuffer = ns.writeBuffer
  ftl : ∀ q, q < ns.nrParts → (ns.ftls q).Mirror (ns'.ftls q)

variable {ns ns' : ConvNs}

theorem Mirror.sp (h : ns.Mirror ns') (hpos : 0 < ns.nrParts) : ns'.sp = ns.sp :=
  (h.ftl 0 hpos).ssd.sp

/-- The same commands are in range. -/
theorem Mirror.range (h : ns.Mirror ns') (hpos : 0 < ns.nrParts) (slba length : ℕ) :
    ns'.endLpn slba length = ns.endLpn slba length ∧
      (ns'.inFtlRange slba length ↔ ns.inFtlRange slba length) := by
  have hend : ns'.endLpn slba length = ns.endLpn slba length := by
    unfold ConvNs.endLpn
    rw [h.sp hpos]
  refine ⟨hend, ?_⟩
  unfold ConvNs.inFtlRange
  rw [hend, h.nrParts, h.sp hpos]

/-- One instance moves on, on both sides. -/
theorem Mirror.update (h : ns.Mirror ns') {q : ℕ} {f f' : ConvFtl} (hf : f.Mirror f') :
    ConvNs.Mirror { ns with ftls := Function.update ns.ftls q f }
      { ns' with ftls := Function.update ns'.ftls q f' } where
  nrParts := h.nrParts
  writeBuffer := h.writeBuffer
  ftl := fun r hr => by
    by_cases hrq : r = q
    · subst hrq
      simpa using hf
    · simpa [hrq] using h.ftl r hr

theorem Mirror.writeLpn (h : ns.Mirror ns') (hin : ns.Inv) (lpn : ℕ) :
    Agree (fun r r' => r.1.Mirror r'.1 ∧ r'.2 = r.2) (ns.writeLpn lpn) (ns'.writeLpn lpn) := by
  have hq : lpn % ns.nrParts < ns.nrParts := Nat.mod_lt _ hin.parts_pos
  have hmod : lpn % ns'.nrParts = lpn % ns.nrParts := by rw [h.nrParts]
  have hdiv : lpn / ns'.nrParts = lpn / ns.nrParts := by rw [h.nrParts]
  unfold ConvNs.writeLpn
  dsimp only
  rw [hmod, hdiv, h.sp hin.parts_pos]
  refine ((h.ftl _ hq).writePage (hin.ftl _ hq) _).bind ?_
  rintro ⟨f, last⟩ ⟨f', last'⟩ ⟨hf, rfl⟩
  exact agree_ok.2 ⟨h.update hf, rfl⟩

/-- A page write keeps the invariant wherever the page lies. -/
theorem Inv.writeLpn_inv (h : ns.Inv) (lpn : ℕ) :
    Ends (ns.writeLpn lpn) (fun r => r.1.Inv) fun _ => True := by
  have hq : lpn % ns.nrParts < ns.nrParts := Nat.mod_lt _ h.parts_pos
  unfold ConvNs.writeLpn
  dsimp only
  cases hw : (ns.ftls (lpn % ns.nrParts)).writePage (lpn / ns.nrParts) with
  | error e => exact True.intro
  | ok r =>
    have hk := ((h.ftl _ hq).pageOp (.host (lpn / ns.nrParts))).of_ok (bind_eq_ok.2 ⟨r, hw, rfl⟩)
    exact (h.update hq hk).inv

/-- **A write command** is accepted or refused alike, schedules the same releases of the buffer and
stops with the same error. -/
theorem Mirror.convWrite (h : ns.Mirror ns') (hin : ns.Inv) (slba length : ℕ) :
    Agree (fun r r' => r.1.Mirror r'.1 ∧ r'.2 = r.2) (ns.convWrite slba length)
      (ns'.convWrite slba length) := by
  have hpos := hin.parts_pos
  obtain ⟨hend, hrange⟩ := h.range hpos slba length
  have hend' : ∀ b, ConvNs.endLpn { ns' with writeBuffer := b } slba length =
      ConvNs.endLpn { ns with writeBuffer := b } slba length := fun _ => hend
  unfold ConvNs.convWrite
  rw [defined_bind hpos, defined_bind (h.nrParts ▸ hpos)]
  dsimp only
  rw [h.writeBuffer, hend', h.sp hpos]
  refine Agree.ite (not_congr hrange) (fun _ => agree_pure.2 ⟨h, rfl⟩) fun _ => ?_
  have hbuf : ConvNs.Mirror
      { ns with writeBuffer := (bufferAllocate ns.writeBuffer (lbaToByte (length + 1))).1 }
      { ns' with writeBuffer := (bufferAllocate ns.writeBuffer (lbaToByte (length + 1))).1 } :=
    ⟨h.nrParts, rfl, h.ftl⟩
  have hin' := (hin.with_writeBuffer (bufferAllocate ns.writeBuffer (lbaToByte (length + 1))).1).inv
  refine Agree.ite Iff.rfl (fun _ => agree_pure.2 ⟨hbuf, rfl⟩) fun _ => ?_
  refine Agree.bind (R := fun s t : ConvNs × List ℕ => (s.1.Mirror t.1 ∧ s.1.Inv) ∧ t.2 = s.2)
    (Agree.forRange (fun _ (s t : ConvNs × List ℕ) => (s.1.Mirror t.1 ∧ s.1.Inv) ∧ t.2 = s.2)
      ⟨⟨hbuf, hin'⟩, rfl⟩ ?_) ?_
  · rintro i - ⟨s, rs⟩ ⟨t, rt⟩ ⟨⟨hm, hi⟩, rfl⟩
    refine ((hm.writeLpn hi _).and_ends (hi.writeLpn_inv _)).bind ?_
    rintro ⟨s, r⟩ ⟨t, r'⟩ ⟨⟨hm, rfl⟩, hi⟩
    exact agree_ok.2 ⟨⟨hm, hi⟩, rfl⟩
  · rintro ⟨s, rs⟩ ⟨t, rt⟩ ⟨⟨hm, -⟩, rfl⟩
    exact agree_pure.2 ⟨hm, rfl⟩

theorem Mirror.phfragCleaner (h : ns.Mirror ns') (hin : ns.Inv) (a : CleanRequest)
    (con conti : ℤ) :
    Agree (fun r r' => r.1.Mirror r'.1 ∧ r'.2 = r.2) (ns.phfragCleaner a con conti)
      (ns'.phfragCleaner a con conti) := by
  unfold ConvNs.phfragCleaner
  by_cases hidx : 0 < ns.nrParts ∧ a.idx < ns.nrParts
  · rw [defined_bind hidx, defined_bind (h.nrParts ▸ hidx)]
    have hparts : ConvFtl.phfragCleanerLoop a ns'.nrParts =
        ConvFtl.phfragCleanerLoop a ns.nrParts := by rw [h.nrParts]
    rw [hparts]
    refine ((h.ftl _ hidx.2).phfragCleanerLoop (hin.ftl _ hidx.2) a _ _ _ _ _).bind ?_
    rintro ⟨f, r⟩ ⟨f', r'⟩ ⟨hf, rfl⟩
    exact agree_ok.2 ⟨h.update hf, rfl⟩
  · have hstop : defined (0 < ns.nrParts ∧ a.idx < ns.nrParts) = .error .undefined := if_neg hidx
    have hstop' : defined (0 < ns'.nrParts ∧ a.idx < ns'.nrParts) = .error .undefined :=
      if_neg (h.nrParts ▸ hidx)
    rw [hstop, hstop']
    exact rfl

/-- **Every operation** ends alike. -/
theorem Mirror.exec (h : ns.Mirror ns') (hin : ns.Inv) (op : ConvOp) :
    Agree ConvNs.Mirror (ns.exec op) (ns'.exec op) := by
  cases op with
  | write slba length =>
    exact (h.convWrite hin slba length).bind fun r r' hr => agree_ok.2 hr.1
  | release size =>
    have hbuf : bufferRelease ns'.writeBuffer size = bufferRelease ns.writeBuffer size := by
      rw [h.writeBuffer]
    exact agree_ok.2 ⟨h.nrParts, hbuf, h.ftl⟩
  | clean a con conti =>
    exact (h.phfragCleaner hin a con conti).bind fun r r' hr => agree_ok.2 hr.1

/-- **Every run of operations** ends alike. -/
theorem Mirror.runList (h : ns.Mirror ns') (hin : ns.Inv) (ops : List ConvOp) :
    Agree ConvNs.Mirror (runList ConvNs.exec ns ops) (runList ConvNs.exec ns' ops) := by
  have hstep : ∀ (op : ConvOp) (s t : ConvNs), s.Mirror t ∧ s.Inv →
      Agree (fun s t : ConvNs => s.Mirror t ∧ s.Inv) (s.exec op) (t.exec op) := by
    rintro op s t ⟨hm, hi⟩
    exact ((hm.exec hi op).and_ends (hi.exec op)).mono fun a b hab => ⟨hab.1, hab.2.inv⟩
  exact (Agree.runList hstep ops ⟨h, hin⟩).mono fun _ _ hab => hab.1

/-- The pages of a read are looked up in the same table. -/
theorem Mirror.readPart (h : ns.Mirror ns') (hpos : 0 < ns.nrParts) (startLpn endLpn : ℕ)
    (reads : List NandRead) :
    ns'.readPart startLpn endLpn reads = ns.readPart startLpn endLpn reads := by
  have hq : startLpn % ns.nrParts < ns.nrParts := Nat.mod_lt _ hpos
  unfold ConvNs.readPart
  simp only [h.nrParts, (h.ftl _ hq).getMaptblEnt, (h.ftl _ hq).ssd.sp]

/-- **A read command** issues the same NAND reads. -/
theorem Mirror.convRead (h : ns.Mirror ns') (hpos : 0 < ns.nrParts) (slba length : ℕ) :
    ns'.convRead slba length = ns.convRead slba length := by
  obtain ⟨hend, hrange⟩ := h.range hpos slba length
  unfold ConvNs.convRead
  rw [defined_bind hpos, defined_bind (h.nrParts ▸ hpos)]
  by_cases hin : ns.inFtlRange slba length
  · simp only [hrange.2 hin, hin, h.nrParts, h.sp hpos, hend, h.readPart hpos]
  · simp only [mt hrange.1 hin, hin, not_false_eq_true, if_pos]

end ConvNs

/-! ### Devices -/

namespace ConvFtl

variable {f f' : ConvFtl} {front : ℕ × ℕ → ℕ → ℕ}

/-- The instance `f` with what a snapshot does not bring back taken from `old`: the thresholds of
the collections and the write credits. -/
def hosted (f old : ConvFtl) : ConvFtl := { f with cp := old.cp, wfc := old.wfc }

theorem Sound.hosted (h : f.Sound [] front) (old : ConvFtl) : (f.hosted old).Sound [] front where
  geom := h.geom
  homed := h.homed
  nand := h.nand
  stats := h.stats
  ptr := fun io => by
    cases io
    · exact h.ptr .user
    · exact h.ptr .gc
  free := h.free
  closed := h.closed
  history := h.history
  run := fun io => by
    cases io
    · exact h.run .user
    · exact h.run .gc

/-- Neither is in the snapshot. -/
theorem SnapshotEq.hosted (e : f.SnapshotEq f') (old : ConvFtl) :
    (f.hosted old).SnapshotEq f' where
  sp := e.sp
  page := e.page
  block := e.block
  wp := e.wp
  gcWp := e.gcWp
  curline := fun io => by
    cases io
    · exact e.curline .user
    · exact e.curline .gc
  maptbl := e.maptbl
  rmap := e.rmap
  pageCounter := e.pageCounter
  lines := e.lines
  freeLineList := e.freeLineList
  fullLineList := e.fullLineList
  heap := e.heap
  ttLines := e.ttLines
  freeLineCnt := e.freeLineCnt
  victimLineCnt := e.victimLineCnt
  fullLineCnt := e.fullLineCnt

/-- Neither is part of the invariant. -/
theorem Inv.hosted (h : f.Inv) (old : ConvFtl) : (f.hosted old).Inv := by
  obtain ⟨front, hs⟩ := h.sound
  exact ⟨⟨front, hs.hosted old⟩, h.map, h.written⟩

end ConvFtl

namespace ConvDevice

variable {calls : FileCalls} {fuel : ℕ} {d old : ConvDevice} {ns₀ : ConvNs}

/-- The namespace of `d` with the thresholds, the write credits and the write buffer of `old`. -/
def hosted (d old : ConvDevice) : ConvNs :=
  { d.ns with
    ftls := fun q => (d.ns.ftls q).hosted (old.ns.ftls q)
    writeBuffer := old.ns.writeBuffer }

theorem Inv.hosted (h : d.Inv) (old : ConvDevice) : (d.hosted old).Inv where
  parts_pos := h.ns.parts_pos
  ftl := fun q hq => (h.ns.ftl q hq).hosted _
  sp := h.ns.sp

/-- A run of commands leads to a reachable device. -/
theorem Reachable.execs (h : Reachable calls fuel ns₀ d) {ops : List ConvOp} {ns : ConvNs}
    (hrun : runList ConvNs.exec d.ns ops = .ok ns) :
    Reachable calls fuel ns₀ { d with ns := ns } := by
  induction ops generalizing d with
  | nil =>
    cases hrun
    exact h
  | cons op ops ih =>
    rw [runList_cons] at hrun
    obtain ⟨ns₁, hop, hrun⟩ := bind_eq_ok.1 hrun
    exact ih (d := { d with ns := ns₁ }) (h.exec hop) hrun

/-- The device `old` has the thresholds, the write credits and the write buffer of `d`. -/
structure SameCredits (d old : ConvDevice) : Prop where
  writeBuffer : old.ns.writeBuffer = d.ns.writeBuffer
  cp : ∀ q, q < d.ns.nrParts → (old.ns.ftls q).cp = (d.ns.ftls q).cp
  wfc : ∀ q, q < d.ns.nrParts → (old.ns.ftls q).wfc = (d.ns.ftls q).wfc

/-- The instances of a device and of its snapshot loaded over `old`. -/
theorem Inv.snapshotEq_restored (h : d.Inv) (hcfg : d.SameConfig old) {q : ℕ}
    (hq : q < d.ns.nrParts) : ∃ front, (d.ns.ftls q).Sound [] front ∧
      (d.ns.ftls q).SnapshotEq ((d.restored old fun q => (d.ns.ftls q).log).ns.ftls q) ∧
      ((d.restored old fun q => (d.ns.ftls q).log).ns.ftls q).cp = (old.ns.ftls q).cp ∧
      ((d.restored old fun q => (d.ns.ftls q).log).ns.ftls q).wfc = (old.ns.ftls q).wfc ∧
      ((d.restored old fun q => (d.ns.ftls q).log).ns.ftls q).log = (d.ns.ftls q).log := by
  obtain ⟨front, hs⟩ := (h.ns.ftl q hq).sound
  have hftl : (d.restored old fun q => (d.ns.ftls q).log).ns.ftls q =
      (d.ns.ftls q).restored (old.ns.ftls q) (d.ns.ftls q).log := if_pos hq
  rw [hftl]
  exact ⟨front, hs, hs.restored (hcfg.sp q hq), rfl, rfl, rfl⟩

/-- **What a snapshot brings back** is the device, but for the credits and the buffer. -/
theorem Inv.mirror_restored (h : d.Inv) (hcfg : d.SameConfig old) :
    (d.hosted old).Mirror (d.restored old fun q => (d.ns.ftls q).log).ns where
  nrParts := hcfg.nrParts
  writeBuffer := rfl
  ftl := fun q hq => by
    obtain ⟨front, hs, he, hcp, hwfc, hlog⟩ := h.snapshotEq_restored hcfg hq
    exact (hs.hosted _).mirror (he.hosted _) hcp hwfc hlog

/-- With the same credits it is the device. -/
theorem Inv.mirror_sameCredits (h : d.Inv) (hcfg : d.SameConfig old) (hc : d.SameCredits old) :
    d.ns.Mirror (d.restored old fun q => (d.ns.ftls q).log).ns where
  nrParts := hcfg.nrParts
  writeBuffer := hc.writeBuffer
  ftl := fun q hq => by
    obtain ⟨front, hs, he, hcp, hwfc, hlog⟩ := h.snapshotEq_restored hcfg hq
    exact hs.mirror he (hcp.trans (hc.cp q hq)) (hwfc.trans (hc.wfc q hq)) hlog

/-- **A snapshot brings back everything but the write credits and the write buffer.**  The device
it is loaded into, which has to have its tables, does what the saved one would do with the credits and the buffer of the other:
after every sequence of operations both have handed out the same pages, picked the same victims and
erased the same blocks and answer every read alike, or both have stopped with the same error.
Where the credits and the buffer are equal, that is what the saved device itself does. -/
theorem Reachable.loadDevice_lockstep (hcalls : calls.Transfers) (hfuel : pageSize < fuel)
    {size : ℕ} {cfg : FtlConfigs} (hinit : convInitNamespace size cfg = .ok ns₀)
    (hfit : ns₀.sp.FitsPpa) (h : Reachable calls fuel ns₀ d) (hcfg : d.SameConfig old)
    (hlive : old.removed = false) (fresh : ℕ → UInt8) {posRoom : ℕ} (hroom : 8 ≤ posRoom)
    (lineAddr lineAddr' : ℕ → ℕ) :
    ∃ o d', d.saveDevice calls fuel lineAddr (.ok ()) = (o, .returns 0) ∧
      old.loadDevice calls fuel fresh posRoom lineAddr' (fun q => (d.ns.ftls q).log) (.ok o.bytes) =
        .ok (d', 0) ∧
      (∀ ops, Agree (fun s s' => s.Mirror s' ∧ ∀ slba length,
          s'.convRead slba length = s.convRead slba length)
        (runList ConvNs.exec (d.hosted old) ops) (runList ConvNs.exec d'.ns ops)) ∧
      (d.SameCredits old → ∀ ops, Agree (fun s s' => s.Mirror s' ∧ ∀ slba length,
          s'.convRead slba length = s.convRead slba length)
        (runList ConvNs.exec d.ns ops) (runList ConvNs.exec d'.ns ops)) := by
  have hin := h.inv hcalls hfuel hinit hfit
  obtain ⟨o, hsave, hload⟩ := loadDevice_saveDevice hcalls hfuel fresh hroom lineAddr lineAddr'
    (fun q => (d.ns.ftls q).log) (fun q hq => hin.fits hq) hcfg hlive
  have hreads : ∀ {ns ns' : ConvNs}, ns.Mirror ns' → ns.Inv → ∀ ops,
      Agree (fun s s' => s.Mirror s' ∧ ∀ slba length,
          s'.convRead slba length = s.convRead slba length)
        (runList ConvNs.exec ns ops) (runList ConvNs.exec ns' ops) := by
    intro ns ns' hm hi ops
    refine ((hm.runList hi ops).and_ends (hi.run ops)).mono fun s s' hs => ⟨hs.1, ?_⟩
    exact hs.1.convRead hs.2.inv.parts_pos
  exact ⟨o, _, hsave, hload, hreads (hin.mirror_restored hcfg) (hin.hosted old),
    fun hc => hreads (hin.mirror_sameCredits hcfg hc) hin.ns⟩

/-- A device with one credit left is loaded into a fresh one, which has two: the loaded device
collects one write later than the saved one, and does what the saved one would have done with two
credits. -/
theorem Reachable.loadDevice_lockstep_tiny : ∃ (d old d' : ConvDevice) (o : OpenFile)
    (s s' t : ConvNs),
    d.saveDevice .whole (pageSize + 1) (fun l => l) (.ok ()) = (o, .returns 0) ∧
      old.loadDevice .whole (pageSize + 1) (fun _ => 9) 8 (fun l => l + 64)
        (fun q => (d.ns.ftls q).log) (.ok o.bytes) = .ok (d', 0) ∧
      runList ConvNs.exec (d.hosted old) [.write 8 7, .release 4096, .write 8 7] = .ok s ∧
      runList ConvNs.exec d'.ns [.write 8 7, .release 4096, .write 8 7] = .ok s' ∧
      s.Mirror s' ∧ .victim 0 ∈ (s'.ftls 0).log ∧
      runList ConvNs.exec d.ns [.write 8 7, .release 4096, .write 8 7] = .ok t ∧
      (t.ftls 0).log ≠ (s'.ftls 0).log := by
  obtain ⟨ns₀, hinit, hp⟩ := exists_ok_of_any (x := convInitNamespace tinySize tinyConfigs)
    (p := fun ns₀ : ConvNs =>
      decide ((ns₀.sp.nchs ≤ 2 ^ 8 ∧ ns₀.sp.lunsPerCh ≤ 2 ^ 8) ∧
        ns₀.sp.blksPerPl ≤ 2 ^ 16 ∧ ns₀.sp.pgsPerBlk ≤ 2 ^ 16) &&
      (runList ConvNs.exec ns₀ [.write 0 15, .release 8192, .write 0 7, .release 4096]).toOption.any
        fun ns : ConvNs =>
          (runList ConvNs.exec (ConvDevice.hosted ⟨ns, tinySize, fun _ => 5, false⟩
            ⟨ns₀, tinySize, fun _ => 7, false⟩)
            [.write 8 7, .release 4096, .write 8 7]).toOption.any fun s : ConvNs =>
          (runList ConvNs.exec ns [.write 8 7, .release 4096, .write 8 7]).toOption.any
            fun t : ConvNs => decide (.victim 0 ∈ (s.ftls 0).log ∧
              (t.ftls 0).log ≠ (s.ftls 0).log)) (by decide +kernel)
  obtain ⟨hfits, hp⟩ := Bool.and_eq_true_iff.1 hp
  obtain ⟨⟨hnchs, hluns⟩, hblks, hpgs⟩ := of_decide_eq_true hfits
  obtain ⟨ns, hrun, hp⟩ := exists_ok_of_any hp
  obtain ⟨s, hs, hp⟩ := exists_ok_of_any hp
  obtain ⟨t, ht, hp⟩ := exists_ok_of_any hp
  obtain ⟨hvictim, hne⟩ := of_decide_eq_true hp
  have hfit : ns₀.sp.FitsPpa := ⟨hnchs, hluns, hblks, hpgs⟩
  have h₀ := (convInitNamespace_inv hinit hfit).1
  have hk := (h₀.run _).of_ok hrun
  have hcfg : ConvDevice.SameConfig ⟨ns, tinySize, fun _ => 5, false⟩
      ⟨ns₀, tinySize, fun _ => 7, false⟩ := ⟨hk.nrParts.symm, rfl, fun q hq => by
    rw [hk.inv.sp q hq, hk.sp, h₀.sp q (hk.nrParts ▸ hq)]⟩
  have hd : ConvDevice.Reachable .whole (pageSize + 1) ns₀ ⟨ns, tinySize, fun _ => 5, false⟩ :=
    ConvDevice.Reachable.init.execs hrun
  obtain ⟨o, d', hsave, hload, hsteps, -⟩ := hd.loadDevice_lockstep FileCalls.whole_transfers
    (Nat.lt_succ_self pageSize) hinit hfit hcfg rfl (fun _ => 9) le_rfl (fun l => l) (fun l => l + 64)
  obtain ⟨s', hs', hm, -⟩ := (hsteps [.write 8 7, .release 4096, .write 8 7]).of_ok hs
  have hin := hd.inv FileCalls.whole_transfers (Nat.lt_succ_self pageSize) hinit hfit
  have hparts : 0 < s.nrParts := (((hin.hosted _).run _).of_ok hs).inv.parts_pos
  have hlog := (hm.ftl 0 hparts).log
  exact ⟨_, _, d', o, s, s', t, hsave, hload, hs, hs', hm, hlog ▸ hvictim, ht, hlog ▸ hne⟩

end ConvDevice

end NvmeVirt
