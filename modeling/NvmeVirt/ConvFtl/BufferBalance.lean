/-
# The balance of the write buffer

`conv_write` takes the bytes of a command from the write buffer and schedules
the bytes of a one-shot page for release whenever one of its pages completes it.
What is taken and not scheduled is then what the incomplete one-shot pages under
the user write pointers hold, in every run of writes of whole pages.
-/

import NvmeVirt.ConvFtl.Reachable

namespace NvmeVirt

open Outcome

namespace ConvFtl

variable {f g h : ConvFtl} {ppa : Ppa} {lpn : ℕ}

/-! ### What leaves the user write pointer alone -/

/-- The user write pointer and its page counters are the same. -/
structure KeepsUser (f g : ConvFtl) : Prop where
  wp : g.wp = f.wp
  pageCounter : g.pageCounter = f.pageCounter
  sp : g.ssd.sp = f.ssd.sp

theorem KeepsUser.refl (f : ConvFtl) : KeepsUser f f := ⟨rfl, rfl, rfl⟩

theorem KeepsUser.trans (h₁ : KeepsUser f g) (h₂ : KeepsUser g h) : KeepsUser f h :=
  ⟨h₂.wp.trans h₁.wp, h₂.pageCounter.trans h₁.pageCounter, h₂.sp.trans h₁.sp⟩

theorem keepsUser_markPageInvalid (f : ConvFtl) (ppa : Ppa) :
    Ends (f.markPageInvalid ppa) (KeepsUser f) fun _ => True := by
  unfold markPageInvalid
  dsimp only
  refine (Ends.trivial _).bind fun _ _ => (Ends.trivial _).bind fun _ _ =>
    (Ends.trivial _).bind fun _ _ => (Ends.trivial _).bind fun _ _ =>
    (Ends.trivial _).bind fun _ _ => ⟨rfl, rfl, rfl⟩

theorem keepsUser_markPageValid (f : ConvFtl) (ppa : Ppa) :
    Ends (f.markPageValid ppa) (KeepsUser f) fun _ => True := by
  unfold markPageValid
  dsimp only
  exact (Ends.trivial _).bind fun _ _ => (Ends.trivial _).bind fun _ _ =>
    (Ends.trivial _).bind fun _ _ => (Ends.trivial _).bind fun _ _ => ⟨rfl, rfl, rfl⟩

theorem keepsUser_setRmapEnt (f : ConvFtl) (lpn : ℕ) (ppa : Ppa) :
    Ends (f.setRmapEnt lpn ppa) (KeepsUser f) fun _ => True := by
  unfold setRmapEnt
  exact (Ends.trivial _).bind fun _ _ => ⟨rfl, rfl, rfl⟩

theorem keepsUser_setMaptblEnt (f : ConvFtl) (lpn : ℕ) (ppa : Ppa) :
    Ends (f.setMaptblEnt lpn ppa) (KeepsUser f) fun _ => True := by
  unfold setMaptblEnt
  exact (Ends.trivial _).bind fun _ _ => ⟨rfl, rfl, rfl⟩

/-- The collection moves its own write pointer. -/
theorem keepsUser_advanceGc (f : ConvFtl) : Ends f.advanceGc (KeepsUser f) fun _ => True := by
  have hsame : ∀ (wp : WritePointer) (lm : LineMgmt), KeepsUser f { f with gcWp := wp, lm := lm } :=
    fun _ _ => ⟨rfl, rfl, rfl⟩
  unfold advanceGc
  dsimp only
  split_ifs
  all_goals
    repeat refine (Ends.trivial _).bind fun _ _ => ?_
    exact hsame _ _

theorem keepsUser_gcWritePage (f : ConvFtl) (ppa : Ppa) :
    Ends (f.gcWritePage ppa) (KeepsUser f) fun _ => True := by
  unfold gcWritePage
  refine (Ends.trivial _).bind fun _ _ => (Ends.trivial _).bind fun _ _ =>
    (Ends.trivial _).bind fun p _ => ?_
  dsimp only
  refine (keepsUser_setMaptblEnt _ _ _).bind fun f₁ h₁ => (keepsUser_setRmapEnt f₁ _ _).bind
    fun f₂ h₂ => (keepsUser_markPageValid f₂ _).bind fun f₃ h₃ => ?_
  have hnote : KeepsUser f f₃ := ((⟨rfl, rfl, rfl⟩ : KeepsUser f (f.note _)).trans h₁).trans
    (h₂.trans h₃)
  exact (keepsUser_advanceGc f₃).mono (fun _ h => hnote.trans h) fun _ _ => trivial

theorem keepsUser_cleanOneFlashpg (f : ConvFtl) (ppa : Ppa) :
    Ends (f.cleanOneFlashpg ppa) (KeepsUser f) fun _ => True := by
  unfold cleanOneFlashpg
  dsimp only
  refine (Ends.trivial _).bind fun cnt _ => ?_
  split_ifs
  · exact .refl f
  · refine Ends.forRange (fun _ g => KeepsUser f g) (.refl f) fun i _ g hg => ?_
    refine (Ends.trivial _).bind fun _ _ => ?_
    split_ifs
    · exact (keepsUser_gcWritePage g _).mono (fun _ h => hg.trans h) fun _ _ => trivial
    · exact hg

theorem keepsUser_gcDie (f : ConvFtl) (l flashpg ch lun : ℕ) :
    Ends (f.gcDie l flashpg ch lun) (KeepsUser f) fun _ => True := by
  unfold gcDie
  dsimp only
  refine (keepsUser_cleanOneFlashpg f _).bind fun g hg => ?_
  split_ifs
  · unfold markBlockFree
    dsimp only
    exact (Ends.trivial _).bind fun _ _ => (Ends.trivial _).bind fun _ _ =>
      (Ends.trivial _).bind fun _ _ => ⟨hg.wp, hg.pageCounter, hg.sp⟩
  · exact hg

/-- **`do_gc`** leaves the user write pointer alone. -/
theorem keepsUser_doGc (f : ConvFtl) (force : Bool) :
    Ends (f.doGc force) (fun r => KeepsUser f r.1) fun _ => True := by
  unfold doGc
  dsimp only
  cases f.lm.selectVictimLine f.ssd.sp force with
  | none => exact .refl f
  | some v =>
    obtain ⟨l, lm⟩ := v
    dsimp only
    refine Ends.bind (Q := KeepsUser f) ?_ fun g hg => ⟨hg.wp, hg.pageCounter, hg.sp⟩
    refine Ends.forRange (fun _ g => KeepsUser f g) ⟨rfl, rfl, rfl⟩ fun i _ g hg => ?_
    refine Ends.forRange (fun _ g => KeepsUser f g) hg fun ch _ g hg => ?_
    refine Ends.forRange (fun _ g => KeepsUser f g) hg fun lun _ g hg => ?_
    exact (keepsUser_gcDie g _ _ _ _).mono (fun _ h => hg.trans h) fun _ _ => trivial

theorem keepsUser_checkAndRefillWriteCredit (f : ConvFtl) :
    Ends f.checkAndRefillWriteCredit (KeepsUser f) fun _ => True := by
  unfold checkAndRefillWriteCredit
  split_ifs
  · refine Ends.bind (Q := KeepsUser f) ?_ fun g hg => ⟨hg.wp, hg.pageCounter, hg.sp⟩
    unfold forgroundGc
    split_ifs
    · exact (keepsUser_doGc f true).bind fun r hr => hr
    · exact .refl f
  · exact .refl f

/-- **A page is remapped** to the page under the user write pointer. -/
theorem keepsUser_remapPage (f : ConvFtl) (lpn : ℕ) :
    Ends (f.remapPage lpn) (fun r => KeepsUser f r.1 ∧
      r.2 = Ppa.ofFields f.wp.ch f.wp.lun f.wp.pl f.wp.blk f.wp.pg) fun _ => True := by
  unfold remapPage
  refine (Ends.trivial _).bind fun ppa _ => ?_
  refine Ends.bind (Q := KeepsUser f) ?_ fun f₁ h₁ => ?_
  · unfold invalidateOld
    split_ifs
    · exact (keepsUser_markPageInvalid f ppa).bind fun g hg =>
        (keepsUser_setRmapEnt g _ _).mono (fun _ h => hg.trans h) fun _ _ => trivial
    · exact .refl f
  · refine Ends.bind (Q := fun p => p = Ppa.ofFields f.wp.ch f.wp.lun f.wp.pl f.wp.blk f.wp.pg) ?_
      fun p hp => ?_
    · unfold getNewPage
      dsimp only
      refine (Ends.trivial _).bind fun _ _ => ?_
      show Ppa.ofFields (f₁.getWp .user).ch _ _ _ _ = _
      rw [show f₁.getWp .user = f.wp from h₁.wp]
    · dsimp only
      refine (keepsUser_setMaptblEnt _ _ _).bind fun f₂ h₂ => (keepsUser_setRmapEnt f₂ _ _).bind
        fun f₃ h₃ => (keepsUser_markPageValid f₃ _).bind fun f₄ h₄ => ⟨?_, hp⟩
      exact (h₁.trans ((⟨rfl, rfl, rfl⟩ : KeepsUser f₁ (f₁.note _)).trans h₂)).trans (h₃.trans h₄)

/-! ### The incomplete one-shot page -/

/-- **Only one one-shot page is incomplete:** the counter of the die the user write pointer stands
on is the page it stands on, and the pages of the other dies end with a one-shot page. -/
structure OneOpen (f : ConvFtl) : Prop where
  pg : f.wp.pg = f.pageCounter (f.ssd.sp.dieIdx f.wp.ch f.wp.lun)
  others : ∀ i, i ≠ f.ssd.sp.dieIdx f.wp.ch f.wp.lun →
    f.pageCounter i % f.ssd.sp.pgsPerOneshotpg = 0

/-- The pages written to the incomplete one-shot page. -/
def openPages (f : ConvFtl) : ℕ := f.wp.pg % f.ssd.sp.pgsPerOneshotpg

theorem OneOpen.keepsUser (ho : f.OneOpen) (hk : KeepsUser f g) : g.OneOpen := by
  obtain ⟨hpg, hothers⟩ := ho
  constructor <;> rw [hk.wp, hk.sp, hk.pageCounter] <;> assumption

theorem KeepsUser.openPages (hk : KeepsUser f g) : g.openPages = f.openPages := by
  unfold ConvFtl.openPages
  rw [hk.wp, hk.sp]

/-- The user write pointer leaves its die with all one-shot pages complete. -/
theorem oneOpen_leaveDie (fn : Fn) (hall : ∀ i, f.pageCounter i % f.ssd.sp.pgsPerOneshotpg = 0) :
    Ends (f.leaveDie fn) (fun f' => f'.OneOpen ∧ f'.openPages = 0 ∧ f'.ssd.sp = f.ssd.sp)
      fun _ => True := by
  have hsync : ∀ g : ConvFtl, g.ssd.sp = f.ssd.sp →
      (∀ i, g.pageCounter i % f.ssd.sp.pgsPerOneshotpg = 0) →
      g.syncPg.OneOpen ∧ g.syncPg.openPages = 0 ∧ g.syncPg.ssd.sp = f.ssd.sp := by
    intro g hsp hg
    refine ⟨⟨rfl, fun i _ => ?_⟩, ?_, hsp⟩
    · show g.pageCounter i % g.ssd.sp.pgsPerOneshotpg = 0
      rw [hsp]
      exact hg i
    · show g.pageCounter _ % g.ssd.sp.pgsPerOneshotpg = 0
      rw [hsp]
      exact hg _
  unfold leaveDie
  dsimp only
  refine (Ends.trivial _).bind fun found _ => ?_
  cases found with
  | some d => exact hsync _ rfl hall
  | none =>
    dsimp only
    refine Ends.bind (Q := fun cnt : ℕ → ℕ => ∀ i, cnt i % f.ssd.sp.pgsPerOneshotpg = 0) ?_
      fun cnt hcnt =>
      (Ends.trivial _).bind fun _ _ => (Ends.trivial _).bind fun _ _ =>
      (Ends.trivial _).bind fun _ _ => (Ends.trivial _).bind fun _ _ =>
      (Ends.trivial _).bind fun _ _ => hsync _ rfl hcnt
    -- a counter that is reset is 0
    refine Ends.forRange (fun _ (cnt : ℕ → ℕ) => ∀ i, cnt i % f.ssd.sp.pgsPerOneshotpg = 0) hall
      fun _ _ cnt hcnt => ?_
    refine Ends.forRange (fun _ (cnt : ℕ → ℕ) => ∀ i, cnt i % f.ssd.sp.pgsPerOneshotpg = 0) hcnt
      fun _ _ cnt hcnt => (Ends.trivial _).bind fun _ _ i => ?_
    rw [Function.update_apply]
    split_ifs
    · exact Nat.zero_mod _
    · exact hcnt i

/-- **`advance_write_pointer` for the user** counts one page more in the incomplete one-shot page, or
completes it. -/
theorem OneOpen.advanceUser (ho : f.OneOpen) :
    Ends f.advanceUser (fun f' => f'.OneOpen ∧ f'.ssd.sp = f.ssd.sp ∧
      f.wp.pg < f.ssd.sp.pgsPerBlk ∧
      f'.openPages = (f.wp.pg + 1) % f.ssd.sp.pgsPerOneshotpg) fun _ => True := by
  obtain ⟨hpg, hothers⟩ := ho
  have hself : f.nextCounter (f.ssd.sp.dieIdx f.wp.ch f.wp.lun) = f.wp.pg + 1 := by
    unfold nextCounter
    rw [Function.update_self, ← hpg]
  have hcnt : ∀ i, i ≠ f.ssd.sp.dieIdx f.wp.ch f.wp.lun →
      f.nextCounter i % f.ssd.sp.pgsPerOneshotpg = 0 := fun i hi => by
    unfold nextCounter
    rw [Function.update_of_ne hi]
    exact hothers i hi
  unfold ConvFtl.advanceUser
  dsimp only
  rw [← hpg]
  refine (show Ends (checkAddr f.wp.pg f.ssd.sp.pgsPerBlk)
    (fun _ => f.wp.pg < f.ssd.sp.pgsPerBlk) fun _ => True from ends_nvmevAssert).bind fun _ hlt => ?_
  rw [show Function.update f.pageCounter (f.ssd.sp.dieIdx f.wp.ch f.wp.lun) (f.wp.pg + 1)
    = f.nextCounter by unfold nextCounter; rw [hpg]]
  by_cases hos : (f.wp.pg + 1) % f.ssd.sp.pgsPerOneshotpg = 0
  · rw [if_neg (by rw [hself]; exact not_not.2 hos)]
    refine (oneOpen_leaveDie _ fun i => ?_).mono (fun f' hf' => ⟨hf'.1, hf'.2.2, hlt, ?_⟩)
      fun _ _ => trivial
    · by_cases hi : i = f.ssd.sp.dieIdx f.wp.ch f.wp.lun
      · subst hi
        show f.nextCounter _ % _ = 0
        rw [hself]
        exact hos
      · exact hcnt i hi
    · rw [hf'.2.1, hos]
  · rw [if_pos (by rw [hself]; exact hos)]
    refine ⟨⟨rfl, hcnt⟩, rfl, hlt, ?_⟩
    show f.nextCounter (f.ssd.sp.dieIdx f.wp.ch f.wp.lun) % f.ssd.sp.pgsPerOneshotpg = _
    rw [hself]

/-- **A round of `conv_write`:** the incomplete one-shot page has a page more, or the round completes
it. -/
theorem OneOpen.writePage (ho : f.OneOpen) (g : f.ssd.sp.Geometry) (lpn : ℕ) :
    Ends (f.writePage lpn) (fun r => r.1.OneOpen ∧ r.1.ssd.sp = f.ssd.sp ∧
      r.1.openPages + (if r.2 then f.ssd.sp.pgsPerOneshotpg else 0) = f.openPages + 1)
      fun _ => True := by
  unfold ConvFtl.writePage
  refine (keepsUser_remapPage f lpn).bind ?_
  rintro ⟨f₁, ppa⟩ ⟨h₁, hppa⟩
  dsimp only at h₁ hppa ⊢
  refine (ho.keepsUser h₁).advanceUser.bind fun f₂ ⟨ho₂, hsp₂, hlt, hopen₂⟩ => ?_
  have hcredit : KeepsUser f₂ f₂.consumeWriteCredit := ⟨rfl, rfl, rfl⟩
  refine (keepsUser_checkAndRefillWriteCredit _).bind fun f₃ h₃ => ?_
  have hk := hcredit.trans h₃
  refine ⟨ho₂.keepsUser hk, hk.sp.trans (hsp₂.trans h₁.sp), ?_⟩
  dsimp only
  rw [hk.openPages, hopen₂, h₁.wp, h₁.sp]
  rw [h₁.wp, h₁.sp] at hlt
  have hP := g.oneshotpg_pos
  have hpgs : ppa.pg = f.wp.pg := by
    have := g.fits.pgsPerBlk
    rw [hppa]
    exact Nat.mod_eq_of_lt (show f.wp.pg < 2 ^ 16 by omega)
  have hlast : f₂.lastPgInWordline ppa ↔
      f.wp.pg % f.ssd.sp.pgsPerOneshotpg = f.ssd.sp.pgsPerOneshotpg - 1 := by
    unfold lastPgInWordline
    rw [hpgs, hsp₂, h₁.sp]
  have hmod := Nat.mod_lt f.wp.pg hP
  have hdiv := Nat.div_add_mod f.wp.pg f.ssd.sp.pgsPerOneshotpg
  unfold ConvFtl.openPages
  by_cases hend : f.wp.pg % f.ssd.sp.pgsPerOneshotpg = f.ssd.sp.pgsPerOneshotpg - 1
  · have hnext : f.wp.pg + 1
        = f.ssd.sp.pgsPerOneshotpg * (f.wp.pg / f.ssd.sp.pgsPerOneshotpg + 1) := by
      rw [Nat.mul_succ]
      omega
    rw [if_pos (decide_eq_true (hlast.2 hend)), hnext, Nat.mul_mod_right]
    omega
  · have hnext : f.wp.pg + 1 = f.ssd.sp.pgsPerOneshotpg * (f.wp.pg / f.ssd.sp.pgsPerOneshotpg)
        + (f.wp.pg % f.ssd.sp.pgsPerOneshotpg + 1) := by omega
    rw [if_neg (by simpa using fun h => hend (hlast.1 h)), hnext, Nat.mul_add_mod,
      Nat.mod_eq_of_lt (by omega)]

end ConvFtl

/-! ### Write commands -/

namespace ConvNs

variable {spp : Ssdparams} {ns : ConvNs}

/-- The bytes in the incomplete one-shot pages of all instances. -/
def openBytes (ns : ConvNs) : ℕ :=
  (Finset.range ns.nrParts).sum fun q => (ns.ftls q).openPages * (ns.ftls q).ssd.sp.pgsz

/-- Each instance has the geometry and one incomplete one-shot page at most. -/
def OneOpen (spp : Ssdparams) (ns : ConvNs) : Prop :=
  ∀ q, (ns.ftls q).ssd.sp = spp ∧ (ns.ftls q).OneOpen

/-- **A page of a command:** what the incomplete one-shot pages hold and what is scheduled for
release grow by a page. -/
theorem OneOpen.writeLpn (h : ns.OneOpen spp) (g : spp.Geometry) (hparts : 0 < ns.nrParts)
    (lpn : ℕ) :
    Ends (ns.writeLpn lpn) (fun r => r.1.OneOpen spp ∧ r.1.nrParts = ns.nrParts ∧
      r.1.writeBuffer = ns.writeBuffer ∧ r.1.openBytes + r.2.sum = ns.openBytes + spp.pgsz)
      fun _ => True := by
  have hsp : ns.sp = spp := (h 0).1
  unfold ConvNs.writeLpn
  dsimp only
  set q := lpn % ns.nrParts with hq
  have hmem : q ∈ Finset.range ns.nrParts := Finset.mem_range.2 (Nat.mod_lt _ hparts)
  have hpage := (h q).2.writePage (by rw [(h q).1]; exact g) (lpn / ns.nrParts)
  rw [(h q).1] at hpage
  refine hpage.bind ?_
  rintro ⟨f, last⟩ ⟨hone, hfsp, hopen⟩
  dsimp only at hone hfsp hopen ⊢
  refine ⟨fun q' => ?_, rfl, rfl, ?_⟩
  · show (Function.update ns.ftls q f q').ssd.sp = spp ∧ (Function.update ns.ftls q f q').OneOpen
    rw [Function.update_apply]
    split_ifs
    · exact ⟨hfsp, hone⟩
    · exact h q'
  · have hsum := Sums.sum_change (f := fun q => (ns.ftls q).openPages * (ns.ftls q).ssd.sp.pgsz)
      (g := fun q' => (Function.update ns.ftls q f q').openPages
        * (Function.update ns.ftls q f q').ssd.sp.pgsz) hmem fun j _ hj => by
          rw [Function.update_of_ne hj]
    rw [Function.update_self, hfsp, (h q).1] at hsum
    have hrel : (if last then [ns.sp.pgsPerOneshotpg * ns.sp.pgsz] else []).sum
        = (if last then spp.pgsPerOneshotpg else 0) * spp.pgsz := by
      rw [hsp]
      cases last <;> simp
    have hbytes := congrArg (· * spp.pgsz) hopen
    simp only [Nat.add_mul, one_mul] at hbytes
    rw [hrel]
    unfold openBytes
    dsimp only
    omega

/-- **A write command** charges its blocks, and the incomplete one-shot pages and the releases it
schedules grow by its pages. -/
theorem OneOpen.convWrite (h : ns.OneOpen spp) (g : spp.Geometry) (slba length : ℕ) :
    Ends (ns.convWrite slba length) (fun r => r.1.OneOpen spp ∧ r.1.nrParts = ns.nrParts ∧
      ∀ releases, r.2 = some releases →
        lbaToByte (length + 1) ≤ ns.writeBuffer.remaining ∧
        r.1.writeBuffer = { ns.writeBuffer with
          remaining := ns.writeBuffer.remaining - lbaToByte (length + 1) } ∧
        r.1.openBytes + releases.sum = ns.openBytes
          + (u64 (slba + length) / spp.secsPerPg + 1 - slba / spp.secsPerPg) * spp.pgsz)
      fun _ => True := by
  have hsp : ns.sp = spp := (h 0).1
  unfold ConvNs.convWrite
  refine ends_defined.bind fun _ hparts => ?_
  dsimp only
  by_cases hrange : ns.inFtlRange slba length
  swap
  · rw [if_pos hrange]
    exact ⟨h, rfl, nofun⟩
  rw [if_neg (not_not.2 hrange)]
  set bytes := lbaToByte (length + 1)
  by_cases hroom : ns.writeBuffer.remaining < bytes
  · have hpos : 0 < bytes := by
      show 0 < (length + 1) <<< 9
      rw [Nat.shiftLeft_eq]
      omega
    have hfail : (bufferAllocate ns.writeBuffer bytes).2 = 0 := if_pos hroom
    rw [hfail, if_pos hpos]
    exact ⟨h, rfl, nofun⟩
  have halloc : bufferAllocate ns.writeBuffer bytes
      = ({ ns.writeBuffer with remaining := ns.writeBuffer.remaining - bytes }, bytes) := by
    unfold bufferAllocate
    rw [if_neg hroom]
  rw [halloc, if_neg (lt_irrefl _)]
  generalize hns : ({ ns with writeBuffer := { ns.writeBuffer with
    remaining := ns.writeBuffer.remaining - bytes } } : ConvNs) = ns₁
  obtain ⟨hone₁, hparts₁, hbuf₁, hopen₁⟩ : ns₁.OneOpen spp ∧ ns₁.nrParts = ns.nrParts ∧
      ns₁.writeBuffer = { ns.writeBuffer with
        remaining := ns.writeBuffer.remaining - bytes } ∧ ns₁.openBytes = ns.openBytes := by
    rw [← hns]
    refine ⟨fun q => h q, rfl, rfl, ?_⟩
    unfold openBytes
    dsimp only
  have hsp₁ : ns₁.sp = spp := (hone₁ 0).1
  have hend : ns₁.endLpn slba length = u64 (slba + length) / spp.secsPerPg := by
    unfold ConvNs.endLpn
    rw [hsp₁]
  rw [hsp, hend]
  refine Ends.bind (Ends.forRange (fun i s => s.1.OneOpen spp ∧ s.1.nrParts = ns.nrParts ∧
    s.1.writeBuffer = ns₁.writeBuffer ∧
    s.1.openBytes + s.2.sum = ns.openBytes + i * spp.pgsz) ⟨hone₁, hparts₁, rfl, ?_⟩ ?_) ?_
  · rw [hopen₁, List.sum_nil, Nat.zero_mul]
  · rintro i - ⟨ns₂, releases⟩ ⟨h₂, hparts₂, hbuf₂, hopen₂⟩
    dsimp only at h₂ hparts₂ hbuf₂ hopen₂ ⊢
    refine (h₂.writeLpn g (by rw [hparts₂]; exact hparts) _).bind ?_
    rintro ⟨ns₃, releases'⟩ ⟨h₃, hparts₃, hbuf₃, hopen₃⟩
    dsimp only at hopen₃ ⊢
    refine ⟨h₃, hparts₃.trans hparts₂, hbuf₃.trans hbuf₂, ?_⟩
    rw [List.sum_append, Nat.succ_mul]
    dsimp only
    omega
  · rintro ⟨ns₂, releases⟩ ⟨h₂, hparts₂, hbuf₂, hopen₂⟩
    refine ⟨h₂, hparts₂, ?_⟩
    rintro releases' ⟨⟩
    exact ⟨not_lt.1 hroom, hbuf₂.trans hbuf₁, hopen₂⟩

end ConvNs

/-! ### Runs -/

/-- A conventional namespace and the buffer releases that are scheduled. -/
structure WriteRun where
  ns : ConvNs
  pending : List ℕ

/-- A write command, or one of the scheduled releases runs. -/
inductive WriteOp
  | write (slba length : ℕ)
  | release (i : ℕ)

namespace WriteRun

variable (s : WriteRun)

/-- One step; a release that is not scheduled does nothing. -/
def exec : WriteOp → Except Fault WriteRun
  | .write slba length => do
    let (ns, releases) ← s.ns.convWrite slba length
    .ok { ns := ns, pending := s.pending ++ releases.getD [] }
  | .release i =>
    match s.pending[i]? with
    | none => .ok s
    | some size => .ok {
        ns := { s.ns with writeBuffer := bufferRelease s.ns.writeBuffer size }
        pending := s.pending.eraseIdx i }

/-- **The commands at hand:** a write is accepted. -/
def Accepted : WriteOp → Prop
  | .write slba length => slba < 2 ^ 64 ∧ length < 2 ^ 16 ∧
    ∀ r, s.ns.convWrite slba length = .ok r → r.2.isSome
  | .release _ => True

instance (op : WriteOp) : Decidable (s.Accepted op) := by
  cases op <;> unfold Accepted <;> infer_instance

/-- **The write buffer is conserved.** -/
structure Conserved : Prop where
  le : s.ns.writeBuffer.remaining ≤ s.ns.writeBuffer.size
  drained : s.pending = [] → s.ns.writeBuffer.size - s.ns.writeBuffer.remaining = s.ns.openBytes

/-- **The invariant of the write buffer.** -/
structure Balanced (spp : Ssdparams) : Prop where
  ns : s.ns.OneOpen spp
  size : s.ns.writeBuffer.size < 2 ^ 64
  balance : s.ns.writeBuffer.remaining + s.ns.openBytes + s.pending.sum = s.ns.writeBuffer.size

variable {s} {spp : Ssdparams}

theorem Balanced.conserved (h : s.Balanced spp) : s.Conserved := by
  have hb := h.balance
  refine ⟨by omega, fun hnone => ?_⟩
  rw [hnone, List.sum_nil] at hb
  omega

end WriteRun

/-- **The command is of whole pages:** it begins and ends with a page and its end does not wrap
around. -/
def WriteOp.WholePages : WriteOp → Prop
  | .write slba length => slba % 8 = 0 ∧ (length + 1) % 8 = 0 ∧ slba + length < 2 ^ 64
  | .release _ => True

instance : DecidablePred WriteOp.WholePages := fun op => by
  cases op <;> unfold WriteOp.WholePages <;> infer_instance

/-- **One step** of a run. -/
theorem WriteRun.Balanced.exec {s : WriteRun} {spp : Ssdparams} (h : s.Balanced spp)
    (g : spp.Geometry) (hpgsz : spp.pgsz = 4096) (hsecs : spp.secsPerPg = 8) {op : WriteOp}
    (hacc : s.Accepted op) (hpages : op.WholePages) :
    Ends (s.exec op) (fun s' => s'.Balanced spp) fun _ => True := by
  obtain ⟨hns, hsize, hbal⟩ := h
  cases op with
  | write slba length =>
    obtain ⟨h1, h2, h3⟩ := hpages
    refine ((hns.convWrite g slba length).with_eq).bind ?_
    rintro ⟨ns, releases⟩ ⟨⟨hone, hparts, hsome⟩, hrun⟩
    obtain ⟨rel, hrel⟩ := Option.isSome_iff_exists.1 (hacc.2.2 _ hrun)
    obtain rfl : releases = some rel := hrel
    obtain ⟨hroom, hbuf, hopen⟩ := hsome rel rfl
    dsimp only at hone hbuf hopen
    refine ⟨hone, ?_, ?_⟩ <;> dsimp only [Option.getD_some]
    · rw [hbuf]
      exact hsize
    · have hbytes : lbaToByte (length + 1) = (length + 1) * 512 := by
        unfold lbaToByte
        rw [Nat.shiftLeft_eq]
      rw [u64_of_lt h3, hsecs, hpgsz] at hopen
      rw [hbytes] at hroom hbuf
      rw [hbuf, List.sum_append]
      dsimp only
      omega
  | release i =>
    unfold WriteRun.exec
    dsimp only
    cases hi : s.pending[i]? with
    | none => exact ⟨hns, hsize, hbal⟩
    | some size =>
      have hsum : (s.pending.eraseIdx i).sum + size = s.pending.sum := by
        obtain ⟨hlt, hsize⟩ := List.getElem?_eq_some_iff.1 hi
        rw [← (List.getElem_cons_eraseIdx_perm hlt).sum_eq, List.sum_cons, hsize, add_comm]
      have hrel : (bufferRelease s.ns.writeBuffer size).remaining
          = s.ns.writeBuffer.remaining + size := u64_of_lt (by omega)
      refine ⟨hns, hsize, ?_⟩
      show (bufferRelease s.ns.writeBuffer size).remaining + s.ns.openBytes
        + (s.pending.eraseIdx i).sum = s.ns.writeBuffer.size
      omega

/-- Nothing is written to a fresh instance. -/
theorem ConvFtl.convInitFtl_oneOpen {cpp : ConvParams} {spp : Ssdparams} {f : ConvFtl}
    (h : convInitFtl cpp (ssdInit spp) = .ok f) :
    f.ssd.sp = spp ∧ f.OneOpen ∧ f.openPages = 0 := by
  unfold convInitFtl at h
  simp only [bind_eq_ok] at h
  obtain ⟨_, -, lm₀, -, ⟨wp, lm₁⟩, hwp, _, -, h⟩ := h
  have hpg : wp.pg = 0 := by
    unfold prepareWritePointer at hwp
    cases hs : lm₀.getNextFreeLine with
    | none =>
      rw [hs] at hwp
      cases hwp
    | some r =>
      rw [hs] at hwp
      cases hwp
      rfl
  cases h
  refine ⟨rfl, ⟨hpg, fun _ _ => Nat.zero_mod _⟩, ?_⟩
  unfold openPages
  dsimp only
  rw [hpg, Nat.zero_mod]

/-- **The write buffer of every run** of writes of whole pages is conserved. -/
theorem writeRun_bufferConserved (size : ℕ) (cfg : FtlConfigs) {ns : ConvNs} {s : WriteRun}
    (hinit : convInitNamespace size cfg = .ok ns) (hfit : ns.sp.FitsPpa)
    (hwb : cfg.globalWbSize < 2 ^ 31) {ops : List WriteOp}
    (hops : Along WriteRun.exec (fun s op => s.Accepted op ∧ op.WholePages)
      { ns := ns, pending := [] } ops)
    (hrun : runList WriteRun.exec { ns := ns, pending := [] } ops = .ok s) : s.Conserved := by
  unfold convInitNamespace at hinit
  simp only [bind_eq_ok] at hinit
  obtain ⟨spp, hspp, ftl, hftl, hinit⟩ := hinit
  cases hinit
  obtain ⟨-, hsecs, hpgsz⟩ := ssdInitParams_sizes hspp
  obtain ⟨hpls, htt⟩ := ConvFtl.convInitFtl_plsPerLun hspp hftl
  obtain ⟨hsp, hone⟩ := ConvFtl.convInitFtl_oneOpen hftl
  have g := ssdInitParams_geometry hspp hpls (by rwa [← hsp]) htt
  have hbuf : spp.writeBufferSize < 2 ^ 64 := by
    have hwbs : spp.writeBufferSize = cfg.globalWbSize := by
      unfold ssdInitParams at hspp
      simp only [bind_eq_ok] at hspp
      obtain ⟨_, -, _, -, _, -, _, -, _, -, _, -, _, -, _, -, _, -, _, -, _, -, _, -, _, -, hspp⟩ :=
        hspp
      cases hspp
      rfl
    omega
  refine ((Ends.runList_along (I := fun s => WriteRun.Balanced s spp)
    (fun _ _ h hop => h.exec g hpgsz hsecs hop.1 hop.2) ?_ hops).of_ok hrun).conserved
  refine ⟨fun _ => ⟨hsp, hone.1⟩, hbuf, ?_⟩
  have hopen : ∀ q ∈ Finset.range cfg.ssdPartitions, ftl.openPages * ftl.ssd.sp.pgsz = 0 :=
    fun _ _ => by rw [hone.2, Nat.zero_mul]
  show spp.writeBufferSize + (Finset.range cfg.ssdPartitions).sum
    (fun _ => ftl.openPages * ftl.ssd.sp.pgsz) + 0 = spp.writeBufferSize
  rw [Finset.sum_eq_zero hopen, add_zero, add_zero]

/-- Two pages are written, and the releases of both run. -/
theorem writeRun_bufferConserved_two : ∃ ns s, convInitNamespace tinySize tinyConfigs = .ok ns ∧
    runList WriteRun.exec { ns := ns, pending := [] } [.write 0 15, .release 1, .release 0] = .ok s ∧
    s.pending = [] ∧ s.Conserved := by
  have hcheck : (convInitNamespace tinySize tinyConfigs).toOption.any (fun ns =>
      (runList WriteRun.exec { ns := ns, pending := [] }
        [.write 0 15, .release 1, .release 0]).toOption.any fun s => decide (
          s.pending.length = 0 ∧ ns.sp.nchs ≤ 2 ^ 8 ∧ ns.sp.lunsPerCh ≤ 2 ^ 8 ∧
          ns.sp.blksPerPl ≤ 2 ^ 16 ∧ ns.sp.pgsPerBlk ≤ 2 ^ 16 ∧
          Along WriteRun.exec (fun s op => s.Accepted op ∧ op.WholePages)
            { ns := ns, pending := [] } [.write 0 15, .release 1, .release 0])) = true := by
    decide +kernel
  obtain ⟨ns, hinit, hp⟩ := exists_ok_of_any hcheck
  obtain ⟨s, hrun, hp⟩ := exists_ok_of_any hp
  obtain ⟨hnone, h1, h2, h3, h4, hops⟩ := of_decide_eq_true hp
  exact ⟨ns, s, hinit, hrun, List.length_eq_zero_iff.1 hnone,
    writeRun_bufferConserved tinySize tinyConfigs hinit ⟨h1, h2, h3, h4⟩ (by decide) hops hrun⟩

/-- **A write of one block** gives back a page: `remaining` exceeds the size of the buffer. -/
theorem writeBlock_not_conserved : ∃ ns s, convInitNamespace tinySize tinyConfigs = .ok ns ∧
    Along WriteRun.exec WriteRun.Accepted { ns := ns, pending := [] } [.write 0 0, .release 0] ∧
    runList WriteRun.exec { ns := ns, pending := [] } [.write 0 0, .release 0] = .ok s ∧
    s.ns.writeBuffer = { size := 8192, remaining := 11776 } ∧ ¬ s.Conserved := by
  have hcheck : (convInitNamespace tinySize tinyConfigs).toOption.any (fun ns =>
      (runList WriteRun.exec { ns := ns, pending := [] } [.write 0 0, .release 0]).toOption.any
        fun s => decide (s.ns.writeBuffer = { size := 8192, remaining := 11776 } ∧
          Along WriteRun.exec WriteRun.Accepted { ns := ns, pending := [] }
            [.write 0 0, .release 0])) = true := by
    decide +kernel
  obtain ⟨ns, hinit, hp⟩ := exists_ok_of_any hcheck
  obtain ⟨s, hrun, hp⟩ := exists_ok_of_any hp
  obtain ⟨hbuf, hacc⟩ := of_decide_eq_true hp
  refine ⟨ns, s, hinit, hacc, hrun, hbuf, fun h => ?_⟩
  have := h.le
  rw [hbuf] at this
  exact absurd this (by decide)

end NvmeVirt
