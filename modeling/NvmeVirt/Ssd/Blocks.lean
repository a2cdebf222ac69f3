/-
# Blocks that are written in order

`BlockOk spp b k` says that the first `k` pages of the block are written, the
rest free, and that the block's counters count its valid and invalid pages.
Marking the next page valid, marking a valid page invalid and erasing are the
three things that happen to a block.
-/

import NvmeVirt.Ssd.Geometry
import NvmeVirt.Lib.Sums

namespace NvmeVirt

/-- The number of pages of a block with a status. -/
def NandBlock.count (b : NandBlock) (n : ℕ) (st : PgStatus) : ℕ :=
  ((Finset.range n).filter fun i => (b.pg i).status = st).card

/-- The first `k` pages of the block are written, and its counters are right. -/
structure BlockOk (spp : Ssdparams) (b : NandBlock) (k : ℕ) : Prop where
  le : k ≤ spp.pgsPerBlk
  free : ∀ i, i < spp.pgsPerBlk → ((b.pg i).status = .free ↔ k ≤ i)
  nsecs : ∀ i, i < spp.pgsPerBlk → (b.pg i).nsecs = spp.secsPerPg
  npgs : b.npgs = spp.pgsPerBlk
  vpc : b.vpc = b.count spp.pgsPerBlk .valid
  ipc : b.ipc = b.count spp.pgsPerBlk .invalid

/-- The block with the status of page `i` changed. -/
def NandBlock.setStatus (b : NandBlock) (i : ℕ) (st : PgStatus) : NandBlock :=
  { b with pg := Function.update b.pg i { b.pg i with status := st } }

namespace NandBlock

variable {b : NandBlock} {i j n : ℕ} {st : PgStatus}

@[simp] theorem setStatus_status_self : ((b.setStatus i st).pg i).status = st := by
  simp [setStatus]

theorem setStatus_status_ne (hj : j ≠ i) :
    ((b.setStatus i st).pg j).status = (b.pg j).status := by
  simp [setStatus, hj]

@[simp] theorem setStatus_nsecs : ((b.setStatus i st).pg j).nsecs = (b.pg j).nsecs := by
  by_cases hj : j = i
  · subst hj; simp [setStatus]
  · simp [setStatus, hj]

/-- The status a page gets is counted once more. -/
theorem count_setStatus_new (st : PgStatus) (hi : i < n) (hst : (b.pg i).status ≠ st) :
    (b.setStatus i st).count n st = b.count n st + 1 :=
  Sums.card_filter_add_one (Finset.mem_range.2 hi)
    (fun j hj => by rw [setStatus_status_ne hj]) hst setStatus_status_self

/-- The status a page loses is counted once less. -/
theorem count_setStatus_old (st : PgStatus) (hi : i < n) (hst : (b.pg i).status ≠ st) :
    b.count n (b.pg i).status = (b.setStatus i st).count n (b.pg i).status + 1 :=
  Sums.card_filter_add_one (Finset.mem_range.2 hi)
    (fun j hj => by rw [setStatus_status_ne hj]) (by simpa using hst.symm) rfl

/-- Other statuses are counted as before. -/
theorem count_setStatus_other (st st' : PgStatus) (h1 : st' ≠ st) (h2 : (b.pg i).status ≠ st') :
    (b.setStatus i st).count n st' = b.count n st' := by
  unfold count
  congr 1
  ext j
  by_cases hj : j = i
  · subst hj; simp [h1.symm, h2]
  · simp [setStatus_status_ne hj]

end NandBlock

namespace BlockOk

variable {spp : Ssdparams} {b : NandBlock} {k i : ℕ}

/-- **The counters add up to the pages written.** -/
theorem vpc_add_ipc (h : BlockOk spp b k) : b.vpc + b.ipc = k := by
  rw [h.vpc, h.ipc, NandBlock.count, NandBlock.count, ← Finset.card_union_of_disjoint]
  · have hk : (Finset.range spp.pgsPerBlk).filter (fun i => (b.pg i).status = .valid) ∪
        (Finset.range spp.pgsPerBlk).filter (fun i => (b.pg i).status = .invalid)
        = Finset.range k := by
      ext i
      simp only [Finset.mem_union, Finset.mem_filter, Finset.mem_range]
      have hle := h.le
      constructor
      · rintro (⟨hi, hs⟩ | ⟨hi, hs⟩)
        · have := h.free i hi
          rw [hs] at this
          by_contra hki
          exact absurd (this.2 (by omega)) (by decide)
        · have := h.free i hi
          rw [hs] at this
          by_contra hki
          exact absurd (this.2 (by omega)) (by decide)
      · intro hi
        have hi' : i < spp.pgsPerBlk := by omega
        have := h.free i hi'
        cases hs : (b.pg i).status with
        | free => exact absurd (this.1 hs) (by omega)
        | invalid => exact .inr ⟨hi', rfl⟩
        | valid => exact .inl ⟨hi', rfl⟩
    rw [hk, Finset.card_range]
  · rw [Finset.disjoint_filter]
    intro i _ h1 h2
    rw [h1] at h2
    cases h2

/-- A valid page has been written. -/
theorem lt_of_valid (h : BlockOk spp b k) (hi : i < spp.pgsPerBlk)
    (hs : (b.pg i).status = .valid) : i < k := by
  by_contra hk
  rw [(h.free i hi).2 (by omega)] at hs
  cases hs

theorem vpc_pos (h : BlockOk spp b k) (hi : i < spp.pgsPerBlk)
    (hs : (b.pg i).status = .valid) : 0 < b.vpc := by
  rw [h.vpc]
  exact Finset.card_pos.2 ⟨i, Finset.mem_filter.2 ⟨Finset.mem_range.2 hi, hs⟩⟩

/-- **Marking a valid page invalid.** -/
theorem invalidate (h : BlockOk spp b k) (hi : i < spp.pgsPerBlk)
    (hs : (b.pg i).status = .valid) :
    BlockOk spp { b.setStatus i .invalid with ipc := b.ipc + 1, vpc := b.vpc - 1 } k where
  le := h.le
  free := fun j hj => by
    by_cases hji : j = i
    · subst hji
      have := h.lt_of_valid hi hs
      simp only [NandBlock.setStatus_status_self]
      exact ⟨fun hc => (nomatch hc), fun hc => absurd hc (by omega)⟩
    · rw [show (({ b.setStatus i .invalid with ipc := b.ipc + 1, vpc := b.vpc - 1 } :
        NandBlock).pg j).status = (b.pg j).status from NandBlock.setStatus_status_ne hji]
      exact h.free j hj
  nsecs := fun j hj => NandBlock.setStatus_nsecs.trans (h.nsecs j hj)
  npgs := h.npgs
  vpc := by
    have hc := NandBlock.count_setStatus_old .invalid hi (by rw [hs]; decide)
    rw [hs, ← h.vpc] at hc
    show b.vpc - 1 = (b.setStatus i .invalid).count _ _
    omega
  ipc := by
    have hc := NandBlock.count_setStatus_new .invalid hi (by rw [hs]; decide)
    rw [← h.ipc] at hc
    exact hc.symm

/-- **Marking the next page valid.** -/
theorem validate (h : BlockOk spp b k) (hk : k < spp.pgsPerBlk) :
    BlockOk spp { b.setStatus k .valid with vpc := b.vpc + 1 } (k + 1) where
  le := hk
  free := fun j hj => by
    by_cases hjk : j = k
    · subst hjk
      simp only [NandBlock.setStatus_status_self]
      exact ⟨fun hc => (nomatch hc), fun hc => absurd hc (by omega)⟩
    · rw [show (({ b.setStatus k .valid with vpc := b.vpc + 1 } :
        NandBlock).pg j).status = (b.pg j).status from NandBlock.setStatus_status_ne hjk]
      have := h.free j hj
      constructor
      · intro hs
        have := this.1 hs
        omega
      · exact fun hle => this.2 (by omega)
  nsecs := fun j hj => NandBlock.setStatus_nsecs.trans (h.nsecs j hj)
  npgs := h.npgs
  vpc := by
    have hs : (b.pg k).status = .free := (h.free k hk).2 le_rfl
    have hc := NandBlock.count_setStatus_new .valid hk (by rw [hs]; decide)
    rw [← h.vpc] at hc
    exact hc.symm
  ipc := by
    have hs : (b.pg k).status = .free := (h.free k hk).2 le_rfl
    have hc := NandBlock.count_setStatus_other (b := b) (i := k) (n := spp.pgsPerBlk)
      .valid .invalid (by decide) (by rw [hs]; decide)
    rw [← h.ipc] at hc
    exact hc.symm

/-- A block of free pages with cleared counters. -/
theorem erased (hfree : ∀ i, i < spp.pgsPerBlk → (b.pg i).status = .free)
    (hnsecs : ∀ i, i < spp.pgsPerBlk → (b.pg i).nsecs = spp.secsPerPg)
    (hnpgs : b.npgs = spp.pgsPerBlk) (hv : b.vpc = 0) (hi : b.ipc = 0) : BlockOk spp b 0 where
  le := Nat.zero_le _
  free := fun i hi => ⟨fun _ => Nat.zero_le i, fun _ => hfree i hi⟩
  nsecs := hnsecs
  npgs := hnpgs
  vpc := by
    rw [hv, eq_comm, NandBlock.count, Finset.card_eq_zero, Finset.filter_eq_empty_iff]
    intro i hi hs
    rw [hfree i (Finset.mem_range.1 hi)] at hs
    cases hs
  ipc := by
    rw [hi, eq_comm, NandBlock.count, Finset.card_eq_zero, Finset.filter_eq_empty_iff]
    intro i hi hs
    rw [hfree i (Finset.mem_range.1 hi)] at hs
    cases hs

theorem init (spp : Ssdparams) : BlockOk spp (ssdInitNandBlk spp) 0 :=
  erased (fun _ _ => rfl) (fun _ _ => rfl) rfl rfl rfl

end BlockOk

end NvmeVirt
