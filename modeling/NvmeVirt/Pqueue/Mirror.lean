/-
# Two heaps with the same contents

Two queues that agree in the slots of the heap, over stores that agree on its
elements, stay so under every operation: nothing behind the heap and nothing of
the store but its elements is ever read.
-/

import NvmeVirt.Pqueue.Positions

namespace NvmeVirt

/-- The callbacks read no more of the store than `R` relates on the elements with `P`. -/
structure PqueueOps.Respects {σ α : Type} (o : PqueueOps σ α) (P : α → Prop) (R : σ → σ → Prop) :
    Prop where
  getpri : ∀ s s' x, R s s' → P x → o.getpri s' x = o.getpri s x
  getpos : ∀ s s' x, R s s' → P x → o.getpos s' x = o.getpos s x
  setpri : ∀ s s' x p, R s s' → P x → R (o.setpri s x p) (o.setpri s' x p)
  setpos : ∀ s s' x k, R s s' → P x → R (o.setpos s x k) (o.setpos s' x k)

namespace Pqueue

/-- **`q'` is `q` in the slots of the heap,** and its elements have `P`. -/
structure Mirror {α : Type} (P : α → Prop) (q q' : Pqueue α) : Prop where
  size : q'.size = q.size
  size_pos : 1 ≤ q.size
  avail : q'.avail = q.avail
  slot : ∀ i, 1 ≤ i → i < q.size → q'.d i = q.d i
  elem : ∀ i, 1 ≤ i → i < q.size → P (q.d i)

/-- Two queues with their stores. -/
def MirrorOn {σ α : Type} (P : α → Prop) (R : σ → σ → Prop) (r r' : Pqueue α × σ) : Prop :=
  r.1.Mirror P r'.1 ∧ R r.2 r'.2

variable {σ α : Type} {o : PqueueOps σ α} {P : α → Prop} {R : σ → σ → Prop} {q q' : Pqueue α}
  {s s' : σ} {i j : ℕ} {x : α}

/-- The same element is stored on both sides. -/
theorem Mirror.setD (h : q.Mirror P q') (i : ℕ) (hx : P x) :
    (q.setD i x).Mirror P (q'.setD i x) where
  size := h.size
  size_pos := h.size_pos
  avail := h.avail
  slot := fun j hj hj' => by
    by_cases hji : j = i
    · subst hji
      rw [setD_d_self, setD_d_self]
    · rw [setD_d_ne q x hji, setD_d_ne q' x hji]
      exact h.slot j hj hj'
  elem := fun j hj hj' => by
    by_cases hji : j = i
    · subst hji
      rwa [setD_d_self]
    · rw [setD_d_ne q x hji]
      exact h.elem j hj hj'

/-- An element moves from a slot of the heap. -/
theorem Mirror.move (h : q.Mirror P q') (i : ℕ) (hj : 1 ≤ j) (hj' : j < q.size) :
    (q.setD i (q.d j)).Mirror P (q'.setD i (q'.d j)) := by
  rw [h.slot j hj hj']
  exact h.setD i (h.elem j hj hj')

/-! ### The two ways through the heap -/

theorem Mirror.bubbleUpLoop (ro : o.Respects P R) (pri fuel : ℕ) (h : q.Mirror P q')
    (hs : R s s') (hi : i < q.size) :
    MirrorOn P (fun r r' : σ × ℕ => R r.1 r'.1 ∧ r'.2 = r.2)
      (bubbleUpLoop o pri fuel q s i) (bubbleUpLoop o pri fuel q' s' i) := by
  induction fuel generalizing q q' s s' i with
  | zero => exact ⟨h, hs, rfl⟩
  | succ fuel ih =>
    by_cases h1 : 1 < i
    · have hlo : 1 ≤ i / 2 := by omega
      have hhi : i / 2 < q.size := by omega
      have helem := h.elem _ hlo hhi
      have hpri : o.getpri s' (q'.d (i / 2)) = o.getpri s (q.d (i / 2)) := by
        rw [h.slot _ hlo hhi]
        exact ro.getpri _ _ _ hs helem
      unfold Pqueue.bubbleUpLoop
      rw [hpri]
      split_ifs with hc
      · refine ih (h.move i hlo hhi) ?_ hhi
        rw [h.slot _ hlo hhi]
        exact ro.setpos _ _ _ _ hs helem
      · exact ⟨h, hs, rfl⟩
    · unfold Pqueue.bubbleUpLoop
      rw [if_neg fun hc => h1 hc.1, if_neg fun hc => h1 hc.1]
      exact ⟨h, hs, rfl⟩

theorem Mirror.maxchild (ro : o.Respects P R) (h : q.Mirror P q') (hs : R s s') (hi : 1 ≤ i) :
    maxchild o q' s' i = maxchild o q s i := by
  unfold Pqueue.maxchild
  rw [h.size]
  dsimp only
  by_cases hend : q.size ≤ 2 * i
  · rw [if_pos hend, if_pos hend]
  · rw [if_neg hend, if_neg hend]
    by_cases hlast : 2 * i + 1 < q.size
    · have hpri : ∀ j, 1 ≤ j → j < q.size → o.getpri s' (q'.d j) = o.getpri s (q.d j) :=
        fun j hj hj' => by
          rw [h.slot j hj hj']
          exact ro.getpri _ _ _ hs (h.elem j hj hj')
      rw [hpri (2 * i) (by omega) (by omega), hpri (2 * i + 1) (by omega) hlast]
    · rw [if_neg fun hc => hlast hc.1, if_neg fun hc => hlast hc.1]

theorem Mirror.percolateDownLoop (ro : o.Respects P R) (pri fuel : ℕ) (h : q.Mirror P q')
    (hs : R s s') (hi : 1 ≤ i) :
    MirrorOn P (fun r r' : σ × ℕ => R r.1 r'.1 ∧ r'.2 = r.2)
      (percolateDownLoop o pri fuel q s i) (percolateDownLoop o pri fuel q' s' i) := by
  induction fuel generalizing q q' s s' i with
  | zero => exact ⟨h, hs, rfl⟩
  | succ fuel ih =>
    unfold Pqueue.percolateDownLoop
    rw [h.maxchild ro hs hi]
    dsimp only
    by_cases hc : Pqueue.maxchild o q s i = 0
    · rw [if_neg fun hne => hne.1 hc, if_neg fun hne => hne.1 hc]
      exact ⟨h, hs, rfl⟩
    · obtain ⟨hlo, hhi⟩ := maxchild_range o q s i hc
      have hpos : 1 ≤ Pqueue.maxchild o q s i := by omega
      have helem := h.elem _ hpos hhi
      have hpri : o.getpri s' (q'.d (Pqueue.maxchild o q s i)) =
          o.getpri s (q.d (Pqueue.maxchild o q s i)) := by
        rw [h.slot _ hpos hhi]
        exact ro.getpri _ _ _ hs helem
      rw [hpri]
      split_ifs
      · refine ih (h.move i hpos hhi) ?_ hpos
        rw [h.slot _ hpos hhi]
        exact ro.setpos _ _ _ _ hs helem
      · exact ⟨h, hs, rfl⟩

theorem Mirror.bubbleUp (ro : o.Respects P R) (h : q.Mirror P q') (hs : R s s') (hi : 1 ≤ i)
    (hi' : i < q.size) : MirrorOn P R (bubbleUp o q s i) (bubbleUp o q' s' i) := by
  have helem := h.elem i hi hi'
  unfold Pqueue.bubbleUp
  dsimp only
  rw [h.slot i hi hi', ro.getpri _ _ _ hs helem]
  obtain ⟨hq, hr, hk⟩ := h.bubbleUpLoop ro (o.getpri s (q.d i)) i hs hi'
  rw [hk]
  exact ⟨hq.setD _ helem, ro.setpos _ _ _ _ hr helem⟩

/-- The moving node may stand behind the heap. -/
theorem Mirror.percolateDown (ro : o.Respects P R) (h : q.Mirror P q') (hs : R s s') (hi : 1 ≤ i)
    (hd : q'.d i = q.d i) (helem : P (q.d i)) :
    MirrorOn P R (percolateDown o q s i) (percolateDown o q' s' i) := by
  unfold Pqueue.percolateDown
  dsimp only
  rw [hd, ro.getpri _ _ _ hs helem, h.size]
  obtain ⟨hq, hr, hk⟩ := h.percolateDownLoop ro (o.getpri s (q.d i)) q.size hs hi
  rw [hk]
  exact ⟨hq.setD _ helem, ro.setpos _ _ _ _ hr helem⟩

/-! ### The operations of the queue -/

theorem Mirror.pqueueInsert (ro : o.Respects P R) (h : q.Mirror P q') (hs : R s s')
    (hx : P x) :
    MirrorOn P R (pqueueInsert o q s x) (pqueueInsert o q' s' x) := by
  have hgrown : (({ q with size := q.size + 1 } : Pqueue α).setD q.size x).Mirror P
      (({ q' with size := q.size + 1 } : Pqueue α).setD q.size x) := by
    have hslot : ∀ j, 1 ≤ j → j < q.size + 1 → j ≠ q.size → q'.d j = q.d j ∧ P (q.d j) :=
      fun j hj hj' hne => ⟨h.slot j hj (by omega), h.elem j hj (by omega)⟩
    refine ⟨rfl, Nat.le_add_left 1 _, h.avail, fun j hj hj' => ?_, fun j hj hj' => ?_⟩
    · by_cases hjs : j = q.size
      · subst hjs
        simp
      · rw [setD_d_ne _ x hjs, setD_d_ne _ x hjs]
        exact (hslot j hj hj' hjs).1
    · by_cases hjs : j = q.size
      · subst hjs
        simpa using hx
      · rw [setD_d_ne _ x hjs]
        exact (hslot j hj hj' hjs).2
  unfold Pqueue.pqueueInsert
  rw [h.size]
  exact hgrown.bubbleUp ro hs h.size_pos (Nat.lt_succ_self _)

theorem Mirror.pqueueChangePriority (ro : o.Respects P R) (lw : o.Lawful) (h : q.Mirror P q')
    (hs : R s s') (pri : ℕ) (hx : P x) (hpos : 1 ≤ o.getpos s x) (hlt : o.getpos s x < q.size) :
    MirrorOn P R (pqueueChangePriority o q s pri x) (pqueueChangePriority o q' s' pri x) := by
  have hs' := ro.setpri _ _ x pri hs hx
  unfold Pqueue.pqueueChangePriority
  simp only [lw.getpos_setpri, ro.getpri _ _ _ hs hx, ro.getpos _ _ _ hs hx]
  split_ifs
  · exact h.bubbleUp ro hs' hpos hlt
  · exact h.percolateDown ro hs' hpos (h.slot _ hpos hlt) (h.elem _ hpos hlt)

theorem Mirror.pqueuePeek (h : q.Mirror P q') : q'.pqueuePeek = q.pqueuePeek := by
  unfold Pqueue.pqueuePeek
  rw [h.size]
  have hsz := h.size_pos
  by_cases h1 : q.size = 1
  · rw [if_pos h1, if_pos h1]
  · rw [if_neg h1, if_neg h1, h.slot 1 le_rfl (by omega)]

/-- The last element takes the place of the first and sinks. -/
theorem Mirror.pqueuePop (ro : o.Respects P R) (h : q.Mirror P q') (hs : R s s') :
    MirrorOn P R (pqueuePop o q s).2 (pqueuePop o q' s').2 := by
  unfold Pqueue.pqueuePop
  rw [h.size]
  have hsz := h.size_pos
  by_cases h1 : q.size = 1
  · rw [if_pos h1, if_pos h1]
    exact ⟨h, hs⟩
  · rw [if_neg h1, if_neg h1]
    have hlast := h.elem (q.size - 1) (by omega) (by omega)
    have hshrunk : ({ q with size := q.size - 1 } : Pqueue α).Mirror P
        ({ q' with size := q.size - 1 } : Pqueue α) :=
      ⟨rfl, by dsimp only; omega, h.avail,
        fun j hj hj' => h.slot j hj (by dsimp only at hj'; omega),
        fun j hj hj' => h.elem j hj (by dsimp only at hj'; omega)⟩
    have hmoved := hshrunk.setD 1 hlast
    dsimp only at hmoved ⊢
    rw [h.slot (q.size - 1) (by omega) (by omega)]
    exact hmoved.percolateDown ro hs le_rfl (by simp) (by simpa using hlast)

end Pqueue

end NvmeVirt
