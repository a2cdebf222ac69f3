/-
# Removal from the priority queue

`pqueue_remove` lets the last element take the slot of the element that goes, and
moves it up or down from there.  The driver never calls it.  An element that goes
may be the last itself: then it is stored over itself behind the end of the
queue, which changes nothing.
-/

import NvmeVirt.Pqueue.Order

namespace NvmeVirt

open BinaryHeap

namespace Pqueue

variable {σ α : Type} {o : PqueueOps σ α} {q : Pqueue α} {s : σ} {x : α}

/-- `pqueue_size`. -/
def pqueueSize (q : Pqueue α) : ℕ := q.size - 1

/-- `pqueue_remove`. -/
def pqueueRemove (o : PqueueOps σ α) (q : Pqueue α) (s : σ) (x : α) : Pqueue α × σ :=
  let posn := o.getpos s x
  let q := { q with size := q.size - 1 }.setD posn (q.d (q.size - 1))
  if o.cmppri (o.getpri s x) (o.getpri s (q.d posn)) then bubbleUp o q s posn
  else percolateDown o q s posn

/-- `pqueue_remove` moves the last element up or down from the slot of the element that goes. -/
theorem pqueueRemove_eq (o : PqueueOps σ α) (q : Pqueue α) (s : σ) (x : α) :
    pqueueRemove o q s x =
      if o.cmppri (o.getpri s x) (o.getpri s (q.d (q.size - 1))) then
        bubbleUp o (q.takeLast (o.getpos s x)) s (o.getpos s x)
      else percolateDown o (q.takeLast (o.getpos s x)) s (o.getpos s x) := by
  unfold pqueueRemove
  simp only [setD_d_self]
  rfl

/-- The last element is not moved up over itself. -/
theorem pqueueRemove_last (mf : o.MinFirst) (hp : Placed o q s) (hx : q.Mem x)
    (hlast : q.size = o.getpos s x + 1) :
    pqueueRemove o q s x = percolateDown o (q.takeLast (o.getpos s x)) s (o.getpos s x) := by
  obtain ⟨-, -, hd⟩ := hp.d_getpos hx
  rw [pqueueRemove_eq, show q.size - 1 = o.getpos s x by omega, hd, if_neg]
  exact fun h => (lt_irrefl _) ((mf.cmppri_iff _ _).1 h)

/-- **`pqueue_remove` takes the element off and keeps the others placed.** -/
theorem pqueueRemove_requeued (lw : o.Lawful) (mf : o.MinFirst) (hp : Placed o q s)
    (hx : q.Mem x) :
    Requeued o q s (q.size - 1) (fun y => q.Mem y ∧ y ≠ x) (pqueueRemove o q s x).1
      (pqueueRemove o q s x).2 := by
  obtain ⟨hpos, hlt, hd⟩ := hp.d_getpos hx
  by_cases hlast : q.size = o.getpos s x + 1
  · have hr := hp.takeLast_end lw hpos hlast
    rw [hd] at hr
    rwa [pqueueRemove_last mf hp hx hlast]
  · have hlt' : o.getpos s x < q.size - 1 := by omega
    have hole := hp.takeLast_hole hpos hlt'
    have hmem := hp.takeLast_mem hpos hlt'
    rw [hd] at hmem
    have key : ∀ r : Pqueue α × σ,
        Requeued o (q.takeLast (o.getpos s x)) s (q.size - 1)
          (fun y => y = (q.takeLast (o.getpos s x)).d (o.getpos s x) ∨
            (q.takeLast (o.getpos s x)).Others (o.getpos s x) y) r.1 r.2 →
        Requeued o q s (q.size - 1) (fun y => q.Mem y ∧ y ≠ x) r.1 r.2 := fun r hr =>
      ⟨hr.placed, hr.size, hr.avail, fun y => (hr.mem y).trans (hmem y),
        fun y hy => hr.getpos y fun h => hy ((hmem y).1 h)⟩
    rw [pqueueRemove_eq]
    split_ifs
    · exact key _ (bubbleUp_requeued lw hole)
    · exact key _ (percolateDown_requeued lw hole)

/-- `pqueue_remove` touches the positions only. -/
theorem pqueueRemove_frame {β : Type} (g : σ → β) (hg : ∀ s x k, g (o.setpos s x k) = g s)
    (mf : o.MinFirst) (hp : Placed o q s) (hx : q.Mem x) : g (pqueueRemove o q s x).2 = g s := by
  obtain ⟨hpos, hlt, -⟩ := hp.d_getpos hx
  by_cases hlast : q.size = o.getpos s x + 1
  · rw [pqueueRemove_last mf hp hx hlast]
    exact percolateDown_frame g hg hpos
  · rw [pqueueRemove_eq]
    split_ifs
    · exact bubbleUp_frame g hg (by rw [takeLast_size]; omega)
    · exact percolateDown_frame g hg hpos

/-- The priorities once the last element has taken a slot. -/
theorem prio_takeLast (q : Pqueue α) (s : σ) (k : ℕ) :
    prio o (q.takeLast k) s = Function.update (prio o q s) k (prio o q s (q.size - 1)) :=
  prio_setD _ s k _

/-- **`pqueue_remove` keeps the heap.** -/
theorem pqueueRemove_heaped (mf : o.MinFirst) (hp : Placed o q s) (hh : Heaped o q s)
    (hx : q.Mem x) : Heaped o (pqueueRemove o q s x).1 (pqueueRemove o q s x).2 := by
  obtain ⟨hpos, hlt, hd⟩ := hp.d_getpos hx
  have hshort : Ordered (q.size - 1) (prio o q s) := hh.mono (Nat.sub_le _ _)
  have hx' : prio o q s (o.getpos s x) = o.getpri s x := congrArg (o.getpri s) hd
  by_cases hlast : q.size = o.getpos s x + 1
  · rw [pqueueRemove_last mf hp hx hlast, percolateDown_behind (by rw [takeLast_size]; omega)]
    -- the slots of the shorter queue keep their priorities
    intro i hi hin
    rw [setD_size, takeLast_size] at hin
    rw [prio_setpos mf, prio_setD, prio_takeLast, Function.update_of_ne (by omega),
      Function.update_of_ne (by omega), Function.update_of_ne (by omega),
      Function.update_of_ne (by omega)]
    exact hshort i hi hin
  · have hlt' : o.getpos s x < q.size - 1 := by omega
    have hne : ∀ i, 1 ≤ i → i < q.size - 1 → i ≠ o.getpos s x →
        prio o (q.takeLast (o.getpos s x)) s i = prio o q s i := fun i _ _ hi => by
      rw [prio_takeLast, Function.update_of_ne hi]
    have hself : prio o (q.takeLast (o.getpos s x)) s (o.getpos s x) =
        prio o q s (q.size - 1) := by rw [prio_takeLast, Function.update_self]
    rw [pqueueRemove_eq]
    by_cases hc : o.cmppri (o.getpri s x) (o.getpri s (q.d (q.size - 1)))
    · rw [if_pos hc]
      refine bubbleUp_heaped mf hpos hlt' ?_
      rw [hself]
      exact (hshort.up hpos hlt' (by rw [hx']; exact ((mf.cmppri_iff _ _).1 hc).le)).congr hpos hne
    · rw [if_neg hc]
      refine percolateDown_heaped mf hpos hlt' ?_
      rw [hself]
      have hle : o.getpri s x ≤ o.getpri s (q.d (q.size - 1)) :=
        not_lt.1 fun h => hc ((mf.cmppri_iff _ _).2 h)
      exact (hshort.down hlt' (by rw [hx']; exact hle)).congr hlt' hne

end Pqueue

end NvmeVirt
