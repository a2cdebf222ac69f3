/-
# The order of the priority queue

The priorities in the slots of `d` are the keys of a binary heap.  `bubble_up`
and `percolate_down` slide a hole through them, so `pqueue_insert`,
`pqueue_change_priority` and `pqueue_pop` keep the heap, and `pqueue_peek` finds
an element whose priority is the smallest.
-/

import NvmeVirt.Pqueue.Positions
import NvmeVirt.Lib.BinaryHeap

namespace NvmeVirt

open BinaryHeap

/-- The callbacks of a queue with the smallest priority in front; a position is no part of a
priority. -/
structure PqueueOps.MinFirst {σ α : Type} (o : PqueueOps σ α) : Prop where
  cmppri_iff : ∀ next curr, o.cmppri next curr = true ↔ curr < next
  getpri_setpos : ∀ s x k y, o.getpri (o.setpos s x k) y = o.getpri s y
  getpri_setpri_self : ∀ s x p, o.getpri (o.setpri s x p) x = p
  getpri_setpri_ne : ∀ s x p y, y ≠ x → o.getpri (o.setpri s x p) y = o.getpri s y

namespace Pqueue

variable {σ α : Type} {o : PqueueOps σ α} {q : Pqueue α} {s s' : σ} {h p : ℕ} {x : α}

/-- The priority of the element in a slot. -/
def prio (o : PqueueOps σ α) (q : Pqueue α) (s : σ) (i : ℕ) : ℕ := o.getpri s (q.d i)

/-- **The queue is a heap.** -/
def Heaped (o : PqueueOps σ α) (q : Pqueue α) (s : σ) : Prop := Ordered q.size (prio o q s)

/-- A store to a slot changes the priority there. -/
theorem prio_setD (q : Pqueue α) (s : σ) (h : ℕ) (x : α) :
    prio o (q.setD h x) s = Function.update (prio o q s) h (o.getpri s x) := by
  funext i
  unfold prio
  by_cases hi : i = h
  · subst hi
    rw [setD_d_self, Function.update_self]
  · rw [setD_d_ne q x hi, Function.update_of_ne hi]

/-- A store to a position changes no priority. -/
theorem prio_setpos (mf : o.MinFirst) (q : Pqueue α) (s : σ) (x : α) (k : ℕ) :
    prio o q (o.setpos s x k) = prio o q s :=
  funext fun _ => mf.getpri_setpos _ _ _ _

/-- The heap depends on the priorities in the slots in use. -/
theorem Heaped.congr {q' : Pqueue α} (hh : Heaped o q s) (hs : q'.size = q.size)
    (hp : ∀ i, 1 ≤ i → i < q.size → prio o q' s' i = prio o q s i) : Heaped o q' s' := by
  intro i h2 hi
  rw [hs] at hi
  rw [hp i (by omega) hi, hp (i / 2) (by omega) (by omega)]
  exact hh i h2 hi

/-! ### The loops -/

/-- **The loop of `bubble_up`** stops where the moving priority completes the heap. -/
theorem bubbleUpLoop_ordered (mf : o.MinFirst) (fuel : ℕ) (hpos : 1 ≤ h) (hlt : h < q.size)
    (hfuel : h ≤ fuel) (ho : Rising q.size (prio o q s) h p) :
    let r := bubbleUpLoop o p fuel q s h
    Ordered r.1.size (Function.update (prio o r.1 r.2.1) r.2.2 p) ∧
      ∀ y, o.getpri r.2.1 y = o.getpri s y := by
  induction fuel generalizing q s h with
  | zero => omega
  | succ fuel ih =>
    unfold bubbleUpLoop
    by_cases hc : 1 < h ∧ o.cmppri (o.getpri s (q.d (h / 2))) p
    · rw [if_pos hc]
      have hp : p < prio o q s (h / 2) := (mf.cmppri_iff _ _).1 hc.2
      obtain ⟨h1, h2⟩ := ih (q := q.setD h (q.d (h / 2))) (s := o.setpos s (q.d (h / 2)) h)
        (h := h / 2) (by omega) (by rw [setD_size]; omega) (by omega)
        (by rw [prio_setpos mf, prio_setD]; exact ho.step hc.1 hlt hp)
      exact ⟨h1, fun y => (h2 y).trans (mf.getpri_setpos _ _ _ _)⟩
    · rw [if_neg hc]
      refine ⟨ho.toGap.fill (fun h2 => ?_) ho.below, fun _ => rfl⟩
      by_contra hgt
      exact hc ⟨h2, (mf.cmppri_iff _ _).2 (not_le.1 hgt)⟩

/-- **`maxchild`** is the child with the smallest priority; there is none behind the last slot. -/
theorem maxchild_spec (mf : o.MinFirst) (q : Pqueue α) (s : σ) (hpos : 1 ≤ h) :
    (maxchild o q s h = 0 → q.size ≤ 2 * h) ∧
      (maxchild o q s h ≠ 0 → maxchild o q s h / 2 = h ∧ maxchild o q s h < q.size ∧
        ∀ c, c / 2 = h → c < q.size → prio o q s (maxchild o q s h) ≤ prio o q s c) := by
  unfold maxchild
  dsimp only
  by_cases h1 : q.size ≤ 2 * h
  · rw [if_pos h1]
    exact ⟨fun _ => h1, fun hne => absurd rfl hne⟩
  rw [if_neg h1]
  by_cases h2 : 2 * h + 1 < q.size ∧
      o.cmppri (o.getpri s (q.d (2 * h))) (o.getpri s (q.d (2 * h + 1)))
  · rw [if_pos h2]
    have hlt : prio o q s (2 * h + 1) < prio o q s (2 * h) := (mf.cmppri_iff _ _).1 h2.2
    refine ⟨fun h0 => absurd h0 (by omega), fun _ => ⟨by omega, h2.1, fun c hc hcn => ?_⟩⟩
    obtain rfl | rfl : c = 2 * h ∨ c = 2 * h + 1 := by omega
    · exact hlt.le
    · exact le_rfl
  · rw [if_neg h2]
    refine ⟨fun h0 => absurd h0 (by omega), fun _ => ⟨by omega, by omega, fun c hc hcn => ?_⟩⟩
    obtain rfl | rfl : c = 2 * h ∨ c = 2 * h + 1 := by omega
    · exact le_rfl
    · by_contra hgt
      exact h2 ⟨hcn, (mf.cmppri_iff _ _).2 (not_le.1 hgt)⟩

/-- **The loop of `percolate_down`** stops where the moving priority completes the heap. -/
theorem percolateDownLoop_ordered (mf : o.MinFirst) (fuel : ℕ) (hpos : 1 ≤ h) (hlt : h < q.size)
    (hfuel : q.size ≤ h + fuel) (ho : Sinking q.size (prio o q s) h p) :
    let r := percolateDownLoop o p fuel q s h
    Ordered r.1.size (Function.update (prio o r.1 r.2.1) r.2.2 p) ∧
      ∀ y, o.getpri r.2.1 y = o.getpri s y := by
  induction fuel generalizing q s h with
  | zero => omega
  | succ fuel ih =>
    unfold percolateDownLoop
    dsimp only
    obtain ⟨hnone, hsome⟩ := maxchild_spec mf q s hpos
    by_cases hc : maxchild o q s h ≠ 0 ∧ o.cmppri p (o.getpri s (q.d (maxchild o q s h)))
    · rw [if_pos hc]
      obtain ⟨hhalf, hcn, hmin⟩ := hsome hc.1
      have hp : prio o q s (maxchild o q s h) < p := (mf.cmppri_iff _ _).1 hc.2
      obtain ⟨h1, h2⟩ := ih (q := q.setD h (q.d (maxchild o q s h)))
        (s := o.setpos s (q.d (maxchild o q s h)) h) (h := maxchild o q s h) (by omega) hcn
        (by rw [setD_size]; omega)
        (by rw [prio_setpos mf, prio_setD]; exact ho.step hpos hhalf hcn hp hmin)
      exact ⟨h1, fun y => (h2 y).trans (mf.getpri_setpos _ _ _ _)⟩
    · rw [if_neg hc]
      refine ⟨ho.toGap.fill ho.above fun c hch hcn => ?_, fun _ => rfl⟩
      by_contra hgt
      have h0 : maxchild o q s h ≠ 0 := fun h0 => by have := hnone h0; omega
      obtain ⟨-, -, hmin⟩ := hsome h0
      exact hc ⟨h0, (mf.cmppri_iff _ _).2 ((hmin c hch hcn).trans_lt (not_le.1 hgt))⟩

/-- The moving node is put down where its priority completes the heap. -/
theorem heaped_place (mf : o.MinFirst) (hp : o.getpri s x = p)
    (ho : Ordered q.size (Function.update (prio o q s) h p)) :
    Heaped o (q.setD h x) (o.setpos s x h) := by
  unfold Heaped
  rwa [prio_setpos mf, prio_setD, hp, setD_size]

theorem bubbleUp_heaped (mf : o.MinFirst) (hpos : 1 ≤ h) (hlt : h < q.size)
    (ho : Rising q.size (prio o q s) h (prio o q s h)) :
    Heaped o (bubbleUp o q s h).1 (bubbleUp o q s h).2 := by
  obtain ⟨h1, h2⟩ := bubbleUpLoop_ordered mf h hpos hlt le_rfl ho
  exact heaped_place mf (h2 _) h1

theorem percolateDown_heaped (mf : o.MinFirst) (hpos : 1 ≤ h) (hlt : h < q.size)
    (ho : Sinking q.size (prio o q s) h (prio o q s h)) :
    Heaped o (percolateDown o q s h).1 (percolateDown o q s h).2 := by
  obtain ⟨h1, h2⟩ := percolateDownLoop_ordered mf q.size hpos hlt (by omega) ho
  exact heaped_place mf (h2 _) h1

/-- `percolate_down` keeps the number of slots in use. -/
theorem percolateDown_size (q : Pqueue α) (s : σ) (h : ℕ) :
    (percolateDown o q s h).1.size = q.size := by
  have hloop : ∀ pri fuel (q : Pqueue α) s h, (percolateDownLoop o pri fuel q s h).1.size = q.size := by
    intro pri fuel
    induction fuel with
    | zero => exact fun _ _ _ => rfl
    | succ fuel ih =>
      intro q s h
      unfold percolateDownLoop
      dsimp only
      split_ifs
      · rw [ih, setD_size]
      · rfl
  exact hloop _ _ q s h

/-! ### The operations of the queue -/

/-- **`pqueue_insert` keeps the heap.** -/
theorem pqueueInsert_heaped (mf : o.MinFirst) (hh : Heaped o q s) (hsz : 1 ≤ q.size) (x : α) :
    Heaped o (pqueueInsert o q s x).1 (pqueueInsert o q s x).2 := by
  refine bubbleUp_heaped mf hsz (by rw [setD_size]; exact Nat.lt_succ_self _) ?_
  rw [prio_setD, Function.update_self]
  exact (hh.insert hsz _).congr hsz fun i _ _ hi => Function.update_of_ne hi _ _

/-- **`pqueue_change_priority` keeps the heap** of a queue whose elements know their slots. -/
theorem pqueueChangePriority_heaped (lw : o.Lawful) (mf : o.MinFirst) (hp : Placed o q s)
    (hh : Heaped o q s) (hx : q.Mem x) (pri : ℕ) :
    Heaped o (pqueueChangePriority o q s pri x).1 (pqueueChangePriority o q s pri x).2 := by
  obtain ⟨hpos, hlt, hd⟩ := hp.d_getpos hx
  have hprio : ∀ i, 1 ≤ i → i < q.size → i ≠ o.getpos s x →
      prio o q (o.setpri s x pri) i = prio o q s i := by
    intro i h1 hi hne
    refine mf.getpri_setpri_ne _ _ _ _ fun hdi => hne ?_
    rw [← hdi, hp i h1 hi]
  have hself : prio o q (o.setpri s x pri) (o.getpos s x) = pri := by
    unfold prio
    rw [hd, mf.getpri_setpri_self]
  have hold : prio o q s (o.getpos s x) = o.getpri s x := congrArg (o.getpri s) hd
  unfold pqueueChangePriority
  simp only [lw.getpos_setpri]
  by_cases hc : o.cmppri (o.getpri s x) pri
  · rw [if_pos hc]
    refine bubbleUp_heaped mf hpos hlt ?_
    rw [hself]
    have hup := hh.up hpos hlt (p := pri) (by rw [hold]; exact ((mf.cmppri_iff _ _).1 hc).le)
    exact hup.congr hpos hprio
  · rw [if_neg hc]
    refine percolateDown_heaped mf hpos hlt ?_
    rw [hself]
    have hdown := hh.down hlt (p := pri)
      (by rw [hold]; exact not_lt.1 fun hlt => hc ((mf.cmppri_iff _ _).2 hlt))
    exact hdown.congr hlt hprio

/-- **`pqueue_pop` keeps the heap.** -/
theorem pqueuePop_heaped (mf : o.MinFirst) (hh : Heaped o q s) (hsz : 1 < q.size) :
    Heaped o (pqueuePop o q s).2.1 (pqueuePop o q s).2.2 := by
  unfold pqueuePop
  rw [if_neg (by omega)]
  by_cases h2 : q.size = 2
  · -- the queue is empty
    intro i hi hi'
    rw [percolateDown_size, setD_size] at hi'
    dsimp only at hi'
    omega
  · refine percolateDown_heaped mf le_rfl (by rw [setD_size]; dsimp only; omega) ?_
    rw [prio_setD, Function.update_self]
    have hsh : Sinking (q.size - 1) (prio o q s) 1 (o.getpri s (q.d (q.size - 1))) :=
      Ordered.shrink (by rwa [Nat.sub_add_cancel (by omega)]) _
    exact hsh.congr (by omega) fun i _ _ hi => Function.update_of_ne hi _ _

/-- **`pqueue_peek` finds an element with the smallest priority.** -/
theorem pqueuePeek_min (hh : Heaped o q s) (hx : pqueuePeek q = some x) {y : α} (hy : q.Mem y) :
    o.getpri s x ≤ o.getpri s y := by
  obtain ⟨-, rfl⟩ := pqueuePeek_eq_some.1 hx
  obtain ⟨i, hi, hi', rfl⟩ := hy
  exact hh.root_le hi hi'

end Pqueue

end NvmeVirt
