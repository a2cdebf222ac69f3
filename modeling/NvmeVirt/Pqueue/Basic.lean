/-
# The priority queue of `pqueue/pqueue.c`

A binary heap of element handles in `d[1 .. size-1]`, with callbacks that read
and write an element's priority and its position in the heap.  The elements
live in a store `σ` of the caller; a callback that writes returns the new store.
`d[i]` for `i ≥ avail` is memory past the allocation.
-/

import NvmeVirt.Lib.Outcome

namespace NvmeVirt

/-- `pqueue_t` without the callbacks. -/
structure Pqueue (α : Type) where
  size : ℕ
  avail : ℕ
  step : ℕ
  d : ℕ → α

/-- The callbacks of `pqueue_t`. -/
structure PqueueOps (σ α : Type) where
  cmppri : ℕ → ℕ → Bool
  getpri : σ → α → ℕ
  setpri : σ → α → ℕ → σ
  getpos : σ → α → ℕ
  setpos : σ → α → ℕ → σ

namespace Pqueue

variable {σ α : Type} (o : PqueueOps σ α)

/-- `q->d[i] = x`. -/
def setD (q : Pqueue α) (i : ℕ) (x : α) : Pqueue α := { q with d := Function.update q.d i x }

/-- `pqueue_init`; no slot of `d` is read before it is written. -/
def pqueueInit [Inhabited α] (n : ℕ) : Pqueue α where
  size := 1
  avail := n + 1
  step := n + 1
  d := fun _ => default

/-- The loop of `bubble_up`: returns the slot the moving node stops at. -/
def bubbleUpLoop (movingPri : ℕ) : ℕ → Pqueue α → σ → ℕ → Pqueue α × σ × ℕ
  | 0, q, s, i => (q, s, i)
  | fuel + 1, q, s, i =>
    if 1 < i ∧ o.cmppri (o.getpri s (q.d (i / 2))) movingPri then
      bubbleUpLoop movingPri fuel (q.setD i (q.d (i / 2))) (o.setpos s (q.d (i / 2)) i) (i / 2)
    else (q, s, i)

/-- `bubble_up`; `i` halves in each round, so `i` rounds are enough. -/
def bubbleUp (q : Pqueue α) (s : σ) (i : ℕ) : Pqueue α × σ :=
  let movingNode := q.d i
  let (q, s, i) := bubbleUpLoop o (o.getpri s movingNode) i q s i
  (q.setD i movingNode, o.setpos s movingNode i)

/-- `maxchild`. -/
def maxchild (q : Pqueue α) (s : σ) (i : ℕ) : ℕ :=
  let childNode := 2 * i
  if q.size ≤ childNode then 0
  else if childNode + 1 < q.size ∧
      o.cmppri (o.getpri s (q.d childNode)) (o.getpri s (q.d (childNode + 1))) then childNode + 1
  else childNode

/-- The loop of `percolate_down`: returns the slot the moving node stops at. -/
def percolateDownLoop (movingPri : ℕ) : ℕ → Pqueue α → σ → ℕ → Pqueue α × σ × ℕ
  | 0, q, s, i => (q, s, i)
  | fuel + 1, q, s, i =>
    let childNode := maxchild o q s i
    if childNode ≠ 0 ∧ o.cmppri movingPri (o.getpri s (q.d childNode)) then
      percolateDownLoop movingPri fuel (q.setD i (q.d childNode))
        (o.setpos s (q.d childNode) i) childNode
    else (q, s, i)

/-- `percolate_down`; a child is at least one slot further, so `size` rounds
are enough. -/
def percolateDown (q : Pqueue α) (s : σ) (i : ℕ) : Pqueue α × σ :=
  let movingNode := q.d i
  let (q, s, i) := percolateDownLoop o (o.getpri s movingNode) q.size q s i
  (q.setD i movingNode, o.setpos s movingNode i)

/-- `pqueue_insert`.  A full queue is only reported and the store is made all the same, past the
allocation; a caller's code is defined where `size` is below `avail`. -/
def pqueueInsert (q : Pqueue α) (s : σ) (x : α) : Pqueue α × σ :=
  let i := q.size
  bubbleUp o ({ q with size := q.size + 1 }.setD i x) s i

/-- `pqueue_change_data`. -/
def pqueueChangeData (q : Pqueue α) (index : ℕ) (x : α) : Pqueue α := q.setD index x

/-- `pqueue_change_priority`. -/
def pqueueChangePriority (q : Pqueue α) (s : σ) (newPri : ℕ) (x : α) : Pqueue α × σ :=
  let oldPri := o.getpri s x
  let s := o.setpri s x newPri
  let posn := o.getpos s x
  if o.cmppri oldPri newPri then bubbleUp o q s posn else percolateDown o q s posn

/-- `pqueue_pop`. -/
def pqueuePop (q : Pqueue α) (s : σ) : Option α × Pqueue α × σ :=
  if q.size = 1 then (none, q, s)
  else
    let head := q.d 1
    let q := { q with size := q.size - 1 }
    let (q, s) := percolateDown o (q.setD 1 (q.d q.size)) s 1
    (some head, q, s)

/-- `pqueue_peek`. -/
def pqueuePeek (q : Pqueue α) : Option α := if q.size = 1 then none else some (q.d 1)

end Pqueue

end NvmeVirt
