/-
# The order of the scheduled work

The chain of scheduled entries of a worker of `io.c`.  `__insert_req_sorted`
walks back from the end and stops at an entry that is due already, so the chain
is not sorted by target times: it is sorted as far as the clock of the worker,
`latest_nsecs`, has not got to the entries.  That holds between any two entries,
and a clock that does not go back keeps it.
-/

import NvmeVirt.Io.WorkerRuns

namespace NvmeVirt

open Chain

namespace IoWorker

/-! ### Passes of the worker thread -/

/-- The walk of a pass from `curr`; `clock` are the readings of the clock at the visits, the next
one at `k`. -/
def passFrom (clock : ℕ → ℕ) : ℕ → ℕ → Option ℕ → IoWorker → IoWorker
  | 0, _, _, w => w
  | _ + 1, _, none, w => w
  | n + 1, k, some curr, w =>
    let w := w.visitEntry curr (clock k)
    passFrom clock n (k + 1) (w.workQueue curr).next w

/-- A pass of `nvmev_io_worker` over its entries. -/
def pass (w : IoWorker) (clock : ℕ → ℕ) : IoWorker :=
  passFrom clock nrMaxParallelIo 0 w.ioSeq w

/-- The visits of a pass one after the other. -/
def visits (clock : ℕ → ℕ) : ℕ → List ℕ → IoWorker → IoWorker
  | _, [], w => w
  | k, curr :: l, w => visits clock (k + 1) l (w.visitEntry curr (clock k))

variable {w : IoWorker} {free io xs ys l : List ℕ} {a b e t k n curr : ℕ} {s : Option ℕ}
  {clock : ℕ → ℕ} {fill : IoWork → IoWork}

/-- A mark leaves what it does not write. -/
theorem field_setWork {β : Type} {p : IoWork → β} {f : IoWork → IoWork}
    (hf : ∀ x, p (f x) = p x) (i : ℕ) :
    p ((w.setWork curr f).workQueue i) = p (w.workQueue i) := by
  by_cases hi : i = curr
  · subst hi
    have hself : (w.setWork i f).workQueue i = f (w.workQueue i) := Function.update_self ..
    rw [hself, hf]
  · have hother : (w.setWork curr f).workQueue i = w.workQueue i := Function.update_of_ne hi _ _
    rw [hother]

/-- A visit leaves everything but the two marks. -/
theorem field_visitEntry {β : Type} {p : IoWork → β}
    (hcopied : ∀ x : IoWork, p { x with isCopied := true } = p x)
    (hdone : ∀ x : IoWork, p { x with isCompleted := true } = p x) (i : ℕ) :
    p ((w.visitEntry curr t).workQueue i) = p (w.workQueue i) := by
  unfold visitEntry
  dsimp only
  split_ifs
  · rfl
  · exact (field_setWork hdone i).trans (field_setWork hcopied i)
  · exact field_setWork hcopied i

/-- A visit leaves the links alone. -/
theorem nexts_visitEntry : (w.visitEntry curr t).nexts = w.nexts :=
  funext fun i => field_visitEntry (p := IoWork.next) (fun _ => rfl) (fun _ => rfl) i

/-- A visit leaves the target times alone. -/
theorem nsecsTarget_visitEntry (i : ℕ) :
    ((w.visitEntry curr t).workQueue i).nsecsTarget = (w.workQueue i).nsecsTarget :=
  field_visitEntry (p := IoWork.nsecsTarget) (fun _ => rfl) (fun _ => rfl) i

/-- A visit sets the clock of the worker. -/
@[simp] theorem latestNsecs_visitEntry : (w.visitEntry curr t).latestNsecs = t := by
  unfold visitEntry
  dsimp only
  split_ifs <;> rfl

/-- The walk of a pass follows the links as they were at its start. -/
theorem passFrom_eq_visits (h : Seg w.nexts s l none) (hn : l.length ≤ n) :
    passFrom clock n k s w = visits clock k l w := by
  induction l generalizing w s n k with
  | nil =>
    obtain rfl : s = none := h
    cases n <;> rfl
  | cons a l ih =>
    obtain ⟨rfl, hseg⟩ := h
    cases n with
    | zero => simp at hn
    | succ n =>
      have hnext : ((w.visitEntry a (clock k)).workQueue a).next = w.nexts a :=
        congrFun nexts_visitEntry a
      show passFrom clock n (k + 1) _ _ = visits clock (k + 1) l _
      rw [hnext]
      refine ih ?_ (Nat.le_of_succ_le_succ hn)
      rw [nexts_visitEntry]
      exact hseg

/-- **A pass visits every scheduled entry once,** in the order of the chain. -/
theorem WorkerOk.pass_eq_visits (h : WorkerOk w free io) : w.pass clock = visits clock 0 io w :=
  passFrom_eq_visits h.ioOk.seg (by have := h.length; omega)

/-! ### The order -/

/-- `a` may stand before `b`: it is not later, or it is due already. -/
def DueOrSorted (w : IoWorker) (a b : ℕ) : Prop :=
  (w.workQueue a).nsecsTarget ≤ (w.workQueue b).nsecsTarget ∨
    (w.workQueue a).nsecsTarget ≤ w.latestNsecs

/-- **The order of the scheduled work,** between any two entries. -/
def WorkOrder (w : IoWorker) (io : List ℕ) : Prop := io.Pairwise w.DueOrSorted

/-- What may stand before an entry where the walk stops would stop it too. -/
theorem DueOrSorted.stopsAt (h : w.DueOrSorted a b) (hb : w.StopsAt t b) : w.StopsAt t a := by
  rcases h with hab | hdue
  · exact hb.imp hab.trans hab.trans
  · exact .inl hdue

/-- The walk would stop at every entry before the one where it stops. -/
theorem WorkOrder.stopsAt (h : WorkOrder w xs) (hlast : ∀ x, xs.getLast? = some x → w.StopsAt t x)
    (ha : a ∈ xs) : w.StopsAt t a := by
  cases xs using List.reverseRecOn with
  | nil => cases ha
  | append_singleton l x =>
    have hx : w.StopsAt t x := hlast x List.getLast?_concat
    rcases List.mem_append.1 ha with ha | ha
    · exact ((List.pairwise_append.1 h).2.2 a ha x (by simp)).stopsAt hx
    · obtain rfl := List.mem_singleton.1 ha
      exact hx

/-- The order depends on the target times and the clock; the clock may have moved on. -/
theorem WorkOrder.congr {w' : IoWorker} (h : WorkOrder w io)
    (ht : ∀ i ∈ io, (w'.workQueue i).nsecsTarget = (w.workQueue i).nsecsTarget)
    (hclock : w.latestNsecs ≤ w'.latestNsecs) : WorkOrder w' io := by
  refine List.Pairwise.imp_of_mem (fun {a b} ha hb hab => ?_) h
  unfold DueOrSorted at hab ⊢
  rw [ht a ha, ht b hb]
  exact hab.imp_right hclock.trans'

/-- **An insertion keeps the order:** everything before the new entry stops the walk, nothing after
it does. -/
theorem WorkOrder.insert (h : WorkOrder w (xs ++ ys))
    (ht : (w.workQueue e).nsecsTarget = t) (hys : ∀ y ∈ ys, ¬ w.StopsAt t y)
    (hxs : ∀ x, xs.getLast? = some x → w.StopsAt t x) : WorkOrder w (xs ++ e :: ys) := by
  obtain ⟨hx, hy, hxy⟩ := List.pairwise_append.1 h
  refine List.pairwise_append.2 ⟨hx, List.pairwise_cons.2 ⟨fun y hmem => ?_, hy⟩,
    fun x hmem z hz => ?_⟩
  · have hlater := hys y hmem
    unfold StopsAt at hlater
    unfold DueOrSorted
    omega
  · rcases List.mem_cons.1 hz with rfl | hz
    · have hstop := WorkOrder.stopsAt hx hxs hmem
      unfold StopsAt at hstop
      unfold DueOrSorted
      omega
    · exact hxy x hmem z hz

/-! ### What the steps keep -/

/-- The target time is no link. -/
theorem nsecsTarget_of_core {x y : IoWork} (h : x.core = y.core) :
    x.nsecsTarget = y.nsecsTarget := by
  have := congrArg IoWork.nsecsTarget h
  exact this

/-- A worker in order: its chains, and the order of the scheduled one. -/
def Ordered (w : IoWorker) : Prop := ∃ free io, WorkerOk w free io ∧ WorkOrder w io

/-- **Putting work in** keeps the order, whatever the target time. -/
theorem Ordered.putWork (h : Ordered w) (hn : ∀ x, (fill x).next = none)
    (hp : ∀ x, (fill x).prev = none) (ht : ∀ x, (fill x).nsecsTarget = t) :
    Ordered (w.putWork t fill) := by
  obtain ⟨free, io, hok, hord⟩ := h
  unfold IoWorker.putWork
  cases ha : w.allocateEntry with
  | none => exact ⟨free, io, hok, hord⟩
  | some r =>
    obtain ⟨w₁, e⟩ := r
    obtain ⟨f, rest, rfl, rfl⟩ := hok.of_allocateEntry ha
    obtain ⟨xs, ys, rfl, hnew, hcore, hecore, hlat, hys, hxs⟩ := hok.enqueue (hn _) (hp _) rfl
    dsimp only
    set w' := (IoWorker.setWork { w with freeSeq := f } e fill).insertReqSorted e t
    have he : (w'.workQueue e).nsecsTarget = t :=
      (nsecsTarget_of_core hecore).trans (ht _)
    have hio : e ∉ xs ++ ys := fun hi =>
      (List.nodup_append.1 hok.nodup).2.2 e (by simp) e hi rfl
    have hkept : ∀ i ∈ xs ++ ys, (w'.workQueue i).nsecsTarget = (w.workQueue i).nsecsTarget :=
      fun i hi => nsecsTarget_of_core (hcore i fun hie => hio (hie ▸ hi))
    have hstop : ∀ i ∈ xs ++ ys, w'.StopsAt t i ↔ w.StopsAt t i := fun i hi => by
      unfold StopsAt
      rw [hkept i hi, hlat]
    refine ⟨_, _, hnew, (hord.congr hkept hlat.ge).insert he (fun y hy => ?_) fun x hx => ?_⟩
    · rw [hstop y (List.mem_append_right _ hy)]
      exact hys y hy
    · rw [hstop x (List.mem_append_left _ (List.mem_of_getLast? hx))]
      exact hxs x hx

/-- **A reclaim** takes a prefix away. -/
theorem Ordered.reclaim (h : Ordered w) : Ordered w.reclaimCompletedReqs := by
  obtain ⟨free, io, hok, hord⟩ := h
  obtain ⟨done, rest, rfl, hnew, -, -, hcore, hlat⟩ := hok.reclaim
  have hrest : WorkOrder w rest := (List.pairwise_append.1 hord).2.1
  exact ⟨_, _, hnew, hrest.congr (fun i _ => nsecsTarget_of_core (hcore i)) hlat.ge⟩

/-- A visit keeps the order if its reading of the clock is not behind the one before. -/
theorem Ordered.visitEntry (h : Ordered w) (ht : w.latestNsecs ≤ t) :
    Ordered (w.visitEntry curr t) := by
  obtain ⟨free, io, hok, hord⟩ := h
  refine ⟨free, io, hok.visitEntry, hord.congr (fun i _ => nsecsTarget_visitEntry i) ?_⟩
  rwa [latestNsecs_visitEntry]

/-- **A pass** keeps the order if the clock does not go back. -/
theorem Ordered.passFrom (h : Ordered w) (hclock : Monotone clock) (hk : w.latestNsecs ≤ clock k) :
    Ordered (passFrom clock n k s w) := by
  induction n generalizing w k s with
  | zero => exact h
  | succ n ih =>
    cases s with
    | none => exact h
    | some curr =>
      refine ih (h.visitEntry hk) ?_
      rw [latestNsecs_visitEntry]
      exact hclock (Nat.le_succ k)

/-! ### Runs -/

end IoWorker

/-- The states of a worker that insertions, reclaims and passes lead to; each is atomic, and the
clock of the passes does not go back. -/
inductive WorkReachable : IoWorker → Prop
  /-- After `NVMEV_IO_WORKER_INIT`. -/
  | init : WorkReachable initWorker
  /-- `__enqueue_io_req`. -/
  | enqueue {w : IoWorker} (item : IoItem) (nsecsTarget : ℕ) (h : WorkReachable w) :
      WorkReachable (w.putWork nsecsTarget (fillReq item nsecsTarget))
  /-- `schedule_internal_operation`. -/
  | internal {w : IoWorker} (sqid ticket : ℕ) (op : InternalOp) (h : WorkReachable w) :
      WorkReachable (w.putWork op.nsecsTarget (fillInternal sqid ticket op))
  /-- `__reclaim_completed_reqs`. -/
  | reclaim {w : IoWorker} (h : WorkReachable w) : WorkReachable w.reclaimCompletedReqs
  /-- A pass of `nvmev_io_worker`. -/
  | pass {w : IoWorker} (clock : ℕ → ℕ) (h : WorkReachable w) (hclock : Monotone clock)
      (hlatest : w.latestNsecs ≤ clock 0) : WorkReachable (w.pass clock)

namespace IoWorker

variable {w : IoWorker}

/-- Every state reached is in order. -/
theorem Ordered.of_reachable (h : WorkReachable w) : Ordered w := by
  induction h with
  | init => exact ⟨_, [], initWorker_ok, List.Pairwise.nil⟩
  | enqueue item nsecsTarget h ih => exact ih.putWork (fun _ => rfl) (fun _ => rfl) fun _ => rfl
  | internal sqid ticket op h ih => exact ih.putWork (fun _ => rfl) (fun _ => rfl) fun _ => rfl
  | reclaim h ih => exact ih.reclaim
  | pass clock h hclock hlatest ih => exact ih.passFrom hclock hlatest

/-- **The work order:** of two entries in the chain, the first is not later than the second or is
due already, so none that is not due precedes one with an earlier target. -/
theorem ioChain_workOrder (h : WorkReachable w) :
    w.ioChain.Pairwise fun a b =>
      ((w.workQueue a).nsecsTarget ≤ (w.workQueue b).nsecsTarget ∨
        (w.workQueue a).nsecsTarget ≤ w.latestNsecs) ∧
      (w.latestNsecs < (w.workQueue a).nsecsTarget →
        ¬ (w.workQueue b).nsecsTarget < (w.workQueue a).nsecsTarget) := by
  obtain ⟨free, io, hok, hord⟩ := Ordered.of_reachable h
  rw [hok.ioChain_eq]
  refine hord.imp fun {a b} hab => ⟨hab, fun hlate => ?_⟩
  have := hab.resolve_right (not_le.2 hlate)
  omega

/-- A request as it is completed. -/
def firstItem : IoItem where
  ticket := 0
  sqid := 1
  cqid := 1
  sqEntry := 0
  commandId := 0
  status := 0

/-- Two requests and a pass between their target times. -/
def halfDueWork : IoWorker :=
  ((initWorker.putWork 10 (fillReq firstItem 10)).putWork 20 (fillReq firstItem 20)).pass fun _ => 15

/-- A third request that is overdue: it comes to stand behind the first. -/
def overdueWork : IoWorker := halfDueWork.putWork 5 (fillReq firstItem 5)

theorem overdueWork_reachable : WorkReachable overdueWork :=
  have hpassed : WorkReachable halfDueWork :=
    .pass _ (.enqueue _ 20 (.enqueue _ 10 .init)) monotone_const (by decide +kernel)
  .enqueue firstItem 5 hpassed

/-- The chain is not sorted by target times. -/
example : overdueWork.ioChain.map (fun i => (overdueWork.workQueue i).nsecsTarget) = [10, 5, 20] := by
  decide +kernel

/-- The work order in that state. -/
theorem ioChain_workOrder_overdue :
    overdueWork.ioChain.Pairwise fun a b =>
      ((overdueWork.workQueue a).nsecsTarget ≤ (overdueWork.workQueue b).nsecsTarget ∨
        (overdueWork.workQueue a).nsecsTarget ≤ overdueWork.latestNsecs) ∧
      (overdueWork.latestNsecs < (overdueWork.workQueue a).nsecsTarget →
        ¬ (overdueWork.workQueue b).nsecsTarget < (overdueWork.workQueue a).nsecsTarget) :=
  ioChain_workOrder overdueWork_reachable

end IoWorker

end NvmeVirt
