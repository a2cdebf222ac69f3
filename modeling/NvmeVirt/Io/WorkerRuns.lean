/-
# The work queue over whole runs

One worker of `io.c` under any sequence of `__enqueue_io_req`,
`schedule_internal_operation`, visits of the worker thread and
`__reclaim_completed_reqs`: its entries stay split into the free chain and the
chain of scheduled entries, with all links and ends in order.  The last free entry
is never given out, so the check behind the allocation never fires.
-/

import NvmeVirt.Io.Pool

namespace NvmeVirt

open Chain

namespace IoWorker

variable (w : IoWorker)

/-- An entry is allocated, filled in and inserted; if there is none to give out, nothing
happens. -/
def putWork (nsecsTarget : ℕ) (fill : IoWork → IoWork) : IoWorker :=
  match w.allocateEntry with
  | none => w
  | some (w, e) => (w.setWork e fill).insertReqSorted e nsecsTarget

/-- A visit of the worker thread to an entry, as far as the entry goes. -/
def visitEntry (curr currNsecs : ℕ) : IoWorker :=
  let w := { w with latestNsecs := currNsecs }
  if (w.workQueue curr).isCompleted then w
  else
    let w := w.setWork curr fun x => { x with isCopied := true }
    if (w.workQueue curr).nsecsTarget ≤ currNsecs then
      w.setWork curr fun x => { x with isCompleted := true }
    else w

/-- `BUG_ON(worker->free_seq >= NR_MAX_PARALLEL_IO)` in `__allocate_work_queue_entry`. -/
def AllocationBug : Prop :=
  ∃ w' e, w.allocateEntry = some (w', e) ∧ nrMaxParallelIo ≤ w'.freeSeq

end IoWorker

/-- What happens to a worker; the thread may visit any entry at any time. -/
inductive WorkerOp
  /-- `__enqueue_io_req`. -/
  | enqueue (item : IoItem) (nsecsTarget : ℕ)
  /-- `schedule_internal_operation`. -/
  | internal (sqid ticket : ℕ) (op : InternalOp)
  /-- The thread visits an entry. -/
  | visit (curr currNsecs : ℕ)
  /-- `__reclaim_completed_reqs`. -/
  | reclaim

namespace IoWorker

/-- One step. -/
def step (w : IoWorker) : WorkerOp → IoWorker
  | .enqueue item nsecsTarget => w.putWork nsecsTarget (fillReq item nsecsTarget)
  | .internal sqid ticket op => w.putWork op.nsecsTarget (fillInternal sqid ticket op)
  | .visit curr currNsecs => w.visitEntry curr currNsecs
  | .reclaim => w.reclaimCompletedReqs

/-- **The representation of a work queue by its links.** -/
structure Represented (w : IoWorker) : Prop where
  one : ∀ i < nrMaxParallelIo, Xor (i ∈ w.freeChain) (i ∈ w.ioChain)
  nodup : w.freeChain.Nodup ∧ w.ioChain.Nodup
  freeLinks : Seg w.nexts (some w.freeSeq) w.freeChain none
  ioLinks : Seg w.nexts w.ioSeq w.ioChain none
  inverse : ∀ i ∈ w.ioChain, ∀ j ∈ w.ioChain, w.nexts i = some j ↔ w.prevs j = some i
  front : ∀ i, w.ioSeq = some i → w.prevs i = none
  freeTail : w.freeChain.getLast? = some w.freeSeqEnd
  ioTail : w.ioChain ≠ [] → w.ioChain.getLast? = w.ioSeqEnd
  freeNonempty : w.freeChain ≠ []
  noBug : ¬ w.AllocationBug

variable {w : IoWorker} {free io : List ℕ} {curr t : ℕ} {fill : IoWork → IoWork}

/-- The chains say all of it. -/
theorem WorkerOk.represented (h : WorkerOk w free io) : Represented w := by
  have hnd := h.nodup
  have hfree := h.freeChain_eq
  have hio := h.ioChain_eq
  rw [List.nodup_append] at hnd
  refine ⟨fun i hi => ?_, ?_, ?_, ?_, ?_, fun i hi => ?_, ?_, fun hne => ?_, ?_, ?_⟩
  · have hmem : i ∈ free ++ io := h.perm.mem_iff.2 (List.mem_range.2 hi)
    rw [hfree, hio]
    rcases List.mem_append.1 hmem with hf | hi'
    · exact .inl ⟨hf, fun hi' => hnd.2.2 i hf i hi' rfl⟩
    · exact .inr ⟨hi', fun hf => hnd.2.2 i hf i hi' rfl⟩
  · rw [hfree, hio]
    exact ⟨hnd.1, hnd.2.1⟩
  · rw [hfree]
    exact h.freeOk.seg
  · rw [hio]
    exact h.ioOk.seg
  · rw [hio]
    exact fun i hi j hj => h.ioOk.seg.next_iff_prev h.ioOk.back hi hj
  · have hseg := h.ioOk.seg
    have hback := h.ioOk.back
    rw [hi] at hseg
    cases io with
    | nil => cases hseg
    | cons a l =>
      cases hseg.1
      exact hback.1
  · rw [hfree]
    exact h.freeOk.tail
  · rw [hio] at hne ⊢
    obtain ⟨a, ha⟩ := Option.isSome_iff_exists.1 (List.getLast?_isSome.2 hne)
    rw [ha, h.ioOk.tail a ha]
  · rw [hfree]
    exact h.free_ne_nil
  · rintro ⟨w', e, ha, hbug⟩
    obtain ⟨f, rest, hf, rfl⟩ := h.of_allocateEntry ha
    exact absurd (h.lt (.inl (by simp [hf]))) (not_lt.2 hbug)

/-- Putting work in keeps the chains in order. -/
theorem WorkerOk.putWork (h : WorkerOk w free io) (hn : ∀ x, (fill x).next = none)
    (hp : ∀ x, (fill x).prev = none) : ∃ free' io', WorkerOk (w.putWork t fill) free' io' := by
  unfold IoWorker.putWork
  cases ha : w.allocateEntry with
  | none => exact ⟨free, io, h⟩
  | some r =>
    obtain ⟨w₁, e⟩ := r
    obtain ⟨f, rest, rfl, rfl⟩ := h.of_allocateEntry ha
    obtain ⟨xs, ys, -, hnew, -⟩ := h.enqueue (hn _) (hp _) rfl
    exact ⟨_, _, hnew⟩

/-- A visit leaves the chains alone. -/
theorem WorkerOk.visitEntry (h : WorkerOk w free io) : WorkerOk (w.visitEntry curr t) free io := by
  have hclock : WorkerOk { w with latestNsecs := t } free io := h.congr rfl rfl rfl rfl rfl rfl
  have hcopied : WorkerOk (setWork { w with latestNsecs := t } curr fun x =>
      { x with isCopied := true }) free io := hclock.mark (fun _ => rfl) fun _ => rfl
  unfold IoWorker.visitEntry
  dsimp only
  split_ifs
  · exact hclock
  · exact hcopied.mark (f := fun x => { x with isCompleted := true }) (fun _ => rfl) fun _ => rfl
  · exact hcopied

/-- **A step keeps the chains in order.** -/
theorem WorkerOk.step (h : WorkerOk w free io) (op : WorkerOp) :
    ∃ free' io', WorkerOk (w.step op) free' io' := by
  cases op with
  | enqueue item nsecsTarget => exact h.putWork (fun _ => rfl) fun _ => rfl
  | internal sqid ticket op => exact h.putWork (fun _ => rfl) fun _ => rfl
  | visit curr currNsecs => exact ⟨free, io, h.visitEntry⟩
  | reclaim =>
    obtain ⟨done, rest, -, hnew, -⟩ := h.reclaim
    exact ⟨_, _, hnew⟩

/-- Any sequence of steps keeps the chains in order. -/
theorem WorkerOk.run (h : WorkerOk w free io) (ops : List WorkerOp) :
    ∃ free' io', WorkerOk (ops.foldl IoWorker.step w) free' io' := by
  induction ops generalizing w free io with
  | nil => exact ⟨free, io, h⟩
  | cons op ops ih =>
    obtain ⟨free', io', h'⟩ := h.step op
    exact ih h'

/-- **The work queue over whole runs:** its representation holds in every state reached. -/
theorem workerRun_represented (ops : List WorkerOp) :
    Represented (ops.foldl IoWorker.step initWorker) := by
  obtain ⟨free, io, h⟩ := initWorker_ok.run ops
  exact h.represented

end IoWorker

end NvmeVirt
