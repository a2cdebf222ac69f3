/-
# The work queue of an I/O worker

`struct nvmev_io_work` and `struct nvmev_io_worker` of `nvmev.h` and the
functions of `io.c` that link their entries: the free entries and the scheduled
entries are two chains in one array, by index.  `-1` as an index is `none`.

`ticket` numbers the work that is put in; the driver has no such field and
nothing reads it.  The times kept for tracing only are left out.
-/

import NvmeVirt.Lib.Chain
import NvmeVirt.Ssd.Params

namespace NvmeVirt

open Outcome

/-- `NR_MAX_PARALLEL_IO`. -/
def nrMaxParallelIo : ℕ := 16384

/-- `struct nvmev_io_work`. -/
structure IoWork where
  sqid : ℕ
  cqid : ℕ
  sqEntry : ℕ
  commandId : ℕ
  nsecsTarget : ℕ
  isCopied : Bool
  isCompleted : Bool
  status : ℕ
  result0 : ℕ
  result1 : ℕ
  isInternal : Bool
  writeBuffer : ℕ
  buffsToRelease : ℕ
  next : Option ℕ
  prev : Option ℕ
  ticket : ℕ
  deriving DecidableEq, Repr

/-- `struct nvmev_io_worker`. -/
structure IoWorker where
  workQueue : ℕ → IoWork
  freeSeq : ℕ
  freeSeqEnd : ℕ
  ioSeq : Option ℕ
  ioSeqEnd : Option ℕ
  latestNsecs : ℕ

/-- An entry as `kzalloc` and `NVMEV_IO_WORKER_INIT` leave it. -/
def initWork (i : ℕ) : IoWork where
  sqid := 0
  cqid := 0
  sqEntry := 0
  commandId := 0
  nsecsTarget := 0
  isCopied := false
  isCompleted := false
  status := 0
  result0 := 0
  result1 := 0
  isInternal := false
  writeBuffer := 0
  buffsToRelease := 0
  next := if i = nrMaxParallelIo - 1 then none else some (i + 1)
  prev := if i = 0 then none else some (i - 1)
  ticket := 0

/-- A worker after `NVMEV_IO_WORKER_INIT`. -/
def initWorker : IoWorker where
  workQueue := initWork
  freeSeq := 0
  freeSeqEnd := nrMaxParallelIo - 1
  ioSeq := none
  ioSeqEnd := none
  latestNsecs := 0

namespace IoWorker

variable (w : IoWorker)

/-- The `next` links. -/
def nexts : ℕ → Option ℕ := fun i => (w.workQueue i).next

/-- The `prev` links. -/
def prevs : ℕ → Option ℕ := fun i => (w.workQueue i).prev

/-- An assignment to fields of an entry. -/
def setWork (i : ℕ) (f : IoWork → IoWork) : IoWorker :=
  { w with workQueue := Function.update w.workQueue i (f (w.workQueue i)) }

/-- `work_queue[i].next = n`. -/
def setNext (i : ℕ) (n : Option ℕ) : IoWorker := w.setWork i fun x => { x with next := n }

/-- `work_queue[i].prev = p`. -/
def setPrev (i : ℕ) (p : Option ℕ) : IoWorker := w.setWork i fun x => { x with prev := p }

/-- The worker's part of `__allocate_work_queue_entry`: the first free entry, `none` if no other
one would be left. -/
def allocateEntry : Option (IoWorker × ℕ) :=
  match (w.workQueue w.freeSeq).next with
  | none => none
  | some n => if nrMaxParallelIo ≤ n then none else some ({ w with freeSeq := n }, w.freeSeq)

/-- The walk of `__insert_req_sorted` stops at an entry that is due or not later. -/
def StopsAt (nsecsTarget : ℕ) (curr : ℕ) : Prop :=
  (w.workQueue curr).nsecsTarget ≤ w.latestNsecs ∨
    (w.workQueue curr).nsecsTarget ≤ nsecsTarget

instance (t : ℕ) : DecidablePred (w.StopsAt t) := fun _ =>
  inferInstanceAs (Decidable (_ ∨ _))

/-- Head insertion, before `first`. -/
def insertHead (entry first : ℕ) : IoWorker :=
  { (w.setPrev first (some entry)).setNext entry (some first) with ioSeq := some entry }

/-- Tail insertion, after `curr`. -/
def insertTail (entry curr : ℕ) : IoWorker :=
  { (w.setPrev entry (some curr)).setNext curr (some entry) with ioSeqEnd := some entry }

/-- Insertion in between `curr` and `after`. -/
def insertBetween (entry curr after : ℕ) : IoWorker :=
  (((w.setPrev entry (some curr)).setNext entry (some after)).setPrev after
    (some entry)).setNext curr (some entry)

/-- `__insert_req_sorted`. -/
def insertReqSorted (entry nsecsTarget : ℕ) : IoWorker :=
  match w.ioSeq with
  | none => { w with ioSeq := some entry, ioSeqEnd := some entry }
  | some first =>
    match Chain.seekBack w.prevs (w.StopsAt nsecsTarget) nrMaxParallelIo w.ioSeqEnd with
    | none => w.insertHead entry first
    | some curr =>
      match (w.workQueue curr).next with
      | none => w.insertTail entry curr
      | some after => w.insertBetween entry curr after

/-- An entry can be reclaimed. -/
def Reclaimable (curr : ℕ) : Prop :=
  (w.workQueue curr).isCompleted = true ∧ (w.workQueue curr).isCopied = true ∧
    (w.workQueue curr).nsecsTarget ≤ w.latestNsecs

instance : DecidablePred w.Reclaimable := fun _ => inferInstanceAs (Decidable (_ ∧ _))

/-- The walk of `__reclaim_completed_reqs` from `curr`: the last entry it passes, `last` so far. -/
def lastReclaimable : ℕ → Option ℕ → Option ℕ → Option ℕ
  | 0, _, last => last
  | _ + 1, none, last => last
  | n + 1, some curr, last =>
    if w.Reclaimable curr then lastReclaimable n (w.workQueue curr).next (some curr) else last

/-- The entries from `first` to `last` go from the front of the one chain to the end of the
other. -/
def reclaimUpTo (first last : ℕ) : IoWorker :=
  let w := { w with ioSeq := (w.workQueue last).next }
  let w := match w.ioSeq with
    | none => w
    | some i => w.setPrev i none
  let w := w.setNext last none
  let w := w.setPrev first (some w.freeSeqEnd)
  let w := w.setNext w.freeSeqEnd (some first)
  { w with freeSeqEnd := last }

/-- `__reclaim_completed_reqs` on one worker. -/
def reclaimCompletedReqs : IoWorker :=
  match w.ioSeq, w.lastReclaimable nrMaxParallelIo w.ioSeq none with
  | some first, some last => w.reclaimUpTo first last
  | _, _ => w

/-- The scheduled entries in the order of the chain. -/
def ioChain : List ℕ := Chain.follow w.nexts nrMaxParallelIo w.ioSeq

/-- The free entries in the order of the chain. -/
def freeChain : List ℕ := Chain.follow w.nexts nrMaxParallelIo (some w.freeSeq)

end IoWorker

end NvmeVirt
