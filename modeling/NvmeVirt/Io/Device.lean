/-
# Dispatcher and I/O workers

`nvmev_proc_io_sq`, `__nvmev_proc_io`, `__enqueue_io_req`,
`schedule_internal_operation`, `__reclaim_completed_reqs`, `nvmev_io_worker` and
`__fill_cq_result` of `io.c`, with `nvmev_proc_dbs` of `main.c` for one
submission queue, as the steps of three parties: the host, the dispatcher thread
and the worker threads.  The FTL behind the namespace is a parameter.

A step is what a party does between two points where the others may come in: the
dispatcher handles one command or reclaims once, a worker visits one entry.  A
worker pass is `enter` and the visits up to the end of the chain.  Interrupts,
statistics and the key-value commands are left out.
-/

import NvmeVirt.Lib.Ring
import NvmeVirt.Io.Perform
import NvmeVirt.Io.WorkerChains

namespace NvmeVirt

open Outcome

/-- `struct nvmev_submission_queue`; `sq` is the ring in host memory. -/
structure SubmissionQueue where
  cqid : ℕ
  queueSize : ℕ
  sq : ℕ → NvmeRwCommand

/-- `struct nvme_completion`. -/
structure NvmeCompletion where
  result0 : ℕ
  result1 : ℕ
  sqHead : ℕ
  sqId : ℕ
  commandId : ℕ
  status : ℕ
  deriving DecidableEq, Repr

/-- `struct nvmev_completion_queue`; `cq` is the ring in host memory. -/
structure CompletionQueue where
  queueSize : ℕ
  phase : Bool
  cqHead : ℕ
  interruptReady : Bool
  cq : ℕ → NvmeCompletion

/-- `struct nvmev_request`. -/
structure NvmevRequest where
  cmd : NvmeRwCommand
  sqId : ℕ
  nsecsStart : ℕ

/-- `struct nvmev_result`. -/
structure NvmevResult where
  status : ℕ
  nsecsTarget : ℕ
  deriving DecidableEq, Repr

/-- The arguments of a call of `schedule_internal_operation` in an FTL. -/
structure InternalOp where
  nsecsTarget : ℕ
  writeBuffer : ℕ
  buffsToRelease : ℕ
  deriving DecidableEq, Repr

/-- What `proc_io_cmd` leaves behind: the namespace, the command in its slot, which it may rewrite,
the internal operations it has scheduled and, unless it returns false, its result. -/
structure IoOutcome (σ : Type) where
  ns : σ
  cmd : NvmeRwCommand
  ops : List InternalOp
  ret : Option NvmevResult

/-- What stands behind the namespace: `proc_io_cmd`, `__do_perform_io` and `buffer_release`. -/
structure IoTarget (σ : Type) where
  procIoCmd : σ → NvmevRequest → Except Fault (IoOutcome σ)
  performIo : σ → NvmeRwCommand → Except Fault σ
  bufferRelease : σ → ℕ → ℕ → σ

/-- The fields of `struct nvmev_config` the dispatcher reads; `bySq` is
`CONFIG_NVMEV_IO_WORKER_BY_SQ`. -/
structure IoConfig where
  nrIoWorkers : ℕ
  bySq : Bool
  deriving DecidableEq, Repr

/-- What a completion entry says, with the queue it goes to and the number of the work. -/
structure IoItem where
  ticket : ℕ
  sqid : ℕ
  cqid : ℕ
  sqEntry : ℕ
  commandId : ℕ
  status : ℕ
  deriving DecidableEq, Repr

/-- A dispatched command: what its completion is to say and the command itself. -/
structure Dispatch where
  item : IoItem
  cmd : NvmeRwCommand
  deriving DecidableEq, Repr

/-- A scheduled buffer release. -/
structure Release where
  ticket : ℕ
  writeBuffer : ℕ
  buffsToRelease : ℕ
  deriving DecidableEq, Repr

/-- A finished call of `nvmev_proc_io_sq`: `count` commands were dispatched, `refused` is the slot of
the command it stopped at. -/
structure SqCall where
  sqid : ℕ
  oldDb : ℕ
  newDb : ℕ
  count : ℕ
  latestDb : ℕ
  refused : Option ℕ
  deriving DecidableEq, Repr

/-- History variables: no step reads them. -/
structure IoHistory where
  dispatched : List Dispatch
  posted : List IoItem
  scheduled : List Release
  released : List Release
  returned : List SqCall

/-- The locals of `nvmev_proc_io_sq`; `reclaiming` says that the round still has to reclaim. -/
structure ProcIoSq where
  sqid : ℕ
  newDb : ℕ
  oldDb : ℕ
  numProc : ℕ
  seq : ℕ
  sqEntry : ℕ
  reclaiming : Bool
  deriving DecidableEq, Repr

/-- The fields `io_workers` and `io_worker_turn` of `struct nvmev_dev`. -/
structure IoPool where
  ioWorkers : ℕ → IoWorker
  ioWorkerTurn : ℕ

/-- `struct nvmev_dev`, the fields of the I/O path; `cursor k` is `curr` of worker thread `k` and
`call` is where the dispatcher stands. -/
structure NvmevDev (σ : Type) where
  pool : IoPool
  cursor : ℕ → Option ℕ
  sqes : ℕ → Option SubmissionQueue
  cqes : ℕ → Option CompletionQueue
  dbs : ℕ → ℕ
  oldDbs : ℕ → ℕ
  call : Option ProcIoSq
  ns : σ
  history : IoHistory

/-- `__get_io_worker`. -/
def getIoWorker (cfg : IoConfig) (sqid turn : ℕ) : ℕ :=
  if cfg.bySq then (sqid - 1) % cfg.nrIoWorkers else turn

/-- The completion entry of a work item. -/
def IoWork.item (w : IoWork) : IoItem where
  ticket := w.ticket
  sqid := w.sqid
  cqid := w.cqid
  sqEntry := w.sqEntry
  commandId := w.commandId
  status := w.status

/-- The buffer release of a work item. -/
def IoWork.release (w : IoWork) : Release where
  ticket := w.ticket
  writeBuffer := w.writeBuffer
  buffsToRelease := w.buffsToRelease

/-- The fields `__enqueue_io_req` fills in. -/
def fillReq (i : IoItem) (nsecsTarget : ℕ) (w : IoWork) : IoWork :=
  { w with
    sqid := i.sqid, cqid := i.cqid, sqEntry := i.sqEntry, commandId := i.commandId
    nsecsTarget := nsecsTarget, status := i.status, isCompleted := false, isCopied := false
    prev := none, next := none, isInternal := false, ticket := i.ticket }

/-- The fields `schedule_internal_operation` fills in. -/
def fillInternal (sqid ticket : ℕ) (op : InternalOp) (w : IoWork) : IoWork :=
  { w with
    sqid := sqid, nsecsTarget := op.nsecsTarget, isCompleted := false, isCopied := true
    prev := none, next := none, isInternal := true, writeBuffer := op.writeBuffer
    buffsToRelease := op.buffsToRelease, ticket := ticket }

namespace IoPool

variable (cfg : IoConfig) (p : IoPool)

/-- An assignment to a worker. -/
def setWorker (k : ℕ) (w : IoWorker) : IoPool :=
  { p with ioWorkers := Function.update p.ioWorkers k w }

/-- `__allocate_work_queue_entry`: the worker and the entry; the turn moves on. -/
def allocateWorkQueueEntry (sqid : ℕ) : Option (IoPool × ℕ × ℕ) :=
  let turn := getIoWorker cfg sqid p.ioWorkerTurn
  match (p.ioWorkers turn).allocateEntry with
  | none => none
  | some (w, e) =>
    let next := if turn + 1 = cfg.nrIoWorkers then 0 else turn + 1
    some ({ p.setWorker turn w with ioWorkerTurn := next }, turn, e)

/-- An entry is allocated, filled in and inserted; if there is none to give out, nothing
happens. -/
def putWork (sqid nsecsTarget : ℕ) (fill : IoWork → IoWork) : IoPool :=
  match p.allocateWorkQueueEntry cfg sqid with
  | none => p
  | some (p, k, e) =>
    p.setWorker k (((p.ioWorkers k).setWork e fill).insertReqSorted e nsecsTarget)

/-- `__reclaim_completed_reqs`. -/
def reclaimCompletedReqs : IoPool :=
  { p with ioWorkers := fun k =>
      if k < cfg.nrIoWorkers then (p.ioWorkers k).reclaimCompletedReqs else p.ioWorkers k }

end IoPool

namespace NvmevDev

variable {σ : Type} (cfg : IoConfig) (tgt : IoTarget σ) (d : NvmevDev σ)

/-- `__enqueue_io_req`. -/
def enqueueIoReq (sqid cqid sqEntry : ℕ) (cmd : NvmeRwCommand) (ret : NvmevResult) : NvmevDev σ :=
  let i : IoItem := {
    ticket := d.history.dispatched.length, sqid := sqid, cqid := cqid, sqEntry := sqEntry
    commandId := cmd.commandId, status := ret.status }
  { d with
    pool := d.pool.putWork cfg sqid ret.nsecsTarget (fillReq i ret.nsecsTarget)
    history.dispatched := d.history.dispatched ++ [{ item := i, cmd := cmd }] }

/-- `schedule_internal_operation`. -/
def scheduleInternalOperation (sqid : ℕ) (op : InternalOp) : NvmevDev σ :=
  let r : Release := {
    ticket := d.history.scheduled.length, writeBuffer := op.writeBuffer
    buffsToRelease := op.buffsToRelease }
  { d with
    pool := d.pool.putWork cfg sqid op.nsecsTarget (fillInternal sqid r.ticket op)
    history.scheduled := d.history.scheduled ++ [r] }

/-- The internal operations of a command in the order the FTL schedules them. -/
def scheduleAll (sqid : ℕ) (ops : List InternalOp) : NvmevDev σ :=
  ops.foldl (fun d op => d.scheduleInternalOperation cfg sqid op) d

/-- `nvmev_proc_dbs` on a submission queue: where the doorbell has moved, `nvmev_proc_io_sq` is
entered. -/
def pollSq (sqid : ℕ) : NvmevDev σ :=
  match d.call, d.sqes sqid with
  | none, some sq =>
    let newDb := d.dbs sqid
    let oldDb := d.oldDbs sqid
    if sqid = 0 ∨ newDb = oldDb then d
    else { d with call := some {
      sqid := sqid, newDb := newDb, oldDb := oldDb
      numProc := Ring.dist sq.queueSize oldDb newDb
      seq := 0, sqEntry := oldDb, reclaiming := false } }
  | _, _ => d

/-- The end of `nvmev_proc_io_sq` and the assignment to `old_dbs` behind it. -/
def returnDb (c : ProcIoSq) (sq : SubmissionQueue) (refused : Option ℕ) : NvmevDev σ :=
  let latestDb := (c.oldDb + c.seq) % sq.queueSize
  { d with
    oldDbs := Function.update d.oldDbs c.sqid latestDb
    call := none
    history.returned := d.history.returned ++ [{
      sqid := c.sqid, oldDb := c.oldDb, newDb := c.newDb, count := c.seq, latestDb := latestDb
      refused := refused }] }

/-- An assignment to an entry of a submission queue. -/
def writeSq (sqid slot : ℕ) (cmd : NvmeRwCommand) : NvmevDev σ :=
  match d.sqes sqid with
  | none => d
  | some sq => { d with
      sqes := Function.update d.sqes sqid
        (some { sq with sq := Function.update sq.sq slot cmd }) }

/-- What `proc_io_cmd` has written: the namespace and the command in its slot. -/
def afterFtl (c : ProcIoSq) (out : IoOutcome σ) : NvmevDev σ :=
  { d with ns := out.ns }.writeSq c.sqid c.sqEntry out.cmd

/-- The rest of `__nvmev_proc_io` up to the reclaim; a command that is refused ends the loop. -/
def finishIo (c : ProcIoSq) (sq : SubmissionQueue) (out : IoOutcome σ) : NvmevDev σ :=
  let d := (d.afterFtl c out).scheduleAll cfg c.sqid out.ops
  match out.ret with
  | none => d.returnDb c sq (some c.sqEntry)
  | some ret => { d.enqueueIoReq cfg c.sqid sq.cqid c.sqEntry out.cmd ret with
      call := some { c with reclaiming := true } }

/-- The `req` of `__nvmev_proc_io`. -/
def request (c : ProcIoSq) (sq : SubmissionQueue) (nsecsStart : ℕ) : NvmevRequest where
  cmd := sq.sq c.sqEntry
  sqId := c.sqid
  nsecsStart := nsecsStart

/-- `__nvmev_proc_io` up to the reclaim. -/
def procIo (c : ProcIoSq) (sq : SubmissionQueue) (nsecsStart : ℕ) : Except Fault (NvmevDev σ) := do
  let out ← tgt.procIoCmd d.ns (request c sq nsecsStart)
  .ok (d.finishIo cfg c sq out)

/-- One round of the loop of `nvmev_proc_io_sq` up to the reclaim, or its end. -/
def dispatch (nsecsStart : ℕ) : Except Fault (NvmevDev σ) :=
  match d.call with
  | none => .ok d
  | some c =>
    if c.reclaiming then .ok d
    else
      match d.sqes c.sqid with
      | none => .error .undefined
      | some sq =>
        if c.seq < c.numProc then d.procIo cfg tgt c sq nsecsStart
        else .ok (d.returnDb c sq none)

/-- The rest of the round: the reclaim and the step to the next entry. -/
def finishRound : Except Fault (NvmevDev σ) :=
  match d.call with
  | none => .ok d
  | some c =>
    if ¬ c.reclaiming then .ok d
    else
      match d.sqes c.sqid with
      | none => .error .undefined
      | some sq =>
        .ok { d with
          pool := d.pool.reclaimCompletedReqs cfg
          call := some { c with
            seq := c.seq + 1
            sqEntry := Ring.succ sq.queueSize c.sqEntry
            reclaiming := false } }

/-- `__do_perform_io` for an entry of a submission queue. -/
def doPerformIo (sqid sqEntry : ℕ) : Except Fault (NvmevDev σ) :=
  match d.sqes sqid with
  | none => .error .undefined
  | some sq => do
    let ns ← tgt.performIo d.ns (sq.sq sqEntry)
    .ok { d with ns := ns }

/-- `__fill_cq_result` on the ring; all fields but the results are cut to 16 bits. -/
def fillCq (cq : CompletionQueue) (w : IoWork) : CompletionQueue :=
  let wraps := cq.cqHead + 1 = cq.queueSize
  { cq with
    cq := Function.update cq.cq cq.cqHead {
      result0 := w.result0, result1 := w.result1, sqHead := w.sqEntry % 2 ^ 16
      sqId := w.sqid % 2 ^ 16, commandId := w.commandId % 2 ^ 16
      status := (cq.phase.toNat ||| (w.status <<< 1)) % 2 ^ 16 }
    cqHead := if wraps then 0 else cq.cqHead + 1
    phase := if wraps then !cq.phase else cq.phase
    interruptReady := true }

/-- `__fill_cq_result`. -/
def fillCqResult (w : IoWork) : Except Fault (NvmevDev σ) :=
  match d.cqes w.cqid with
  | none => .error .undefined
  | some cq => .ok { d with
      cqes := Function.update d.cqes w.cqid (some (fillCq cq w))
      history.posted := d.history.posted ++ [w.item] }

/-- An assignment to an entry of a work queue. -/
def setWork (k curr : ℕ) (f : IoWork → IoWork) : NvmevDev σ :=
  { d with pool := d.pool.setWorker k ((d.pool.ioWorkers k).setWork curr f) }

/-- The copy of an entry that is not copied yet. -/
def copyWork (k curr : ℕ) : Except Fault (NvmevDev σ) := do
  let w := (d.pool.ioWorkers k).workQueue curr
  if w.isCopied then return d
  let d ← if w.isInternal then Except.ok d else d.doPerformIo tgt w.sqid w.sqEntry
  return d.setWork k curr fun w => { w with isCopied := true }

/-- The completion of an entry that is due. -/
def completeWork (k curr : ℕ) : Except Fault (NvmevDev σ) := do
  let w := (d.pool.ioWorkers k).workQueue curr
  let d ← if w.isInternal then
      Except.ok { d with
        ns := tgt.bufferRelease d.ns w.writeBuffer w.buffsToRelease
        history.released := d.history.released ++ [w.release] }
    else d.fillCqResult w
  return d.setWork k curr fun w => { w with isCompleted := true }

/-- `worker->latest_nsecs = curr_nsecs`. -/
def atClock (k currNsecs : ℕ) : NvmevDev σ :=
  { d with pool := d.pool.setWorker k { d.pool.ioWorkers k with latestNsecs := currNsecs } }

/-- What worker `k` does about the entry `curr` at `currNsecs`. -/
def serveWork (k curr currNsecs : ℕ) : Except Fault (NvmevDev σ) :=
  let w := (d.pool.ioWorkers k).workQueue curr
  if w.isCompleted then .ok d
  else do
    let d ← d.copyWork tgt k curr
    if w.nsecsTarget ≤ currNsecs then d.completeWork tgt k curr else .ok d

/-- One round of the loop of `nvmev_io_worker`: worker `k` visits the entry `curr` at `currNsecs`. -/
def visitWork (k curr currNsecs : ℕ) : Except Fault (NvmevDev σ) := do
  let d ← (d.atClock k currNsecs).serveWork tgt k curr currNsecs
  .ok { d with cursor := Function.update d.cursor k ((d.pool.ioWorkers k).nexts curr) }

end NvmevDev

/-- The steps of the parties. -/
inductive IoOp
  /-- The host writes an entry of a submission queue. -/
  | submit (sqid slot : ℕ) (cmd : NvmeRwCommand)
  /-- The host writes a doorbell. -/
  | ring (sqid newDb : ℕ)
  /-- The dispatcher looks at a doorbell. -/
  | poll (sqid : ℕ)
  /-- The dispatcher begins a round of its loop or ends the loop. -/
  | dispatch (nsecsStart : ℕ)
  /-- The dispatcher ends the round. -/
  | reclaim
  /-- A worker begins a pass. -/
  | enter (k : ℕ)
  /-- A worker visits the entry it has come to. -/
  | visit (k currNsecs : ℕ)

namespace NvmevDev

variable {σ : Type} (cfg : IoConfig) (tgt : IoTarget σ) (d : NvmevDev σ)

/-- One step.  A step of a party that stands elsewhere does nothing. -/
def exec : IoOp → Except Fault (NvmevDev σ)
  | .submit sqid slot cmd => .ok (d.writeSq sqid slot cmd)
  | .ring sqid newDb => .ok { d with dbs := Function.update d.dbs sqid newDb }
  | .poll sqid => .ok (d.pollSq sqid)
  | .dispatch nsecsStart => d.dispatch cfg tgt nsecsStart
  | .reclaim => d.finishRound cfg
  | .enter k =>
    .ok (if d.cursor k = none ∧ k < cfg.nrIoWorkers then
      { d with cursor := Function.update d.cursor k (d.pool.ioWorkers k).ioSeq } else d)
  | .visit k currNsecs =>
    match d.cursor k with
    | none => .ok d
    | some curr => d.visitWork tgt k curr currNsecs

/-- The device after `NVMEV_IO_WORKER_INIT` with the given queues. -/
def start (sqes : ℕ → Option SubmissionQueue) (cqes : ℕ → Option CompletionQueue) (ns : σ) :
    NvmevDev σ where
  pool := { ioWorkers := fun _ => initWorker, ioWorkerTurn := 0 }
  cursor := fun _ => none
  sqes := sqes
  cqes := cqes
  dbs := fun _ => 0
  oldDbs := fun _ => 0
  call := none
  ns := ns
  history := { dispatched := [], posted := [], scheduled := [], released := [], returned := [] }

end NvmevDev

end NvmeVirt
