/-
# The namespace behind the queues

Where the steps of the parties touch the namespace: a round of the dispatcher
hands one command to `proc_io_cmd`, and a worker that visits an entry copies its
data with `__do_perform_io`, or releases its buffer space, or both rests.  The
copy reads the command in the slot of the entry at that time, and asks for no
status.
-/

import NvmeVirt.Io.Account

namespace NvmeVirt

open Outcome IoPool

namespace NvmevDev

variable {σ : Type} {cfg : IoConfig} {tgt : IoTarget σ} {d d' : NvmevDev σ} {k curr : ℕ}

/-- The request a step hands to `proc_io_cmd`. -/
def taken (d : NvmevDev σ) : IoOp → Option NvmevRequest
  | .dispatch t => d.call.bind fun c =>
    if c.reclaiming = false ∧ c.seq < c.numProc then
      (d.sqes c.sqid).map fun sq => request c sq t
    else none
  | _ => none

/-- The step that takes a command and the slot it is taken from. -/
theorem taken_eq_some {op : IoOp} {req : NvmevRequest} (h : d.taken op = some req) :
    ∃ t c sq, op = .dispatch t ∧ d.call = some c ∧ d.sqes c.sqid = some sq ∧
      req.cmd = sq.sq c.sqEntry := by
  cases op with
  | dispatch t =>
    unfold taken at h
    obtain ⟨c, hc, h⟩ := Option.bind_eq_some_iff.1 h
    split_ifs at h
    obtain ⟨sq, hsq, rfl⟩ := Option.map_eq_some_iff.1 h
    exact ⟨t, c, sq, rfl, hc, hsq, rfl⟩
  | _ => cases h

/-- The entry and the command whose data the visit of an entry copies. -/
def copyOf (d : NvmevDev σ) (k curr : ℕ) : Option (IoWork × NvmeRwCommand) :=
  let w := (d.pool.ioWorkers k).workQueue curr
  if w.isCompleted = false ∧ w.isCopied = false ∧ w.isInternal = false then
    (d.sqes w.sqid).map fun sq => (w, sq.sq w.sqEntry)
  else none

/-- The entry and the command whose data a step copies. -/
def moved (d : NvmevDev σ) : IoOp → Option (IoWork × NvmeRwCommand)
  | .visit k _ => (d.cursor k).bind (d.copyOf k)
  | _ => none

@[simp] theorem ns_scheduleAll (d : NvmevDev σ) (sqid : ℕ) (ops : List InternalOp) :
    (d.scheduleAll cfg sqid ops).ns = d.ns := by
  induction ops generalizing d with
  | nil => rfl
  | cons op ops ih => exact ih (d.scheduleInternalOperation cfg sqid op)

@[simp] theorem ns_writeSq (d : NvmevDev σ) (sqid slot : ℕ) (cmd : NvmeRwCommand) :
    (d.writeSq sqid slot cmd).ns = d.ns := by
  unfold writeSq
  split <;> rfl

@[simp] theorem ns_pollSq (d : NvmevDev σ) (sqid : ℕ) : (d.pollSq sqid).ns = d.ns := by
  unfold pollSq
  split
  · dsimp only
    split_ifs <;> rfl
  · rfl

@[simp] theorem sqes_scheduleAll (d : NvmevDev σ) (sqid : ℕ) (ops : List InternalOp) :
    (d.scheduleAll cfg sqid ops).sqes = d.sqes := by
  induction ops generalizing d with
  | nil => rfl
  | cons op ops ih => exact ih (d.scheduleInternalOperation cfg sqid op)

@[simp] theorem sqes_pollSq (d : NvmevDev σ) (sqid : ℕ) : (d.pollSq sqid).sqes = d.sqes := by
  unfold pollSq
  split
  · dsimp only
    split_ifs <;> rfl
  · rfl

/-- **A command has been taken** from the slot where the call `c` stands: the FTL has left its
namespace and the command in the slot, and the call ends if the command was refused. -/
structure Took (tgt : IoTarget σ) (d d' : NvmevDev σ) (c : ProcIoSq) (req : NvmevRequest)
    (out : IoOutcome σ) : Prop where
  call : d.call = some c
  slot : ∃ sq, d.sqes c.sqid = some sq ∧ req.cmd = sq.sq c.sqEntry
  proc : tgt.procIoCmd d.ns req = .ok out
  ns : d'.ns = out.ns
  sqes : d'.sqes = (d.writeSq c.sqid c.sqEntry out.cmd).sqes
  ends : d'.call = none ↔ out.ret = none

/-- The rest of `__nvmev_proc_io` on the namespace, the queues and the call. -/
theorem finishIo_fields (d : NvmevDev σ) (c : ProcIoSq) (sq : SubmissionQueue)
    (out : IoOutcome σ) : (d.finishIo cfg c sq out).ns = out.ns ∧
      (d.finishIo cfg c sq out).sqes = (d.writeSq c.sqid c.sqEntry out.cmd).sqes ∧
      ((d.finishIo cfg c sq out).call = none ↔ out.ret = none) := by
  have hns : ((d.afterFtl c out).scheduleAll cfg c.sqid out.ops).ns = out.ns := by
    rw [ns_scheduleAll]
    exact ns_writeSq _ _ _ _
  have hsqes : ((d.afterFtl c out).scheduleAll cfg c.sqid out.ops).sqes
      = (d.writeSq c.sqid c.sqEntry out.cmd).sqes := by
    rw [sqes_scheduleAll]
    unfold afterFtl writeSq
    dsimp only
    cases d.sqes c.sqid <;> rfl
  unfold finishIo
  cases out.ret with
  | none => exact ⟨hns, hsqes, fun _ => rfl, fun _ => rfl⟩
  | some ret => exact ⟨hns, hsqes, nofun, nofun⟩

/-- **A round of the dispatcher** takes a command, or leaves the namespace and the queues alone. -/
theorem dispatch_ns (d : NvmevDev σ) (t : ℕ) :
    Ends (d.dispatch cfg tgt t) (fun d' =>
      (∃ c req out, d.taken (.dispatch t) = some req ∧ Took tgt d d' c req out) ∨
        d.taken (.dispatch t) = none ∧ d'.ns = d.ns ∧ d'.sqes = d.sqes) fun _ => True := by
  unfold dispatch taken
  cases hcall : d.call with
  | none => exact .inr ⟨rfl, rfl, rfl⟩
  | some c =>
    dsimp only [Option.bind_some]
    cases hrec : c.reclaiming with
    | true => exact .inr ⟨if_neg fun h => Bool.false_ne_true h.1.symm, rfl, rfl⟩
    | false =>
      rw [if_neg Bool.false_ne_true]
      cases hsq : d.sqes c.sqid with
      | none => trivial
      | some sq =>
        dsimp only
        by_cases hseq : c.seq < c.numProc
        · rw [if_pos hseq, if_pos ⟨rfl, hseq⟩]
          unfold procIo
          cases hout : tgt.procIoCmd d.ns (request c sq t) with
          | error e => trivial
          | ok out =>
            obtain ⟨h1, h2, h3⟩ := d.finishIo_fields c sq out
            exact .inl ⟨c, _, out, rfl, hcall, ⟨sq, hsq, rfl⟩, hout, h1, h2, h3⟩
        · rw [if_neg hseq, if_neg fun h => hseq h.2]
          exact .inr ⟨rfl, rfl, rfl⟩

/-- What the visit of an entry makes of the namespace: the copy first, then the release of buffer
space. -/
def AfterVisit (tgt : IoTarget σ) (ns : σ) (copy : Option (IoWork × NvmeRwCommand)) (ns' : σ) : Prop :=
  ∃ ns₁, (copy = none ∧ ns₁ = ns ∨
      ∃ w cmd, copy = some (w, cmd) ∧ tgt.performIo ns cmd = .ok ns₁) ∧
    (ns' = ns₁ ∨ ∃ buf bytes, ns' = tgt.bufferRelease ns₁ buf bytes)

/-- **The service of an entry.** -/
theorem serveWork_ns (tgt : IoTarget σ) (d : NvmevDev σ) (k curr t : ℕ) :
    Ends (d.serveWork tgt k curr t) (fun d' =>
      AfterVisit tgt d.ns (d.copyOf k curr) d'.ns ∧ d'.sqes = d.sqes) fun _ => True := by
  unfold serveWork
  dsimp only
  cases hc : ((d.pool.ioWorkers k).workQueue curr).isCompleted with
  | true =>
    refine ⟨⟨d.ns, .inl ⟨if_neg fun h => ?_, rfl⟩, .inl rfl⟩, rfl⟩
    rw [hc] at h
    exact Bool.false_ne_true h.1.symm
  | false =>
    rw [if_neg Bool.false_ne_true]
    have hcopy : Ends (d.copyWork tgt k curr) (fun d₂ =>
        (d.copyOf k curr = none ∧ d₂.ns = d.ns ∨
          ∃ w cmd, d.copyOf k curr = some (w, cmd) ∧ tgt.performIo d.ns cmd = .ok d₂.ns) ∧
        ((d₂.pool.ioWorkers k).workQueue curr).isCompleted = false ∧ d₂.sqes = d.sqes)
        fun _ => True := by
      refine (copyWork_cases rfl hc).mono ?_ fun _ _ => trivial
      unfold copyOf
      rintro d₂ (⟨hcp, rfl⟩ | ⟨hcp, hi, rfl⟩ | ⟨hcp, hi, sq, ns, hsq, hio, rfl⟩)
      · exact ⟨.inl ⟨if_neg fun h => by simp [hcp] at h, rfl⟩, hc, rfl⟩
      · refine ⟨.inl ⟨if_neg fun h => by simp [hi] at h, rfl⟩, ?_, rfl⟩
        unfold NvmevDev.markCopied
        rw [entry_setWork]
        exact hc
      · refine ⟨.inr ⟨_, _, (if_pos ⟨hc, hcp, hi⟩).trans (by rw [hsq]; rfl), hio⟩, ?_, rfl⟩
        unfold NvmevDev.markCopied
        rw [entry_setWork]
        exact hc
    refine hcopy.bind ?_
    rintro d₂ ⟨hns, hc₂, hsq₂⟩
    have hserved : ∀ ns', (ns' = d₂.ns ∨ ∃ buf bytes, ns' = tgt.bufferRelease d₂.ns buf bytes) →
        AfterVisit tgt d.ns (d.copyOf k curr) ns' := fun ns' h => ⟨d₂.ns, hns, h⟩
    split_ifs with hdue
    · refine (completeWork_cases rfl hc₂).mono ?_ fun _ _ => trivial
      rintro d₃ (⟨-, rfl⟩ | ⟨-, cq, -, rfl⟩)
      · exact ⟨hserved _ (.inr ⟨_, _, rfl⟩), hsq₂⟩
      · exact ⟨hserved _ (.inl rfl), hsq₂⟩
    · exact ⟨hserved _ (.inl rfl), hsq₂⟩

/-- The clock of a worker has no part in it. -/
theorem copyOf_atClock (d : NvmevDev σ) (k curr t : ℕ) :
    (d.atClock k t).copyOf k curr = d.copyOf k curr := by
  have hw : ((d.atClock k t).pool.ioWorkers k).workQueue curr
      = (d.pool.ioWorkers k).workQueue curr := by
    show ((d.pool.setWorker k _).ioWorkers k).workQueue curr = _
    rw [setWorker_self]
  unfold copyOf
  rw [hw]
  rfl

/-- **What a step makes of the namespace and the queues.** -/
theorem exec_ns (d : NvmevDev σ) (op : IoOp) :
    Ends (d.exec cfg tgt op) (fun d' =>
      (∃ c req out, d.taken op = some req ∧ Took tgt d d' c req out) ∨
      d.taken op = none ∧ AfterVisit tgt d.ns (d.moved op) d'.ns ∧
        (d'.sqes = d.sqes ∨ ∃ q i cmd, op = .submit q i cmd ∧ d'.sqes = (d.writeSq q i cmd).sqes))
      fun _ => True := by
  have hrest : ∀ {d' : NvmevDev σ}, d'.ns = d.ns → AfterVisit tgt d.ns none d'.ns :=
    fun h => ⟨d.ns, .inl ⟨rfl, rfl⟩, .inl h⟩
  cases op with
  | submit sqid slot cmd =>
    exact .inr ⟨rfl, hrest (ns_writeSq d sqid slot cmd), .inr ⟨_, _, _, rfl, rfl⟩⟩
  | ring sqid newDb => exact .inr ⟨rfl, hrest rfl, .inl rfl⟩
  | poll sqid => exact .inr ⟨rfl, hrest (ns_pollSq d sqid), .inl (sqes_pollSq d sqid)⟩
  | dispatch t =>
    refine (dispatch_ns d t).mono ?_ fun _ _ => trivial
    exact fun d' h => h.imp_right fun h => ⟨h.1, hrest h.2.1, .inl h.2.2⟩
  | reclaim =>
    show Ends (d.finishRound cfg) _ _
    unfold finishRound
    cases d.call with
    | none => exact .inr ⟨rfl, hrest rfl, .inl rfl⟩
    | some c =>
      dsimp only
      by_cases hrec : c.reclaiming = true
      · rw [if_neg (not_not.2 hrec)]
        cases d.sqes c.sqid with
        | none => trivial
        | some sq => exact .inr ⟨rfl, hrest rfl, .inl rfl⟩
      · rw [if_pos hrec]
        exact .inr ⟨rfl, hrest rfl, .inl rfl⟩
  | enter k =>
    refine .inr ⟨rfl, hrest ?_, .inl ?_⟩
    · split_ifs <;> rfl
    · split_ifs <;> rfl
  | visit k t =>
    unfold exec moved
    dsimp only
    cases d.cursor k with
    | none => exact .inr ⟨rfl, hrest rfl, .inl rfl⟩
    | some curr =>
      dsimp only [Option.bind_some]
      unfold visitWork
      have hserve := serveWork_ns tgt (d.atClock k t) k curr t
      rw [copyOf_atClock] at hserve
      exact hserve.bind fun d₃ h => .inr ⟨rfl, h.1, .inl h.2⟩

end NvmevDev

end NvmeVirt
