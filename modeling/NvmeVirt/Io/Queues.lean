/-
# The submission queues and the dispatcher

`nvmev_proc_io_sq` of `io.c` over whole runs: the commands dispatched from a
queue come from consecutive slots of the ring, the doorbell it returns is the
slot behind the last of them, and a call ends short of the new doorbell only at
a command the FTL refused.
-/

import NvmeVirt.Io.Account

namespace NvmeVirt

open Outcome IoPool

/-- A finished call of `nvmev_proc_io_sq` on a ring of `n` slots has dispatched the commands from
the old doorbell on, up to the new one or to a command that was refused. -/
structure SqCall.Done (n : ℕ) (c : SqCall) : Prop where
  count : c.count ≤ Ring.dist n c.oldDb c.newDb
  latestDb : c.latestDb = (c.oldDb + c.count) % n
  ends : c.refused = some c.latestDb ∨
    c.refused = none ∧ c.count = Ring.dist n c.oldDb c.newDb ∧ c.latestDb = c.newDb

/-- A call of `nvmev_proc_io_sq` under way on a ring of `n` slots from which `m` commands have been
dispatched so far. -/
structure ProcIoSq.Running (n m : ℕ) (c : ProcIoSq) : Prop where
  oldDb : c.oldDb < n
  newDb : c.newDb < n
  numProc : c.numProc = Ring.dist n c.oldDb c.newDb
  seq : c.seq + c.reclaiming.toNat ≤ c.numProc
  sqEntry : c.sqEntry = (c.oldDb + c.seq) % n
  dispatched : (c.oldDb + c.seq + c.reclaiming.toNat) % n = m % n

namespace NvmevDev

variable {σ : Type} {cfg : IoConfig} {tgt : IoTarget σ} {d d' : NvmevDev σ} {q n m cq k curr : ℕ}

/-- Size and completion queue of the submission queues. -/
def shapes (d : NvmevDev σ) (q : ℕ) : Option (ℕ × ℕ) :=
  (d.sqes q).map fun sq => (sq.queueSize, sq.cqid)

/-- The slots whose commands were dispatched from a queue, in order. -/
def slotsOf (d : NvmevDev σ) (q : ℕ) : List ℕ :=
  (d.history.dispatched.filter fun x => x.item.sqid = q).map fun x => x.item.sqEntry

/-- The queue a command was dispatched from and the one its completion goes to exist. -/
def Served (d : NvmevDev σ) (i : IoItem) : Prop :=
  (d.shapes i.sqid).isSome ∧ (d.cqes i.cqid).isSome

/-- **The invariant of the queues.** -/
structure QueuesOk (d : NvmevDev σ) : Prop where
  dbs : ∀ q n cq, d.shapes q = some (n, cq) → d.dbs q < n
  cq : ∀ q n cq, d.shapes q = some (n, cq) → (d.cqes cq).isSome
  served : ∀ x ∈ d.history.dispatched, d.Served x.item
  slots : ∀ q n cq, d.shapes q = some (n, cq) →
    d.slotsOf q = (List.range (d.slotsOf q).length).map (· % n)
  oldDbs : ∀ q n cq, d.shapes q = some (n, cq) → (∀ c, d.call = some c → c.sqid ≠ q) →
    d.oldDbs q = (d.slotsOf q).length % n
  call : ∀ c, d.call = some c → ∃ n cq, d.shapes c.sqid = some (n, cq) ∧
    c.Running n (d.slotsOf c.sqid).length
  returned : ∀ c ∈ d.history.returned, ∃ n cq, d.shapes c.sqid = some (n, cq) ∧ c.Done n
  itemTickets : d.history.dispatched.map (fun x => x.item.ticket)
    = List.range d.history.dispatched.length
  releaseTickets : d.history.scheduled.map Release.ticket
    = List.range d.history.scheduled.length

/-- What the workers and the FTL leave alone. -/
structure SameQueues (d d' : NvmevDev σ) : Prop where
  shapes : d'.shapes = d.shapes
  cqes : ∀ q, (d'.cqes q).isSome = (d.cqes q).isSome
  dbs : d'.dbs = d.dbs
  oldDbs : d'.oldDbs = d.oldDbs
  call : d'.call = d.call
  dispatched : d'.history.dispatched = d.history.dispatched
  returned : d'.history.returned = d.history.returned

theorem SameQueues.refl (d : NvmevDev σ) : SameQueues d d := ⟨rfl, fun _ => rfl, rfl, rfl, rfl, rfl, rfl⟩

theorem SameQueues.trans {d'' : NvmevDev σ} (h : SameQueues d d') (h' : SameQueues d' d'') :
    SameQueues d d'' :=
  ⟨h'.shapes.trans h.shapes, fun q => (h'.cqes q).trans (h.cqes q), h'.dbs.trans h.dbs,
    h'.oldDbs.trans h.oldDbs, h'.call.trans h.call, h'.dispatched.trans h.dispatched,
    h'.returned.trans h.returned⟩

/-- The invariant of the queues is about these. -/
theorem QueuesOk.congr (h : QueuesOk d) (hs : SameQueues d d')
    (ht : d'.history.scheduled.map Release.ticket = List.range d'.history.scheduled.length) :
    QueuesOk d' := by
  obtain ⟨h1, h2, h3, h4, h5, h6, h7, h8, -⟩ := h
  have hslots : ∀ q, d'.slotsOf q = d.slotsOf q := fun q => by
    unfold slotsOf
    rw [hs.dispatched]
  refine ⟨?_, ?_, ?_, ?_, ?_, ?_, ?_, ?_, ht⟩
  · rw [hs.shapes, hs.dbs]
    exact h1
  · intro q n cq hq
    rw [hs.shapes] at hq
    rw [hs.cqes]
    exact h2 q n cq hq
  · intro x hx
    rw [hs.dispatched] at hx
    unfold Served
    rw [hs.shapes, hs.cqes]
    exact h3 x hx
  · intro q n cq hq
    rw [hs.shapes] at hq
    rw [hslots]
    exact h4 q n cq hq
  · intro q n cq hq hc
    rw [hs.shapes] at hq
    rw [hs.call] at hc
    rw [hslots, hs.oldDbs]
    exact h5 q n cq hq hc
  · intro c hc
    rw [hs.call] at hc
    rw [hs.shapes, hslots]
    exact h6 c hc
  · rw [hs.shapes, hs.returned]
    exact h7
  · rw [hs.dispatched]
    exact h8

/-! ### The dispatcher -/

@[simp] theorem shapes_writeSq (d : NvmevDev σ) (sqid slot : ℕ) (cmd : NvmeRwCommand) :
    (d.writeSq sqid slot cmd).shapes = d.shapes := by
  funext q
  unfold NvmevDev.writeSq shapes
  cases hsq : d.sqes sqid with
  | none => rfl
  | some sq =>
    by_cases hq : q = sqid
    · subst hq
      simp [hsq]
    · simp [hq]

theorem SameQueues.writeSq (d : NvmevDev σ) (sqid slot : ℕ) (cmd : NvmeRwCommand) :
    SameQueues d (d.writeSq sqid slot cmd) := by
  refine ⟨shapes_writeSq d sqid slot cmd, ?_, ?_, ?_, ?_, ?_, ?_⟩ <;> unfold NvmevDev.writeSq <;>
    split <;> first | rfl | exact fun _ => rfl

theorem SameQueues.scheduleAll (d : NvmevDev σ) (sqid : ℕ) (ops : List InternalOp) :
    SameQueues d (d.scheduleAll cfg sqid ops) := by
  induction ops generalizing d with
  | nil => exact .refl d
  | cons op ops ih =>
    have h1 : SameQueues d (d.scheduleInternalOperation cfg sqid op) :=
      ⟨rfl, fun _ => rfl, rfl, rfl, rfl, rfl, rfl⟩
    exact h1.trans (ih _)

/-- The numbers of the releases are kept. -/
theorem releaseTickets_scheduleAll (d : NvmevDev σ) (sqid : ℕ) (ops : List InternalOp)
    (h : d.history.scheduled.map Release.ticket = List.range d.history.scheduled.length) :
    (d.scheduleAll cfg sqid ops).history.scheduled.map Release.ticket
      = List.range (d.scheduleAll cfg sqid ops).history.scheduled.length := by
  induction ops generalizing d with
  | nil => exact h
  | cons op ops ih =>
    refine ih (d.scheduleInternalOperation cfg sqid op) ?_
    show (d.history.scheduled ++ [_]).map Release.ticket
      = List.range (d.history.scheduled ++ [_]).length
    rw [List.map_append, h, List.length_append, List.length_singleton, List.range_succ]
    rfl

/-- **Entering `nvmev_proc_io_sq`.** -/
theorem QueuesOk.pollSq (h : QueuesOk d) (sqid : ℕ) : QueuesOk (d.pollSq sqid) := by
  unfold NvmevDev.pollSq
  split
  · rename_i sq hcall hsq
    dsimp only
    by_cases hsame : sqid = 0 ∨ d.dbs sqid = d.oldDbs sqid
    · rw [if_pos hsame]
      exact h
    · rw [if_neg hsame]
      have hshape : d.shapes sqid = some (sq.queueSize, sq.cqid) := by
        unfold shapes
        rw [hsq]
        rfl
      have hdb := h.dbs _ _ _ hshape
      have hold : d.oldDbs sqid = (d.slotsOf sqid).length % sq.queueSize := by
        refine h.oldDbs _ _ _ hshape fun c hc => ?_
        rw [hcall] at hc
        cases hc
      have holdlt : d.oldDbs sqid < sq.queueSize := by
        rw [hold]
        exact Nat.mod_lt _ (by omega)
      refine ⟨h.dbs, h.cq, h.served, h.slots, fun q n cq hq _ => ?_, ?_, h.returned,
        h.itemTickets, h.releaseTickets⟩
      · refine h.oldDbs q n cq hq fun c hc => ?_
        rw [hcall] at hc
        cases hc
      · rintro c hc
        cases hc
        refine ⟨_, _, hshape, holdlt, hdb, rfl, Nat.zero_le _, ?_, ?_⟩
        · exact (Nat.mod_eq_of_lt holdlt).symm
        · show (d.oldDbs sqid + 0 + 0) % _ = (d.slotsOf sqid).length % _
          rw [hold]
          simp
  · exact h

/-- **Leaving `nvmev_proc_io_sq`** at the new doorbell or at a command that is refused. -/
theorem QueuesOk.returnDb (h : QueuesOk d) {c : ProcIoSq} {sq : SubmissionQueue} {r : Option ℕ}
    (hcall : d.call = some c) (hrec : c.reclaiming = false)
    (hshape : d.shapes c.sqid = some (sq.queueSize, sq.cqid))
    (hr : r = none ∧ c.seq = c.numProc ∨ r = some c.sqEntry) : QueuesOk (d.returnDb c sq r) := by
  obtain ⟨n, cq, hshape', hrun⟩ := h.call c hcall
  rw [hshape] at hshape'
  obtain ⟨rfl, rfl⟩ := Prod.mk.inj (Option.some.inj hshape')
  have hpos := hrun.dispatched
  have hseq := hrun.seq
  rw [hrec] at hpos hseq
  simp only [Bool.toNat_false, add_zero] at hpos hseq
  refine ⟨h.dbs, h.cq, h.served, h.slots, fun q n cq hq _ => ?_, nofun, ?_, h.itemTickets,
    h.releaseTickets⟩
  · show Function.update d.oldDbs c.sqid _ q = (d.slotsOf q).length % n
    by_cases hqc : q = c.sqid
    · subst hqc
      rw [Function.update_self]
      have hq' : d.shapes c.sqid = some (n, cq) := hq
      rw [hshape] at hq'
      obtain ⟨rfl, rfl⟩ := Prod.mk.inj (Option.some.inj hq')
      exact hpos
    · rw [Function.update_of_ne hqc]
      refine h.oldDbs q n cq hq fun c' hc' => ?_
      rw [hcall] at hc'
      cases hc'
      exact Ne.symm hqc
  · intro c' hc'
    rcases List.mem_append.1 hc' with hc' | hc'
    · exact h.returned c' hc'
    · obtain rfl := List.mem_singleton.1 hc'
      refine ⟨_, _, hshape, ?_, rfl, ?_⟩
      · rw [← hrun.numProc]
        exact hseq
      · rcases hr with ⟨rfl, hfin⟩ | rfl
        · refine .inr ⟨rfl, hfin.trans hrun.numProc, ?_⟩
          show (c.oldDb + c.seq) % sq.queueSize = c.newDb
          rw [hfin, hrun.numProc]
          exact Ring.add_dist_mod hrun.oldDb hrun.newDb
        · left
          rw [hrun.sqEntry]

/-- The slots of a queue after one more command was dispatched. -/
theorem slotsOf_append (x : Dispatch) {d' : NvmevDev σ}
    (hd : d'.history.dispatched = d.history.dispatched ++ [x]) (q : ℕ) :
    d'.slotsOf q = d.slotsOf q ++ if x.item.sqid = q then [x.item.sqEntry] else [] := by
  unfold slotsOf
  rw [hd, List.filter_append, List.map_append]
  by_cases hq : x.item.sqid = q
  · simp [hq]
  · simp [hq]

/-- **Dispatching a command.** -/
theorem QueuesOk.enqueue (h : QueuesOk d) {c : ProcIoSq} {sq : SubmissionQueue}
    (hcall : d.call = some c) (hrec : c.reclaiming = false) (hseq : c.seq < c.numProc)
    (hshape : d.shapes c.sqid = some (sq.queueSize, sq.cqid)) (cmd : NvmeRwCommand)
    (ret : NvmevResult) :
    QueuesOk { d.enqueueIoReq cfg c.sqid sq.cqid c.sqEntry cmd ret with
      call := some { c with reclaiming := true } } := by
  obtain ⟨n, cq, hshape', hrun⟩ := h.call c hcall
  rw [hshape] at hshape'
  obtain ⟨rfl, rfl⟩ := Prod.mk.inj (Option.some.inj hshape')
  have hpos := hrun.dispatched
  rw [hrec] at hpos
  simp only [Bool.toNat_false, add_zero] at hpos
  set x : Dispatch := {
    item := {
      ticket := d.history.dispatched.length, sqid := c.sqid, cqid := sq.cqid, sqEntry := c.sqEntry
      commandId := cmd.commandId, status := ret.status }
    cmd := cmd } with hx
  set d' : NvmevDev σ := { d.enqueueIoReq cfg c.sqid sq.cqid c.sqEntry cmd ret with
    call := some { c with reclaiming := true } } with hd'
  have hdisp : d'.history.dispatched = d.history.dispatched ++ [x] := rfl
  have hself : d'.slotsOf c.sqid = d.slotsOf c.sqid ++ [c.sqEntry] := by
    rw [slotsOf_append x hdisp, if_pos rfl]
  have hother : ∀ q, c.sqid ≠ q → d'.slotsOf q = d.slotsOf q := fun q hq => by
    rw [slotsOf_append x hdisp, if_neg hq, List.append_nil]
  have hslot : c.sqEntry = (d.slotsOf c.sqid).length % sq.queueSize := hrun.sqEntry.trans hpos
  refine ⟨h.dbs, h.cq, ?_, fun q n cq hq => ?_, fun q n cq hq hc => ?_, ?_, h.returned, ?_,
    h.releaseTickets⟩
  · intro y hy
    rw [hdisp] at hy
    rcases List.mem_append.1 hy with hy | hy
    · exact h.served y hy
    · obtain rfl := List.mem_singleton.1 hy
      refine ⟨?_, h.cq _ _ _ hshape⟩
      show (d.shapes c.sqid).isSome
      rw [hshape]
      rfl
  · have hq' : d.shapes q = some (n, cq) := hq
    by_cases hqc : c.sqid = q
    · subst hqc
      rw [hshape] at hq'
      obtain ⟨rfl, rfl⟩ := Prod.mk.inj (Option.some.inj hq')
      rw [hself, List.length_append, List.length_singleton, List.range_succ, List.map_append,
        ← h.slots _ _ _ hshape, List.map_singleton, ← hslot]
    · rw [hother q hqc]
      exact h.slots q n cq hq'
  · have hqc : c.sqid ≠ q := hc { c with reclaiming := true } rfl
    rw [hother q hqc]
    refine h.oldDbs q n cq hq fun c' hc' => ?_
    rw [hcall] at hc'
    cases hc'
    exact hqc
  · intro c' hc'
    cases hc'
    refine ⟨_, _, hshape, hrun.oldDb, hrun.newDb, hrun.numProc, hseq, hrun.sqEntry, ?_⟩
    show (c.oldDb + c.seq + 1) % _ = (d'.slotsOf c.sqid).length % _
    rw [hself, List.length_append, List.length_singleton, Nat.add_mod, hpos, ← Nat.add_mod]
  · rw [hdisp, List.map_append, h.itemTickets, List.length_append, List.length_singleton,
      List.range_succ]
    rfl

/-- The rest of a round of the dispatcher. -/
theorem QueuesOk.finishIo (h : QueuesOk d) {c : ProcIoSq} {sq : SubmissionQueue}
    (hcall : d.call = some c) (hrec : c.reclaiming = false) (hseq : c.seq < c.numProc)
    (hsq : d.sqes c.sqid = some sq) (out : IoOutcome σ) :
    QueuesOk (d.finishIo cfg c sq out) := by
  have hshape : d.shapes c.sqid = some (sq.queueSize, sq.cqid) := by
    unfold shapes
    rw [hsq]
    rfl
  have hsame : SameQueues d ((d.afterFtl c out).scheduleAll cfg c.sqid out.ops) := by
    have h1 : SameQueues d ({ d with ns := out.ns } : NvmevDev σ) :=
      ⟨rfl, fun _ => rfl, rfl, rfl, rfl, rfl, rfl⟩
    exact (h1.trans (.writeSq _ _ _ _)).trans (.scheduleAll _ _ _)
  have hsched : (d.afterFtl c out).history.scheduled = d.history.scheduled := by
    unfold afterFtl NvmevDev.writeSq
    split <;> rfl
  have h₁ : QueuesOk ((d.afterFtl c out).scheduleAll cfg c.sqid out.ops) := by
    refine h.congr hsame (releaseTickets_scheduleAll _ _ _ ?_)
    rw [hsched]
    exact h.releaseTickets
  have hcall₁ := hsame.call.trans hcall
  have hshape₁ := (congrFun hsame.shapes c.sqid).trans hshape
  unfold NvmevDev.finishIo
  cases out.ret with
  | none => exact h₁.returnDb hcall₁ hrec hshape₁ (.inr rfl)
  | some ret => exact h₁.enqueue hcall₁ hrec hseq hshape₁ out.cmd ret

/-- A call under way is on a queue that exists. -/
theorem QueuesOk.call_sq (h : QueuesOk d) {c : ProcIoSq} (hcall : d.call = some c) :
    ∃ sq, d.sqes c.sqid = some sq ∧ d.shapes c.sqid = some (sq.queueSize, sq.cqid) ∧
      c.Running sq.queueSize (d.slotsOf c.sqid).length := by
  obtain ⟨n, cq, hshape, hrun⟩ := h.call c hcall
  cases hsq : d.sqes c.sqid with
  | none =>
    unfold shapes at hshape
    rw [hsq] at hshape
    cases hshape
  | some sq =>
    have hs : d.shapes c.sqid = some (sq.queueSize, sq.cqid) := by
      unfold shapes
      rw [hsq]
      rfl
    rw [hshape] at hs
    obtain ⟨rfl, rfl⟩ := Prod.mk.inj (Option.some.inj hs)
    exact ⟨sq, rfl, hshape, hrun⟩

/-- **A round of the dispatcher** keeps the invariant of the queues. -/
theorem QueuesOk.dispatch (h : QueuesOk d) (nsecsStart : ℕ) :
    Ends (d.dispatch cfg tgt nsecsStart) QueuesOk tgt.Faults := by
  unfold NvmevDev.dispatch
  cases hcall : d.call with
  | none => exact h
  | some c =>
    obtain ⟨sq, hsq, hshape, hrun⟩ := h.call_sq hcall
    dsimp only
    cases hrec : c.reclaiming with
    | true => exact h
    | false =>
      rw [hsq, if_neg (by decide)]
      dsimp only
      by_cases hseq : c.seq < c.numProc
      · rw [if_pos hseq]
        unfold NvmevDev.procIo
        cases hout : tgt.procIoCmd d.ns (request c sq nsecsStart) with
        | error e => exact .inl ⟨_, _, hout⟩
        | ok out => exact h.finishIo hcall hrec hseq hsq out
      · rw [if_neg hseq]
        have := hrun.seq
        exact h.returnDb hcall hrec hshape (.inl ⟨rfl, by omega⟩)

/-- **The end of a round** keeps the invariant of the queues. -/
theorem QueuesOk.finishRound (h : QueuesOk d) :
    Ends (d.finishRound cfg) QueuesOk fun _ => False := by
  unfold NvmevDev.finishRound
  cases hcall : d.call with
  | none => exact h
  | some c =>
    obtain ⟨sq, hsq, hshape, hrun⟩ := h.call_sq hcall
    dsimp only
    by_cases hrec : c.reclaiming = true
    · rw [if_neg (not_not.2 hrec), hsq]
      have hlt := hrun.seq
      have hpos := hrun.dispatched
      rw [hrec] at hlt hpos
      refine ⟨h.dbs, h.cq, h.served, h.slots, fun q n cq hq hc => ?_, ?_, h.returned,
        h.itemTickets, h.releaseTickets⟩
      · refine h.oldDbs q n cq hq fun c' hc' => ?_
        rw [hcall] at hc'
        cases hc'
        have hq' := hc _ rfl
        exact hq'
      · rintro c' hc'
        cases hc'
        refine ⟨_, _, hshape, hrun.oldDb, hrun.newDb, hrun.numProc, hlt, ?_, hpos⟩
        show Ring.succ sq.queueSize c.sqEntry = (c.oldDb + (c.seq + 1)) % sq.queueSize
        rw [hrun.sqEntry, Ring.succ_mod (lt_of_le_of_lt (Nat.zero_le _) hrun.oldDb), add_assoc]
    · rw [if_pos hrec]
      exact h

/-! ### The workers -/

theorem SameQueues.serveWork (d : NvmevDev σ) (k curr t : ℕ) :
    Ends (d.serveWork tgt k curr t) (fun d' => SameQueues d d' ∧
      d'.history.scheduled = d.history.scheduled) (fun _ => True) := by
  unfold NvmevDev.serveWork
  dsimp only
  cases hc : ((d.pool.ioWorkers k).workQueue curr).isCompleted with
  | true => exact ⟨.refl d, rfl⟩
  | false =>
    rw [if_neg (by decide)]
    have hcopy : Ends (d.copyWork tgt k curr) (fun d' => SameQueues d d' ∧
        d'.history.scheduled = d.history.scheduled ∧
        ((d'.pool.ioWorkers k).workQueue curr).isCompleted = false) (fun _ => True) := by
      refine (copyWork_cases rfl hc).mono ?_ fun _ _ => trivial
      rintro d' (⟨-, rfl⟩ | ⟨-, -, rfl⟩ | ⟨-, -, sq, ns, -, -, rfl⟩)
      · exact ⟨.refl _, rfl, hc⟩
      · refine ⟨⟨rfl, fun _ => rfl, rfl, rfl, rfl, rfl, rfl⟩, rfl, ?_⟩
        unfold NvmevDev.markCopied
        rw [entry_setWork]
        exact hc
      · refine ⟨⟨rfl, fun _ => rfl, rfl, rfl, rfl, rfl, rfl⟩, rfl, ?_⟩
        unfold NvmevDev.markCopied
        rw [entry_setWork]
        exact hc
    refine hcopy.bind fun d₂ hd₂ => ?_
    obtain ⟨h₂, hs₂, hc₂⟩ := hd₂
    split_ifs with hdue
    · refine (completeWork_cases rfl hc₂).mono ?_ fun _ _ => trivial
      rintro d' (⟨-, rfl⟩ | ⟨-, cq, hcq, rfl⟩)
      · exact ⟨h₂.trans ⟨rfl, fun _ => rfl, rfl, rfl, rfl, rfl, rfl⟩, hs₂⟩
      · refine ⟨h₂.trans ⟨rfl, fun q => ?_, rfl, rfl, rfl, rfl, rfl⟩, hs₂⟩
        by_cases hq : q = ((d₂.pool.ioWorkers k).workQueue curr).cqid
        · subst hq
          show (Function.update d₂.cqes _ _ _).isSome = _
          rw [Function.update_self, hcq]
          rfl
        · show (Function.update d₂.cqes _ _ q).isSome = _
          rw [Function.update_of_ne hq]
    · exact ⟨h₂, hs₂⟩

/-- **A visit of a worker thread** leaves the queues alone. -/
theorem QueuesOk.visitWork (h : QueuesOk d) (k curr t : ℕ) :
    Ends (d.visitWork tgt k curr t) QueuesOk fun _ => True := by
  unfold NvmevDev.visitWork
  refine (SameQueues.serveWork (d.atClock k t) k curr t).bind ?_
  rintro d' ⟨hs, hsched⟩
  have h₁ : SameQueues d (d.atClock k t) := ⟨rfl, fun _ => rfl, rfl, rfl, rfl, rfl, rfl⟩
  refine h.congr (h₁.trans (hs.trans ⟨rfl, fun _ => rfl, rfl, rfl, rfl, rfl, rfl⟩)) ?_
  show d'.history.scheduled.map Release.ticket = List.range d'.history.scheduled.length
  rw [hsched]
  exact h.releaseTickets

end NvmevDev

end NvmeVirt
