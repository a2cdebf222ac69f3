/-
# The completion rings

`__fill_cq_result` of `io.c` and `__make_cq_entry_results` of `admin.c` post into a
ring without looking where the host is.  Both turn the phase together with the head
at the end of the ring, so a host that keeps fewer completions outstanding than the
ring has slots tells new entries from stale ones by the phase tag alone.
-/

import NvmeVirt.Lib.PhaseRing
import NvmeVirt.Admin.Answers

namespace NvmeVirt

open Outcome PhaseRing

/-- The phase tag of a completion. -/
def NvmeCompletion.phaseTag (c : NvmeCompletion) : Bool := c.status.testBit 0

/-- The status field of an entry carries its phase. -/
theorem testBit_statusField (b : Bool) (status : ℕ) :
    ((b.toNat ||| (status <<< 1)) % 2 ^ 16).testBit 0 = b := by
  rw [Nat.testBit_mod_two_pow, AdminDev.testBit_phase]
  simp

/-! ### I/O queues -/

/-- A completion queue as a ring. -/
def CompletionQueue.tagged (cq : CompletionQueue) : TaggedRing NvmeCompletion where
  size := cq.queueSize
  head := cq.cqHead
  phase := cq.phase
  entries := cq.cq

/-- A queue as `__nvmev_admin_create_cq` leaves it, with the entries the host has put there. -/
def createdCq (qsize : ℕ) (ring : ℕ → NvmeCompletion) : CompletionQueue where
  queueSize := qsize + 1
  phase := true
  cqHead := 0
  interruptReady := false
  cq := ring

/-- **The completion of a work item,** in a phase. -/
def IoWork.completion (w : IoWork) (phase : Bool) : NvmeCompletion where
  result0 := w.result0
  result1 := w.result1
  sqHead := w.sqEntry % 2 ^ 16
  sqId := w.sqid % 2 ^ 16
  commandId := w.commandId % 2 ^ 16
  status := (phase.toNat ||| (w.status <<< 1)) % 2 ^ 16

theorem IoWork.completion_phaseTag (w : IoWork) (b : Bool) : (w.completion b).phaseTag = b :=
  testBit_statusField b _

/-- A worker posts the result of the work `w`. -/
def CqFilled (w : IoWork) (cq cq' : CompletionQueue) : Prop := cq' = NvmevDev.fillCq cq w

/-- `__fill_cq_result` posts the completion of its work item. -/
theorem CqFilled.post {w : IoWork} {cq cq' : CompletionQueue} (h : CqFilled w cq cq') :
    cq'.tagged = cq.tagged.post w.completion := by
  subst h
  rfl

/-! ### The admin queue -/

/-- A call of `__make_cq_entry_results`: the command it answers, its slot and the results. -/
structure AdminReply where
  commandId : ℕ
  eid : ℕ
  ret : ℕ
  result0 : ℕ
  result1 : ℕ

/-- **The completion of an admin command,** in a phase. -/
def AdminReply.completion (a : AdminReply) (phase : Bool) : NvmeCompletion where
  result0 := a.result0
  result1 := a.result1
  sqHead := a.eid % 2 ^ 16
  sqId := 0
  commandId := a.commandId
  status := (phase.toNat ||| (a.ret <<< 1)) % 2 ^ 16

theorem AdminReply.completion_phaseTag (a : AdminReply) (b : Bool) :
    (a.completion b).phaseTag = b := testBit_statusField b _

namespace AdminDev

variable {d d' : AdminDev} {q : AdminQueue} {sq cq : QueuePages} {a : AdminReply}

/-- The completion queue of the admin queue as a ring. -/
def taggedCq (cq : QueuePages) (d : AdminDev) : TaggedRing NvmeCompletion where
  size := d.adminQ.elim 0 AdminQueue.cqDepth
  head := d.adminQ.elim 0 AdminQueue.cqHead
  phase := d.adminQ.elim true AdminQueue.phase
  entries i := d.cqPages (cq.firstPage + i / nrCqePerPage) (i % nrCqePerPage)

/-- A handler posts its reply to the command in its slot, whatever the host has put into the
submission entries by then. -/
def AdminFilled (a : AdminReply) (d d' : AdminDev) : Prop :=
  ∃ sqPages cmd, ({ d with sqPages := sqPages } : AdminDev).sqEntry a.eid = .ok cmd ∧
    cmd.commandId = a.commandId ∧
    makeCqEntryResults { d with sqPages := sqPages } a.eid a.ret a.result0 a.result1 = .ok d'

/-- An entry written to its page. -/
theorem entries_update (pages : ℕ → ℕ → NvmeCompletion) (first head : ℕ) (c : NvmeCompletion) :
    (fun i => Function.update pages (first + head / nrCqePerPage)
        (Function.update (pages (first + head / nrCqePerPage)) (head % nrCqePerPage) c)
        (first + i / nrCqePerPage) (i % nrCqePerPage)) =
      Function.update (fun i => pages (first + i / nrCqePerPage) (i % nrCqePerPage)) head c := by
  funext i
  by_cases hi : i = head
  · subst hi
    rw [Function.update_self, Function.update_self, Function.update_self]
  · rw [Function.update_of_ne hi]
    by_cases hpage : i / nrCqePerPage = head / nrCqePerPage
    · have hne : i % nrCqePerPage ≠ head % nrCqePerPage := by
        intro heq
        refine hi ?_
        rw [← Nat.div_add_mod i nrCqePerPage, ← Nat.div_add_mod head nrCqePerPage, hpage, heq]
      rw [hpage, Function.update_self, Function.update_of_ne hne]
    · have hne : first + i / nrCqePerPage ≠ first + head / nrCqePerPage := by omega
      rw [Function.update_of_ne hne]

/-- `__make_cq_entry_results` posts the completion of its command. -/
theorem Ready.post (h : d.Ready q sq cq) (hfill : AdminFilled a d d') :
    (∃ q', d'.Ready q' sq cq) ∧ d'.taggedCq cq = (d.taggedCq cq).post a.completion := by
  obtain ⟨sqPages, cmd, hcmd, hid, hmake⟩ := hfill
  set d₁ : AdminDev := { d with sqPages := sqPages } with hd₁
  have hqueue : d₁.queue = .ok q := by
    unfold AdminDev.queue
    rw [show d₁.adminQ = some q from h.queue]
  unfold AdminDev.makeCqEntryResults at hmake
  rw [hqueue, ok_bind, hcmd, ok_bind, pages_at h.cqPages (h.head.trans_le h.cqRoom), ok_bind] at hmake
  cases hmake
  refine ⟨⟨q.advance, h.advance rfl⟩, ?_⟩
  unfold taggedCq TaggedRing.post AdminReply.completion
  rw [h.queue, ← hid]
  exact congrArg (TaggedRing.mk _ _ _) (entries_update d.cqPages cq.firstPage q.cqHead _)

end AdminDev

/-! ### The host at both rings -/

/-- **A host that polls by the phase tag sees the completion of every posted item once and in
order,** at an I/O queue and at the admin queue: nothing it takes is stale, and nothing posted is
missed. -/
theorem completionRings_observed :
    (∀ (qsize : ℕ) (ring : ℕ → NvmeCompletion), (∀ i < qsize + 1, (ring i).phaseTag = false) →
      ∀ s, Run CompletionQueue.tagged NvmeCompletion.phaseTag CqFilled (createdCq qsize ring) s →
        ObservedInOrder CompletionQueue.tagged NvmeCompletion.phaseTag IoWork.completion s) ∧
    ∀ (d : AdminDev) (q : AdminQueue) (sq cq : QueuePages), d.Ready q sq cq → q.cqHead = 0 →
      q.phase = true →
      (∀ i < q.cqDepth, ((d.taggedCq cq).entries i).phaseTag = false) →
      ∀ s, Run (AdminDev.taggedCq cq) NvmeCompletion.phaseTag AdminDev.AdminFilled d s →
        ObservedInOrder (AdminDev.taggedCq cq) NvmeCompletion.phaseTag AdminReply.completion s := by
  constructor
  · intro qsize ring hclear s hrun
    have hstart := Polled.synced_start CompletionQueue.tagged NvmeCompletion.phaseTag
      IoWork.completion (createdCq qsize ring) (Nat.succ_pos qsize) rfl rfl hclear
    exact (hrun.synced IoWork.completion_phaseTag (fun _ => True) trivial
      (fun _ _ _ _ hfill => ⟨trivial, CqFilled.post hfill⟩) hstart).2.observedInOrder
  · intro d q sq cq hready hhead hphase hclear s hrun
    have hdepth : (d.taggedCq cq).size = q.cqDepth := by
      show d.adminQ.elim 0 AdminQueue.cqDepth = _
      rw [hready.queue]
      rfl
    have hpos := hready.head
    have hstart := Polled.synced_start (AdminDev.taggedCq cq) NvmeCompletion.phaseTag
      AdminReply.completion d (by omega) ?_ ?_ (fun i hi => hclear i (by omega))
    · refine (hrun.synced AdminReply.completion_phaseTag (fun d => ∃ q, d.Ready q sq cq)
        ⟨q, hready⟩ (fun _ _ _ hinv hfill => ?_) hstart).2.observedInOrder
      obtain ⟨q₁, hready₁⟩ := hinv
      exact hready₁.post hfill
    · show d.adminQ.elim 0 AdminQueue.cqHead = _
      rw [hready.queue]
      exact hhead
    · show d.adminQ.elim true AdminQueue.phase = _
      rw [hready.queue]
      exact hphase

/-! ### Two slots and three completions -/

/-- A work item with this command id and status. -/
def finishedWork (commandId status : ℕ) : IoWork :=
  { initWork 0 with sqid := 1, sqEntry := 3, commandId := commandId, status := status }

/-- A worker posts an item to the queue, and the host looks. -/
def ioTurn (s : Polled CompletionQueue IoWork NvmeCompletion) (w : IoWork) :
    Polled CompletionQueue IoWork NvmeCompletion :=
  (s.filled w (NvmevDev.fillCq s.queue w)).poll CompletionQueue.tagged NvmeCompletion.phaseTag

/-- A handler posts its reply, and the host looks. -/
def adminTurn (s : Polled AdminDev AdminReply NvmeCompletion) (a : AdminReply) :
    Polled AdminDev AdminReply NvmeCompletion :=
  match s.queue.makeCqEntryResults a.eid a.ret a.result0 a.result1 with
  | .ok d => (s.filled a d).poll (AdminDev.taggedCq ⟨1, 1⟩) NvmeCompletion.phaseTag
  | .error _ => s

theorem run_ioTurn {q : CompletionQueue} {s : Polled CompletionQueue IoWork NvmeCompletion}
    (h : Run CompletionQueue.tagged NvmeCompletion.phaseTag CqFilled q s) (w : IoWork)
    (hroom : s.posted.length + 1 < s.observed.length + s.queue.queueSize) :
    Run CompletionQueue.tagged NvmeCompletion.phaseTag CqFilled q (ioTurn s w) :=
  .poll (.fill h rfl hroom)

theorem run_adminTurn {d : AdminDev} {s : Polled AdminDev AdminReply NvmeCompletion}
    (h : Run (AdminDev.taggedCq ⟨1, 1⟩) NvmeCompletion.phaseTag AdminDev.AdminFilled d s)
    (a : AdminReply) (cmd : NvmeAdminCommand) (hcmd : s.queue.sqEntry a.eid = .ok cmd)
    (hid : cmd.commandId = a.commandId)
    (hroom : s.posted.length + 1 < s.observed.length + (s.queue.taggedCq ⟨1, 1⟩).size) :
    Run (AdminDev.taggedCq ⟨1, 1⟩) NvmeCompletion.phaseTag AdminDev.AdminFilled d (adminTurn s a) := by
  unfold adminTurn
  split
  · rename_i d' hmake
    exact .poll (.fill h ⟨s.queue.sqPages, cmd, hcmd, hid, hmake⟩ hroom)
  · exact h

/-- Each of the rings comes round: the third completion stands in the slot of the first, in the other
phase. -/
theorem completionRings_observed_three :
    (∃ s : Polled CompletionQueue IoWork NvmeCompletion,
      s = ioTurn (ioTurn (ioTurn (.start (createdCq 1 fun _ => ⟨0, 0, 0, 0, 0, 0⟩))
        (finishedWork 5 0)) (finishedWork 6 2)) (finishedWork 7 0) ∧
      ObservedInOrder CompletionQueue.tagged NvmeCompletion.phaseTag IoWork.completion s ∧
      s.observed = [⟨0, 0, 3, 1, 5, 1⟩, ⟨0, 0, 3, 1, 6, 5⟩, ⟨0, 0, 3, 1, 7, 0⟩]) ∧
    ∃ s : Polled AdminDev AdminReply NvmeCompletion,
      s = adminTurn (adminTurn (adminTurn (.start (AdminDev.twoEntries AdminDev.abortSeven))
        ⟨7, 0, 0, 1, 2⟩) ⟨7, 1, 6, 3, 4⟩) ⟨7, 0, 0, 5, 6⟩ ∧
      ObservedInOrder (AdminDev.taggedCq ⟨1, 1⟩) NvmeCompletion.phaseTag AdminReply.completion s ∧
      s.observed = [⟨1, 2, 0, 0, 7, 1⟩, ⟨3, 4, 1, 0, 7, 13⟩, ⟨5, 6, 0, 0, 7, 0⟩] := by
  refine ⟨⟨_, rfl, completionRings_observed.1 1 (fun _ => ⟨0, 0, 0, 0, 0, 0⟩)
      (fun _ _ => by decide) _ ?_, by decide⟩,
    ⟨_, rfl, completionRings_observed.2 (AdminDev.twoEntries AdminDev.abortSeven) _ ⟨0, 1⟩ ⟨1, 1⟩
      (AdminDev.twoEntries_ready _) rfl rfl
      (fun _ _ => show NvmeCompletion.phaseTag ⟨0, 0, 0, 0, 0, 0⟩ = false by decide) _ ?_, by decide⟩⟩
  · refine run_ioTurn (run_ioTurn (run_ioTurn .start _ ?_) _ ?_) _ ?_
    all_goals decide
  · refine run_adminTurn (run_adminTurn (run_adminTurn .start _ AdminDev.abortSeven rfl rfl ?_) _
      AdminDev.abortSeven rfl rfl ?_) _ AdminDev.abortSeven rfl rfl ?_
    all_goals decide

end NvmeVirt
