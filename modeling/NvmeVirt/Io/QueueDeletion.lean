/-
# Deleting queues

`__nvmev_admin_create_cq`, `__nvmev_admin_create_sq`, `__nvmev_admin_delete_cq`
and `__nvmev_admin_delete_sq` of `admin.c`, which the dispatcher runs between two
calls of `nvmev_proc_io_sq`.  A delete clears the entry of the table at once,
while the scheduled entries keep the numbers of their queues: a worker looks up
the submission queue when it copies the data and the completion queue when it
posts the completion.  (`nvmev_proc_io_cq` checks for a deleted queue, "since
SPDK deletes SQ immediately".)
-/

import NvmeVirt.Io.Steps

namespace NvmeVirt

open Outcome IoPool IoWorker NvmevDev

/-- `NR_MAX_IO_QUEUE`. -/
def nrMaxIoQueue : ℕ := 72

/-- The admin commands on queues; `ring` is the host memory at `prp1`. -/
inductive AdminOp
  | createCq (cqid qsize : ℕ) (ring : ℕ → NvmeCompletion)
  | createSq (sqid cqid qsize : ℕ) (ring : ℕ → NvmeRwCommand)
  | deleteCq (qid : ℕ)
  | deleteSq (qid : ℕ)

/-- The number of the queue. -/
def AdminOp.qid : AdminOp → ℕ
  | .createCq cqid _ _ => cqid
  | .createSq sqid _ _ _ => sqid
  | .deleteCq qid => qid
  | .deleteSq qid => qid

/-- An admin command or a step of host, dispatcher or worker. -/
inductive QueueOp
  | admin (op : AdminOp)
  | io (op : IoOp)

/-- The numbers of queues are in range. -/
def QueueOp.QidOk : QueueOp → Prop
  | .admin op => 1 ≤ op.qid ∧ op.qid ≤ nrMaxIoQueue
  | .io _ => True

instance : DecidablePred QueueOp.QidOk
  | .admin _ => inferInstanceAs (Decidable (_ ∧ _))
  | .io _ => .isTrue trivial

namespace NvmevDev

variable {σ : Type} (cfg : IoConfig) (tgt : IoTarget σ) (d : NvmevDev σ)

/-- The admin commands on the tables; the tables have `NR_MAX_IO_QUEUE + 1` entries. -/
def admin : AdminOp → NvmevDev σ
  | .createCq cqid qsize ring => { d with
      cqes := Function.update d.cqes cqid (some {
        queueSize := qsize + 1, phase := true, cqHead := 0, interruptReady := false, cq := ring }) }
  | .createSq sqid cqid qsize ring => { d with
      sqes := Function.update d.sqes sqid (some { cqid := cqid, queueSize := qsize + 1, sq := ring })
      dbs := Function.update d.dbs sqid 0
      oldDbs := Function.update d.oldDbs sqid 0 }
  | .deleteCq qid => { d with cqes := Function.update d.cqes qid none }
  | .deleteSq qid => { d with sqes := Function.update d.sqes qid none }

/-- One step; the dispatcher comes to admin commands when it is in no call. -/
def queueExec : QueueOp → Except Fault (NvmevDev σ)
  | .admin op =>
    if d.call = none then do
      defined (op.qid ≤ nrMaxIoQueue)
      .ok (d.admin op)
    else .ok d
  | .io op => d.exec cfg tgt op

/-- **No worker looks up a cleared entry:** the queues of an entry a thread stands at are there as
long as they are needed. -/
def LooksUpQueues : Prop := ∀ k curr, d.cursor k = some curr → ¬ d.Missing k curr

/-- **No scheduled entry loses a queue:** a queue is deleted when no entry still has to look it up,
and a command is dispatched when its completion queue is there. -/
def KeepsQueues : QueueOp → Prop
  | .admin (.deleteSq qid) => ∀ i ∈ d.pool.owed cfg IoWork.uncopiedItem, i.sqid ≠ qid
  | .admin (.deleteCq qid) => ∀ i ∈ d.pool.owed cfg IoWork.owedItem, i.cqid ≠ qid
  | .io (.dispatch _) => ∀ c sq, d.call = some c → c.reclaiming = false → c.seq < c.numProc →
      d.sqes c.sqid = some sq → (d.cqes sq.cqid).isSome
  | _ => True

instance : ∀ op, Decidable (d.KeepsQueues cfg op)
  | .admin (.deleteSq _) | .admin (.deleteCq _) => Multiset.decidableForallMultiset
  | .admin (.createSq ..) | .admin (.createCq ..) => .isTrue trivial
  | .io (.dispatch _) =>
    decidable_of_iff (∀ c ∈ d.call, c.reclaiming = false → c.seq < c.numProc →
        ∀ sq ∈ d.sqes c.sqid, (d.cqes sq.cqid).isSome)
      ⟨fun h c sq hc hrec hseq hsq => h c hc hrec hseq sq hsq,
        fun h c hc hrec hseq sq hsq => h c sq hc hrec hseq hsq⟩
  | .io (.submit ..) | .io (.ring ..) | .io (.poll _) | .io .reclaim | .io (.enter _)
  | .io (.visit ..) => .isTrue trivial

end NvmevDev

namespace NvmevDev

variable {σ : Type} {cfg : IoConfig} {tgt : IoTarget σ} {d d' : NvmevDev σ} {k curr : ℕ}

/-- **The invariant of the tables:** what is still to be looked up is there. -/
structure Tables (cfg : IoConfig) (d : NvmevDev σ) : Prop where
  account : ∃ l r, Accounted cfg l r d
  call : ∀ c, d.call = some c → (d.sqes c.sqid).isSome
  copies : ∀ i ∈ d.pool.owed cfg IoWork.uncopiedItem, (d.sqes i.sqid).isSome
  posts : ∀ i ∈ d.pool.owed cfg IoWork.owedItem, (d.cqes i.cqid).isSome

/-- The invariant gives the claim about the workers. -/
theorem Tables.looksUpQueues (h : Tables cfg d) : d.LooksUpQueues := by
  obtain ⟨l, r, hacc⟩ := h.account
  rintro k curr hcur (⟨hc, hcp, hi, hnone⟩ | ⟨hc, hi, hnone⟩)
  · have hmem := owed_of_cursor hacc.threads hcur hc
      (show IoWork.uncopiedItem _ = some _ from if_neg (by simp [hc, hcp, hi]))
    have hsome : (d.sqes ((d.pool.ioWorkers k).workQueue curr).sqid).isSome := h.copies _ hmem
    rw [hnone] at hsome
    cases hsome
  · have hmem := owed_of_cursor hacc.threads hcur hc
      (show IoWork.owedItem _ = some _ from if_neg (by simp [hc, hi]))
    have hsome : (d.cqes ((d.pool.ioWorkers k).workQueue curr).cqid).isSome := h.posts _ hmem
    rw [hnone] at hsome
    cases hsome

/-- No step looks up a queue that does not exist. -/
theorem Tables.not_stuck (h : Tables cfg d) (op : IoOp) : ¬ d.Stuck op := by
  have hcall : ¬ ∃ c, d.call = some c ∧ d.sqes c.sqid = none := by
    rintro ⟨c, hc, hnone⟩
    have hsome := h.call c hc
    rw [hnone] at hsome
    cases hsome
  cases op with
  | dispatch t => exact hcall
  | reclaim => exact hcall
  | visit k t =>
    rintro ⟨curr, hcur, hmiss⟩
    exact h.looksUpQueues k curr hcur hmiss
  | submit q s c => exact id
  | ring q n => exact id
  | poll q => exact id
  | enter k => exact id

/-- An assignment to a slot leaves the table as it is. -/
theorem isSome_writeSq (d : NvmevDev σ) (q slot : ℕ) (cmd : NvmeRwCommand) (r : ℕ) :
    ((d.writeSq q slot cmd).sqes r).isSome = (d.sqes r).isSome := by
  unfold NvmevDev.writeSq
  cases hsq : d.sqes q with
  | none => rfl
  | some sq => exact isSome_update hsq r

/-- A step that leaves the tables alone and adds nothing to look up. -/
theorem Tables.congr (h : Tables cfg d) (hacc : ∃ l r, Accounted cfg l r d')
    (hsq : ∀ q, (d'.sqes q).isSome = (d.sqes q).isSome)
    (hcq : ∀ q, (d'.cqes q).isSome = (d.cqes q).isSome)
    (howed : ∀ sel, Fades sel → d'.pool.owed cfg sel ≤ d.pool.owed cfg sel)
    (hcall : ∀ c, d'.call = some c → (d.sqes c.sqid).isSome) : Tables cfg d' := by
  refine ⟨hacc, fun c hc => ?_, fun i hi => ?_, fun i hi => ?_⟩
  · rw [hsq]
    exact hcall c hc
  · rw [hsq]
    exact h.copies i (Multiset.mem_of_le (howed _ fades_uncopiedItem) hi)
  · rw [hcq]
    exact h.posts i (Multiset.mem_of_le (howed _ fades_owedItem) hi)

/-- **The dispatcher takes a command** whose completion queue is there. -/
theorem Tables.fromSlot (h : Tables cfg d) {c : ProcIoSq} {cmd : NvmeRwCommand}
    (hcall : d.call = some c) (hslot : FromSlot cfg d d' c cmd)
    (hcq : ∀ sq, d.sqes c.sqid = some sq → (d.cqes sq.cqid).isSome)
    (hacc : ∃ l r, Accounted cfg l r d') : Tables cfg d' := by
  have hsq : ∀ q, (d'.sqes q).isSome = (d.sqes q).isSome := fun q => by
    rw [hslot.sqes]
    exact isSome_writeSq d c.sqid c.sqEntry cmd q
  have hcqes : ∀ q, (d'.cqes q).isSome = (d.cqes q).isSome := fun q => by rw [hslot.cqes]
  rcases hslot.ends with ⟨hc', -, hle⟩ | ⟨x, hc', -, -, hxq, -, ⟨sq, hsome, hxc⟩, hle⟩
  · refine h.congr hacc hsq hcqes hle fun c₁ hc₁ => ?_
    rw [hc'] at hc₁
    cases hc₁
  · have hmem : ∀ sel, Fades sel → ∀ i ∈ d'.pool.owed cfg sel,
        i ∈ d.pool.owed cfg sel ∨ i = x.item := fun sel hsel i hi => by
      rcases Multiset.mem_add.1 (Multiset.mem_of_le (hle sel hsel) hi) with hi | hi
      · exact .inl hi
      · exact .inr (Multiset.mem_singleton.1 hi)
    refine ⟨hacc, fun c₁ hc₁ => ?_, fun i hi => ?_, fun i hi => ?_⟩
    · rw [hc'] at hc₁
      cases hc₁
      rw [hsq]
      exact h.call c hcall
    · rw [hsq]
      rcases hmem _ fades_uncopiedItem i hi with hi | rfl
      · exact h.copies i hi
      · rw [hxq]
        exact h.call c hcall
    · rw [hcqes]
      rcases hmem _ fades_owedItem i hi with hi | rfl
      · exact h.posts i hi
      · rw [hxc]
        exact hcq sq hsome

/-- **A step of host, dispatcher or worker** keeps the invariant. -/
theorem Tables.exec (h : Tables cfg d) (tgt : IoTarget σ) {op : IoOp}
    (hkeep : d.KeepsQueues cfg (.io op)) : Ends (d.exec cfg tgt op) (Tables cfg) tgt.Faults := by
  obtain ⟨l, r, hacc⟩ := h.account
  have hacct : Ends (d.exec cfg tgt op) (fun d' => ∃ l r, Accounted cfg l r d') tgt.Faults := by
    refine (hacc.exec tgt op).mono ?_ fun e he => he.resolve_right fun he => h.not_stuck op he.2
    rintro d' ⟨l', r', h', -⟩
    exact ⟨l', r', h'⟩
  by_cases hop : op.OfDevice
  · refine (hacct.and (exec_cases hacc hop)).mono ?_ fun _ he => he.1
    rintro d' ⟨hacc', hq | ⟨⟨t, rfl⟩, c, cmd, hcall, hrec, hseq, hslot⟩⟩
    · refine h.congr hacc' (fun q => by rw [hq.sqes]) hq.cqes hq.owed fun c hc => ?_
      rcases hq.call c hc with ⟨-, hs⟩ | ⟨c₀, hc₀, hs, -⟩
      · exact hs
      · rw [← hs]
        exact h.call c₀ hc₀
    · exact h.fromSlot hcall hslot (fun sq hsq => hkeep c sq hcall hrec hseq hsq) hacc'
  · cases op with
    | submit q slot cmd =>
      have hpool : (d.writeSq q slot cmd).pool = d.pool := by
        unfold NvmevDev.writeSq
        split <;> rfl
      have hsame := SameQueues.writeSq d q slot cmd
      have hacc' : ∃ l r, Accounted cfg l r (d.writeSq q slot cmd) := hacct
      refine h.congr hacc' (isSome_writeSq d q slot cmd) hsame.cqes
        (fun sel _ => by rw [hpool]) fun c hc => ?_
      rw [hsame.call] at hc
      exact h.call c hc
    | ring q n =>
      have hacc' : ∃ l r, Accounted cfg l r
          ({ d with dbs := Function.update d.dbs q n } : NvmevDev σ) := hacct
      exact h.congr hacc' (fun _ => rfl) (fun _ => rfl) (fun _ _ => le_refl _) h.call
    | _ => exact absurd trivial hop

/-- **An admin command** keeps the invariant if no scheduled entry needs the queue it deletes. -/
theorem Tables.admin (h : Tables cfg d) (hidle : d.call = none) {op : AdminOp}
    (hkeep : d.KeepsQueues cfg (.admin op)) : Tables cfg (d.admin op) := by
  obtain ⟨l, r, hacc⟩ := h.account
  cases op with
  | createCq cqid qsize ring =>
    refine ⟨⟨l, r, hacc.congr rfl rfl rfl rfl rfl rfl⟩, h.call, h.copies, fun i hi => ?_⟩
    show (Function.update d.cqes cqid _ i.cqid).isSome
    by_cases hq : i.cqid = cqid
    · rw [hq, Function.update_self]
      rfl
    · rw [Function.update_of_ne hq]
      exact h.posts i hi
  | createSq sqid cqid qsize ring =>
    refine ⟨⟨l, r, hacc.congr rfl rfl rfl rfl rfl rfl⟩, fun c hc => ?_, fun i hi => ?_, h.posts⟩
    · have hc' : d.call = some c := hc
      rw [hidle] at hc'
      cases hc'
    · show (Function.update d.sqes sqid _ i.sqid).isSome
      by_cases hq : i.sqid = sqid
      · rw [hq, Function.update_self]
        rfl
      · rw [Function.update_of_ne hq]
        exact h.copies i hi
  | deleteCq qid =>
    refine ⟨⟨l, r, hacc.congr rfl rfl rfl rfl rfl rfl⟩, h.call, h.copies, fun i hi => ?_⟩
    show (Function.update d.cqes qid none i.cqid).isSome
    rw [Function.update_of_ne (hkeep i hi)]
    exact h.posts i hi
  | deleteSq qid =>
    refine ⟨⟨l, r, hacc.congr rfl rfl rfl rfl rfl rfl⟩, fun c hc => ?_, fun i hi => ?_, h.posts⟩
    · have hc' : d.call = some c := hc
      rw [hidle] at hc'
      cases hc'
    · show (Function.update d.sqes qid none i.sqid).isSome
      rw [Function.update_of_ne (hkeep i hi)]
      exact h.copies i hi

/-- **One step** keeps the invariant. -/
theorem Tables.queueExec (h : Tables cfg d) (tgt : IoTarget σ) {op : QueueOp} (hqid : op.QidOk)
    (hkeep : d.KeepsQueues cfg op) :
    Ends (d.queueExec cfg tgt op) (Tables cfg) tgt.Faults := by
  cases op with
  | admin op =>
    unfold NvmevDev.queueExec
    dsimp only
    by_cases hidle : d.call = none
    · rw [if_pos hidle, defined_bind hqid.2]
      exact h.admin hidle hkeep
    · rw [if_neg hidle]
      exact h
  | io op => exact h.exec tgt hkeep

/-- A device without queues. -/
theorem start_tables (hnr : 0 < cfg.nrIoWorkers) (ns : σ) :
    Tables cfg (NvmevDev.start (fun _ => none) (fun _ => none) ns) := by
  have howed : ∀ sel : IoWork → Option IoItem,
      (NvmevDev.start (fun _ => none) (fun _ => none) ns).pool.owed cfg sel = 0 := fun _ =>
    Finset.sum_eq_zero fun _ _ => initWorker_owed
  refine ⟨⟨0, 0, start_accounted hnr _ _ ns⟩, nofun, fun i hi => ?_, fun i hi => ?_⟩
  · rw [howed] at hi
    exact absurd hi (Multiset.notMem_zero i)
  · rw [howed] at hi
    exact absurd hi (Multiset.notMem_zero i)

end NvmevDev

/-- **No worker looks up a deleted queue as long as no scheduled entry loses a queue,** whatever the
FTL, the number of workers and the order of the steps. -/
theorem queueRun_looksUpQueues {σ : Type} (tgt : IoTarget σ) (cfg : IoConfig)
    (hnr : 0 < cfg.nrIoWorkers) (ns : σ) (ops : List QueueOp)
    (hops : Along (queueExec cfg tgt) (fun d op => op.QidOk ∧ d.KeepsQueues cfg op)
      (start (fun _ => none) (fun _ => none) ns) ops) :
    Ends (runList (queueExec cfg tgt) (start (fun _ => none) (fun _ => none) ns) ops)
      LooksUpQueues tgt.Faults :=
  (Ends.runList_along (fun _ _ h hop => h.queueExec tgt hop.1 hop.2) (start_tables hnr ns)
    hops).mono (fun _ h => h.looksUpQueues) fun _ he => he

/-! ### Queues that are deleted -/

/-- A queue pair of four entries is set up. -/
def createPair : List QueueOp :=
  [.admin (.createCq 1 3 fun _ => {
      result0 := 0, result1 := 0, sqHead := 0, sqId := 0, commandId := 0, status := 0 }),
    .admin (.createSq 1 1 3 fun _ => readBlock)]

/-- A read is dispatched from the new queue pair. -/
def dispatchRead : List QueueOp :=
  createPair ++ [.io (.ring 1 1), .io (.poll 1), .io (.dispatch 0)]

/-- The queue pair is deleted before the worker comes to the copy. -/
def deleteBeforeCopy : List QueueOp :=
  dispatchRead ++ [.io .reclaim, .io (.dispatch 0), .admin (.deleteSq 1), .io (.enter 0)]

/-- The queue pair is deleted after the copy. -/
def deleteAfterCopy : List QueueOp :=
  dispatchRead ++ [.io .reclaim, .io (.dispatch 0), .io (.enter 0), .io (.visit 0 0),
    .admin (.deleteSq 1), .admin (.deleteCq 1), .io (.enter 0)]

/-- The device after these commands. -/
def runQueues (ops : List QueueOp) : Except Fault (NvmevDev SimpleNs) :=
  runList (queueExec oneWorker (simpleTarget oneUnit))
    (start (fun _ => none) (fun _ => none) freshSimple) ops

/-- Worker `k` stands at an entry whose submission or completion queue is not there. -/
def NvmevDev.missing {σ : Type} (d : NvmevDev σ) (k : ℕ) : Bool :=
  match d.cursor k with
  | none => false
  | some curr =>
    let w := (d.pool.ioWorkers k).workQueue curr
    !w.isCompleted && !w.isInternal &&
      (!w.isCopied && (d.sqes w.sqid).isNone || (d.cqes w.cqid).isNone)

theorem NvmevDev.not_looksUpQueues {σ : Type} {d : NvmevDev σ} {k : ℕ} (h : d.missing k = true) :
    ¬ d.LooksUpQueues := by
  intro hlook
  unfold NvmevDev.missing at h
  cases hcur : d.cursor k with
  | none => simp [hcur] at h
  | some curr =>
    rw [hcur] at h
    simp only [Bool.and_eq_true, Bool.not_eq_true', Bool.or_eq_true, Option.isNone_iff_eq_none] at h
    obtain ⟨⟨hc, hi⟩, ⟨hcp, hsq⟩ | hcq⟩ := h
    · exact hlook k curr hcur (.inl ⟨hc, hcp, hi, hsq⟩)
    · exact hlook k curr hcur (.inr ⟨hc, hi, hcq⟩)

/-- The submission queue is deleted when the data is copied, the completion queue when the completion
is posted; then both are created again and used. -/
def deleteAfterUse : List QueueOp :=
  dispatchRead ++ [.io .reclaim, .io (.dispatch 0), .io (.enter 0), .io (.visit 0 0),
    .admin (.deleteSq 1), .io (.enter 0), .io (.visit 0 9), .admin (.deleteCq 1)] ++
    dispatchRead ++ [.io .reclaim, .io (.dispatch 0), .io (.enter 0)]

theorem deleteAfterUse_keepsQueues :
    Along (queueExec oneWorker (simpleTarget oneUnit))
      (fun d op => op.QidOk ∧ d.KeepsQueues oneWorker op)
      (start (fun _ => none) (fun _ => none) freshSimple) deleteAfterUse := by
  decide +kernel

theorem deleteAfterUse_dispatched : (runQueues deleteAfterUse).toOption.any (fun d =>
    decide (d.cursor 0 = some 1 ∧ d.history.posted.map IoItem.ticket = [0] ∧
      d.history.dispatched.map (fun x => x.item.ticket) = [0, 1])) = true := by
  decide +kernel

/-- The worker has posted the read of the first pair and stands at that of the second. -/
theorem queueRun_looksUpQueues_deleted : ∃ d, runQueues deleteAfterUse = .ok d ∧ d.LooksUpQueues ∧
    d.cursor 0 = some 1 ∧ d.history.posted.map IoItem.ticket = [0] ∧
      d.history.dispatched.map (fun x => x.item.ticket) = [0, 1] := by
  obtain ⟨d, hrun, hd⟩ := exists_ok_of_any deleteAfterUse_dispatched
  refine ⟨d, hrun, ?_, of_decide_eq_true hd⟩
  have hkeeps := deleteAfterUse_keepsQueues
  unfold runQueues at hrun
  -- the run is kept from being computed
  generalize deleteAfterUse = ops at hkeeps hrun
  exact (queueRun_looksUpQueues (simpleTarget oneUnit) oneWorker (by decide) freshSimple ops
    hkeeps).of_ok hrun

/-- The run ends where worker 0 stands at an entry without its queue, and its visit has no
meaning. -/
def visitsMissing (ops : List QueueOp) : Bool :=
  match runQueues ops with
  | .error _ => false
  | .ok d => d.missing 0 && match d.exec oneWorker (simpleTarget oneUnit) (.visit 0 2) with
    | .error e => decide (e = .undefined)
    | .ok _ => false

theorem not_looksUpQueues_of_visitsMissing {ops : List QueueOp} (h : visitsMissing ops = true) :
    ∃ d, runQueues ops = .ok d ∧ ¬ d.LooksUpQueues ∧
      d.exec oneWorker (simpleTarget oneUnit) (.visit 0 2) = .error .undefined := by
  unfold visitsMissing at h
  cases hrun : runQueues ops with
  | error e => simp [hrun] at h
  | ok d =>
    rw [hrun] at h
    obtain ⟨hmiss, hvisit⟩ := Bool.and_eq_true_iff.1 h
    refine ⟨d, rfl, not_looksUpQueues hmiss, ?_⟩
    cases hd : d.exec oneWorker (simpleTarget oneUnit) (.visit 0 2) with
    | ok d' => simp [hd] at hvisit
    | error e =>
      rw [hd] at hvisit
      rw [of_decide_eq_true hvisit]

theorem visitsMissing_deleteBeforeCopy : visitsMissing deleteBeforeCopy = true := by decide +kernel

theorem visitsMissing_deleteAfterCopy : visitsMissing deleteAfterCopy = true := by decide +kernel

/-- **Workers look up queues that were deleted:** the submission queue of a command before its copy,
and the completion queue before its completion; the visit has no meaning then. -/
theorem deleted_not_looksUpQueues :
    (∃ d, runQueues deleteBeforeCopy = .ok d ∧ ¬ d.LooksUpQueues ∧
        d.exec oneWorker (simpleTarget oneUnit) (.visit 0 2) = .error .undefined) ∧
      ∃ d, runQueues deleteAfterCopy = .ok d ∧ ¬ d.LooksUpQueues ∧
        d.exec oneWorker (simpleTarget oneUnit) (.visit 0 2) = .error .undefined :=
  ⟨not_looksUpQueues_of_visitsMissing visitsMissing_deleteBeforeCopy,
    not_looksUpQueues_of_visitsMissing visitsMissing_deleteAfterCopy⟩

end NvmeVirt
