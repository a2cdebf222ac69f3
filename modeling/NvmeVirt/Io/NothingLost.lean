/-
# No command is lost

The commands of `nvmev_proc_io_sq` and the buffer releases of the FTL over every
run of host, dispatcher and workers in `io.c`: each is dispatched once, in ring
order, and completed once or still scheduled, as long as the workers have room.
`__allocate_work_queue_entry` never gives out the last free entry of a worker,
and its callers return without a word when it gives out nothing, so a command
that finds its worker full is accepted and never answered.
-/

import NvmeVirt.Io.Queues
import NvmeVirt.Io.SimpleFtl

namespace NvmeVirt

open Outcome IoPool IoWorker

namespace NvmevDev

variable {σ : Type} {cfg : IoConfig} {tgt : IoTarget σ} {d d' : NvmevDev σ} {k curr : ℕ}

/-- **No command is lost or duplicated.** -/
structure NothingLost (cfg : IoConfig) (d : NvmevDev σ) : Prop where
  /-- The commands of a queue are dispatched in ring order, none twice and none skipped. -/
  ringOrder : ∀ q sq, d.sqes q = some sq →
    d.slotsOf q = (List.range (d.slotsOf q).length).map (· % sq.queueSize)
  /-- Between two calls `old_dbs` is the slot of the next command. -/
  resumes : ∀ q sq, d.sqes q = some sq → (∀ c, d.call = some c → c.sqid ≠ q) →
    d.oldDbs q = (d.slotsOf q).length % sq.queueSize
  /-- A call ends at the new doorbell or at a command the FTL refused. -/
  calls : ∀ c ∈ d.history.returned, ∃ sq, d.sqes c.sqid = some sq ∧ c.Done sq.queueSize
  /-- Each dispatched command is completed or scheduled. -/
  commands : (d.history.posted : Multiset IoItem) + d.pool.owed cfg IoWork.owedItem
    = (d.history.dispatched.map Dispatch.item : List IoItem)
  /-- Each buffer release is made or scheduled. -/
  releases : (d.history.released : Multiset Release) + d.pool.owed cfg IoWork.owedRelease
    = (d.history.scheduled : Multiset Release)
  /-- No two commands have the same number, -/
  itemTickets : d.history.dispatched.map (fun x => x.item.ticket)
    = List.range d.history.dispatched.length
  /-- and no two releases. -/
  releaseTickets : d.history.scheduled.map Release.ticket
    = List.range d.history.scheduled.length

/-- The host writes a slot of the ring to a doorbell. -/
def WellRung (d : NvmevDev σ) : IoOp → Prop
  | .ring sqid newDb => ∀ sq, d.sqes sqid = some sq → newDb < sq.queueSize
  | _ => True

instance (d : NvmevDev σ) : ∀ op, Decidable (d.WellRung op)
  | .ring sqid newDb => inferInstanceAs (Decidable (∀ sq ∈ d.sqes sqid, newDb < sq.queueSize))
  | .submit .. | .dispatch _ | .poll _ | .reclaim | .enter _ | .visit .. => .isTrue trivial

/-- **The invariant of a device** that has lost nothing but the given items. -/
structure Inv (cfg : IoConfig) (lostItems : Multiset IoItem) (lostReleases : Multiset Release)
    (d : NvmevDev σ) : Prop where
  account : Accounted cfg lostItems lostReleases d
  queues : QueuesOk d

/-- What a shape says. -/
theorem shapes_eq_some {q n cq : ℕ} :
    d.shapes q = some (n, cq) ↔ ∃ sq, d.sqes q = some sq ∧ sq.queueSize = n ∧ sq.cqid = cq := by
  unfold shapes
  cases d.sqes q with
  | none => simp
  | some sq => simp

/-- What a thread stands at and has not completed is owed. -/
theorem owed_of_cursor {β : Type} {sel : IoWork → Option β} {b : β}
    (h : Threads cfg d.pool d.cursor) (hcur : d.cursor k = some curr)
    (hc : ((d.pool.ioWorkers k).workQueue curr).isCompleted = false)
    (hb : sel ((d.pool.ioWorkers k).workQueue curr) = some b) : b ∈ d.pool.owed cfg sel := by
  have hk := h.lt hcur
  have hw := h.worker k hk
  rw [hcur] at hw
  refine Multiset.mem_sum.2 ⟨k, Finset.mem_range.2 hk, ?_⟩
  refine Multiset.mem_sum.2 ⟨curr, List.mem_toFinset.2 (hw.mem_ioChain hc), ?_⟩
  rw [hb, owe_some]
  exact Multiset.mem_singleton_self b

/-- **No step looks up a queue that does not exist.** -/
theorem Inv.not_stuck {lostItems : Multiset IoItem} {lostReleases : Multiset Release}
    (h : Inv cfg lostItems lostReleases d) (op : IoOp) : ¬ d.Stuck op := by
  have hcall : ¬ ∃ c, d.call = some c ∧ d.sqes c.sqid = none := by
    rintro ⟨c, hc, hnone⟩
    obtain ⟨sq, hsq, -⟩ := h.queues.call_sq hc
    rw [hsq] at hnone
    cases hnone
  have hserved : ∀ k curr, d.cursor k = some curr →
      ((d.pool.ioWorkers k).workQueue curr).isCompleted = false →
      ((d.pool.ioWorkers k).workQueue curr).isInternal = false →
      d.Served ((d.pool.ioWorkers k).workQueue curr).item := by
    intro k curr hcur hc hi
    have hmem := owed_of_cursor h.account.threads hcur hc
      (show IoWork.owedItem _ = some _ from if_neg (by simp [hc, hi]))
    have hitems := h.account.items
    have hall : ((d.pool.ioWorkers k).workQueue curr).item
        ∈ (d.history.dispatched.map Dispatch.item : Multiset IoItem) := by
      rw [← hitems]
      exact Multiset.mem_add.2 (.inl (Multiset.mem_add.2 (.inr hmem)))
    obtain ⟨x, hx, hxi⟩ := List.mem_map.1 (Multiset.mem_coe.1 hall)
    rw [← hxi]
    exact h.queues.served x hx
  cases op with
  | dispatch t => exact hcall
  | reclaim => exact hcall
  | visit k t =>
    rintro ⟨curr, hcur, ⟨hc, -, hi, hsq⟩ | ⟨hc, hi, hcq⟩⟩
    · have hs := (hserved k curr hcur hc hi).1
      obtain ⟨⟨n, cq⟩, hn⟩ := Option.isSome_iff_exists.1 hs
      obtain ⟨sq, hsome, -⟩ := shapes_eq_some.1 hn
      have hnone : d.sqes ((d.pool.ioWorkers k).workQueue curr).sqid = none := hsq
      have hsome : d.sqes ((d.pool.ioWorkers k).workQueue curr).sqid = some sq := hsome
      rw [hnone] at hsome
      cases hsome
    · have hs := (hserved k curr hcur hc hi).2
      have hnone : d.cqes ((d.pool.ioWorkers k).workQueue curr).cqid = none := hcq
      have hs : (d.cqes ((d.pool.ioWorkers k).workQueue curr).cqid).isSome := hs
      rw [hnone] at hs
      cases hs
  | submit q s c => exact id
  | ring q n => exact id
  | poll q => exact id
  | enter k => exact id

/-- **Every step keeps the invariant of the queues.** -/
theorem Inv.queues_exec {lostItems : Multiset IoItem} {lostReleases : Multiset Release}
    (h : Inv cfg lostItems lostReleases d) (tgt : IoTarget σ) {op : IoOp}
    (hring : d.WellRung op) : Ends (d.exec cfg tgt op) QueuesOk fun _ => True := by
  have hq := h.queues
  cases op with
  | submit sqid slot cmd =>
    refine hq.congr (.writeSq d sqid slot cmd) ?_
    have hsched : (d.writeSq sqid slot cmd).history = d.history := by
      unfold NvmevDev.writeSq
      split <;> rfl
    rw [hsched]
    exact hq.releaseTickets
  | ring sqid newDb =>
    refine ⟨fun q n cq hn => ?_, hq.cq, hq.served, hq.slots, hq.oldDbs, hq.call, hq.returned,
      hq.itemTickets, hq.releaseTickets⟩
    show Function.update d.dbs sqid newDb q < n
    by_cases hqs : q = sqid
    · subst hqs
      rw [Function.update_self]
      obtain ⟨sq, hsq, rfl, -⟩ := shapes_eq_some.1 (show d.shapes q = some (n, cq) from hn)
      exact hring sq hsq
    · rw [Function.update_of_ne hqs]
      exact hq.dbs q n cq hn
  | poll sqid => exact hq.pollSq sqid
  | dispatch t => exact (hq.dispatch t).mono (fun _ h => h) fun _ _ => trivial
  | reclaim => exact hq.finishRound.mono (fun _ h => h) fun _ _ => trivial
  | enter k =>
    show QueuesOk (if _ then _ else _)
    split_ifs
    · exact hq.congr ⟨rfl, fun _ => rfl, rfl, rfl, rfl, rfl, rfl⟩ hq.releaseTickets
    · exact hq
  | visit k t =>
    unfold NvmevDev.exec
    dsimp only
    cases d.cursor k with
    | none => exact hq
    | some curr => exact hq.visitWork k curr t

/-- **One step** of host, dispatcher or worker. -/
theorem Inv.exec {lostItems : Multiset IoItem} {lostReleases : Multiset Release}
    (h : Inv cfg lostItems lostReleases d) {op : IoOp} (hring : d.WellRung op) :
    Ends (d.exec cfg tgt op)
      (fun d' => ∃ l r, Inv cfg l r d' ∧
        (Roomy cfg tgt d op → l = lostItems ∧ r = lostReleases))
      tgt.Faults := by
  have ha := h.account.exec tgt op
  have hq := h.queues_exec tgt hring
  cases hd : d.exec cfg tgt op with
  | ok d' =>
    rw [hd] at ha hq
    obtain ⟨l, r, hacc, hroom⟩ := ha
    exact ⟨l, r, ⟨hacc, hq⟩, hroom⟩
  | error e =>
    rw [hd] at ha
    exact ha.resolve_right fun he => h.not_stuck op he.2

/-- A fresh device satisfies the invariant. -/
theorem start_inv (hnr : 0 < cfg.nrIoWorkers) {sqes : ℕ → Option SubmissionQueue}
    {cqes : ℕ → Option CompletionQueue}
    (hsq : ∀ q sq, sqes q = some sq → 0 < sq.queueSize ∧ (cqes sq.cqid).isSome) (ns : σ) :
    Inv cfg 0 0 (NvmevDev.start sqes cqes ns) := by
  refine ⟨start_accounted hnr sqes cqes ns, fun q n cq hn => ?_, fun q n cq hn => ?_, by simp [start],
    fun _ _ _ _ => rfl, fun q n cq hn _ => ?_, nofun, by simp [start], rfl, rfl⟩
  · obtain ⟨sq, hs, rfl, -⟩ := shapes_eq_some.1 hn
    exact (hsq q sq hs).1
  · obtain ⟨sq, hs, -, rfl⟩ := shapes_eq_some.1 hn
    exact (hsq q sq hs).2
  · obtain ⟨sq, hs, rfl, -⟩ := shapes_eq_some.1 hn
    exact (Nat.zero_mod _).symm

/-- The invariant says that nothing is lost. -/
theorem Inv.nothingLost (h : Inv cfg 0 0 d) : NothingLost cfg d where
  ringOrder := fun q sq hsq => h.queues.slots q _ _ (shapes_eq_some.2 ⟨sq, hsq, rfl, rfl⟩)
  resumes := fun q sq hsq => h.queues.oldDbs q _ _ (shapes_eq_some.2 ⟨sq, hsq, rfl, rfl⟩)
  calls := fun c hc => by
    obtain ⟨n, cq, hn, hdone⟩ := h.queues.returned c hc
    obtain ⟨sq, hsq, rfl, -⟩ := shapes_eq_some.1 hn
    exact ⟨sq, hsq, hdone⟩
  commands := by
    have := h.account.items
    rwa [add_zero] at this
  releases := by
    have := h.account.releases
    rwa [add_zero] at this
  itemTickets := h.queues.itemTickets
  releaseTickets := h.queues.releaseTickets

end NvmevDev

open NvmevDev

/-- A read of one block. -/
def readBlock : NvmeRwCommand where
  opcode := .read
  commandId := 0
  nsid := 1
  prp1 := 0
  prp2 := 0
  slba := 0
  length := 0
  control := 0

/-- Queues `1` to `n` of 1024 entries, each with a completion queue, full of reads. -/
def readSqes (n q : ℕ) : Option SubmissionQueue :=
  if 1 ≤ q ∧ q ≤ n then some { cqid := q, queueSize := 1024, sq := fun _ => readBlock } else none

/-- The completion queues of `readSqes`. -/
def readCqes (n q : ℕ) : Option CompletionQueue :=
  if 1 ≤ q ∧ q ≤ n then some {
    queueSize := 1024, phase := true, cqHead := 0, interruptReady := false
    cq := fun _ => { result0 := 0, result1 := 0, sqHead := 0, sqId := 0, commandId := 0, status := 0 } }
  else none

/-- One I/O unit of 4 KiB and one I/O worker. -/
def oneUnit : IoUnitConfig where
  nrIoUnits := 1
  ioUnitShift := 12
  readDelay := 1
  readTime := 1
  readTrailing := 0
  writeDelay := 1
  writeTime := 1
  writeTrailing := 0

/-- One I/O worker. -/
def oneWorker : IoConfig where
  nrIoWorkers := 1
  bySq := false

/-- A simple namespace before its first command. -/
def freshSimple : SimpleNs where
  ioUnitStat := fun _ => 0
  host := fun _ => 0
  storage := fun _ => 0

theorem readSqes_ok (n q : ℕ) (sq : SubmissionQueue) (h : readSqes n q = some sq) :
    0 < sq.queueSize ∧ (readCqes n sq.cqid).isSome := by
  unfold readSqes at h
  split_ifs at h with hq
  cases h
  refine ⟨Nat.succ_pos _, ?_⟩
  unfold readCqes
  rw [if_pos hq]
  rfl

theorem pool_afterFtl {σ : Type} (d : NvmevDev σ) (c : ProcIoSq) (out : IoOutcome σ) :
    (d.afterFtl c out).pool = d.pool := by
  unfold afterFtl writeSq
  split <;> rfl

/-- Two reads are dispatched, the worker completes them, and a third one takes their entries back. -/
def readsThree : List IoOp :=
  [.ring 1 2, .poll 1, .dispatch 0, .reclaim, .dispatch 0, .reclaim, .dispatch 0, .enter 0,
    .visit 0 9000, .visit 0 9000, .ring 1 3, .poll 1, .dispatch 9000, .reclaim]

namespace NvmevDev

variable {σ : Type} (cfg : IoConfig) {tgt : IoTarget σ} {d d' : NvmevDev σ}

theorem card_owe_le {β : Type} (o : Option β) : (owe o).card ≤ 1 := by
  cases o <;> simp

/-- A worker owes less than it has entries. -/
theorem card_owed_lt {w : IoWorker} {cur : Option ℕ} (h : WorkerInv w cur) {β : Type}
    (sel : IoWork → Option β) : (w.owed sel).card < nrMaxParallelIo := by
  obtain ⟨fresh, used, io, hok, -⟩ := h
  have hlen := hok.length
  have hne : 0 < (fresh ++ used).length := List.length_pos_of_ne_nil hok.free_ne_nil
  unfold IoWorker.owed
  rw [hok.ioChain_eq, Multiset.card_sum]
  calc io.toFinset.sum (fun i => (owe (sel (w.workQueue i))).card)
      ≤ io.toFinset.card • 1 := Finset.sum_le_card_nsmul _ _ _ fun i _ => card_owe_le _
    _ ≤ io.length := by simpa using List.toFinset_card_le io
    _ < nrMaxParallelIo := by omega

/-- The FTL accepts every command as it is and schedules nothing. -/
def Accepting (tgt : IoTarget σ) : Prop := ∀ s r, ∃ s' t, tgt.procIoCmd s r = .ok {
  ns := s', cmd := r.cmd, ops := [], ret := some { status := 0, nsecsTarget := t } }

/-- `m` more commands are dispatched and none is completed. -/
structure Dispatched (m : ℕ) (d d' : NvmevDev σ) : Prop where
  shapes : d'.shapes = d.shapes
  oldDbs : d'.oldDbs = d.oldDbs
  posted : d'.history.posted = d.history.posted
  length : d'.history.dispatched.length = d.history.dispatched.length + m

/-- The commands of a queue up to slot `m`, without a worker coming in. -/
def fillOps (q m : ℕ) : List IoOp :=
  [.ring q m, .poll q] ++ ((List.replicate m [.dispatch 0, .reclaim]).flatten ++ [.dispatch 0])

/-- One command that is accepted. -/
theorem accepted_round (hacc : Accepting tgt) {c : ProcIoSq} (hcall : d.call = some c)
    (hrec : c.reclaiming = false) {n cq : ℕ} (hshape : d.shapes c.sqid = some (n, cq))
    (hseq : c.seq < c.numProc) :
    ∃ d', runList (exec cfg tgt) d [.dispatch 0, .reclaim] = .ok d' ∧ Dispatched 1 d d' ∧
      d'.call = some { c with seq := c.seq + 1, sqEntry := Ring.succ n c.sqEntry } := by
  obtain ⟨sq, hsq, rfl, rfl⟩ := shapes_eq_some.1 hshape
  obtain ⟨s', t, hout⟩ := hacc d.ns (request c sq 0)
  set out : IoOutcome σ := {
    ns := s', cmd := (request c sq 0).cmd, ops := []
    ret := some { status := 0, nsecsTarget := t } } with hdef
  set d₁ := d.finishIo cfg c sq out with hd₁
  have h₁ : d.exec cfg tgt (.dispatch 0) = .ok d₁ := by
    show d.dispatch cfg tgt 0 = _
    unfold NvmevDev.dispatch
    rw [hcall]
    dsimp only
    rw [hrec, if_neg (by decide), hsq]
    dsimp only
    rw [if_pos hseq]
    unfold NvmevDev.procIo
    rw [hout]
    rfl
  have hcall₁ : d₁.call = some { c with reclaiming := true } := rfl
  have hshape₁ : d₁.shapes = d.shapes := shapes_writeSq { d with ns := s' } c.sqid c.sqEntry _
  obtain ⟨sq₁, hsq₁, hsize, -⟩ := shapes_eq_some.1 ((congrFun hshape₁ c.sqid).trans hshape)
  have hhist : (d.afterFtl c out).history = d.history := by
    unfold afterFtl writeSq
    split <;> rfl
  have hold : (d.afterFtl c out).oldDbs = d.oldDbs := by
    unfold afterFtl writeSq
    split <;> rfl
  refine ⟨{ d₁ with
    pool := d₁.pool.reclaimCompletedReqs cfg
    call := some { c with
      seq := c.seq + 1, sqEntry := Ring.succ sq₁.queueSize c.sqEntry, reclaiming := false } },
    ?_, ⟨hshape₁, hold, ?_, ?_⟩, ?_⟩
  · rw [runList_cons, h₁, ok_bind, runList_cons]
    have h₂ : d₁.exec cfg tgt .reclaim = .ok { d₁ with
        pool := d₁.pool.reclaimCompletedReqs cfg
        call := some { c with
          seq := c.seq + 1, sqEntry := Ring.succ sq₁.queueSize c.sqEntry
          reclaiming := false } } := by
      show d₁.finishRound cfg = _
      unfold NvmevDev.finishRound
      rw [hcall₁]
      dsimp only
      rw [if_neg (by decide), hsq₁]
    rw [h₂]
    rfl
  · show (d.afterFtl c out).history.posted = _
    rw [hhist]
  · show ((d.afterFtl c out).history.dispatched ++ [_]).length = _
    rw [hhist, List.length_append, List.length_singleton]
  · rw [hsize, hrec]

/-- All commands of a call that are accepted. -/
theorem accepted_rounds (hacc : Accepting tgt) (m : ℕ) {c : ProcIoSq} (hcall : d.call = some c)
    (hrec : c.reclaiming = false) {n cq : ℕ} (hshape : d.shapes c.sqid = some (n, cq))
    (hseq : c.seq + m = c.numProc) :
    ∃ d' e, runList (exec cfg tgt) d (List.replicate m [.dispatch 0, .reclaim]).flatten = .ok d' ∧
      Dispatched m d d' ∧ d'.call = some { c with seq := c.numProc, sqEntry := e } := by
  induction m generalizing d c with
  | zero =>
    refine ⟨d, c.sqEntry, rfl, ⟨rfl, rfl, rfl, rfl⟩, ?_⟩
    cases c with
    | mk sqid newDb oldDb numProc seq sqEntry reclaiming =>
      obtain rfl : seq = numProc := hseq
      exact hcall
  | succ m ih =>
    obtain ⟨d₁, h₁, ⟨k1, k2, k3, k4⟩, hcall₁⟩ := accepted_round cfg hacc hcall hrec hshape
      (by omega)
    obtain ⟨d₂, e, h₂, ⟨l1, l2, l3, l4⟩, hcall₂⟩ := ih hcall₁ hrec (by rw [k1]; exact hshape)
      (by dsimp only; omega)
    refine ⟨d₂, e, ?_, ⟨l1.trans k1, l2.trans k2, l3.trans k3, by omega⟩, hcall₂⟩
    rw [List.replicate_succ, List.flatten_cons, runList_append, h₁]
    exact h₂

/-- The commands of one queue. -/
theorem accepted_fill (hacc : Accepting tgt) {q n cq m : ℕ} (hq : q ≠ 0) (hm : m ≠ 0)
    (hidle : d.call = none) (hshape : d.shapes q = some (n, cq)) (hold : d.oldDbs q = 0) :
    ∃ d', runList (exec cfg tgt) d (fillOps q m) = .ok d' ∧ d'.call = none ∧
      d'.shapes = d.shapes ∧ (∀ r, r ≠ q → d'.oldDbs r = d.oldDbs r) ∧
      d'.history.posted = d.history.posted ∧
      d'.history.dispatched.length = d.history.dispatched.length + m := by
  obtain ⟨sq, hsq, rfl, rfl⟩ := shapes_eq_some.1 hshape
  set c : ProcIoSq := {
    sqid := q, newDb := m, oldDb := 0, numProc := m, seq := 0, sqEntry := 0
    reclaiming := false } with hc
  set d₁ : NvmevDev σ := { d with dbs := Function.update d.dbs q m, call := some c } with hd₁
  have hpoll : pollSq { d with dbs := Function.update d.dbs q m } q = d₁ := by
    unfold NvmevDev.pollSq
    rw [hidle, hsq]
    dsimp only
    rw [Function.update_self, hold, if_neg (by omega), hd₁, hc]
    simp [Ring.dist]
  obtain ⟨d₂, e, h₂, ⟨k1, k2, k3, k4⟩, hcall₂⟩ := accepted_rounds cfg (d := d₁) hacc m
    (c := c) rfl rfl hshape (Nat.zero_add m)
  obtain ⟨sq₂, hsq₂, hsize, -⟩ := shapes_eq_some.1 ((congrFun k1 q).trans hshape)
  refine ⟨d₂.returnDb { c with seq := m, sqEntry := e } sq₂ none, ?_, rfl, k1, fun r hr => ?_, k3, k4⟩
  · unfold fillOps
    rw [runList_append]
    show runList (exec cfg tgt) (pollSq { d with dbs := Function.update d.dbs q m } q) _ = _
    rw [hpoll, runList_append, h₂, ok_bind, runList_cons]
    have h₃ : d₂.exec cfg tgt (.dispatch 0)
        = .ok (d₂.returnDb { c with seq := m, sqEntry := e } sq₂ none) := by
      show d₂.dispatch cfg tgt 0 = _
      unfold NvmevDev.dispatch
      rw [hcall₂]
      dsimp only
      rw [if_neg Bool.false_ne_true, hsq₂]
      dsimp only
      rw [if_neg (lt_irrefl m)]
    rw [h₃]
    rfl
  · show Function.update d₂.oldDbs q _ r = d.oldDbs r
    rw [Function.update_of_ne hr, k2]

/-- The commands of several queues. -/
theorem accepted_fills (hacc : Accepting tgt) {m : ℕ} (hm : m ≠ 0) {qs : List ℕ} (hnd : qs.Nodup)
    (hqs : ∀ q ∈ qs, q ≠ 0 ∧ (d.shapes q).isSome ∧ d.oldDbs q = 0) (hidle : d.call = none) :
    ∃ d', runList (exec cfg tgt) d (qs.flatMap fun q => fillOps q m) = .ok d' ∧ d'.call = none ∧
      d'.shapes = d.shapes ∧ (∀ r, r ∉ qs → d'.oldDbs r = d.oldDbs r) ∧
      d'.history.posted = d.history.posted ∧
      d'.history.dispatched.length = d.history.dispatched.length + qs.length * m := by
  induction qs generalizing d with
  | nil => exact ⟨d, rfl, hidle, rfl, fun _ _ => rfl, rfl, by simp⟩
  | cons q qs ih =>
    obtain ⟨hq0, hs, hold⟩ := hqs q (by simp)
    obtain ⟨⟨n, cq⟩, hshape⟩ := Option.isSome_iff_exists.1 hs
    obtain ⟨d₁, h₁, k1, k2, k3, k4, k5⟩ := accepted_fill cfg hacc hq0 hm hidle hshape hold
    obtain ⟨hqn, hnd⟩ := List.nodup_cons.1 hnd
    obtain ⟨d₂, h₂, l1, l2, l3, l4, l5⟩ := ih hnd (fun r hr => by
      obtain ⟨hr0, hrs, hro⟩ := hqs r (by simp [hr])
      refine ⟨hr0, by rwa [k2], ?_⟩
      rw [k3 r (by rintro rfl; exact hqn hr), hro]) k1
    refine ⟨d₂, ?_, l1, l2.trans k2, fun r hr => ?_, l4.trans k4, ?_⟩
    · rw [List.flatMap_cons, runList_append, h₁]
      exact h₂
    · simp only [List.mem_cons, not_or] at hr
      rw [l3 r hr.2, k3 r hr.1]
    · rw [l5, k5, List.length_cons]
      ring

end NvmevDev

/-- 1023 commands from each of 16 queues and 16 from another one, which no worker looks at. -/
def floodOps : List IoOp :=
  (List.range' 1 16).flatMap (fun q => fillOps q 1023) ++ fillOps 17 16

end NvmeVirt
