/-
# What the steps of the device change

A step of the dispatcher or of a worker in `io.c` either dispatches nothing, and
then what the scheduled entries still have to do only shrinks, or it takes the
command in the next slot of a queue through `__nvmev_proc_io`.
-/

import NvmeVirt.Io.NothingLost

namespace NvmeVirt

open Outcome IoPool IoWorker NvmevDev

/-- A command whose data is still to be copied. -/
def IoWork.uncopiedItem (w : IoWork) : Option IoItem :=
  if w.isCompleted ∨ w.isInternal ∨ w.isCopied then none else some w.item

/-- A step the host does not take. -/
def IoOp.OfDevice : IoOp → Prop
  | .submit .. => False
  | .ring .. => False
  | _ => True

instance : DecidablePred IoOp.OfDevice := fun op => by
  cases op <;> unfold IoOp.OfDevice <;> infer_instance

/-- A duty of the scheduled commands: an internal operation has none, a command has its item, and
what a worker does takes it off or leaves it. -/
structure Fades (sel : IoWork → Option IoItem) : Prop extends Owes sel where
  copied : ∀ x, sel { x with isCopied := true } = none ∨ sel { x with isCopied := true } = sel x
  internal : ∀ q n op x, sel (fillInternal q n op x) = none
  filled : ∀ i t x, sel (fillReq i t x) = some i

theorem fades_uncopiedItem : Fades IoWork.uncopiedItem where
  core := fun _ => rfl
  done := fun _ hx => if_pos (.inl hx)
  copied := fun _ => .inl (if_pos (.inr (.inr rfl)))
  internal := fun _ _ _ _ => if_pos (.inr (.inl rfl))
  filled := fun _ _ _ => rfl

theorem fades_owedItem : Fades IoWork.owedItem where
  core := fun _ => rfl
  done := fun _ hx => if_pos (.inl hx)
  copied := fun _ => .inr rfl
  internal := fun _ _ _ _ => rfl
  filled := fun _ _ _ => rfl

namespace NvmevDev

variable {σ : Type} {cfg : IoConfig} {tgt : IoTarget σ} {d d' : NvmevDev σ} {k curr : ℕ}

/-- A step that dispatches nothing. -/
structure Quiet (cfg : IoConfig) (d d' : NvmevDev σ) : Prop where
  sqes : d'.sqes = d.sqes
  dbs : d'.dbs = d.dbs
  dispatched : d'.history.dispatched = d.history.dispatched
  cqes : ∀ q, (d'.cqes q).isSome = (d.cqes q).isSome
  owed : ∀ sel, Fades sel → d'.pool.owed cfg sel ≤ d.pool.owed cfg sel
  call : ∀ c, d'.call = some c → c.newDb = d.dbs c.sqid ∧ (d.sqes c.sqid).isSome ∨
    ∃ c₀, d.call = some c₀ ∧ c₀.sqid = c.sqid ∧ c₀.newDb = c.newDb

theorem Quiet.refl (d : NvmevDev σ) : Quiet cfg d d :=
  ⟨rfl, rfl, rfl, fun _ => rfl, fun _ _ => le_refl _, fun c hc => .inr ⟨c, hc, rfl, rfl⟩⟩

/-- A mark that takes a duty off or leaves it. -/
theorem owed_mark_le {β : Type} {sel : IoWork → Option β} {f : IoWork → IoWork}
    (h : Threads cfg d.pool d.cursor) (hcur : d.cursor k = some curr)
    (hc : ((d.pool.ioWorkers k).workQueue curr).isCompleted = false)
    (hn : ∀ x, (f x).next = x.next) (hp : ∀ x, (f x).prev = x.prev)
    (hsel : ∀ x, sel (f x) = none ∨ sel (f x) = sel x) :
    (d.setWork k curr f).pool.owed cfg sel ≤ d.pool.owed cfg sel := by
  have hsum := h.owed_mark hcur hc hn hp sel
  rcases hsel ((d.pool.ioWorkers k).workQueue curr) with hnone | hsame
  · rw [hnone, owe_none, add_zero] at hsum
    rw [← hsum]
    exact Multiset.le_add_right _ _
  · rw [hsame] at hsum
    exact le_of_eq (add_right_cancel hsum)

theorem Quiet.trans {d'' : NvmevDev σ} (h : Quiet cfg d d') (h' : Quiet cfg d' d'') :
    Quiet cfg d d'' := by
  refine ⟨h'.sqes.trans h.sqes, h'.dbs.trans h.dbs, h'.dispatched.trans h.dispatched,
    fun q => (h'.cqes q).trans (h.cqes q), fun sel hsel => le_trans (h'.owed sel hsel)
    (h.owed sel hsel), fun c hc => ?_⟩
  rcases h'.call c hc with ⟨h1, hs⟩ | ⟨c₀, hc₀, hq, hn⟩
  · left
    rw [h.sqes] at hs
    rw [h1, h.dbs]
    exact ⟨rfl, hs⟩
  · rcases h.call c₀ hc₀ with ⟨h2, hs⟩ | ⟨c₁, hc₁, hq₁, hn₁⟩
    · left
      rw [← hn, h2, ← hq]
      exact ⟨rfl, hs⟩
    · exact .inr ⟨c₁, hc₁, hq₁.trans hq, hn₁.trans hn⟩

/-- The copy of an entry leaves the submission queues alone. -/
theorem Quiet.markCopied {l : Multiset IoItem} {r : Multiset Release} (h : Accounted cfg l r d)
    (hcur : d.cursor k = some curr)
    (hc : ((d.pool.ioWorkers k).workQueue curr).isCompleted = false) :
    Quiet cfg d (d.markCopied k curr) :=
  ⟨rfl, rfl, rfl, fun _ => rfl, fun _ hsel => owed_mark_le h.threads hcur hc (fun _ => rfl)
    (fun _ => rfl) hsel.copied, fun c hc => .inr ⟨c, hc, rfl, rfl⟩⟩

/-- The completion of an entry leaves the submission queues alone. -/
theorem Quiet.markCompleted {l : Multiset IoItem} {r : Multiset Release} (h : Accounted cfg l r d)
    (hcur : d.cursor k = some curr)
    (hc : ((d.pool.ioWorkers k).workQueue curr).isCompleted = false) :
    Quiet cfg d (d.markCompleted k curr) :=
  ⟨rfl, rfl, rfl, fun _ => rfl, fun _ hsel => owed_mark_le h.threads hcur hc (fun _ => rfl)
    (fun _ => rfl) fun _ => .inl (hsel.done _ rfl), fun c hc => .inr ⟨c, hc, rfl, rfl⟩⟩

/-- A new value in a place that has one. -/
theorem isSome_update {β : Type} {f : ℕ → Option β} {j : ℕ} {a b : β} (hj : f j = some a) (q : ℕ) :
    (Function.update f j (some b) q).isSome = (f q).isSome := by
  by_cases hq : q = j
  · subst hq
    rw [Function.update_self, hj]
    rfl
  · rw [Function.update_of_ne hq]

/-- What a worker does about an entry leaves the submission queues alone. -/
theorem serveWork_quiet {l : Multiset IoItem} {r : Multiset Release} (h : Accounted cfg l r d)
    (hcur : d.cursor k = some curr) (t : ℕ) :
    Ends (d.serveWork tgt k curr t) (Quiet cfg d) fun _ => True := by
  unfold NvmevDev.serveWork
  dsimp only
  cases hc : ((d.pool.ioWorkers k).workQueue curr).isCompleted with
  | true => exact .refl d
  | false =>
    rw [if_neg Bool.false_ne_true]
    have hcopy : Ends (d.copyWork tgt k curr) (fun d₂ => Accounted cfg l r d₂ ∧
        Quiet cfg d d₂ ∧ d₂.cursor k = some curr ∧
        ((d₂.pool.ioWorkers k).workQueue curr).isCompleted = false) fun _ => True := by
      refine ((h.copyWork tgt hcur rfl hc).and (copyWork_cases rfl hc)).mono ?_
        fun _ _ => trivial
      rintro d₂ ⟨⟨h₂, hcur₂, -, b, hb⟩, hcases⟩
      refine ⟨h₂, ?_, by rw [hcur₂]; exact hcur, by rw [hb]; exact hc⟩
      rcases hcases with ⟨-, rfl⟩ | ⟨-, -, rfl⟩ | ⟨-, -, sq, ns, -, -, rfl⟩
      · exact .refl _
      · exact .markCopied h hcur hc
      · have hq := Quiet.markCopied h hcur hc
        exact ⟨hq.sqes, hq.dbs, hq.dispatched, hq.cqes, hq.owed, hq.call⟩
    refine hcopy.bind ?_
    rintro d₂ ⟨h₂, hq₂, hcur₂, hc₂⟩
    split_ifs with hdue
    · refine (completeWork_cases rfl hc₂).mono ?_ fun _ _ => trivial
      have hq := Quiet.markCompleted h₂ hcur₂ hc₂
      rintro d₃ (⟨-, rfl⟩ | ⟨-, cq, hcq, rfl⟩)
      · exact hq₂.trans ⟨hq.sqes, hq.dbs, hq.dispatched, hq.cqes, hq.owed, hq.call⟩
      · exact hq₂.trans ⟨hq.sqes, hq.dbs, hq.dispatched, isSome_update hcq, hq.owed, hq.call⟩
    · exact hq₂

/-- **A visit** dispatches nothing. -/
theorem visitWork_quiet {l : Multiset IoItem} {r : Multiset Release} (h : Accounted cfg l r d)
    (hcur : d.cursor k = some curr) (t : ℕ) :
    Ends (d.visitWork tgt k curr t) (Quiet cfg d) fun _ => True := by
  have hk := h.threads.lt hcur
  have hclock : Quiet cfg d (d.atClock k t) :=
    ⟨rfl, rfl, rfl, fun _ => rfl, fun _ _ => le_of_eq (owed_setLatest hk t),
      fun c hc => .inr ⟨c, hc, rfl, rfl⟩⟩
  unfold NvmevDev.visitWork
  refine (serveWork_quiet (h.atClock hk t) hcur t).bind fun d₃ hq => ?_
  have hq' := hclock.trans hq
  exact ⟨hq'.sqes, hq'.dbs, hq'.dispatched, hq'.cqes, hq'.owed, hq'.call⟩

/-- Entering `nvmev_proc_io_sq` dispatches nothing. -/
theorem pollSq_quiet (d : NvmevDev σ) (sqid : ℕ) : Quiet cfg d (d.pollSq sqid) := by
  unfold NvmevDev.pollSq
  split
  · rename_i sq _ hsq
    dsimp only
    by_cases hsame : sqid = 0 ∨ d.dbs sqid = d.oldDbs sqid
    · rw [if_pos hsame]
      exact .refl d
    · rw [if_neg hsame]
      refine ⟨rfl, rfl, rfl, fun _ => rfl, fun _ _ => le_refl _, ?_⟩
      rintro c hc
      cases hc
      exact .inl ⟨rfl, Option.isSome_of_eq_some hsq⟩
  · exact .refl d

/-- The end of a round dispatches nothing. -/
theorem finishRound_quiet {l : Multiset IoItem} {r : Multiset Release} (h : Accounted cfg l r d) :
    Ends (d.finishRound cfg) (Quiet cfg d) fun _ => True := by
  unfold NvmevDev.finishRound
  cases hcall : d.call with
  | none => exact .refl d
  | some c =>
    dsimp only
    by_cases hrec : c.reclaiming = true
    · rw [if_neg (not_not.2 hrec)]
      cases d.sqes c.sqid with
      | none => trivial
      | some sq =>
        refine ⟨rfl, rfl, rfl, fun _ => rfl,
          fun _ hsel => le_of_eq (h.threads.owed_reclaim hsel.toOwes), ?_⟩
        rintro c' hc'
        cases hc'
        exact .inr ⟨c, hcall, rfl, rfl⟩
    · rw [if_pos hrec]
      exact .refl d

/-- Putting work in adds one thing at most. -/
theorem owed_putWork_le {β : Type} {sel : IoWork → Option β} {p : IoPool} {cursor : ℕ → Option ℕ}
    {q t : ℕ} {fill : IoWork → IoWork} {b : Option β} (h : Threads cfg p cursor)
    (hn : ∀ x, (fill x).next = none) (hp : ∀ x, (fill x).prev = none) (hsel : Owes sel)
    (hb : ∀ x, sel (fill x) = b) :
    (p.putWork cfg q t fill).owed cfg sel ≤ p.owed cfg sel + owe b := by
  by_cases hroom : HasRoom cfg p q
  · exact le_of_eq (h.owed_putWork hn hp hroom hsel hb)
  · rw [h.putWork_full hroom]
    exact Multiset.le_add_right _ _

/-- The internal operations add no duty. -/
theorem scheduleAll_owed {l : Multiset IoItem} {r : Multiset Release}
    (h : Accounted cfg l r d) (sqid : ℕ) (ops : List InternalOp) :
    (∀ sel, Fades sel → (d.scheduleAll cfg sqid ops).pool.owed cfg sel ≤ d.pool.owed cfg sel) ∧
      (d.scheduleAll cfg sqid ops).sqes = d.sqes := by
  induction ops generalizing d l r with
  | nil => exact ⟨fun _ _ => le_refl _, rfl⟩
  | cons op ops ih =>
    obtain ⟨l', r', h', -⟩ := h.scheduleInternalOperation sqid op
    obtain ⟨h1, h2⟩ := ih h'
    refine ⟨fun sel hsel => le_trans (h1 sel hsel) ?_, h2⟩
    have hput := owed_putWork_le h.threads (fun _ => rfl) (fun _ => rfl) hsel.toOwes
      (hsel.internal sqid d.history.scheduled.length op) (q := sqid) (t := op.nsecsTarget)
    rwa [owe_none, add_zero] at hput

/-- The command in a slot goes through the FTL, which may rewrite it to `cmd`, and is refused or
dispatched. -/
structure FromSlot (cfg : IoConfig) (d d' : NvmevDev σ) (c : ProcIoSq) (cmd : NvmeRwCommand) :
    Prop where
  sqes : d'.sqes = (d.writeSq c.sqid c.sqEntry cmd).sqes
  dbs : d'.dbs = d.dbs
  cqes : d'.cqes = d.cqes
  ends : (d'.call = none ∧ d'.history.dispatched = d.history.dispatched ∧
      ∀ sel, Fades sel → d'.pool.owed cfg sel ≤ d.pool.owed cfg sel) ∨
    ∃ x : Dispatch, d'.call = some { c with reclaiming := true } ∧
      d'.history.dispatched = d.history.dispatched ++ [x] ∧ x.cmd = cmd ∧
      x.item.sqid = c.sqid ∧ x.item.sqEntry = c.sqEntry ∧
      (∃ sq, d.sqes c.sqid = some sq ∧ x.item.cqid = sq.cqid) ∧
      ∀ sel, Fades sel → d'.pool.owed cfg sel ≤ d.pool.owed cfg sel + {x.item}

theorem cqes_scheduleAll (d : NvmevDev σ) (sqid : ℕ) (ops : List InternalOp) :
    (d.scheduleAll cfg sqid ops).cqes = d.cqes := by
  induction ops generalizing d with
  | nil => rfl
  | cons op ops ih => exact ih (d.scheduleInternalOperation cfg sqid op)

theorem cqes_afterFtl (d : NvmevDev σ) (c : ProcIoSq) (out : IoOutcome σ) :
    (d.afterFtl c out).cqes = d.cqes := by
  unfold afterFtl NvmevDev.writeSq
  split <;> rfl

/-- The rest of `__nvmev_proc_io`. -/
theorem finishIo_fromSlot {l : Multiset IoItem} {r : Multiset Release} (h : Accounted cfg l r d)
    (c : ProcIoSq) {sq : SubmissionQueue} (hsome : d.sqes c.sqid = some sq) (out : IoOutcome σ) :
    FromSlot cfg d (d.finishIo cfg c sq out) c out.cmd := by
  have hns : Accounted cfg l r ({ d with ns := out.ns } : NvmevDev σ) :=
    h.congr rfl rfl rfl rfl rfl rfl
  have hftl : Accounted cfg l r (d.afterFtl c out) := hns.writeSq _ _ _
  have hsqes : (d.afterFtl c out).sqes = (d.writeSq c.sqid c.sqEntry out.cmd).sqes := by
    unfold afterFtl NvmevDev.writeSq
    dsimp only
    cases d.sqes c.sqid <;> rfl
  have hsame : SameQueues ({ d with ns := out.ns } : NvmevDev σ)
      ((d.afterFtl c out).scheduleAll cfg c.sqid out.ops) :=
    (SameQueues.writeSq _ c.sqid c.sqEntry out.cmd).trans
      (SameQueues.scheduleAll (d.afterFtl c out) c.sqid out.ops)
  obtain ⟨hle, hsq⟩ := scheduleAll_owed hftl c.sqid out.ops
  rw [pool_afterFtl] at hle
  obtain ⟨l', r', h', -⟩ := hftl.scheduleAll c.sqid out.ops
  have hcqes : ((d.afterFtl c out).scheduleAll cfg c.sqid out.ops).cqes = d.cqes :=
    (cqes_scheduleAll _ c.sqid out.ops).trans (cqes_afterFtl d c out)
  set d₁ := (d.afterFtl c out).scheduleAll cfg c.sqid out.ops with hd₁
  have hdisp : d₁.history.dispatched = d.history.dispatched := hsame.dispatched
  unfold NvmevDev.finishIo
  rw [← hd₁]
  dsimp only
  cases out.ret with
  | none => exact ⟨hsq.trans hsqes, hsame.dbs, hcqes, .inl ⟨rfl, hdisp, hle⟩⟩
  | some ret =>
    set i : IoItem := {
      ticket := d₁.history.dispatched.length, sqid := c.sqid, cqid := sq.cqid
      sqEntry := c.sqEntry, commandId := out.cmd.commandId, status := ret.status } with hi
    refine ⟨hsq.trans hsqes, hsame.dbs, hcqes, .inr ⟨{ item := i, cmd := out.cmd }, rfl, ?_, rfl, rfl,
      rfl, ⟨sq, hsome, rfl⟩, fun sel hsel => ?_⟩⟩
    · show d₁.history.dispatched ++ [({ item := i, cmd := out.cmd } : Dispatch)] = _
      rw [hdisp]
    · have hput := owed_putWork_le (q := c.sqid) (t := ret.nsecsTarget) h'.threads (fun _ => rfl)
        (fun _ => rfl) hsel.toOwes (hsel.filled i ret.nsecsTarget)
      exact hput.trans (add_le_add_left (hle sel hsel) _)

/-- **A round of the dispatcher** dispatches nothing or takes the next command of the queue. -/
theorem dispatch_cases {l : Multiset IoItem} {r : Multiset Release} (h : Accounted cfg l r d)
    (t : ℕ) :
    Ends (d.dispatch cfg tgt t) (fun d' => Quiet cfg d d' ∨
      ∃ c cmd, d.call = some c ∧ c.reclaiming = false ∧ c.seq < c.numProc ∧
        FromSlot cfg d d' c cmd) fun _ => True := by
  unfold NvmevDev.dispatch
  cases hcall : d.call with
  | none => exact .inl (.refl d)
  | some c =>
    dsimp only
    cases hrec : c.reclaiming with
    | true => exact .inl (.refl d)
    | false =>
      rw [if_neg Bool.false_ne_true]
      cases hsq : d.sqes c.sqid with
      | none => trivial
      | some sq =>
        dsimp only
        by_cases hseq : c.seq < c.numProc
        · rw [if_pos hseq]
          unfold NvmevDev.procIo
          cases tgt.procIoCmd d.ns (request c sq t) with
          | error e => trivial
          | ok out => exact .inr ⟨c, out.cmd, rfl, hrec, hseq, finishIo_fromSlot h c hsq out⟩
        · rw [if_neg hseq]
          exact .inl ⟨rfl, rfl, rfl, fun _ => rfl, fun _ _ => le_refl _, nofun⟩

/-- The contents of a queue after an assignment to a slot. -/
theorem writeSq_sqes {σ : Type} (d : NvmevDev σ) {q slot : ℕ} {cmd : NvmeRwCommand} {r : ℕ}
    {sq : SubmissionQueue} (hsq : d.sqes r = some sq) :
    (d.writeSq q slot cmd).sqes r = some { sq with
      sq := if r = q then Function.update sq.sq slot cmd else sq.sq } := by
  unfold NvmevDev.writeSq
  cases hq : d.sqes q with
  | none =>
    have hrq : r ≠ q := by
      rintro rfl
      rw [hsq] at hq
      cases hq
    rw [if_neg hrq]
    exact hsq
  | some sq' =>
    dsimp only
    by_cases hrq : r = q
    · subst hrq
      rw [hsq] at hq
      cases hq
      rw [Function.update_self, if_pos rfl]
    · rw [Function.update_of_ne hrq, if_neg hrq]
      exact hsq

/-- A step of the dispatcher or a worker dispatches nothing or takes the next command. -/
theorem exec_cases {d : NvmevDev σ} {l : Multiset IoItem} {r : Multiset Release}
    (h : Accounted cfg l r d) {op : IoOp} (hop : op.OfDevice) :
    Ends (d.exec cfg tgt op) (fun d' => Quiet cfg d d' ∨
      (∃ t, op = .dispatch t) ∧ ∃ c cmd, d.call = some c ∧ c.reclaiming = false ∧
        c.seq < c.numProc ∧ FromSlot cfg d d' c cmd) fun _ => True := by
  cases op with
  | submit q slot cmd => exact hop.elim
  | ring q n => exact hop.elim
  | poll q => exact .inl (pollSq_quiet d q)
  | dispatch t =>
    exact (dispatch_cases h t).mono (fun _ hd => hd.imp_right fun hs => ⟨⟨t, rfl⟩, hs⟩)
      fun _ _ => trivial
  | reclaim => exact (finishRound_quiet h).mono (fun _ hq => .inl hq) fun _ _ => trivial
  | enter k =>
    refine .inl ?_
    show Quiet cfg d (if _ then _ else _)
    split_ifs
    · exact ⟨rfl, rfl, rfl, fun _ => rfl, fun _ _ => le_refl _, fun c hc => .inr ⟨c, hc, rfl, rfl⟩⟩
    · exact .refl d
  | visit k t =>
    unfold NvmevDev.exec
    dsimp only
    cases hcur : d.cursor k with
    | none => exact .inl (.refl d)
    | some curr => exact (visitWork_quiet h hcur t).mono (fun _ hq => .inl hq) fun _ _ => trivial

end NvmevDev

end NvmeVirt
