/-
# What becomes of the dispatched commands

Every step of host, dispatcher and workers in `io.c` keeps the workers'
invariant and the account: what was dispatched is what was posted, what the
scheduled entries still stand for, and what was lost because no entry was left.
The same holds of the scheduled buffer releases.
-/

import NvmeVirt.Io.Pool

namespace NvmeVirt

open Outcome IoWorker IoPool

/-- The completion an entry still has to post. -/
def IoWork.owedItem (w : IoWork) : Option IoItem :=
  if w.isCompleted ∨ w.isInternal then none else some w.item

/-- The release an entry still has to make. -/
def IoWork.owedRelease (w : IoWork) : Option Release :=
  if w.isCompleted ∨ ¬ w.isInternal then none else some w.release

theorem owes_owedItem : Owes IoWork.owedItem where
  core := fun _ => rfl
  done := fun _ hx => if_pos (.inl hx)

theorem owes_owedRelease : Owes IoWork.owedRelease where
  core := fun _ => rfl
  done := fun _ hx => if_pos (.inl hx)

@[simp] theorem owedItem_fillReq (i : IoItem) (t : ℕ) (x : IoWork) :
    (fillReq i t x).owedItem = some i := rfl

@[simp] theorem owedRelease_fillReq (i : IoItem) (t : ℕ) (x : IoWork) :
    (fillReq i t x).owedRelease = none := rfl

@[simp] theorem owedItem_fillInternal (q n : ℕ) (op : InternalOp) (x : IoWork) :
    (fillInternal q n op x).owedItem = none := rfl

@[simp] theorem owedRelease_fillInternal (q n : ℕ) (op : InternalOp) (x : IoWork) :
    (fillInternal q n op x).owedRelease = some {
      ticket := n, writeBuffer := op.writeBuffer, buffsToRelease := op.buffsToRelease } := rfl

/-- An error of the FTL or of a copy. -/
def IoTarget.Faults {σ : Type} (tgt : IoTarget σ) (e : Fault) : Prop :=
  (∃ s r, tgt.procIoCmd s r = .error e) ∨ ∃ s c, tgt.performIo s c = .error e

namespace NvmevDev

variable {σ : Type} {cfg : IoConfig} {tgt : IoTarget σ} {d d' : NvmevDev σ}
  {lostItems : Multiset IoItem} {lostReleases : Multiset Release} {k curr : ℕ}

/-- **The account of a device:** the completions and releases, with those that were lost. -/
structure Accounted (cfg : IoConfig) (lostItems : Multiset IoItem)
    (lostReleases : Multiset Release) (d : NvmevDev σ) : Prop where
  threads : Threads cfg d.pool d.cursor
  items : (d.history.posted : Multiset IoItem) + d.pool.owed cfg IoWork.owedItem + lostItems
    = (d.history.dispatched.map Dispatch.item : List IoItem)
  releases : (d.history.released : Multiset Release) + d.pool.owed cfg IoWork.owedRelease
    + lostReleases = (d.history.scheduled : Multiset Release)

/-- The account is kept by a step that ends in `d'`; nothing is lost if `room`. -/
def KeepsAccount (cfg : IoConfig) (lostItems : Multiset IoItem) (lostReleases : Multiset Release)
    (room : Prop) (d' : NvmevDev σ) : Prop :=
  ∃ l r, Accounted cfg l r d' ∧ (room → l = lostItems ∧ r = lostReleases)

/-- Steps in a row. -/
theorem KeepsAccount.trans {d'' : NvmevDev σ} {room room' : Prop}
    (h : KeepsAccount cfg lostItems lostReleases room d')
    (h' : ∀ l r, Accounted cfg l r d' → KeepsAccount cfg l r room' d'') :
    KeepsAccount cfg lostItems lostReleases (room ∧ room') d'' := by
  obtain ⟨l, r, ha, hroom⟩ := h
  obtain ⟨l', r', ha', hroom'⟩ := h' l r ha
  refine ⟨l', r', ha', fun hr => ?_⟩
  obtain ⟨rfl, rfl⟩ := hroom hr.1
  exact hroom' hr.2

/-- The account is about the workers and the histories. -/
theorem Accounted.congr (h : Accounted cfg lostItems lostReleases d) (hp : d'.pool = d.pool)
    (hc : d'.cursor = d.cursor) (h1 : d'.history.posted = d.history.posted)
    (h2 : d'.history.dispatched = d.history.dispatched)
    (h3 : d'.history.released = d.history.released)
    (h4 : d'.history.scheduled = d.history.scheduled) :
    Accounted cfg lostItems lostReleases d' := by
  obtain ⟨ht, hi, hr⟩ := h
  refine ⟨?_, ?_, ?_⟩
  · rwa [hp, hc]
  · rwa [h1, hp, h2]
  · rwa [h3, hp, h4]

/-- **Work is put in** that stands for the completion `i` or the release `r`. -/
theorem Accounted.put (h : Accounted cfg lostItems lostReleases d) {sqid t : ℕ}
    {fill : IoWork → IoWork} {i : Option IoItem} {r : Option Release}
    (hn : ∀ x, (fill x).next = none) (hp : ∀ x, (fill x).prev = none)
    (hi : ∀ x, (fill x).owedItem = i) (hr : ∀ x, (fill x).owedRelease = r)
    (hpool : d'.pool = d.pool.putWork cfg sqid t fill) (hcur : d'.cursor = d.cursor)
    (hposted : d'.history.posted = d.history.posted)
    (hreleased : d'.history.released = d.history.released)
    (hdisp : (d'.history.dispatched.map Dispatch.item : Multiset IoItem)
      = (d.history.dispatched.map Dispatch.item : List IoItem) + owe i)
    (hsched : (d'.history.scheduled : Multiset Release) = d.history.scheduled + owe r) :
    KeepsAccount cfg lostItems lostReleases (HasRoom cfg d.pool sqid) d' := by
  obtain ⟨ht, hitems, hreleases⟩ := h
  have hthreads : Threads cfg d'.pool d'.cursor := by
    rw [hpool, hcur]
    exact ht.putWork hn hp
  by_cases hroom : HasRoom cfg d.pool sqid
  · refine ⟨lostItems, lostReleases, ⟨hthreads, ?_, ?_⟩, fun _ => ⟨rfl, rfl⟩⟩
    · rw [hdisp, hposted, hpool, ht.owed_putWork hn hp hroom owes_owedItem hi, ← hitems]
      abel
    · rw [hsched, hreleased, hpool, ht.owed_putWork hn hp hroom owes_owedRelease hr, ← hreleases]
      abel
  · refine ⟨lostItems + owe i, lostReleases + owe r, ⟨hthreads, ?_, ?_⟩, fun h => absurd h hroom⟩
    · rw [hdisp, hposted, hpool, ht.putWork_full hroom, ← hitems, add_assoc, add_assoc, add_assoc]
    · rw [hsched, hreleased, hpool, ht.putWork_full hroom, ← hreleases, add_assoc, add_assoc,
        add_assoc]

/-- **A command is put to work.** -/
theorem Accounted.enqueueIoReq (h : Accounted cfg lostItems lostReleases d)
    (sqid cqid sqEntry : ℕ) (cmd : NvmeRwCommand) (ret : NvmevResult) :
    KeepsAccount cfg lostItems lostReleases (HasRoom cfg d.pool sqid)
      (d.enqueueIoReq cfg sqid cqid sqEntry cmd ret) := by
  refine h.put (fun _ => rfl) (fun _ => rfl) (owedItem_fillReq _ _) (owedRelease_fillReq _ _) rfl
    rfl rfl rfl ?_ (add_zero _).symm
  show (((d.history.dispatched ++ [_]).map Dispatch.item : List IoItem) : Multiset IoItem) = _
  rw [List.map_append]
  rfl

/-- **A release is put to work.** -/
theorem Accounted.scheduleInternalOperation (h : Accounted cfg lostItems lostReleases d)
    (sqid : ℕ) (op : InternalOp) :
    KeepsAccount cfg lostItems lostReleases (HasRoom cfg d.pool sqid)
      (d.scheduleInternalOperation cfg sqid op) :=
  h.put (fun _ => rfl) (fun _ => rfl) (owedItem_fillInternal _ _ _)
    (owedRelease_fillInternal _ _ _) rfl rfl rfl rfl (add_zero _).symm rfl

/-- Every enqueue of the operations finds room. -/
def RoomForAll (cfg : IoConfig) (sqid : ℕ) : List InternalOp → NvmevDev σ → Prop
  | [], _ => True
  | op :: ops, d =>
    HasRoom cfg d.pool sqid ∧ RoomForAll cfg sqid ops (d.scheduleInternalOperation cfg sqid op)

instance decidableRoomForAll (cfg : IoConfig) (sqid : ℕ) :
    ∀ (ops : List InternalOp) (d : NvmevDev σ), Decidable (RoomForAll cfg sqid ops d)
  | [], _ => .isTrue trivial
  | op :: ops, d =>
    have := decidableRoomForAll cfg sqid ops (d.scheduleInternalOperation cfg sqid op)
    inferInstanceAs (Decidable (_ ∧ _))

/-- **All internal operations of a command are put to work.** -/
theorem Accounted.scheduleAll (h : Accounted cfg lostItems lostReleases d) (sqid : ℕ)
    (ops : List InternalOp) :
    KeepsAccount cfg lostItems lostReleases (RoomForAll cfg sqid ops d)
      (d.scheduleAll cfg sqid ops) := by
  induction ops generalizing d lostItems lostReleases with
  | nil => exact ⟨_, _, h, fun _ => ⟨rfl, rfl⟩⟩
  | cons op ops ih => exact (h.scheduleInternalOperation sqid op).trans fun l r h' => ih h'

/-! ### The workers -/

/-- The copy of the entry looks up a submission queue that does not exist. -/
def SqMissing (d : NvmevDev σ) (k curr : ℕ) : Prop :=
  let w := (d.pool.ioWorkers k).workQueue curr
  w.isCompleted = false ∧ w.isCopied = false ∧ w.isInternal = false ∧ d.sqes w.sqid = none

/-- The completion of the entry looks up a completion queue that does not exist. -/
def CqMissing (d : NvmevDev σ) (k curr : ℕ) : Prop :=
  let w := (d.pool.ioWorkers k).workQueue curr
  w.isCompleted = false ∧ w.isInternal = false ∧ d.cqes w.cqid = none

/-- The entry, marked as copied. -/
def markCopied (d : NvmevDev σ) (k curr : ℕ) : NvmevDev σ :=
  d.setWork k curr fun w => { w with isCopied := true }

/-- The entry, marked as completed. -/
def markCompleted (d : NvmevDev σ) (k curr : ℕ) : NvmevDev σ :=
  d.setWork k curr fun w => { w with isCompleted := true }

@[simp] theorem entry_setWork (f : IoWork → IoWork) :
    ((d.setWork k curr f).pool.ioWorkers k).workQueue curr
      = f ((d.pool.ioWorkers k).workQueue curr) := by
  show ((d.pool.setWorker k _).ioWorkers k).workQueue curr = _
  rw [setWorker_self]
  exact Function.update_self ..

/-- What a copy does. -/
theorem copyWork_cases {w : IoWork} (hw : (d.pool.ioWorkers k).workQueue curr = w)
    (hc : w.isCompleted = false) :
    Ends (d.copyWork tgt k curr)
      (fun d' => w.isCopied = true ∧ d' = d ∨
        w.isCopied = false ∧ w.isInternal = true ∧ d' = d.markCopied k curr ∨
        w.isCopied = false ∧ w.isInternal = false ∧ ∃ sq ns, d.sqes w.sqid = some sq ∧
          tgt.performIo d.ns (sq.sq w.sqEntry) = .ok ns ∧
          d' = ({ d with ns := ns } : NvmevDev σ).markCopied k curr)
      (fun e => tgt.Faults e ∨ e = .undefined ∧ d.SqMissing k curr) := by
  unfold NvmevDev.copyWork
  rw [hw]
  dsimp only
  cases hcp : w.isCopied with
  | true => exact .inl ⟨rfl, rfl⟩
  | false =>
    cases hi : w.isInternal with
    | true => exact .inr (.inl ⟨rfl, rfl, rfl⟩)
    | false =>
      unfold NvmevDev.doPerformIo
      cases hsq : d.sqes w.sqid with
      | none => exact .inr ⟨rfl, by rw [hw]; exact hc, by rw [hw]; exact hcp,
          by rw [hw]; exact hi, by rw [hw]; exact hsq⟩
      | some sq =>
        dsimp only
        cases hp : tgt.performIo d.ns (sq.sq w.sqEntry) with
        | error e => exact .inl (.inr ⟨_, _, hp⟩)
        | ok ns => exact .inr (.inr ⟨rfl, rfl, sq, ns, rfl, hp, rfl⟩)

/-- What a completion does. -/
theorem completeWork_cases {w : IoWork} (hw : (d.pool.ioWorkers k).workQueue curr = w)
    (hc : w.isCompleted = false) :
    Ends (d.completeWork tgt k curr)
      (fun d' => w.isInternal = true ∧ d' = ({ d with
          ns := tgt.bufferRelease d.ns w.writeBuffer w.buffsToRelease
          history.released := d.history.released ++ [w.release] } : NvmevDev σ).markCompleted k curr ∨
        w.isInternal = false ∧ ∃ cq, d.cqes w.cqid = some cq ∧ d' = ({ d with
          cqes := Function.update d.cqes w.cqid (some (fillCq cq w))
          history.posted := d.history.posted ++ [w.item] } : NvmevDev σ).markCompleted k curr)
      (fun e => e = .undefined ∧ d.CqMissing k curr) := by
  unfold NvmevDev.completeWork
  rw [hw]
  dsimp only
  cases hi : w.isInternal with
  | true => exact .inl ⟨rfl, rfl⟩
  | false =>
    unfold NvmevDev.fillCqResult
    cases hcq : d.cqes w.cqid with
    | none => exact ⟨rfl, by rw [hw]; exact hc, by rw [hw]; exact hi, by rw [hw]; exact hcq⟩
    | some cq => exact .inr ⟨rfl, cq, rfl, rfl⟩

/-- A copy changes nothing of what the entry stands for. -/
theorem Accounted.markCopied (h : Accounted cfg lostItems lostReleases d)
    (hcur : d.cursor k = some curr)
    (hc : ((d.pool.ioWorkers k).workQueue curr).isCompleted = false) :
    Accounted cfg lostItems lostReleases (d.markCopied k curr) := by
  obtain ⟨ht, hi, hr⟩ := h
  have howed := fun {β : Type} => ht.owed_mark (β := β) (f := fun w => { w with isCopied := true })
    hcur hc (fun _ => rfl) fun _ => rfl
  refine ⟨ht.mark hcur hc (fun _ => rfl) fun _ => rfl, ?_, ?_⟩
  · have hsame : (d.markCopied k curr).pool.owed cfg IoWork.owedItem
        = d.pool.owed cfg IoWork.owedItem := add_right_cancel (howed IoWork.owedItem)
    rw [hsame]
    exact hi
  · have hsame : (d.markCopied k curr).pool.owed cfg IoWork.owedRelease
        = d.pool.owed cfg IoWork.owedRelease := add_right_cancel (howed IoWork.owedRelease)
    rw [hsame]
    exact hr

/-- **A completion** moves what the entry stands for to the history. -/
theorem Accounted.markCompleted (h : Accounted cfg lostItems lostReleases d) {w : IoWork}
    (hw : (d.pool.ioWorkers k).workQueue curr = w) (hcur : d.cursor k = some curr)
    (hc : w.isCompleted = false) (hpool : d'.pool = d.pool) (hcursor : d'.cursor = d.cursor)
    (hposted : (d'.history.posted : Multiset IoItem) = d.history.posted + owe w.owedItem)
    (hreleased : (d'.history.released : Multiset Release)
      = d.history.released + owe w.owedRelease)
    (hdisp : d'.history.dispatched = d.history.dispatched)
    (hsched : d'.history.scheduled = d.history.scheduled) :
    Accounted cfg lostItems lostReleases (d'.markCompleted k curr) := by
  obtain ⟨ht, hi, hr⟩ := h
  rw [← hw] at hc
  have howed := fun {β : Type} => ht.owed_mark (β := β)
    (f := fun w => { w with isCompleted := true }) hcur hc (fun _ => rfl) fun _ => rfl
  have hm : (d'.markCompleted k curr).pool = d.pool.setWorker k
      ((d.pool.ioWorkers k).setWork curr fun w => { w with isCompleted := true }) := by
    show d'.pool.setWorker k ((d'.pool.ioWorkers k).setWork curr _) = _
    rw [hpool]
  have hthreads : Threads cfg (d'.markCompleted k curr).pool d'.cursor := by
    rw [hm, hcursor]
    exact ht.mark hcur hc (fun _ => rfl) fun _ => rfl
  refine ⟨hthreads, ?_, ?_⟩
  · have hnew := howed IoWork.owedItem
    have hdone : IoWork.owedItem { w with isCompleted := true } = none :=
      owes_owedItem.done _ rfl
    rw [hw, hdone, owe_none, add_zero] at hnew
    show (d'.history.posted : Multiset IoItem)
      + (d'.markCompleted k curr).pool.owed cfg IoWork.owedItem + lostItems
      = ((d'.history.dispatched.map Dispatch.item : List IoItem) : Multiset IoItem)
    rw [hdisp, ← hi, ← hnew, hposted, hm]
    abel
  · have hnew := howed IoWork.owedRelease
    have hdone : IoWork.owedRelease { w with isCompleted := true } = none :=
      owes_owedRelease.done _ rfl
    rw [hw, hdone, owe_none, add_zero] at hnew
    show (d'.history.released : Multiset Release)
      + (d'.markCompleted k curr).pool.owed cfg IoWork.owedRelease + lostReleases
      = (d'.history.scheduled : Multiset Release)
    rw [hsched, ← hr, ← hnew, hreleased, hm]
    abel

/-- The lookups of a visit that have no meaning: the queue of the entry does not exist. -/
def Missing (d : NvmevDev σ) (k curr : ℕ) : Prop := d.SqMissing k curr ∨ d.CqMissing k curr

@[simp] theorem entry_atClock (t : ℕ) :
    ((d.atClock k t).pool.ioWorkers k).workQueue curr
      = (d.pool.ioWorkers k).workQueue curr := by
  unfold NvmevDev.atClock
  rw [setWorker_self]

theorem Accounted.atClock (h : Accounted cfg lostItems lostReleases d)
    (hk : k < cfg.nrIoWorkers) (t : ℕ) : Accounted cfg lostItems lostReleases (d.atClock k t) := by
  obtain ⟨ht, hi, hr⟩ := h
  have howed : ∀ {β : Type} (sel : IoWork → Option β),
      (d.atClock k t).pool.owed cfg sel = d.pool.owed cfg sel := fun _ => owed_setLatest hk t
  refine ⟨ht.setLatest hk t, ?_, ?_⟩
  · rw [howed]
    exact hi
  · rw [howed]
    exact hr

/-- The thread goes on. -/
theorem Accounted.next (h : Accounted cfg lostItems lostReleases d)
    (hcur : d.cursor k = some curr) :
    Accounted cfg lostItems lostReleases
      { d with cursor := Function.update d.cursor k ((d.pool.ioWorkers k).nexts curr) } := by
  have hw := h.threads.worker k (h.threads.lt hcur)
  rw [hcur] at hw
  exact ⟨h.threads.move (h.threads.lt hcur) hw.next, h.items, h.releases⟩

/-- The copy of a visit keeps the account. -/
theorem Accounted.copyWork (h : Accounted cfg lostItems lostReleases d) (tgt : IoTarget σ)
    (hcur : d.cursor k = some curr) {w : IoWork}
    (hw : (d.pool.ioWorkers k).workQueue curr = w) (hc : w.isCompleted = false) :
    Ends (d.copyWork tgt k curr)
      (fun d' => Accounted cfg lostItems lostReleases d' ∧ d'.cursor = d.cursor ∧
        d'.cqes = d.cqes ∧ ∃ b, (d'.pool.ioWorkers k).workQueue curr = { w with isCopied := b })
      (fun e => tgt.Faults e ∨ e = .undefined ∧ d.SqMissing k curr) := by
  refine (copyWork_cases hw hc).mono ?_ fun _ he => he
  rintro d' (⟨-, rfl⟩ | ⟨-, -, rfl⟩ | ⟨-, -, sq, ns, -, -, rfl⟩)
  · exact ⟨h, rfl, rfl, w.isCopied, hw⟩
  · refine ⟨h.markCopied hcur (by rw [hw]; exact hc), rfl, rfl, true, ?_⟩
    unfold NvmevDev.markCopied
    rw [entry_setWork, hw]
  · have hns : Accounted cfg lostItems lostReleases ({ d with ns := ns } : NvmevDev σ) :=
      h.congr rfl rfl rfl rfl rfl rfl
    refine ⟨hns.markCopied hcur (by rw [← hw] at hc; exact hc), rfl, rfl, true, ?_⟩
    unfold NvmevDev.markCopied
    rw [entry_setWork]
    exact congrArg (fun w : IoWork => { w with isCopied := true }) hw

/-- The completion of a visit keeps the account. -/
theorem Accounted.completeWork (h : Accounted cfg lostItems lostReleases d)
    (hcur : d.cursor k = some curr) {w : IoWork}
    (hw : (d.pool.ioWorkers k).workQueue curr = w) (hc : w.isCompleted = false) :
    Ends (d.completeWork tgt k curr)
      (fun d' => Accounted cfg lostItems lostReleases d' ∧ d'.cursor = d.cursor)
      (fun e => e = .undefined ∧ d.CqMissing k curr) := by
  refine (completeWork_cases hw hc).mono ?_ fun _ he => he
  rintro d' (⟨hi, rfl⟩ | ⟨hi, cq, -, rfl⟩)
  · have howed : w.owedItem = none := if_pos (.inr hi)
    have hrel : w.owedRelease = some w.release := if_neg (by simp [hc, hi])
    refine ⟨h.markCompleted hw hcur hc rfl rfl ?_ ?_ rfl rfl, rfl⟩
    · rw [howed, owe_none, add_zero]
    · rw [hrel]
      rfl
  · have howed : w.owedItem = some w.item := if_neg (by simp [hc, hi])
    have hrel : w.owedRelease = none := if_pos (.inr (by simp [hi]))
    refine ⟨h.markCompleted hw hcur hc rfl rfl ?_ ?_ rfl rfl, rfl⟩
    · rw [howed]
      rfl
    · rw [hrel, owe_none, add_zero]

/-- **A visit of a worker thread** keeps the account. -/
theorem Accounted.visitWork (h : Accounted cfg lostItems lostReleases d)
    (hcur : d.cursor k = some curr) (currNsecs : ℕ) :
    Ends (d.visitWork tgt k curr currNsecs) (Accounted cfg lostItems lostReleases)
      (fun e => tgt.Faults e ∨ e = .undefined ∧ d.Missing k curr) := by
  have hk := h.threads.lt hcur
  have h₁ := h.atClock hk currNsecs
  set w := (d.pool.ioWorkers k).workQueue curr with hw
  have hw₁ : ((d.atClock k currNsecs).pool.ioWorkers k).workQueue curr = w := entry_atClock _
  have hmiss : (d.atClock k currNsecs).SqMissing k curr → d.SqMissing k curr := by
    unfold SqMissing
    rw [hw₁]
    exact id
  have hcq : ∀ d₂ : NvmevDev σ, d₂.cqes = d.cqes → ∀ b,
      (d₂.pool.ioWorkers k).workQueue curr = { w with isCopied := b } →
      d₂.CqMissing k curr → d.CqMissing k curr := by
    intro d₂ hq b hb
    unfold CqMissing
    rw [hb, hq, ← hw]
    exact id
  have hserve : Ends ((d.atClock k currNsecs).serveWork tgt k curr currNsecs)
      (fun d' => Accounted cfg lostItems lostReleases d' ∧ d'.cursor = d.cursor)
      (fun e => tgt.Faults e ∨ e = .undefined ∧ d.Missing k curr) := by
    unfold NvmevDev.serveWork
    rw [hw₁]
    dsimp only
    cases hc : w.isCompleted with
    | true => exact ⟨h₁, rfl⟩
    | false =>
      refine ((h₁.copyWork tgt hcur hw₁ hc).mono (fun _ hd => hd)
        fun e he => he.imp_right fun he => ⟨he.1, .inl (hmiss he.2)⟩).bind ?_
      rintro d₂ ⟨h₂, hcur₂, hq, b, hb⟩
      have hcur₂' : d₂.cursor k = some curr := by
        rw [hcur₂]
        exact hcur
      split_ifs with hdue
      · refine (h₂.completeWork hcur₂' hb hc).mono (fun d₃ hd => ⟨hd.1, hd.2.trans hcur₂⟩)
          fun e he => .inr ⟨he.1, .inr (hcq d₂ hq b hb he.2)⟩
      · exact ⟨h₂, hcur₂⟩
  refine hserve.bind fun d₃ hd => ?_
  exact hd.1.next (by rw [hd.2]; exact hcur)

/-! ### All steps -/

/-- **The workers have room for the step:** every entry it allocates comes from a worker with two
free entries at least. -/
def Roomy (cfg : IoConfig) (tgt : IoTarget σ) (d : NvmevDev σ) : IoOp → Prop
  | .dispatch nsecsStart => ∀ c sq out, d.call = some c → c.reclaiming = false →
      d.sqes c.sqid = some sq → c.seq < c.numProc →
      tgt.procIoCmd d.ns (request c sq nsecsStart) = .ok out →
      RoomForAll cfg c.sqid out.ops (d.afterFtl c out) ∧
        (out.ret.isSome →
          HasRoom cfg ((d.afterFtl c out).scheduleAll cfg c.sqid out.ops).pool c.sqid)
  | _ => True

instance (cfg : IoConfig) (tgt : IoTarget σ) (d : NvmevDev σ) :
    ∀ op, Decidable (Roomy cfg tgt d op)
  | .dispatch nsecsStart =>
    decidable_of_iff (∀ c ∈ d.call, c.reclaiming = false → ∀ sq ∈ d.sqes c.sqid,
      c.seq < c.numProc → ∀ out, tgt.procIoCmd d.ns (request c sq nsecsStart) = .ok out →
        RoomForAll cfg c.sqid out.ops (d.afterFtl c out) ∧
          (out.ret.isSome →
            HasRoom cfg ((d.afterFtl c out).scheduleAll cfg c.sqid out.ops).pool c.sqid))
      ⟨fun h c sq out hc hr hsq hseq ho => h c hc hr sq hsq hseq out ho,
        fun h c hc hr sq hsq hseq out ho => h c sq out hc hr hsq hseq ho⟩
  | .submit .. | .ring .. | .poll _ | .reclaim | .enter _ | .visit .. => .isTrue trivial

/-- The step looks up a queue that does not exist. -/
def Stuck (d : NvmevDev σ) : IoOp → Prop
  | .dispatch _ => ∃ c, d.call = some c ∧ d.sqes c.sqid = none
  | .reclaim => ∃ c, d.call = some c ∧ d.sqes c.sqid = none
  | .visit k _ => ∃ curr, d.cursor k = some curr ∧ d.Missing k curr
  | _ => False

/-- The queues are no part of the account. -/
theorem Accounted.writeSq (h : Accounted cfg lostItems lostReleases d) (sqid slot : ℕ)
    (cmd : NvmeRwCommand) : Accounted cfg lostItems lostReleases (d.writeSq sqid slot cmd) := by
  unfold NvmevDev.writeSq
  split
  · exact h
  · exact h.congr rfl rfl rfl rfl rfl rfl

theorem Accounted.pollSq (h : Accounted cfg lostItems lostReleases d) (sqid : ℕ) :
    Accounted cfg lostItems lostReleases (d.pollSq sqid) := by
  unfold NvmevDev.pollSq
  split
  · dsimp only
    by_cases hsame : sqid = 0 ∨ d.dbs sqid = d.oldDbs sqid
    · rw [if_pos hsame]
      exact h
    · rw [if_neg hsame]
      exact h.congr rfl rfl rfl rfl rfl rfl
  · exact h

theorem Accounted.returnDb (h : Accounted cfg lostItems lostReleases d) (c : ProcIoSq)
    (sq : SubmissionQueue) (r : Option ℕ) :
    Accounted cfg lostItems lostReleases (d.returnDb c sq r) :=
  h.congr rfl rfl rfl rfl rfl rfl

/-- The rest of a round keeps the account. -/
theorem Accounted.finishIo (h : Accounted cfg lostItems lostReleases d) (c : ProcIoSq)
    (sq : SubmissionQueue) (out : IoOutcome σ) :
    KeepsAccount cfg lostItems lostReleases (RoomForAll cfg c.sqid out.ops (d.afterFtl c out) ∧
      (out.ret.isSome →
        HasRoom cfg ((d.afterFtl c out).scheduleAll cfg c.sqid out.ops).pool c.sqid))
      (d.finishIo cfg c sq out) := by
  have hns : Accounted cfg lostItems lostReleases ({ d with ns := out.ns } : NvmevDev σ) :=
    h.congr rfl rfl rfl rfl rfl rfl
  have hftl : Accounted cfg lostItems lostReleases (d.afterFtl c out) := hns.writeSq _ _ _
  unfold NvmevDev.finishIo
  refine (hftl.scheduleAll c.sqid out.ops).trans fun l r h₁ => ?_
  cases out.ret with
  | none => exact ⟨l, r, h₁.returnDb c sq _, fun _ => ⟨rfl, rfl⟩⟩
  | some ret =>
    obtain ⟨l', r', h₂, hroom⟩ := h₁.enqueueIoReq c.sqid sq.cqid c.sqEntry out.cmd ret
    exact ⟨l', r', h₂.congr rfl rfl rfl rfl rfl rfl, fun hr => hroom (hr rfl)⟩

/-- **A round of the dispatcher** keeps the account. -/
theorem Accounted.dispatch (h : Accounted cfg lostItems lostReleases d) (nsecsStart : ℕ) :
    Ends (d.dispatch cfg tgt nsecsStart)
      (KeepsAccount cfg lostItems lostReleases (Roomy cfg tgt d (.dispatch nsecsStart)))
      (fun e => tgt.Faults e ∨ e = .undefined ∧ d.Stuck (.dispatch nsecsStart)) := by
  have hkeep : ∀ {d' : NvmevDev σ} {room : Prop}, Accounted cfg lostItems lostReleases d' →
      KeepsAccount cfg lostItems lostReleases room d' := fun h' => ⟨_, _, h', fun _ => ⟨rfl, rfl⟩⟩
  unfold NvmevDev.dispatch
  cases hcall : d.call with
  | none => exact hkeep h
  | some c =>
    dsimp only
    cases hrec : c.reclaiming with
    | true => exact hkeep h
    | false =>
      cases hsq : d.sqes c.sqid with
      | none => exact .inr ⟨rfl, c, hcall, hsq⟩
      | some sq =>
        dsimp only
        by_cases hseq : c.seq < c.numProc
        · rw [if_neg (by decide), if_pos hseq]
          unfold NvmevDev.procIo
          cases hout : tgt.procIoCmd d.ns (request c sq nsecsStart) with
          | error e => exact .inl (.inl ⟨_, _, hout⟩)
          | ok out =>
            obtain ⟨l, r, h', hroom⟩ := h.finishIo c sq out
            exact ⟨l, r, h', fun hr => hroom (hr c sq out hcall hrec hsq hseq hout)⟩
        · rw [if_neg (by decide), if_neg hseq]
          exact hkeep (h.returnDb c sq none)

/-- The end of a round keeps the account. -/
theorem Accounted.finishRound (h : Accounted cfg lostItems lostReleases d) :
    Ends (d.finishRound cfg) (Accounted cfg lostItems lostReleases)
      (fun e => e = .undefined ∧ d.Stuck .reclaim) := by
  unfold NvmevDev.finishRound
  cases hcall : d.call with
  | none => exact h
  | some c =>
    dsimp only
    by_cases hrec : c.reclaiming = true
    · rw [if_neg (not_not.2 hrec)]
      cases hsq : d.sqes c.sqid with
      | none => exact ⟨rfl, c, hcall, hsq⟩
      | some sq =>
        obtain ⟨ht, hi, hr⟩ := h
        refine ⟨ht.reclaim, ?_, ?_⟩
        · dsimp only
          rw [ht.owed_reclaim owes_owedItem]
          exact hi
        · dsimp only
          rw [ht.owed_reclaim owes_owedRelease]
          exact hr
    · rw [if_pos hrec]
      exact h

/-- A worker begins a pass. -/
theorem Accounted.enter (h : Accounted cfg lostItems lostReleases d) (hk : k < cfg.nrIoWorkers)
    (hcur : d.cursor k = none) :
    Accounted cfg lostItems lostReleases
      { d with cursor := Function.update d.cursor k (d.pool.ioWorkers k).ioSeq } := by
  have hw := h.threads.worker k hk
  rw [hcur] at hw
  exact ⟨h.threads.move hk hw.enter, h.items, h.releases⟩

/-- **Every step keeps the account,** and nothing is lost where the workers have room. -/
theorem Accounted.exec (h : Accounted cfg lostItems lostReleases d) (tgt : IoTarget σ)
    (op : IoOp) :
    Ends (d.exec cfg tgt op) (KeepsAccount cfg lostItems lostReleases (Roomy cfg tgt d op))
      (fun e => tgt.Faults e ∨ e = .undefined ∧ d.Stuck op) := by
  have hkeep : ∀ {d' : NvmevDev σ}, Accounted cfg lostItems lostReleases d' →
      KeepsAccount cfg lostItems lostReleases (Roomy cfg tgt d op) d' :=
    fun h' => ⟨_, _, h', fun _ => ⟨rfl, rfl⟩⟩
  cases op with
  | submit sqid slot cmd => exact hkeep (h.writeSq sqid slot cmd)
  | ring sqid newDb => exact hkeep (h.congr rfl rfl rfl rfl rfl rfl)
  | poll sqid => exact hkeep (h.pollSq sqid)
  | dispatch nsecsStart => exact h.dispatch nsecsStart
  | reclaim => exact h.finishRound.mono (fun _ h' => hkeep h') fun _ he => .inr he
  | enter k =>
    refine hkeep ?_
    split_ifs with hk
    · exact h.enter hk.2 hk.1
    · exact h
  | visit k currNsecs =>
    unfold NvmevDev.exec
    dsimp only
    cases hcur : d.cursor k with
    | none => exact hkeep h
    | some curr =>
      exact (h.visitWork hcur currNsecs).mono (fun _ h' => hkeep h') fun e he =>
        he.imp_right fun he => ⟨he.1, curr, hcur, he.2⟩

/-- **Every run keeps the account.** -/
theorem Accounted.run (h : Accounted cfg lostItems lostReleases d) (tgt : IoTarget σ)
    (ops : List IoOp) :
    Ends (runList (NvmevDev.exec cfg tgt) d ops) (fun d' => ∃ l r, Accounted cfg l r d')
      fun _ => True := by
  refine Ends.runList (fun op _ d hd => ?_) ⟨_, _, h⟩
  obtain ⟨l, r, h⟩ := hd
  refine (h.exec tgt op).mono ?_ fun _ _ => trivial
  rintro d' ⟨l', r', h', -⟩
  exact ⟨l', r', h'⟩

/-- **A fresh device** owes nothing. -/
theorem start_accounted (hnr : 0 < cfg.nrIoWorkers) (sqes : ℕ → Option SubmissionQueue)
    (cqes : ℕ → Option CompletionQueue) (ns : σ) :
    Accounted cfg 0 0 (NvmevDev.start sqes cqes ns) := by
  have howed : ∀ {β : Type} (sel : IoWork → Option β),
      (NvmevDev.start sqes cqes ns).pool.owed cfg sel = 0 := fun sel =>
    Finset.sum_eq_zero fun _ _ => initWorker_owed
  refine ⟨⟨hnr, fun _ _ => initWorker_inv, fun _ _ => rfl⟩, ?_, ?_⟩
  · rw [howed]
    rfl
  · rw [howed]
    rfl

end NvmevDev

end NvmeVirt
