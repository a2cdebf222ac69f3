/-
# Every admin command is answered, but for an abort

`nvmev_proc_admin_sq` of `admin.c` takes the entries between two doorbell values
one after the other.  Each handler posts one completion with the number of its
command, except that an abort has no handler.
-/

import NvmeVirt.Admin.Commands

namespace NvmeVirt

open Outcome

theorem ends_adminDefined {p : Prop} [Decidable p] :
    Ends (adminDefined p) (fun _ => p) fun _ => ¬ p := by
  unfold adminDefined
  split_ifs with h
  · exact h
  · exact h

theorem adminDefined_bind {α : Type} {p : Prop} [Decidable p] (h : p)
    (k : Unit → Except AdminStop α) : (adminDefined p >>= k) = k () := by
  unfold adminDefined
  rw [if_pos h]
  rfl

/-- The slots from the one doorbell value up to the other. -/
def doorbellSlots (depth oldDb newDb : ℕ) : List ℕ :=
  (List.range (Ring.dist depth oldDb newDb)).map fun i => (oldDb + i) % depth

namespace AdminDev

variable {d d' : AdminDev} {q : AdminQueue} {sq cq : QueuePages} {s n : ℕ}

/-- The rings of the admin queue have been looked up, and the next completion has its place. -/
structure Mapped (d : AdminDev) (q : AdminQueue) (sq cq : QueuePages) : Prop where
  queue : d.adminQ = some q
  sqPages : q.nvmeSq = some sq
  cqPages : q.nvmeCq = some cq
  room : q.cqHead < nrCqePerPage * cq.numPages

/-- The admin queue is set up: both rings are in the pages looked up. -/
structure Ready (d : AdminDev) (q : AdminQueue) (sq cq : QueuePages) : Prop where
  queue : d.adminQ = some q
  sqPages : q.nvmeSq = some sq
  cqPages : q.nvmeCq = some cq
  sqRoom : q.sqDepth ≤ nrSqePerPage * sq.numPages
  cqRoom : q.cqDepth ≤ nrCqePerPage * cq.numPages
  head : q.cqHead < q.cqDepth

/-- The command in a slot. -/
def commandAt (d : AdminDev) (sq : QueuePages) (s : ℕ) : NvmeAdminCommand :=
  d.sqPages (sq.firstPage + s / nrSqePerPage) (s % nrSqePerPage)

/-- What the handler of a command asks of it: the number of a queue is in the table, a namespace is
there and zoned where it has to be, and no more of a log is read than there is. -/
def Served (ns : List AdminNs) (cmd : NvmeAdminCommand) : Prop :=
  match cmd.opcode with
  | .deleteSq => cmd.qid ≤ nrMaxIoQueue
  | .createSq => cmd.qid ≤ nrMaxIoQueue
  | .deleteCq => cmd.qid ≤ nrMaxIoQueue
  | .createCq => cmd.qid ≤ nrMaxIoQueue
  | .getLogPage =>
    (cmd.lid = nvmeLogSmart → cmd.logLen ≤ 512) ∧
      (cmd.lid = nvmeLogCmdEffects → cmd.logLen ≤ 4096)
  | .identify =>
    (cmd.cns = 0 ∨ cmd.cns = 3 → ∃ i x, cmd.nsid = i + 1 ∧ ns[i]? = some x) ∧
      (cmd.cns = 5 → ∃ i x zp, cmd.nsid = i + 1 ∧ ns[i]? = some x ∧ x.csi = .zns zp)
  | _ => True

/-- The completion answers the command in the slot. -/
def Answer (d : AdminDev) (sq : QueuePages) (s : ℕ) (c : NvmeCompletion) : Prop :=
  c.sqHead = s % 2 ^ 16 ∧ c.commandId = (d.commandAt sq s).commandId

/-- **The entries are taken once each, in order, and each is answered once.** -/
structure AnsweredInOrder (d : AdminDev) (sq : QueuePages) (slots : List ℕ) (d' : AdminDev) :
    Prop where
  taken : d'.history.taken = d.history.taken ++ slots
  posted : ∃ cs, d'.history.posted = d.history.posted ++ cs ∧
    List.Forall₂ (d.Answer sq) slots cs

/-! ### A completion -/

/-- What the handlers leave alone. -/
structure SameQueue (d d' : AdminDev) : Prop where
  adminQ : d'.adminQ = d.adminQ
  sqPages : d'.sqPages = d.sqPages
  ns : d'.ns = d.ns
  history : d'.history = d.history

/-- One completion has been posted, for the command in the slot: it stands where the head was, with
the phase of the queue. -/
structure Answered (d : AdminDev) (q : AdminQueue) (sq cq : QueuePages) (s : ℕ) (d' : AdminDev) :
    Prop where
  adminQ : d'.adminQ = some q.advance
  sqPages : d'.sqPages = d.sqPages
  ns : d'.ns = d.ns
  taken : d'.history.taken = d.history.taken
  posted : ∃ c, d'.history.posted = d.history.posted ++ [c] ∧ d.Answer sq s c ∧
    c.status.testBit 0 = q.phase ∧
    d'.cqPages (cq.firstPage + q.cqHead / nrCqePerPage) (q.cqHead % nrCqePerPage) = c

theorem pages_at {pages : Option QueuePages} {r : QueuePages} {per e : ℕ} (hr : pages = some r)
    (he : e < per * r.numPages) :
    QueuePages.at pages per e = .ok (r.firstPage + e / per, e % per) := by
  subst hr
  exact adminDefined_bind (Nat.div_lt_of_lt_mul he) _

theorem Ready.mapped (h : d.Ready q sq cq) : d.Mapped q sq cq :=
  ⟨h.queue, h.sqPages, h.cqPages, h.head.trans_le h.cqRoom⟩

/-- Every slot can be read. -/
theorem Mapped.sqEntry (h : d.Mapped q sq cq) (hs : s < nrSqePerPage * sq.numPages) :
    d.sqEntry s = .ok (d.commandAt sq s) := by
  unfold AdminDev.sqEntry AdminDev.queue
  rw [h.queue]
  dsimp only
  rw [ok_bind, pages_at h.sqPages hs]
  rfl

/-- The queue behind a completion is set up as well. -/
theorem Ready.advance (h : d.Ready q sq cq) (hq : d'.adminQ = some q.advance) :
    d'.Ready q.advance sq cq := by
  refine ⟨hq, h.sqPages, h.cqPages, h.sqRoom, h.cqRoom, ?_⟩
  have := h.head
  show (if q.cqHead + 1 = q.cqDepth then 0 else q.cqHead + 1) < q.cqDepth
  split_ifs <;> omega

/-- The phase tag is the phase of the round. -/
theorem testBit_phase (b : Bool) (status : ℕ) : (b.toNat ||| (status <<< 1)).testBit 0 = b := by
  rw [Nat.testBit_or, Nat.testBit_shiftLeft]
  cases b <;> rfl

/-- The phase tag of a completion entry. -/
theorem cqe_phase (q : AdminQueue) (cmd : NvmeAdminCommand) (eid ret r0 r1 : ℕ) :
    (cqe q cmd eid ret r0 r1).status.testBit 0 = q.phase := by
  show ((q.phase.toNat ||| (ret <<< 1)) % 2 ^ 16).testBit 0 = q.phase
  rw [Nat.testBit_mod_two_pow, testBit_phase]
  simp

/-- **`__make_cq_entry_results`** answers the command of its entry. -/
theorem Mapped.makeCqEntryResults (h : d.Mapped q sq cq) (hs : s < nrSqePerPage * sq.numPages)
    {d₁ : AdminDev} (hsame : SameQueue d d₁) (ret r0 r1 : ℕ) :
    ∃ d', d₁.makeCqEntryResults s ret r0 r1 = .ok d' ∧ d.Answered q sq cq s d' := by
  have h₁ : d₁.Mapped q sq cq := ⟨hsame.adminQ.trans h.queue, h.sqPages, h.cqPages, h.room⟩
  have hqueue : d₁.queue = .ok q := by
    unfold AdminDev.queue
    rw [h₁.queue]
  unfold AdminDev.makeCqEntryResults
  rw [hqueue, ok_bind, h₁.sqEntry hs, ok_bind, pages_at h.cqPages h.room]
  have hcmd : d₁.commandAt sq s = d.commandAt sq s := by
    unfold commandAt
    rw [hsame.sqPages]
  rw [hcmd]
  refine ⟨_, rfl, rfl, hsame.sqPages, hsame.ns, ?_, cqe q (d.commandAt sq s) s ret r0 r1, ?_,
    ⟨rfl, rfl⟩, cqe_phase _ _ _ _ _ _, ?_⟩
  · show d₁.history.taken = _
    rw [hsame.history]
  · show d₁.history.posted ++ _ = _
    rw [hsame.history]
  · show Function.update d₁.cqPages _ (Function.update _ _ _) _ _ = _
    rw [Function.update_self, Function.update_self]

/-- A handler that posts its completion where it is defined. -/
theorem Mapped.ends_makeCq (h : d.Mapped q sq cq) (hs : s < nrSqePerPage * sq.numPages)
    {d₁ : AdminDev} (hsame : SameQueue d d₁) {S : Prop} (hS : S) (ret r0 r1 : ℕ) :
    Ends (d₁.makeCqEntryResults s ret r0 r1) (fun d' => S ∧ d.Answered q sq cq s d')
      fun _ => ¬ S := by
  obtain ⟨d', hd', hans⟩ := h.makeCqEntryResults hs hsame ret r0 r1
  rw [hd']
  exact ⟨hS, hans⟩

theorem SameQueue.refl (d : AdminDev) : SameQueue d d := ⟨rfl, rfl, rfl, rfl⟩

theorem SameQueue.putData (d : AdminDev) (addr : ℕ) (data : AdminData) :
    SameQueue d (d.putData addr data) := ⟨rfl, rfl, rfl, rfl⟩

/-! ### The handlers -/

/-- A namespace that is looked up. -/
theorem ends_namespaceAt (d : AdminDev) (nsid : ℕ) :
    Ends (d.namespaceAt nsid) (fun x => ∃ i, nsid = i + 1 ∧ d.ns[i]? = some x)
      fun _ => ¬ ∃ i x, nsid = i + 1 ∧ d.ns[i]? = some x := by
  unfold namespaceAt
  cases nsid with
  | zero =>
    rintro ⟨i, x, hi, -⟩
    omega
  | succ i =>
    dsimp only
    cases hx : d.ns[i]? with
    | none =>
      rintro ⟨j, x, hj, hx'⟩
      obtain rfl : j = i := by omega
      rw [hx] at hx'
      cases hx'
    | some x => exact ⟨i, rfl, hx⟩

/-- The handlers that change an entry of a table. -/
theorem Mapped.ends_table (h : d.Mapped q sq cq) (hs : s < nrSqePerPage * sq.numPages) {n : ℕ}
    {f : NvmeAdminCommand → AdminDev} (hf : ∀ cmd, SameQueue d (f cmd)) :
    Ends (do
        let cmd ← d.sqEntry s
        adminDefined (cmd.qid ≤ n)
        (f cmd).makeCqEntry s 0)
      (fun d' => (d.commandAt sq s).qid ≤ n ∧ d.Answered q sq cq s d')
      fun _ => ¬ (d.commandAt sq s).qid ≤ n := by
  rw [h.sqEntry hs]
  exact ends_adminDefined.bind fun _ hq => h.ends_makeCq hs (hf _) hq _ _ _

/-- `__nvmev_admin_get_log_page` copies a log as far as it goes. -/
theorem Mapped.ends_getLogPage (h : d.Mapped q sq cq) (hs : s < nrSqePerPage * sq.numPages) {S : Prop}
    (hS : S ↔ ((d.commandAt sq s).lid = nvmeLogSmart → (d.commandAt sq s).logLen ≤ 512) ∧
      ((d.commandAt sq s).lid = nvmeLogCmdEffects → (d.commandAt sq s).logLen ≤ 4096)) :
    Ends (d.getLogPage s) (fun d' => S ∧ d.Answered q sq cq s d') fun _ => ¬ S := by
  unfold getLogPage
  rw [h.sqEntry hs, ok_bind]
  generalize d.commandAt sq s = cmd at hS
  by_cases hsmart : cmd.lid = nvmeLogSmart
  · rw [if_pos hsmart]
    have hne : cmd.lid ≠ nvmeLogCmdEffects := by rw [hsmart]; decide
    refine (ends_adminDefined.mono (fun _ hl => hl) fun _ hl hS' => hl ((hS.1 hS').1 hsmart)).bind
      fun _ hl => h.ends_makeCq hs (.putData _ _ _)
        (hS.2 ⟨fun _ => hl, fun he => absurd he hne⟩) _ _ _
  · rw [if_neg hsmart]
    by_cases heff : cmd.lid = nvmeLogCmdEffects
    · rw [if_pos heff]
      refine (ends_adminDefined.mono (fun _ hl => hl) fun _ hl hS' => hl ((hS.1 hS').2 heff)).bind
        fun _ hl => h.ends_makeCq hs (.putData _ _ _)
          (hS.2 ⟨fun he => absurd he hsmart, fun _ => hl⟩) _ _ _
    · rw [if_neg heff]
      exact h.ends_makeCq hs (.putData _ _ _)
        (hS.2 ⟨fun he => absurd he hsmart, fun he => absurd he heff⟩) _ _ _

/-- The identify handlers that look up a namespace. -/
theorem Mapped.ends_identifyNs (h : d.Mapped q sq cq) (hs : s < nrSqePerPage * sq.numPages)
    {f : NvmeAdminCommand → AdminNs → AdminDev} (hf : ∀ cmd ns, SameQueue d (f cmd ns)) {S : Prop}
    (hS : S ↔ ∃ i x, (d.commandAt sq s).nsid = i + 1 ∧ d.ns[i]? = some x) :
    Ends (do
        let cmd ← d.sqEntry s
        let ns ← d.namespaceAt cmd.nsid
        (f cmd ns).makeCqEntry s 0)
      (fun d' => S ∧ d.Answered q sq cq s d') fun _ => ¬ S := by
  rw [h.sqEntry hs, ok_bind]
  refine ((ends_namespaceAt d _).mono (fun _ hx => hx) fun _ hx hS' => hx (hS.1 hS')).bind ?_
  rintro x ⟨i, hi, hx⟩
  exact h.ends_makeCq hs (hf _ _) (hS.2 ⟨i, x, hi, hx⟩) _ _ _

/-- `__nvmev_admin_identify_zns_namespace` looks up a namespace that is zoned. -/
theorem Mapped.ends_identifyZns (h : d.Mapped q sq cq) (hs : s < nrSqePerPage * sq.numPages) {S : Prop}
    (hS : S ↔ ∃ i x zp, (d.commandAt sq s).nsid = i + 1 ∧ d.ns[i]? = some x ∧ x.csi = .zns zp) :
    Ends (d.identifyZnsNamespace s) (fun d' => S ∧ d.Answered q sq cq s d') fun _ => ¬ S := by
  unfold identifyZnsNamespace
  rw [h.sqEntry hs, ok_bind]
  refine ((ends_namespaceAt d _).mono (fun _ hx => hx) fun _ hx hS' => hx ?_).bind ?_
  · obtain ⟨i, x, zp, hi, hx', -⟩ := hS.1 hS'
    exact ⟨i, x, hi, hx'⟩
  · rintro x ⟨i, hi, hx⟩
    have hnot : ∀ csi, x.csi = csi → (∀ zp, csi ≠ .zns zp) → ¬ S := by
      intro csi hcsi hne hS'
      obtain ⟨j, y, zp, hj, hy, hzp⟩ := hS.1 hS'
      obtain rfl : j = i := by omega
      rw [hx] at hy
      cases hy
      exact hne zp (hcsi.symm.trans hzp)
    cases hcsi : x.csi with
    | nvm => exact hnot _ hcsi (by simp)
    | kv => exact hnot _ hcsi (by simp)
    | zns zp => exact h.ends_makeCq hs (.putData _ _ _) (hS.2 ⟨i, x, zp, hi, hx, hcsi⟩) 0 0 0

/-- `__nvmev_admin_identify` dispatches once more. -/
theorem Mapped.ends_identify (h : d.Mapped q sq cq) (hs : s < nrSqePerPage * sq.numPages) {S : Prop}
    (hS : S ↔ ((d.commandAt sq s).cns = 0 ∨ (d.commandAt sq s).cns = 3 →
        ∃ i x, (d.commandAt sq s).nsid = i + 1 ∧ d.ns[i]? = some x) ∧
      ((d.commandAt sq s).cns = 5 → ∃ i x zp, (d.commandAt sq s).nsid = i + 1 ∧
        d.ns[i]? = some x ∧ x.csi = .zns zp)) :
    Ends (d.identify s) (fun d' => S ∧ d.Answered q sq cq s d') fun _ => ¬ S := by
  unfold AdminDev.identify
  rw [h.sqEntry hs, ok_bind]
  generalize hc : (d.commandAt sq s).cns = cns at hS
  have htriv : cns ≠ 0 → cns ≠ 3 → cns ≠ 5 → S := fun h0 h3 h5 =>
    hS.2 ⟨fun hor => absurd hor (by simp [h0, h3]), fun he => absurd he h5⟩
  split
  · exact h.ends_identifyNs hs (fun _ _ => .putData _ _ _) (hS.trans (by simp))
  · unfold identifyCtrl
    rw [h.sqEntry hs, ok_bind]
    refine h.ends_makeCq hs ?_ (htriv (by simp) (by simp) (by simp)) 0 0 0
    exact ⟨rfl, rfl, rfl, rfl⟩
  · unfold identifyNamespaces
    rw [h.sqEntry hs, ok_bind]
    exact h.ends_makeCq hs (.putData _ _ _) (htriv (by simp) (by simp) (by simp)) 0 0 0
  · exact h.ends_identifyNs hs (fun _ _ => .putData _ _ _) (hS.trans (by simp))
  · exact h.ends_identifyZns hs (hS.trans (by simp))
  · unfold identifyZnsCtrl
    rw [h.sqEntry hs, ok_bind]
    exact h.ends_makeCq hs (.putData _ _ _) (htriv (by simp) (by simp) (by simp)) 0 0 0
  · rename_i h0 h1 h2 h3 h5 h6
    exact h.ends_makeCq hs (.refl d) (htriv h0 h3 h5) _ 0 0

/-- **Each handler** posts one completion, if the command asks for what is there. -/
theorem Mapped.dispatch (h : d.Mapped q sq cq) (hs : s < nrSqePerPage * sq.numPages)
    (hop : (d.commandAt sq s).opcode ≠ .abortCmd) :
    Ends (d.dispatch (d.commandAt sq s).opcode s)
      (fun d' => Served d.ns (d.commandAt sq s) ∧ d.Answered q sq cq s d')
      fun _ => ¬ Served d.ns (d.commandAt sq s) := by
  have hunfold : ∀ op, (d.commandAt sq s).opcode = op →
      (Served d.ns (d.commandAt sq s) ↔ Served d.ns { d.commandAt sq s with opcode := op }) := by
    rintro op rfl
    exact Iff.rfl
  cases hopcode : (d.commandAt sq s).opcode with
  | deleteSq =>
    rw [hunfold _ hopcode]
    exact h.ends_table hs fun _ => ⟨rfl, rfl, rfl, rfl⟩
  | createSq =>
    rw [hunfold _ hopcode]
    exact h.ends_table hs fun _ => ⟨rfl, rfl, rfl, rfl⟩
  | getLogPage => exact h.ends_getLogPage hs (hunfold _ hopcode)
  | deleteCq =>
    rw [hunfold _ hopcode]
    exact h.ends_table hs fun _ => ⟨rfl, rfl, rfl, rfl⟩
  | createCq =>
    rw [hunfold _ hopcode]
    exact h.ends_table hs fun _ => ⟨rfl, rfl, rfl, rfl⟩
  | identify => exact h.ends_identify hs (hunfold _ hopcode)
  | abortCmd => exact absurd hopcode hop
  | setFeatures =>
    have hS := (hunfold _ hopcode).2 trivial
    show Ends (d.setFeatures s) _ _
    unfold AdminDev.setFeatures
    rw [h.sqEntry hs, ok_bind]
    by_cases hfid : (d.commandAt sq s).fid = nvmeFeatNumQueues
    · rw [if_pos hfid]
      refine h.ends_makeCq hs ?_ hS _ _ _
      exact ⟨rfl, rfl, rfl, rfl⟩
    · rw [if_neg hfid]
      exact h.ends_makeCq hs (.refl d) hS 0 0 0
  | getFeatures =>
    have hS := (hunfold _ hopcode).2 trivial
    show Ends (d.getFeatures s) _ _
    unfold AdminDev.getFeatures
    rw [h.sqEntry hs, ok_bind]
    exact h.ends_makeCq hs (.refl d) hS 0 _ 0
  | _ => exact h.ends_makeCq hs (.refl d) ((hunfold _ hopcode).2 trivial) _ 0 0

/-! ### The loop -/

/-- The command in the slot is handled and answered. -/
def Answerable (ns : List AdminNs) (cmd : NvmeAdminCommand) : Prop :=
  cmd.opcode ≠ .abortCmd ∧ Served ns cmd

/-- Some entries have been taken; those that are no abort have been answered. -/
structure Taken (d : AdminDev) (q : AdminQueue) (sq cq : QueuePages) (slots : List ℕ)
    (d' : AdminDev) : Prop where
  ready : ∃ q', d'.Ready q' sq cq ∧ q'.sqDepth = q.sqDepth
  sqPages : d'.sqPages = d.sqPages
  ns : d'.ns = d.ns
  taken : d'.history.taken = d.history.taken ++ slots
  posted : ∃ cs, d'.history.posted = d.history.posted ++ cs ∧ List.Forall₂ (d.Answer sq)
    (slots.filter fun s => (d.commandAt sq s).opcode ≠ .abortCmd) cs

/-- **`__nvmev_proc_admin_req`** takes one entry; an abort changes nothing else, any other command
is answered. -/
theorem Mapped.procAdminReq (h : d.Mapped q sq cq) (hs : s < nrSqePerPage * sq.numPages) :
    Ends (d.procAdminReq s)
      (fun d' => if (d.commandAt sq s).opcode = .abortCmd then
          d' = { d with history.taken := d.history.taken ++ [s] }
        else Served d.ns (d.commandAt sq s) ∧
          AdminDev.Answered { d with history.taken := d.history.taken ++ [s] } q sq cq s d')
      fun _ => ¬ Answerable d.ns (d.commandAt sq s) := by
  have h₁ : Mapped { d with history.taken := d.history.taken ++ [s] } q sq cq :=
    ⟨h.queue, h.sqPages, h.cqPages, h.room⟩
  unfold AdminDev.procAdminReq
  rw [h.sqEntry hs, ok_bind]
  by_cases hop : (d.commandAt sq s).opcode = .abortCmd
  · simp only [if_pos hop]
    rw [hop]
    rfl
  · simp only [if_neg hop]
    exact (h₁.dispatch hs hop).mono (fun _ hd => hd) fun _ hnot hans => hnot hans.2

/-- One round of the loop. -/
theorem Ready.procAdminReq (h : d.Ready q sq cq) (hs : s < q.sqDepth) :
    Ends (d.procAdminReq s)
      (fun d' => ((d.commandAt sq s).opcode ≠ .abortCmd → Served d.ns (d.commandAt sq s)) ∧
        d.Taken q sq cq [s] d')
      fun _ => ¬ Answerable d.ns (d.commandAt sq s) := by
  refine (h.mapped.procAdminReq (hs.trans_le h.sqRoom)).mono (fun d' hd' => ?_) fun _ he => he
  by_cases hop : (d.commandAt sq s).opcode = .abortCmd
  · rw [if_pos hop] at hd'
    subst hd'
    refine ⟨fun hne => absurd hop hne,
      ⟨q, ⟨h.queue, h.sqPages, h.cqPages, h.sqRoom, h.cqRoom, h.head⟩, rfl⟩, rfl, rfl, rfl, [],
      (List.append_nil _).symm, ?_⟩
    rw [List.filter_cons_of_neg (by simp [hop])]
    exact .nil
  · rw [if_neg hop] at hd'
    obtain ⟨hserved, hq, hsq, hns, htaken, c, hc, hans, -⟩ := hd'
    refine ⟨fun _ => hserved, ⟨q.advance, h.advance hq, rfl⟩, hsq, hns, htaken, [c], hc, ?_⟩
    rw [List.filter_cons_of_pos (by simp [hop])]
    exact .cons hans .nil

/-- Entries taken after others. -/
theorem Taken.trans {d'' : AdminDev} {q' : AdminQueue} {xs ys : List ℕ}
    (h : d.Taken q sq cq xs d') (h' : d'.Taken q' sq cq ys d'') (hq : q'.sqDepth = q.sqDepth) :
    d.Taken q sq cq (xs ++ ys) d'' := by
  obtain ⟨q₂, hready, hdepth⟩ := h'.ready
  obtain ⟨cs, hcs, hans⟩ := h.posted
  obtain ⟨cs', hcs', hans'⟩ := h'.posted
  have hcmd : ∀ s, d'.commandAt sq s = d.commandAt sq s := fun s => by
    unfold commandAt
    rw [h.sqPages]
  refine ⟨⟨q₂, hready, hdepth.trans hq⟩, h'.sqPages.trans h.sqPages, h'.ns.trans h.ns, ?_,
    cs ++ cs', ?_, ?_⟩
  · rw [h'.taken, h.taken, List.append_assoc]
  · rw [hcs', hcs, List.append_assoc]
  · unfold Answer at hans' ⊢
    simp only [hcmd] at hans'
    rw [List.filter_append]
    exact List.rel_append hans hans'

/-- **The loop of `nvmev_proc_admin_sq`.** -/
theorem Ready.procEntries (h : d.Ready q sq cq) {a : ℕ} (n : ℕ) (hpos : 0 < q.sqDepth) :
    let slots := (List.range n).map fun i => (a + i) % q.sqDepth
    Ends (procEntries n (a % q.sqDepth) d)
      (fun d' => (∀ s ∈ slots, (d.commandAt sq s).opcode ≠ .abortCmd →
          Served d.ns (d.commandAt sq s)) ∧ d.Taken q sq cq slots d')
      fun _ => ∃ s ∈ slots, ¬ Answerable d.ns (d.commandAt sq s) := by
  induction n generalizing d q a with
  | zero =>
    exact ⟨by simp, ⟨q, h, rfl⟩, rfl, rfl, (List.append_nil _).symm, [],
      (List.append_nil _).symm, .nil⟩
  | succ n ih =>
    intro slots
    have hs : a % q.sqDepth < q.sqDepth := Nat.mod_lt _ hpos
    have hslots : slots = a % q.sqDepth ::
        (List.range n).map fun i => (a + 1 + i) % q.sqDepth := by
      show (List.range (n + 1)).map _ = _
      rw [List.range_succ_eq_map, List.map_cons, List.map_map, Nat.add_zero]
      simp [Function.comp_def, Nat.add_assoc, Nat.add_comm 1]
    have hreq := h.procAdminReq hs
    unfold AdminDev.procEntries
    refine (hreq.mono (fun _ hd => hd) fun _ he => ⟨_, by simp [hslots], he⟩).bind ?_
    rintro d₁ ⟨hserved, htaken⟩
    obtain ⟨q₁, h₁, hdepth⟩ := htaken.ready
    have hqueue : d₁.queue = .ok q₁ := by
      unfold AdminDev.queue
      rw [h₁.queue]
    have hcmd : ∀ s, d₁.commandAt sq s = d.commandAt sq s := fun s => by
      unfold commandAt
      rw [htaken.sqPages]
    rw [hqueue, ok_bind, hdepth, Ring.succ_mod hpos]
    have hloop := ih h₁ (a := a + 1) (hdepth ▸ hpos)
    simp only [hdepth, hcmd, htaken.ns] at hloop
    refine hloop.mono ?_ ?_
    · rintro d₂ ⟨hrest, htaken₂⟩
      rw [hslots]
      refine ⟨fun s hmem => ?_, htaken.trans htaken₂ hdepth⟩
      rcases List.mem_cons.1 hmem with rfl | hmem
      · exact hserved
      · exact hrest s hmem
    · rintro _ ⟨s, hmem, hnot⟩
      exact ⟨s, by rw [hslots]; exact List.mem_cons_of_mem _ hmem, hnot⟩

/-- A list that is matched whole by what answers a part of it is that part. -/
theorem filter_eq_of_forall₂ {α β : Type} {R R' : α → β → Prop} {p : α → Bool} {xs : List α}
    {ys : List β} (h : List.Forall₂ R xs ys) (h' : List.Forall₂ R' (xs.filter p) ys) :
    ∀ x ∈ xs, p x = true := by
  have hlen := h.length_eq.trans h'.length_eq.symm
  have hfilter := (List.filter_sublist (p := p) (l := xs)).eq_of_length hlen.symm
  exact List.filter_eq_self.1 hfilter

/-- A queue of two entries, both with the command. -/
def twoEntries (cmd : NvmeAdminCommand) : AdminDev where
  adminQ := some {
    phase := true, sqDepth := 2, cqDepth := 2, cqHead := 0, nvmeSq := some ⟨0, 1⟩
    nvmeCq := some ⟨1, 1⟩ }
  sqPages := fun _ _ => cmd
  cqPages := fun _ _ => ⟨0, 0, 0, 0, 0, 0⟩
  data := fun _ => none
  sqes := fun _ => none
  cqes := fun _ => none
  dbs := fun _ => 0
  oldDbs := fun _ => 0
  nrSq := 0
  nrCq := 0
  ns := []
  mdts := 0
  cntlid := 0
  supportsZns := false
  history := ⟨[], []⟩

theorem twoEntries_ready (cmd : NvmeAdminCommand) :
    (twoEntries cmd).Ready
      { phase := true, sqDepth := 2, cqDepth := 2, cqHead := 0, nvmeSq := some ⟨0, 1⟩
        nvmeCq := some ⟨1, 1⟩ } ⟨0, 1⟩ ⟨1, 1⟩ :=
  ⟨rfl, rfl, rfl, by decide, by decide, by decide⟩

/-- An abort. -/
def abortSeven : NvmeAdminCommand := ⟨.abortCmd, 7, 0, 0, 0, 0⟩

/-- A ring of four entries with an abort in slot 1, and a completion ring of two. -/
def fourEntries : AdminDev := { twoEntries abortSeven with
  adminQ := some {
    phase := true, sqDepth := 4, cqDepth := 2, cqHead := 1, nvmeSq := some ⟨0, 1⟩
    nvmeCq := some ⟨1, 1⟩ }
  sqPages := fun _ s =>
    if s = 2 then ⟨.identify, 8, 0, 0, 1, 0⟩
    else if s = 3 then ⟨.createCq, 9, 0, 0x3000, 0x70001, 1⟩
    else if s = 0 then ⟨.setFeatures, 10, 0, 0, 7, 0⟩
    else abortSeven }

end AdminDev

end NvmeVirt
