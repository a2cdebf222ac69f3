/-
# Submission queue slots and their reuse

The host fills a submission queue up to the head it knows of, and it knows of
the `sq_head` of the completions.  `__fill_cq_result` of `io.c` reports the slot
of the completed command there, and completions are posted in the order of their
target times, while `__do_perform_io` reads the slot of a command when it copies
the data.  So a completion may give back the slot of an older command whose data
is still to be copied.
-/

import NvmeVirt.Io.Steps

namespace NvmeVirt

open Outcome IoPool IoWorker NvmevDev

/-- The device and the host: `sqTail` and `sqHead` are the host's positions in its submission
queues, `taken` counts the completions it has taken from a completion queue. -/
structure HostDev (σ : Type) where
  dev : NvmevDev σ
  sqTail : ℕ → ℕ
  sqHead : ℕ → ℕ
  taken : ℕ → ℕ

/-- The steps of the host, the dispatcher and the workers. -/
inductive HostOp
  /-- The host writes a command into the next slot if the ring is not full. -/
  | submit (sqid : ℕ) (cmd : NvmeRwCommand)
  /-- The host writes its tail to the doorbell. -/
  | ring (sqid : ℕ)
  /-- The host takes the next completion of a queue. -/
  | take (cqid : ℕ)
  /-- A step of the dispatcher or a worker. -/
  | device (op : IoOp)

namespace HostDev

variable {σ : Type} (cfg : IoConfig) (tgt : IoTarget σ) (s : HostDev σ)

/-- The completion the host takes next from a queue; a queue delivers in the order of posting. -/
def nextCompletion (cqid : ℕ) : Option IoItem :=
  (s.dev.history.posted.filter fun i => i.cqid = cqid)[s.taken cqid]?

/-- One step; the host keeps one slot of a ring empty. -/
def exec : HostOp → Except Fault (HostDev σ)
  | .submit sqid cmd =>
    match s.dev.sqes sqid with
    | none => .ok s
    | some sq =>
      if Ring.succ sq.queueSize (s.sqTail sqid) = s.sqHead sqid then .ok s
      else .ok { s with
        dev := s.dev.writeSq sqid (s.sqTail sqid) cmd
        sqTail := Function.update s.sqTail sqid (Ring.succ sq.queueSize (s.sqTail sqid)) }
  | .ring sqid => do
    let dev ← s.dev.exec cfg tgt (.ring sqid (s.sqTail sqid))
    .ok { s with dev := dev }
  | .take cqid =>
    match s.nextCompletion cqid with
    | none => .ok s
    | some i => .ok { s with
        sqHead := Function.update s.sqHead i.sqid i.sqEntry
        taken := Function.update s.taken cqid (s.taken cqid + 1) }
  | .device op =>
    if op.OfDevice then do
      let dev ← s.dev.exec cfg tgt op
      .ok { s with dev := dev }
    else .ok s

/-- A fresh device and a host that has submitted nothing. -/
def start (sqes : ℕ → Option SubmissionQueue) (cqes : ℕ → Option CompletionQueue) (ns : σ) :
    HostDev σ where
  dev := NvmevDev.start sqes cqes ns
  sqTail := fun _ => 0
  sqHead := fun _ => 0
  taken := fun _ => 0

/-- **A worker that reads a submission queue finds the command that was dispatched:** an entry that
a thread stands at and that is to be copied has its command in its slot. -/
def ReadsOwn : Prop :=
  ∀ k curr sq, s.dev.cursor k = some curr →
    let w := (s.dev.pool.ioWorkers k).workQueue curr
    w.isCompleted = false → w.isCopied = false → w.isInternal = false →
    s.dev.sqes w.sqid = some sq →
    ∃ x, s.dev.history.dispatched[w.ticket]? = some x ∧ sq.sq w.sqEntry = x.cmd

/-- The slot of the next command the dispatcher takes from a queue of `n` entries. -/
def next (n q : ℕ) : ℕ := (s.dev.slotsOf q).length % n

/-- A command to be dispatched or copied is in the slot. -/
def Pending (n q x : ℕ) : Prop :=
  (∃ i ∈ s.dev.pool.owed cfg IoWork.uncopiedItem, i.sqid = q ∧ i.sqEntry = x) ∨
    Ring.Between n (s.next n q) x (s.sqTail q)

instance (n q x : ℕ) : Decidable (s.Pending cfg n q x) :=
  @instDecidableOr _ _ Multiset.decidableExistsMultiset (inferInstanceAs (Decidable (_ < _)))

/-- **A completion gives back free slots only:** each command in the slots from the host's tail up
to the one in `sq_head` has been dispatched and copied. -/
def GivesBackFree : HostOp → Prop
  | .take cqid => ∀ i sq, s.nextCompletion cqid = some i → s.dev.sqes i.sqid = some sq →
      ∀ x, x < sq.queueSize → s.Pending cfg sq.queueSize i.sqid x →
        Ring.Between sq.queueSize i.sqEntry x (s.sqTail i.sqid)
  | _ => True

instance : ∀ op, Decidable (s.GivesBackFree cfg op)
  | .take cqid =>
    decidable_of_iff (∀ i ∈ s.nextCompletion cqid, ∀ sq ∈ s.dev.sqes i.sqid, ∀ x, x < sq.queueSize →
        s.Pending cfg sq.queueSize i.sqid x →
          Ring.dist sq.queueSize i.sqEntry x < Ring.dist sq.queueSize i.sqEntry (s.sqTail i.sqid))
      ⟨fun h i sq hi hsq => h i hi sq hsq, fun h i hi sq hsq => h i sq hi hsq⟩
  | .submit _ _ | .ring _ | .device _ => .isTrue trivial

end HostDev

namespace HostDev

variable {σ : Type} {cfg : IoConfig} {tgt : IoTarget σ} {s s' : HostDev σ}

/-- **The invariant of host and device:** what is to be copied is in its slot, behind the commands
to be dispatched, and the host knows of all these slots that they are in use. -/
structure HostInv (cfg : IoConfig) (s : HostDev σ) : Prop where
  dev : ∃ l r, Inv cfg l r s.dev
  pos : ∀ q n cq, s.dev.shapes q = some (n, cq) → s.sqTail q < n ∧ s.sqHead q < n
  rung : ∀ q n cq, s.dev.shapes q = some (n, cq) →
    Ring.dist n (s.next n q) (s.dev.dbs q) ≤ Ring.dist n (s.next n q) (s.sqTail q)
  call : ∀ c n cq, s.dev.call = some c → s.dev.shapes c.sqid = some (n, cq) →
    Ring.dist n (s.next n c.sqid) c.newDb ≤ Ring.dist n (s.next n c.sqid) (s.dev.dbs c.sqid)
  held : ∀ i ∈ s.dev.pool.owed cfg IoWork.uncopiedItem,
    ∃ x ∈ s.dev.history.dispatched, x.item = i ∧ ∃ sq, s.dev.sqes i.sqid = some sq ∧
      i.sqEntry < sq.queueSize ∧ sq.sq i.sqEntry = x.cmd ∧
      ¬ Ring.Between sq.queueSize (s.next sq.queueSize i.sqid) i.sqEntry (s.sqTail i.sqid)
  inUse : ∀ q n cq, s.dev.shapes q = some (n, cq) → ∀ x, x < n → s.Pending cfg n q x →
    Ring.Between n (s.sqHead q) x (s.sqTail q)

/-- A command is found by its number. -/
theorem getElem_ticket {l : List Dispatch} (hl : l.map (fun x => x.item.ticket)
    = List.range l.length) {x : Dispatch} (hx : x ∈ l) : l[x.item.ticket]? = some x := by
  obtain ⟨j, hj, rfl⟩ := List.getElem_of_mem hx
  have hj' : (l.map fun x => x.item.ticket)[j]? = some j := by
    rw [hl, List.getElem?_range hj]
  rw [List.getElem?_map, List.getElem?_eq_getElem hj] at hj'
  have hticket : l[j].item.ticket = j := Option.some.inj hj'
  rw [hticket]
  exact List.getElem?_eq_getElem hj

/-- **The invariant gives the claim.** -/
theorem HostInv.readsOwn (h : HostInv cfg s) : s.ReadsOwn := by
  intro k curr sq hcur w hc hcp hi hsq
  obtain ⟨l, r, hinv⟩ := h.dev
  have hmem := owed_of_cursor hinv.account.threads hcur hc
    (show IoWork.uncopiedItem _ = some _ from if_neg (by simp [w] at hc hcp hi; simp [hc, hcp, hi]))
  obtain ⟨x, hx, hxi, sq', hsq', -, hcmd, -⟩ := h.held _ hmem
  have hsame : s.dev.sqes w.sqid = some sq' := hsq'
  rw [hsq] at hsame
  obtain rfl := Option.some.inj hsame
  refine ⟨x, ?_, hcmd⟩
  have := getElem_ticket hinv.queues.itemTickets hx
  rw [hxi] at this
  exact this

/-- The next slot is on the ring. -/
theorem next_lt {q n : ℕ} (hn : 0 < n) : s.next n q < n := Nat.mod_lt _ hn

/-- A step of the device that dispatches nothing. -/
theorem HostInv.quiet (h : HostInv cfg s) {d' : NvmevDev σ} (hq : Quiet cfg s.dev d')
    (hd' : ∃ l r, Inv cfg l r d') : HostInv cfg { s with dev := d' } := by
  have hshapes : d'.shapes = s.dev.shapes := by
    unfold NvmevDev.shapes
    rw [hq.sqes]
  have hslots : ∀ q, d'.slotsOf q = s.dev.slotsOf q := fun q => by
    unfold slotsOf
    rw [hq.dispatched]
  have hnext : ∀ n q, HostDev.next { s with dev := d' } n q = s.next n q := fun n q => by
    unfold HostDev.next
    dsimp only
    rw [hslots]
  refine ⟨hd', ?_, ?_, fun c n cq hc hn => ?_, fun i hi => ?_, fun q n cq hn x hx hp => ?_⟩
  · rw [hshapes]
    exact h.pos
  · intro q n cq hn
    rw [hshapes] at hn
    rw [hnext, hq.dbs]
    exact h.rung q n cq hn
  · rw [hshapes] at hn
    rw [hnext, hq.dbs]
    rcases hq.call c hc with ⟨he, -⟩ | ⟨c₀, hc₀, hs, hdb⟩
    · rw [he]
    · rw [← hdb, ← hs]
      rw [← hs] at hn
      exact h.call c₀ n cq hc₀ hn
  · obtain ⟨x, hx, hxi, sq, hsq, hlt, hcmd, hb⟩ := h.held i (Multiset.mem_of_le (hq.owed _ fades_uncopiedItem) hi)
    refine ⟨x, by rw [hq.dispatched]; exact hx, hxi, sq, by rw [hq.sqes]; exact hsq, hlt, hcmd, ?_⟩
    rw [hnext]
    exact hb
  · rw [hshapes] at hn
    refine h.inUse q n cq hn x hx ?_
    rcases hp with ⟨i, hi, hiq, hix⟩ | hb
    · exact .inl ⟨i, Multiset.mem_of_le (hq.owed _ fades_uncopiedItem) hi, hiq, hix⟩
    · rw [hnext] at hb
      exact .inr hb

/-- Where the dispatcher stands in a call that is not at its end. -/
theorem HostInv.at_call (h : HostInv cfg s) {c : ProcIoSq} (hcall : s.dev.call = some c)
    (hrec : c.reclaiming = false) (hseq : c.seq < c.numProc) :
    ∃ sq, s.dev.sqes c.sqid = some sq ∧ s.dev.shapes c.sqid = some (sq.queueSize, sq.cqid) ∧
      c.sqEntry = s.next sq.queueSize c.sqid ∧ c.sqEntry < sq.queueSize ∧
      Ring.dist sq.queueSize c.sqEntry c.newDb ≠ 0 ∧
      Ring.dist sq.queueSize c.sqEntry (s.sqTail c.sqid) ≠ 0 := by
  obtain ⟨l, r, hinv⟩ := h.dev
  obtain ⟨sq, hsq, hshape, hrun⟩ := hinv.queues.call_sq hcall
  have hpos := hrun.dispatched
  rw [hrec, Bool.toNat_false, add_zero] at hpos
  have hnext : c.sqEntry = s.next sq.queueSize c.sqid := hrun.sqEntry.trans hpos
  have hdist : Ring.dist sq.queueSize c.sqEntry c.newDb = c.numProc - c.seq := by
    rw [hrun.sqEntry, hrun.numProc]
    refine Ring.dist_advance hrun.oldDb hrun.newDb ?_
    rw [← hrun.numProc]
    omega
  have hlt : c.sqEntry < sq.queueSize := by
    rw [hrun.sqEntry]
    exact Nat.mod_lt _ (lt_of_le_of_lt (Nat.zero_le _) hrun.oldDb)
  have h1 := h.call c _ _ hcall hshape
  have h2 := h.rung _ _ _ hshape
  rw [← hnext] at h1 h2
  exact ⟨sq, hsq, hshape, hnext, hlt, by omega, by omega⟩

/-- A slot that holds nothing to be copied may be written. -/
theorem HostInv.held_writeSq (h : HostInv cfg s) {q slot : ℕ} (cmd : NvmeRwCommand)
    (hfree : ∀ i ∈ s.dev.pool.owed cfg IoWork.uncopiedItem, i.sqid = q → i.sqEntry ≠ slot)
    {i : IoItem} (hi : i ∈ s.dev.pool.owed cfg IoWork.uncopiedItem) :
    ∃ x ∈ s.dev.history.dispatched, x.item = i ∧ ∃ sq,
      (s.dev.writeSq q slot cmd).sqes i.sqid = some sq ∧ i.sqEntry < sq.queueSize ∧
      sq.sq i.sqEntry = x.cmd ∧
      ¬ Ring.Between sq.queueSize (s.next sq.queueSize i.sqid) i.sqEntry (s.sqTail i.sqid) := by
  obtain ⟨x, hx, hxi, sq, hsq, hlt, hcmd, hb⟩ := h.held i hi
  refine ⟨x, hx, hxi, _, writeSq_sqes s.dev hsq, hlt, ?_, hb⟩
  dsimp only
  split_ifs with hq
  · rw [Function.update_of_ne (hfree i hi hq)]
    exact hcmd
  · exact hcmd

/-- **The dispatcher takes the next command of a queue.** -/
theorem HostInv.fromSlot (h : HostInv cfg s) {c : ProcIoSq} {cmd : NvmeRwCommand}
    {d' : NvmevDev σ} (hcall : s.dev.call = some c) (hrec : c.reclaiming = false)
    (hseq : c.seq < c.numProc) (hslot : FromSlot cfg s.dev d' c cmd)
    (hd' : ∃ l r, Inv cfg l r d') : HostInv cfg { s with dev := d' } := by
  obtain ⟨sq, hsq, hshape, hnext, hlt, hd1, hd2⟩ := h.at_call hcall hrec hseq
  have hshapes : d'.shapes = s.dev.shapes := by
    rw [← shapes_writeSq s.dev c.sqid c.sqEntry cmd]
    unfold NvmevDev.shapes
    rw [hslot.sqes]
  have hshape_eq : ∀ n cq, s.dev.shapes c.sqid = some (n, cq) → n = sq.queueSize := by
    intro n cq hn
    rw [hshape] at hn
    exact (Prod.mk.inj (Option.some.inj hn)).1.symm
  have hfree : ∀ i ∈ s.dev.pool.owed cfg IoWork.uncopiedItem, i.sqid = c.sqid →
      i.sqEntry ≠ c.sqEntry := by
    intro i hi hiq hie
    obtain ⟨x, hx, hxi, sq', hsq', -, -, hb⟩ := h.held i hi
    rw [hiq, hsq] at hsq'
    obtain rfl := Option.some.inj hsq'
    rw [hiq, hie, ← hnext] at hb
    exact hb (Ring.between_left hd2)
  rcases hslot.ends with ⟨hc', hdisp, hle⟩ | ⟨x, hc', hdisp, hxcmd, hxq, hxe, -, hle⟩
  · have hnext' : ∀ n q, HostDev.next { s with dev := d' } n q = s.next n q := fun n q => by
      unfold HostDev.next slotsOf
      rw [hdisp]
    refine ⟨hd', ?_, ?_, ?_, fun i hi => ?_, fun q n cq hn y hy hp => ?_⟩
    · rw [hshapes]
      exact h.pos
    · intro q n cq hn
      rw [hshapes] at hn
      rw [hnext', hslot.dbs]
      exact h.rung q n cq hn
    · intro c₁ n cq hc₁
      rw [hc'] at hc₁
      cases hc₁
    · obtain ⟨x, hx, hxi, sq', hsq', hlt', hcmd, hb⟩ :=
        h.held_writeSq cmd hfree (Multiset.mem_of_le (hle _ fades_uncopiedItem) hi)
      refine ⟨x, by rw [hdisp]; exact hx, hxi, sq', by rw [hslot.sqes]; exact hsq', hlt', hcmd, ?_⟩
      rw [hnext']
      exact hb
    · rw [hshapes] at hn
      refine h.inUse q n cq hn y hy ?_
      rcases hp with ⟨i, hi, hiq, hiy⟩ | hb
      · exact .inl ⟨i, Multiset.mem_of_le (hle _ fades_uncopiedItem) hi, hiq, hiy⟩
      · rw [hnext'] at hb
        exact .inr hb
  · -- the command moves from the stretch to be dispatched to what is to be copied
    have hself : HostDev.next { s with dev := d' } sq.queueSize c.sqid
        = Ring.succ sq.queueSize c.sqEntry := by
      rw [hnext]
      unfold HostDev.next
      rw [slotsOf_append x hdisp, if_pos hxq, List.length_append, List.length_singleton,
        Ring.succ_mod (lt_of_le_of_lt (Nat.zero_le _) hlt)]
    have hother : ∀ n q, q ≠ c.sqid → HostDev.next { s with dev := d' } n q = s.next n q := by
      intro n q hq
      unfold HostDev.next
      rw [slotsOf_append x hdisp, if_neg (by rw [hxq]; exact Ne.symm hq), List.append_nil]
    have htail := (h.pos _ _ _ hshape).1
    have hadv : ∀ y, y < sq.queueSize →
        (Ring.Between sq.queueSize (Ring.succ sq.queueSize c.sqEntry) y (s.sqTail c.sqid) ↔
          Ring.Between sq.queueSize c.sqEntry y (s.sqTail c.sqid) ∧ y ≠ c.sqEntry) := fun y hy =>
      Ring.between_succ_left hlt htail hy hd2
    have hmem : ∀ i ∈ d'.pool.owed cfg IoWork.uncopiedItem,
        i ∈ s.dev.pool.owed cfg IoWork.uncopiedItem ∨ i = x.item := fun i hi => by
      rcases Multiset.mem_add.1 (Multiset.mem_of_le (hle _ fades_uncopiedItem) hi) with hi | hi
      · exact .inl hi
      · exact .inr (Multiset.mem_singleton.1 hi)
    refine ⟨hd', ?_, ?_, ?_, fun i hi => ?_, fun q n cq hn y hy hp => ?_⟩
    · rw [hshapes]
      exact h.pos
    · intro q n cq hn
      rw [hshapes] at hn
      rw [hslot.dbs]
      have hr := h.rung q n cq hn
      by_cases hq : q = c.sqid
      · subst hq
        obtain rfl := hshape_eq n cq hn
        have hc := h.call c _ _ hcall hshape
        rw [← hnext] at hr hc
        obtain ⟨l, r, hinv⟩ := h.dev
        have hdb := hinv.queues.dbs _ _ _ hshape
        rw [hself, Ring.dist_succ_left htail hd2, Ring.dist_succ_left hdb (by omega)]
        omega
      · rw [hother n q hq]
        exact hr
    · intro c₁ n cq hc₁ hn
      rw [hc'] at hc₁
      cases hc₁
      rw [hshapes] at hn
      obtain rfl := hshape_eq n cq hn
      have hc := h.call c _ _ hcall hshape
      obtain ⟨l, r, hinv⟩ := h.dev
      have hdb := hinv.queues.dbs _ _ _ hshape
      obtain ⟨sq₁, -, hshape₁, hrun⟩ := hinv.queues.call_sq hcall
      obtain h₁ := hshape_eq _ _ hshape₁
      have hnew := hrun.newDb
      rw [h₁] at hnew
      rw [hself, hslot.dbs]
      rw [← hnext] at hc
      rw [Ring.dist_succ_left hnew hd1, Ring.dist_succ_left hdb (by omega)]
      omega
    · rcases hmem i hi with hi | rfl
      · obtain ⟨y, hy, hyi, sq', hsq', hlt', hcmd, hb⟩ := h.held_writeSq cmd hfree hi
        refine ⟨y, by rw [hdisp]; exact List.mem_append_left _ hy, hyi, sq', by
          rw [hslot.sqes]; exact hsq', hlt', hcmd, ?_⟩
        by_cases hq : i.sqid = c.sqid
        · rw [hq] at hsq' hb ⊢
          have hsize : sq'.queueSize = sq.queueSize := by
            rw [writeSq_sqes s.dev hsq] at hsq'
            rw [← Option.some.inj hsq']
          rw [hsize] at hb hlt' ⊢
          rw [hself, hadv _ hlt']
          rw [← hnext] at hb
          exact fun hbt => hb hbt.1
        · rw [hother _ _ hq]
          exact hb
      · refine ⟨x, by rw [hdisp]; simp, rfl, { sq with
          sq := if c.sqid = c.sqid then Function.update sq.sq c.sqEntry cmd else sq.sq }, ?_, ?_,
          ?_, ?_⟩
        · rw [hslot.sqes, hxq]
          exact writeSq_sqes s.dev hsq
        · rw [hxe]
          exact hlt
        · dsimp only
          rw [if_pos rfl, hxe, Function.update_self, hxcmd]
        · dsimp only
          rw [hxq, hxe, hself, hadv _ hlt]
          exact fun hbt => hbt.2 rfl
    · rw [hshapes] at hn
      refine h.inUse q n cq hn y hy ?_
      rcases hp with ⟨i, hi, hiq, hiy⟩ | hb
      · rcases hmem i hi with hi | rfl
        · exact .inl ⟨i, hi, hiq, hiy⟩
        · rw [hxq] at hiq
          rw [hxe] at hiy
          subst hiq hiy
          obtain rfl := hshape_eq n cq hn
          right
          rw [← hnext]
          exact Ring.between_left hd2
      · by_cases hq : q = c.sqid
        · subst hq
          obtain rfl := hshape_eq n cq hn
          rw [hself, hadv y hy] at hb
          right
          rw [← hnext]
          exact hb.1
        · rw [hother n q hq] at hb
          exact .inr hb

/-! ### The steps of the host -/

/-- The host's ring is not full: the slot behind its tail is not the device's next one. -/
theorem HostInv.succ_tail_ne_next (h : HostInv cfg s) {q n cq : ℕ}
    (hshape : s.dev.shapes q = some (n, cq)) (hfull : Ring.succ n (s.sqTail q) ≠ s.sqHead q) :
    Ring.succ n (s.sqTail q) ≠ s.next n q := by
  intro heq
  obtain ⟨htail, hhead⟩ := h.pos q n cq hshape
  by_cases hd : Ring.dist n (s.next n q) (s.sqTail q) = 0
  · -- nothing is to be dispatched, so the ring has one slot only
    have hself : s.next n q = s.sqTail q := by
      have hw := Ring.add_dist_mod (next_lt (s := s) (q := q) (by omega)) htail
      rw [hd, add_zero, Nat.mod_eq_of_lt (next_lt (by omega))] at hw
      exact hw
    rw [hself] at heq
    unfold Ring.succ at heq hfull
    split_ifs at heq hfull <;> omega
  · have hb := h.inUse q n cq hshape _ (next_lt (by omega)) (.inr (Ring.between_left hd))
    have hs := Ring.dist_succ_right hhead hfull
    rw [heq] at hs
    unfold Ring.Between at hb
    omega

/-- The host's tail is not in use. -/
theorem HostInv.tail_free (h : HostInv cfg s) {q n cq : ℕ} (hshape : s.dev.shapes q = some (n, cq)) :
    ¬ s.Pending cfg n q (s.sqTail q) := fun hp =>
  Ring.not_between_right _ _ _ (h.inUse q n cq hshape _ (h.pos q n cq hshape).1 hp)

/-- The device's next slot depends on what was dispatched. -/
theorem next_congr {s' : HostDev σ} (h : s'.dev.history.dispatched = s.dev.history.dispatched)
    (n q : ℕ) : s'.next n q = s.next n q := by
  unfold HostDev.next slotsOf
  rw [h]

/-- **The host writes a command** into its tail slot and moves on. -/
theorem HostInv.submit (h : HostInv cfg s) {q : ℕ} {sq : SubmissionQueue}
    (hsq : s.dev.sqes q = some sq) {cmd : NvmeRwCommand}
    (hfull : Ring.succ sq.queueSize (s.sqTail q) ≠ s.sqHead q)
    (hdev : ∃ l r, Inv cfg l r (s.dev.writeSq q (s.sqTail q) cmd)) :
    HostInv cfg { s with
      dev := s.dev.writeSq q (s.sqTail q) cmd
      sqTail := Function.update s.sqTail q (Ring.succ sq.queueSize (s.sqTail q)) } := by
  have hshape : s.dev.shapes q = some (sq.queueSize, sq.cqid) :=
    shapes_eq_some.2 ⟨sq, hsq, rfl, rfl⟩
  have hsize : ∀ n cq, s.dev.shapes q = some (n, cq) → n = sq.queueSize := fun n cq hn => by
    rw [hshape] at hn
    exact (Prod.mk.inj (Option.some.inj hn)).1.symm
  obtain ⟨htail, hhead⟩ := h.pos _ _ _ hshape
  have hne := h.succ_tail_ne_next hshape hfull
  have hnext := next_lt (s := s) (q := q) (n := sq.queueSize) (by omega)
  have hfree : ∀ i ∈ s.dev.pool.owed cfg IoWork.uncopiedItem, i.sqid = q →
      i.sqEntry ≠ s.sqTail q := fun i hi hiq hie =>
    h.tail_free hshape (.inl ⟨i, hi, hiq, hie⟩)
  have hsame := SameQueues.writeSq s.dev q (s.sqTail q) cmd
  have hpool : (s.dev.writeSq q (s.sqTail q) cmd).pool = s.dev.pool := by
    unfold NvmevDev.writeSq
    split <;> rfl
  set s' : HostDev σ := { s with
    dev := s.dev.writeSq q (s.sqTail q) cmd
    sqTail := Function.update s.sqTail q (Ring.succ sq.queueSize (s.sqTail q)) } with hs'
  have hnext' : ∀ n r, s'.next n r = s.next n r := next_congr hsame.dispatched
  have htail' : s'.sqTail q = Ring.succ sq.queueSize (s.sqTail q) := Function.update_self ..
  have hother : ∀ r, r ≠ q → s'.sqTail r = s.sqTail r := fun r hr => Function.update_of_ne hr _ _
  refine ⟨hdev, fun r n cq hn => ?_, fun r n cq hn => ?_, fun c n cq hc hn => ?_, fun i hi => ?_,
    fun r n cq hn x hx hp => ?_⟩
  · rw [hsame.shapes] at hn
    by_cases hr : r = q
    · subst hr
      obtain rfl := hsize n cq hn
      rw [htail']
      exact ⟨Ring.succ_lt htail, hhead⟩
    · rw [hother r hr]
      exact h.pos r n cq hn
  · rw [hsame.shapes] at hn
    have hrung := h.rung r n cq hn
    rw [hnext', hsame.dbs]
    by_cases hr : r = q
    · subst hr
      obtain rfl := hsize n cq hn
      rw [htail', Ring.dist_succ_right hnext hne]
      omega
    · rw [hother r hr]
      exact hrung
  · rw [hsame.shapes] at hn
    rw [hsame.call] at hc
    rw [hnext', hsame.dbs]
    exact h.call c n cq hc hn
  · rw [hpool] at hi
    obtain ⟨x, hx, hxi, sq', hsq', hlt, hcmd, hb⟩ := h.held_writeSq cmd hfree hi
    refine ⟨x, by rw [hsame.dispatched]; exact hx, hxi, sq', hsq', hlt, hcmd, ?_⟩
    rw [hnext']
    by_cases hr : i.sqid = q
    · rw [hr] at hsq' hb ⊢
      have hn : sq'.queueSize = sq.queueSize := by
        rw [writeSq_sqes s.dev hsq] at hsq'
        rw [← Option.some.inj hsq']
      rw [hn] at hb hlt ⊢
      rw [htail', Ring.between_succ_right hnext htail hlt hne]
      rintro (hbt | heq)
      · exact hb hbt
      · exact hfree i hi hr heq
    · rw [hother _ hr]
      exact hb
  · rw [hsame.shapes] at hn
    by_cases hr : r = q
    · subst hr
      obtain rfl := hsize n cq hn
      rw [htail', Ring.between_succ_right hhead htail hx hfull]
      by_cases hxt : x = s.sqTail r
      · exact .inr hxt
      · refine .inl (h.inUse r _ cq hn x hx ?_)
        rcases hp with ⟨i, hi, hiq, hix⟩ | hb
        · rw [hpool] at hi
          exact .inl ⟨i, hi, hiq, hix⟩
        · rw [hnext', htail', Ring.between_succ_right hnext htail hx hne] at hb
          exact .inr (hb.resolve_right hxt)
    · rw [hother r hr]
      refine h.inUse r n cq hn x hx ?_
      rcases hp with ⟨i, hi, hiq, hix⟩ | hb
      · rw [hpool] at hi
        exact .inl ⟨i, hi, hiq, hix⟩
      · rw [hnext', hother r hr] at hb
        exact .inr hb

/-- **The host rings** with its tail. -/
theorem HostInv.ring (h : HostInv cfg s) (q : ℕ)
    (hdev : ∃ l r, Inv cfg l r
      ({ s.dev with dbs := Function.update s.dev.dbs q (s.sqTail q) } : NvmevDev σ)) :
    HostInv cfg { s with
      dev := { s.dev with dbs := Function.update s.dev.dbs q (s.sqTail q) } } := by
  refine ⟨hdev, h.pos, fun r n cq hn => ?_, fun c n cq hc hn => ?_, h.held, h.inUse⟩
  · show Ring.dist n (s.next n r) (Function.update s.dev.dbs q (s.sqTail q) r) ≤ _
    by_cases hr : r = q
    · subst hr
      rw [Function.update_self]
      exact le_refl _
    · rw [Function.update_of_ne hr]
      exact h.rung r n cq hn
  · show _ ≤ Ring.dist n (s.next n c.sqid) (Function.update s.dev.dbs q (s.sqTail q) c.sqid)
    have hc' := h.call c n cq hc hn
    by_cases hr : c.sqid = q
    · rw [hr, Function.update_self, ← hr]
      exact hc'.trans (h.rung c.sqid n cq hn)
    · rw [Function.update_of_ne hr]
      exact hc'

/-- A completion names a slot of its queue. -/
theorem HostInv.posted_slot (h : HostInv cfg s) {i : IoItem} (hi : i ∈ s.dev.history.posted)
    {n cq : ℕ} (hshape : s.dev.shapes i.sqid = some (n, cq)) : i.sqEntry < n := by
  obtain ⟨l, r, hinv⟩ := h.dev
  have hmem : i ∈ (s.dev.history.dispatched.map Dispatch.item : Multiset IoItem) := by
    rw [← hinv.account.items]
    exact Multiset.mem_add.2 (.inl (Multiset.mem_add.2 (.inl hi)))
  obtain ⟨x, hx, rfl⟩ := List.mem_map.1 (Multiset.mem_coe.1 hmem)
  have hslot : x.item.sqEntry ∈ s.dev.slotsOf x.item.sqid :=
    List.mem_map.2 ⟨x, List.mem_filter.2 ⟨hx, by simp⟩, rfl⟩
  rw [hinv.queues.slots _ _ _ hshape] at hslot
  obtain ⟨j, -, hj⟩ := List.mem_map.1 hslot
  have hn : 0 < n := lt_of_le_of_lt (Nat.zero_le _) (h.pos _ _ _ hshape).1
  rw [← hj]
  exact Nat.mod_lt _ hn

/-- **The host takes a completion** that gives back free slots only. -/
theorem HostInv.take (h : HostInv cfg s) {cqid : ℕ} {i : IoItem}
    (hi : s.nextCompletion cqid = some i) (hfree : s.GivesBackFree cfg (.take cqid)) :
    HostInv cfg { s with
      sqHead := Function.update s.sqHead i.sqid i.sqEntry
      taken := Function.update s.taken cqid (s.taken cqid + 1) } := by
  have hposted : i ∈ s.dev.history.posted :=
    (List.mem_filter.1 (List.mem_of_getElem? hi)).1
  refine ⟨h.dev, fun r n cq hn => ⟨(h.pos r n cq hn).1, ?_⟩, h.rung, h.call, h.held,
    fun r n cq hn x hx hp => ?_⟩
  · show Function.update s.sqHead i.sqid i.sqEntry r < n
    by_cases hr : r = i.sqid
    · subst hr
      rw [Function.update_self]
      exact h.posted_slot hposted hn
    · rw [Function.update_of_ne hr]
      exact (h.pos r n cq hn).2
  · show Ring.Between n (Function.update s.sqHead i.sqid i.sqEntry r) x (s.sqTail r)
    by_cases hr : r = i.sqid
    · subst hr
      rw [Function.update_self]
      obtain ⟨sq, hsq, rfl, -⟩ := shapes_eq_some.1 hn
      exact hfree i sq hi hsq x hx hp
    · rw [Function.update_of_ne hr]
      exact h.inUse r n cq hn x hx hp

/-! ### Runs -/

/-- **Every step keeps the invariant** if it gives back free slots only. -/
theorem HostInv.exec (h : HostInv cfg s) (tgt : IoTarget σ) {op : HostOp}
    (hfree : s.GivesBackFree cfg op) : Ends (s.exec cfg tgt op) (HostInv cfg) tgt.Faults := by
  obtain ⟨l, r, hinv⟩ := h.dev
  cases op with
  | submit q cmd =>
    unfold HostDev.exec
    dsimp only
    cases hsq : s.dev.sqes q with
    | none => exact h
    | some sq =>
      dsimp only
      by_cases hfull : Ring.succ sq.queueSize (s.sqTail q) = s.sqHead q
      · rw [if_pos hfull]
        exact h
      · rw [if_neg hfull]
        have hstep : Ends (s.dev.exec cfg tgt (.submit q (s.sqTail q) cmd)) _ _ := hinv.exec trivial
        obtain ⟨l', r', hinv', -⟩ := ends_ok.1 hstep
        exact h.submit hsq hfull ⟨l', r', hinv'⟩
  | ring q =>
    have hrung : s.dev.WellRung (.ring q (s.sqTail q)) := fun sq hsq =>
      (h.pos _ _ _ (shapes_eq_some.2 ⟨sq, hsq, rfl, rfl⟩)).1
    have hstep : Ends (s.dev.exec cfg tgt (.ring q (s.sqTail q))) _ _ := hinv.exec hrung
    obtain ⟨l', r', hinv', -⟩ := ends_ok.1 hstep
    exact h.ring q ⟨l', r', hinv'⟩
  | take cqid =>
    unfold HostDev.exec
    dsimp only
    cases hi : s.nextCompletion cqid with
    | none => exact h
    | some i => exact h.take hi hfree
  | device op =>
    unfold HostDev.exec
    dsimp only
    by_cases hop : op.OfDevice
    · rw [if_pos hop]
      have hring : s.dev.WellRung op := by
        cases op <;> trivial
      have hdev : Ends (s.dev.exec cfg tgt op) (fun d' => HostInv cfg { s with dev := d' })
          tgt.Faults := by
        refine ((hinv.exec hring).and (exec_cases hinv.account hop)).mono ?_
          fun _ he => he.1
        rintro d' ⟨⟨l', r', h', -⟩, hquiet | ⟨-, c, cmd, hcall, hrec, hseq, hslot⟩⟩
        · exact h.quiet hquiet ⟨l', r', h'⟩
        · exact h.fromSlot hcall hrec hseq hslot ⟨l', r', h'⟩
      exact hdev.bind fun d' hd' => hd'
    · rw [if_neg hop]
      exact h

/-- A fresh device and its host satisfy the invariant. -/
theorem start_hostInv (hnr : 0 < cfg.nrIoWorkers) {sqes : ℕ → Option SubmissionQueue}
    {cqes : ℕ → Option CompletionQueue}
    (hsq : ∀ q sq, sqes q = some sq → 0 < sq.queueSize ∧ (cqes sq.cqid).isSome) (ns : σ) :
    HostInv cfg (HostDev.start sqes cqes ns) := by
  have hinv := start_inv hnr hsq ns
  have howed : (HostDev.start sqes cqes ns).dev.pool.owed cfg IoWork.uncopiedItem = 0 :=
    Finset.sum_eq_zero fun _ _ => initWorker_owed
  have hpos : ∀ q n cq, (HostDev.start sqes cqes ns).dev.shapes q = some (n, cq) → 0 < n := by
    intro q n cq hn
    obtain ⟨sq, hs, rfl, -⟩ := shapes_eq_some.1 hn
    exact (hsq q sq hs).1
  refine ⟨⟨0, 0, hinv⟩, fun q n cq hn => ⟨hpos q n cq hn, hpos q n cq hn⟩, fun q n cq hn => ?_,
    nofun, fun i hi => ?_, fun q n cq hn x hx hp => ?_⟩
  · exact le_refl _
  · rw [howed] at hi
    exact absurd hi (Multiset.notMem_zero i)
  · rcases hp with ⟨i, hi, -⟩ | hb
    · rw [howed] at hi
      exact absurd hi (Multiset.notMem_zero i)
    · have hnext : (HostDev.start sqes cqes ns).next n q = 0 := Nat.zero_mod n
      rw [hnext] at hb
      exact hb

end HostDev

open HostDev

/-- **A worker finds the command that was dispatched as long as each completion the host takes gives
back free slots only,** whatever the FTL, the number of queues and workers and the order of the
steps. -/
theorem hostRun_readsOwn {σ : Type} (tgt : IoTarget σ) (cfg : IoConfig)
    (hnr : 0 < cfg.nrIoWorkers) (sqes : ℕ → Option SubmissionQueue)
    (cqes : ℕ → Option CompletionQueue) (ns : σ)
    (hsq : ∀ q sq, sqes q = some sq → 0 < sq.queueSize ∧ (cqes sq.cqid).isSome)
    (ops : List HostOp)
    (hops : Along (HostDev.exec cfg tgt) (GivesBackFree cfg) (HostDev.start sqes cqes ns) ops) :
    Ends (runList (HostDev.exec cfg tgt) (HostDev.start sqes cqes ns) ops) ReadsOwn
      tgt.Faults :=
  (Ends.runList_along (fun _ _ h hfree => h.exec tgt hfree) (start_hostInv hnr hsq ns) hops).mono
    (fun _ h => h.readsOwn) fun _ he => he

/-! ### Slots that are given back -/

/-- Four I/O units of 4 KiB with fast reads and slow writes. -/
def fourUnits : IoUnitConfig where
  nrIoUnits := 4
  ioUnitShift := 12
  readDelay := 0
  readTime := 1
  readTrailing := 0
  writeDelay := 0
  writeTime := 100
  writeTrailing := 0

/-- One submission queue of four entries. -/
def fourSlots (q : ℕ) : Option SubmissionQueue :=
  if q = 1 then some { cqid := 1, queueSize := 4, sq := fun _ => readBlock } else none

theorem fourSlots_ok (q : ℕ) (sq : SubmissionQueue) (h : fourSlots q = some sq) :
    0 < sq.queueSize ∧ (readCqes 1 sq.cqid).isSome := by
  unfold fourSlots at h
  split_ifs at h
  cases h
  exact ⟨Nat.succ_pos _, rfl⟩

/-- A write and two reads of other I/O units are dispatched, and the worker completes the reads. -/
def readsFirst : List HostOp :=
  [.submit 1 { readBlock with opcode := .write }, .submit 1 { readBlock with slba := 8 },
    .submit 1 { readBlock with slba := 16 }, .ring 1, .device (.poll 1),
    .device (.dispatch 0), .device .reclaim, .device (.dispatch 0), .device .reclaim,
    .device (.dispatch 0), .device .reclaim, .device (.dispatch 0),
    .device (.enter 0), .device (.visit 0 1), .device (.visit 0 1)]

/-- The host takes the completions of the reads and fills the slots they give back. -/
def refill : List HostOp :=
  [.take 1, .take 1, .submit 1 { readBlock with slba := 24 }, .submit 1 { readBlock with slba := 32 }]

/-- The worker copies the write, and comes to the two commands in the slots that were given back. -/
def copyThenRefill : List HostOp :=
  readsFirst ++ .device (.visit 0 1) :: refill ++
    [.ring 1, .device (.poll 1), .device (.dispatch 2), .device .reclaim, .device (.dispatch 2),
      .device .reclaim, .device (.dispatch 2), .device (.enter 0), .device (.visit 0 2),
      .device (.visit 0 2)]

/-- The number of the command and the slot of the entry at which worker `k` stands. -/
def HostDev.standsAt {σ : Type} (s : HostDev σ) (k : ℕ) : Option (ℕ × ℕ) :=
  (s.dev.cursor k).map fun curr =>
    (((s.dev.pool.ioWorkers k).workQueue curr).ticket, ((s.dev.pool.ioWorkers k).workQueue curr).sqEntry)

/-- The slots given back are free, also that of the write. -/
theorem copyThenRefill_givesBackFree :
    Along (HostDev.exec oneWorker (simpleTarget fourUnits)) (GivesBackFree oneWorker)
      (HostDev.start fourSlots (readCqes 1) freshSimple) copyThenRefill := by
  decide +kernel

theorem copyThenRefill_standsAt :
    (runList (HostDev.exec oneWorker (simpleTarget fourUnits))
      (HostDev.start fourSlots (readCqes 1) freshSimple) copyThenRefill).toOption.any
        (fun s => decide (s.standsAt 0 = some (4, 0) ∧
          s.dev.history.posted.map IoItem.ticket = [1, 2])) = true := by
  decide +kernel

/-- The fifth command is in the slot of the first, whose completion is still to be posted. -/
theorem hostRun_readsOwn_refill :
    ∃ s, runList (HostDev.exec oneWorker (simpleTarget fourUnits))
        (HostDev.start fourSlots (readCqes 1) freshSimple) copyThenRefill = .ok s ∧ s.ReadsOwn ∧
      s.standsAt 0 = some (4, 0) ∧ s.dev.history.posted.map IoItem.ticket = [1, 2] := by
  obtain ⟨s, hrun, hs⟩ := exists_ok_of_any copyThenRefill_standsAt
  refine ⟨s, hrun, ?_, of_decide_eq_true hs⟩
  have hgives := copyThenRefill_givesBackFree
  -- the run is kept from being computed
  generalize copyThenRefill = ops at hgives hrun
  exact (hostRun_readsOwn _ _ (by decide) _ _ _ fourSlots_ok ops hgives).of_ok hrun

/-- Worker `k` stands at an entry to be copied whose slot holds another command. -/
def HostDev.readsOther {σ : Type} (s : HostDev σ) (k : ℕ) : Bool :=
  match s.dev.cursor k with
  | none => false
  | some curr =>
    let w := (s.dev.pool.ioWorkers k).workQueue curr
    match s.dev.sqes w.sqid, s.dev.history.dispatched[w.ticket]? with
    | some sq, some x =>
      !w.isCompleted && !w.isCopied && !w.isInternal && decide (sq.sq w.sqEntry ≠ x.cmd)
    | _, _ => false

theorem HostDev.not_readsOwn {σ : Type} {s : HostDev σ} {k : ℕ} (h : s.readsOther k = true) :
    ¬ s.ReadsOwn := by
  intro hown
  unfold HostDev.readsOther at h
  cases hcur : s.dev.cursor k with
  | none => simp [hcur] at h
  | some curr =>
    rw [hcur] at h
    dsimp only at h
    set w := (s.dev.pool.ioWorkers k).workQueue curr with hw
    cases hsq : s.dev.sqes w.sqid with
    | none => simp [hsq] at h
    | some sq =>
      cases hx : s.dev.history.dispatched[w.ticket]? with
      | none => simp [hsq, hx] at h
      | some x =>
        rw [hsq, hx] at h
        simp only [Bool.and_eq_true, Bool.not_eq_true', decide_eq_true_eq] at h
        obtain ⟨⟨⟨hc, hcp⟩, hi⟩, hne⟩ := h
        obtain ⟨y, hy, heq⟩ := hown k curr sq hcur hc hcp hi hsq
        rw [← hw] at hy heq
        rw [hx] at hy
        cases hy
        exact hne heq

/-- The host fills the slots the reads give back before the worker copies the write. -/
def overtake : List HostOp := readsFirst ++ refill

theorem overtake_readsOther :
    (match runList (HostDev.exec oneWorker (simpleTarget fourUnits))
        (HostDev.start fourSlots (readCqes 1) freshSimple) overtake with
      | .ok s => s.readsOther 0
      | .error _ => false) = true := by
  decide +kernel

/-- **A worker finds another command in the slot:** a write on a ring of four entries is overtaken
by two reads, and the host reuses its slot while its data is still to be copied. -/
theorem overtake_not_readsOwn :
    ∃ s, runList (HostDev.exec oneWorker (simpleTarget fourUnits))
      (HostDev.start fourSlots (readCqes 1) freshSimple) overtake = .ok s ∧ ¬ s.ReadsOwn := by
  have h := overtake_readsOther
  cases hrun : runList (HostDev.exec oneWorker (simpleTarget fourUnits))
      (HostDev.start fourSlots (readCqes 1) freshSimple) overtake with
  | error e =>
    rw [hrun] at h
    cases h
  | ok s =>
    rw [hrun] at h
    exact ⟨s, rfl, not_readsOwn h⟩

end NvmeVirt
