/-
# The workers together

`__allocate_work_queue_entry`, the insertions and `__reclaim_completed_reqs` of
`io.c` over all workers: each worker keeps its invariant, and what the workers
owe together grows by what is put in, if the selected worker has room.
-/

import NvmeVirt.Io.Device
import NvmeVirt.Io.WorkerInv

namespace NvmeVirt

open IoWorker

namespace IoPool

variable {cfg : IoConfig} {p : IoPool} {cursor : ℕ → Option ℕ} {sqid t k curr : ℕ}
  {fill f : IoWork → IoWork} {β : Type} {sel : IoWork → Option β} {b : Option β}

/-- What the workers owe together. -/
def owed (cfg : IoConfig) (sel : IoWork → Option β) (p : IoPool) : Multiset β :=
  (Finset.range cfg.nrIoWorkers).sum fun k => (p.ioWorkers k).owed sel

/-- The worker selected for a submission queue has two free entries at least. -/
def HasRoom (cfg : IoConfig) (p : IoPool) (sqid : ℕ) : Prop :=
  2 ≤ (p.ioWorkers (getIoWorker cfg sqid p.ioWorkerTurn)).freeChain.length

/-- The first two entries of the chain decide. -/
instance (cfg : IoConfig) (p : IoPool) (sqid : ℕ) : Decidable (HasRoom cfg p sqid) :=
  decidable_of_iff
    (((p.ioWorkers (getIoWorker cfg sqid p.ioWorkerTurn)).freeChain.drop 1).isEmpty = false)
    (by rw [List.isEmpty_eq_false_iff, ne_eq, List.drop_eq_nil_iff, not_le]; rfl)

/-- **The invariant of the workers** with their threads at `cursor`. -/
structure Threads (cfg : IoConfig) (p : IoPool) (cursor : ℕ → Option ℕ) : Prop where
  turn : p.ioWorkerTurn < cfg.nrIoWorkers
  worker : ∀ k, k < cfg.nrIoWorkers → WorkerInv (p.ioWorkers k) (cursor k)
  idle : ∀ k, cfg.nrIoWorkers ≤ k → cursor k = none

theorem getIoWorker_lt (h : Threads cfg p cursor) (sqid : ℕ) :
    getIoWorker cfg sqid p.ioWorkerTurn < cfg.nrIoWorkers := by
  have := h.turn
  unfold getIoWorker
  split_ifs
  · exact Nat.mod_lt _ (by omega)
  · exact this

/-- A worker with two free entries has one to give out. -/
theorem allocateEntry_of_length {w : IoWorker} {cur : Option ℕ} (h : WorkerInv w cur)
    (hroom : 2 ≤ w.freeChain.length) : ∃ r, w.allocateEntry = some r := by
  obtain ⟨fresh, used, io, hok, -⟩ := h
  rw [hok.freeChain_eq] at hroom
  rcases hfree : fresh ++ used with _ | ⟨e, _ | ⟨g, rest⟩⟩
  · rw [hfree] at hroom
    simp at hroom
  · rw [hfree] at hroom
    simp at hroom
  · rw [hfree] at hok
    exact ⟨_, hok.allocateEntry⟩

@[simp] theorem setWorker_self (w : IoWorker) : (p.setWorker k w).ioWorkers k = w :=
  Function.update_self ..

theorem setWorker_of_ne {j : ℕ} (hj : j ≠ k) (w : IoWorker) :
    (p.setWorker k w).ioWorkers j = p.ioWorkers j :=
  Function.update_of_ne hj _ _

@[simp] theorem setWorker_turn (w : IoWorker) : (p.setWorker k w).ioWorkerTurn = p.ioWorkerTurn :=
  rfl

/-- Updating one worker. -/
theorem Threads.setWorker (h : Threads cfg p cursor) {w : IoWorker}
    (hw : WorkerInv w (cursor k)) : Threads cfg (p.setWorker k w) cursor where
  turn := h.turn
  worker := fun j hj => by
    by_cases hjk : j = k
    · subst hjk
      rwa [setWorker_self]
    · rw [setWorker_of_ne hjk]
      exact h.worker j hj
  idle := h.idle

/-- What is owed after updating one worker. -/
theorem owed_setWorker (hk : k < cfg.nrIoWorkers) {w : IoWorker} {x y : Multiset β}
    (hw : w.owed sel + x = (p.ioWorkers k).owed sel + y) :
    (p.setWorker k w).owed cfg sel + x = p.owed cfg sel + y := by
  have hsum := Sums.sum_change (f := fun j => (p.ioWorkers j).owed sel)
    (g := fun j => ((p.setWorker k w).ioWorkers j).owed sel) (Finset.mem_range.2 hk)
    fun j _ hj => by rw [setWorker_of_ne hj]
  rw [setWorker_self] at hsum
  unfold IoPool.owed
  have : (Finset.range cfg.nrIoWorkers).sum (fun j => ((p.setWorker k w).ioWorkers j).owed sel)
      + (p.ioWorkers k).owed sel + x
      = (Finset.range cfg.nrIoWorkers).sum (fun j => (p.ioWorkers j).owed sel)
        + (p.ioWorkers k).owed sel + y := by
    rw [hsum, add_assoc, hw, ← add_assoc]
  have hcomm : ∀ a c e : Multiset β, a + c + e = a + e + c := fun a c e => by abel
  rw [hcomm, hcomm _ _ y] at this
  exact add_right_cancel this

/-- The turn is no part of what is owed. -/
theorem owed_turn (p : IoPool) (n : ℕ) :
    owed cfg sel { p with ioWorkerTurn := n } = p.owed cfg sel := rfl

/-- Without a free entry to give out nothing is put in. -/
theorem putWork_none
    (ha : (p.ioWorkers (getIoWorker cfg sqid p.ioWorkerTurn)).allocateEntry = none) :
    p.putWork cfg sqid t fill = p := by
  unfold IoPool.putWork allocateWorkQueueEntry
  dsimp only
  rw [ha]

/-- The worker after an entry is put in, and the turn. -/
theorem putWork_some {w₁ : IoWorker} {e : ℕ}
    (ha : (p.ioWorkers (getIoWorker cfg sqid p.ioWorkerTurn)).allocateEntry = some (w₁, e)) :
    ∃ n, (p.ioWorkerTurn < cfg.nrIoWorkers → n < cfg.nrIoWorkers) ∧
      p.putWork cfg sqid t f =
        { p.setWorker (getIoWorker cfg sqid p.ioWorkerTurn)
            ((w₁.setWork e f).insertReqSorted e t) with ioWorkerTurn := n } := by
  set k := getIoWorker cfg sqid p.ioWorkerTurn with hk
  have hself : (Function.update p.ioWorkers k w₁) k = w₁ := Function.update_self ..
  refine ⟨if k + 1 = cfg.nrIoWorkers then 0 else k + 1, fun hturn => ?_, ?_⟩
  · have hlt : k < cfg.nrIoWorkers := by
      rw [hk]
      unfold getIoWorker
      split_ifs
      · exact Nat.mod_lt _ (by omega)
      · exact hturn
    split_ifs <;> omega
  · unfold IoPool.putWork allocateWorkQueueEntry
    dsimp only
    rw [← hk, ha]
    simp only [IoPool.setWorker, hself, Function.update_idem]

/-- **Putting work in** keeps the invariant. -/
theorem Threads.putWork (h : Threads cfg p cursor) (hn : ∀ x, (fill x).next = none)
    (hp : ∀ x, (fill x).prev = none) : Threads cfg (p.putWork cfg sqid t fill) cursor := by
  have hk := getIoWorker_lt h sqid
  cases ha : (p.ioWorkers (getIoWorker cfg sqid p.ioWorkerTurn)).allocateEntry with
  | none => rwa [putWork_none ha]
  | some r =>
    obtain ⟨w₁, e⟩ := r
    obtain ⟨n, hlt, heq⟩ := putWork_some (t := t) (f := fill) ha
    rw [heq]
    have hset := h.setWorker ((h.worker _ hk).put (t := t) owes_none ha (hn _) (hp _)).1
    exact ⟨hlt h.turn, hset.worker, hset.idle⟩

/-- **Putting work in** adds what it stands for if the selected worker has room. -/
theorem Threads.owed_putWork (h : Threads cfg p cursor) (hn : ∀ x, (fill x).next = none)
    (hp : ∀ x, (fill x).prev = none) (hroom : HasRoom cfg p sqid) (hsel : Owes sel)
    (hb : ∀ x, sel (fill x) = b) :
    (p.putWork cfg sqid t fill).owed cfg sel = p.owed cfg sel + owe b := by
  have hk := getIoWorker_lt h sqid
  obtain ⟨⟨w₁, e⟩, ha⟩ := allocateEntry_of_length (h.worker _ hk) hroom
  obtain ⟨n, -, heq⟩ := putWork_some (t := t) (f := fill) ha
  have hput := (h.worker _ hk).put (t := t) hsel ha (hn _) (hp _)
  have hsum := owed_setWorker (x := 0) hk ((add_zero _).trans hput.2)
  rw [heq, owed_turn, ← hb ((p.ioWorkers (getIoWorker cfg sqid p.ioWorkerTurn)).workQueue e)]
  rwa [add_zero] at hsum

/-- Without room nothing is put in. -/
theorem Threads.putWork_full (h : Threads cfg p cursor) (hroom : ¬ HasRoom cfg p sqid) :
    p.putWork cfg sqid t fill = p := by
  refine putWork_none ?_
  cases ha : (p.ioWorkers (getIoWorker cfg sqid p.ioWorkerTurn)).allocateEntry with
  | none => rfl
  | some r =>
    obtain ⟨fresh, used, io, hok, -⟩ := h.worker _ (getIoWorker_lt h sqid)
    obtain ⟨f, rest, hfree, -⟩ := hok.of_allocateEntry ha
    refine absurd ?_ hroom
    unfold HasRoom
    rw [hok.freeChain_eq, hfree]
    simp

theorem reclaim_ioWorkers (hk : k < cfg.nrIoWorkers) :
    (p.reclaimCompletedReqs cfg).ioWorkers k = (p.ioWorkers k).reclaimCompletedReqs :=
  if_pos hk

/-- **A reclaim** of all workers keeps the invariant. -/
theorem Threads.reclaim (h : Threads cfg p cursor) :
    Threads cfg (p.reclaimCompletedReqs cfg) cursor where
  turn := h.turn
  worker := fun k hk => by
    rw [reclaim_ioWorkers hk]
    exact ((h.worker k hk).reclaim owes_none).1
  idle := h.idle

/-- **A reclaim** of all workers changes nothing of what is owed. -/
theorem Threads.owed_reclaim (h : Threads cfg p cursor) (hsel : Owes sel) :
    (p.reclaimCompletedReqs cfg).owed cfg sel = p.owed cfg sel := by
  refine Finset.sum_congr rfl fun k hk => ?_
  rw [reclaim_ioWorkers (Finset.mem_range.1 hk)]
  exact ((h.worker k (Finset.mem_range.1 hk)).reclaim hsel).2

/-- A worker thread that is in a pass belongs to a worker. -/
theorem Threads.lt (h : Threads cfg p cursor) (hc : cursor k = some curr) :
    k < cfg.nrIoWorkers := by
  by_contra hk
  rw [h.idle k (not_lt.1 hk)] at hc
  cases hc

/-- **Marks** on the entry a thread stands at. -/
theorem Threads.mark (h : Threads cfg p cursor) (hcur : cursor k = some curr)
    (hc : ((p.ioWorkers k).workQueue curr).isCompleted = false)
    (hn : ∀ x, (f x).next = x.next) (hp : ∀ x, (f x).prev = x.prev) :
    Threads cfg (p.setWorker k ((p.ioWorkers k).setWork curr f)) cursor := by
  have hw := h.worker k (h.lt hcur)
  rw [hcur] at hw
  refine h.setWorker ?_
  rw [hcur]
  exact hw.mark hc hn hp

/-- **A thread moves.** -/
theorem Threads.move (h : Threads cfg p cursor) (hk : k < cfg.nrIoWorkers) {c : Option ℕ}
    (hw : WorkerInv (p.ioWorkers k) c) : Threads cfg p (Function.update cursor k c) where
  turn := h.turn
  worker := fun j hj => by
    by_cases hjk : j = k
    · subst hjk
      rwa [Function.update_self]
    · rw [Function.update_of_ne hjk]
      exact h.worker j hj
  idle := fun j hj => by
    rw [Function.update_of_ne (by omega)]
    exact h.idle j hj

/-- The clock of a worker is no part of the invariant. -/
theorem Threads.setLatest (h : Threads cfg p cursor) (hk : k < cfg.nrIoWorkers) (t : ℕ) :
    Threads cfg (p.setWorker k { p.ioWorkers k with latestNsecs := t }) cursor := by
  obtain ⟨fresh, used, io, hok, hused, hcur⟩ := h.worker k hk
  exact h.setWorker ⟨fresh, used, io, hok.congr rfl rfl rfl rfl rfl rfl, hused, hcur⟩

/-- The clock of a worker is no part of what is owed. -/
theorem owed_setLatest (hk : k < cfg.nrIoWorkers) (t : ℕ) :
    (p.setWorker k { p.ioWorkers k with latestNsecs := t }).owed cfg sel = p.owed cfg sel := by
  have := owed_setWorker (p := p) (x := (0 : Multiset β)) (y := 0) hk
    (show IoWorker.owed sel { p.ioWorkers k with latestNsecs := t } + 0
      = (p.ioWorkers k).owed sel + 0 from rfl)
  simpa using this

/-- What such marks change of what is owed. -/
theorem Threads.owed_mark (h : Threads cfg p cursor) (hcur : cursor k = some curr)
    (hc : ((p.ioWorkers k).workQueue curr).isCompleted = false)
    (hn : ∀ x, (f x).next = x.next) (hp : ∀ x, (f x).prev = x.prev)
    (sel : IoWork → Option β) :
    (p.setWorker k ((p.ioWorkers k).setWork curr f)).owed cfg sel
        + owe (sel ((p.ioWorkers k).workQueue curr))
      = p.owed cfg sel + owe (sel (f ((p.ioWorkers k).workQueue curr))) := by
  have hw := h.worker k (h.lt hcur)
  rw [hcur] at hw
  exact owed_setWorker (h.lt hcur) (hw.owed_mark hc hn hp)

end IoPool

end NvmeVirt
