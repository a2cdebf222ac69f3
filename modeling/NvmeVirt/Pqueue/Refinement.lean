/-
# The queue is a set with priorities

Whatever is done to a queue after `pqueue_init`, in whatever order, its slots are
a heap in which every element knows its place, and every operation does and
returns what the set with priorities allows.  Between the calls the caller may
write the priority of anything that is not an element, as `mark_page_invalid`
does with a line that is not a victim.
-/

import NvmeVirt.ConvFtl.Lines
import NvmeVirt.Lib.PrioritySet
import NvmeVirt.Pqueue.Remove
import NvmeVirt.Pqueue.Validity

namespace NvmeVirt

namespace Pqueue

open PrioritySet (Op)

variable {σ α : Type} {o : PqueueOps σ α} {q : Pqueue α} {s : σ}

/-- The set a queue stands for. -/
def prioritySet (o : PqueueOps σ α) (q : Pqueue α) (s : σ) : PrioritySet α where
  elems := {x | q.Mem x}
  pri := o.getpri s

/-- One call, and what it returns. -/
def exec (o : PqueueOps σ α) (q : Pqueue α) (s : σ) : Op α → Option α × Pqueue α × σ
  | .insert x => (none, pqueueInsert o q s x)
  | .setPri x p => (none, q, o.setpri s x p)
  | .changePriority x p => (none, pqueueChangePriority o q s p x)
  | .remove x => (none, pqueueRemove o q s x)
  | .peek => (pqueuePeek q, q, s)
  | .pop => pqueuePop o q s

/-- Calls in a row, and what each returns. -/
def execAll (o : PqueueOps σ α) (q : Pqueue α) (s : σ) :
    List (Op α) → List (Op α × Option α) × Pqueue α × σ
  | [] => ([], q, s)
  | op :: ops =>
    let (r, q, s) := exec o q s op
    let (rs, q, s) := execAll o q s ops
    ((op, r) :: rs, q, s)

/-- An insertion finds a slot in the allocation. -/
def RoomFor (q : Pqueue α) : Op α → Prop
  | .insert _ => q.size < q.avail
  | _ => True

/-- Every call of a row makes sense where it is made. -/
def LegalCalls (o : PqueueOps σ α) : Pqueue α → σ → List (Op α) → Prop
  | _, _, [] => True
  | q, s, op :: ops => op.Legal {x | q.Mem x} ∧ q.RoomFor op ∧
    LegalCalls o (exec o q s op).2.1 (exec o q s op).2.2 ops

/-- What every call keeps. -/
structure Correct (o : PqueueOps σ α) (q : Pqueue α) (s : σ) : Prop where
  size : 1 ≤ q.size
  placed : Placed o q s
  heaped : Heaped o q s

theorem mem_pos (hsz : 1 ≤ q.size) (h : ∃ x, q.Mem x) : 1 < q.size := by
  obtain ⟨x, i, hi, hi', -⟩ := h
  omega

/-- **An empty queue** is correct, and stands for the empty set. -/
theorem correct_init [Inhabited α] (o : PqueueOps σ α) (n : ℕ) (s : σ) :
    Correct o (pqueueInit n) s ∧ (prioritySet o (pqueueInit n) s).elems = ∅ := by
  have hsize : (pqueueInit n : Pqueue α).size = 1 := rfl
  refine ⟨⟨hsize.ge, fun i hi hi' => by omega, fun i hi hi' => by omega⟩, ?_⟩
  refine Set.eq_empty_iff_forall_notMem.2 fun x hx => ?_
  have := mem_pos hsize.ge ⟨x, hx⟩
  omega

/-- The head of a correct queue is an element in front. -/
theorem Correct.front (h : Correct o q s) : (prioritySet o q s).Front (pqueuePeek q) := by
  by_cases hone : q.size = 1
  · rw [pqueuePeek_eq_none.2 hone]
    refine Set.eq_empty_iff_forall_notMem.2 fun x hx => ?_
    have := mem_pos h.size ⟨x, hx⟩
    omega
  · have hpeek : pqueuePeek q = some (q.d 1) := pqueuePeek_eq_some.2 ⟨hone, rfl⟩
    have hsz := h.size
    rw [hpeek]
    exact ⟨⟨1, le_rfl, by omega, rfl⟩, fun y hy => pqueuePeek_min h.heaped hpeek hy⟩

/-- `pqueue_pop` returns what `pqueue_peek` returns. -/
theorem pqueuePop_head (o : PqueueOps σ α) (q : Pqueue α) (s : σ) :
    (pqueuePop o q s).1 = pqueuePeek q := by
  unfold pqueuePop pqueuePeek
  split_ifs <;> rfl

/-- The set after a call that keeps the priorities. -/
theorem prioritySet_of_requeued {n : ℕ} {P : α → Prop} {q' : Pqueue α} {s' : σ}
    (h : Requeued o q s n P q' s') (hpri : ∀ y, o.getpri s' y = o.getpri s y) :
    prioritySet o q' s' = { prioritySet o q s with elems := {y | P y} } := by
  unfold prioritySet
  rw [show {x | q'.Mem x} = {y | P y} from Set.ext h.mem, funext hpri]

/-- The elements are as many as `pqueue_size` says. -/
theorem Placed.ncard_mem (hp : Placed o q s) : {x | q.Mem x}.ncard = pqueueSize q := by
  have himage : {x | q.Mem x} = q.d '' Finset.Ico 1 q.size := by
    ext x
    simp only [Set.mem_ofPred_eq, Mem, Set.mem_image, Finset.coe_Ico, Set.mem_Ico, and_assoc]
  rw [himage, Set.InjOn.ncard_image, Set.ncard_coe_finset, Nat.card_Ico, pqueueSize]
  intro i hi j hj hd
  rw [Finset.coe_Ico] at hi hj
  exact hp.inj hi.1 hi.2 hj.1 hj.2 hd

/-- As many elements as are asked for are popped, while there are some. -/
theorem execAll_pops (o : PqueueOps σ α) (n : ℕ) (hn : n < q.size) :
    ∃ xs : List α, xs.length = n ∧
      (Pqueue.execAll o q s (List.replicate n .pop)).1 = xs.map fun x => (.pop, some x) := by
  induction n generalizing q s with
  | zero => exact ⟨[], rfl, rfl⟩
  | succ n ih =>
    have hpop : Pqueue.exec o q s .pop = (some (q.d 1), (pqueuePop o q s).2) := by
      have hhead : (pqueuePop o q s).1 = some (q.d 1) := by
        rw [pqueuePop_head]
        exact pqueuePeek_eq_some.2 ⟨by omega, rfl⟩
      rw [← hhead]
      rfl
    have hsize : (pqueuePop o q s).2.1.size = q.size - 1 := by
      unfold pqueuePop
      rw [if_neg (by omega)]
      exact percolateDown_size _ s 1
    obtain ⟨xs, hlen, hxs⟩ := ih (q := (pqueuePop o q s).2.1) (s := (pqueuePop o q s).2.2)
      (by omega)
    refine ⟨q.d 1 :: xs, by rw [List.length_cons, hlen], ?_⟩
    rw [List.replicate_succ, Pqueue.execAll, hpop, List.map_cons, ← hxs]

/-- **One call stays in the allocation.** -/
theorem Correct.exec_size_le (lw : o.Lawful) (mf : o.MinFirst) (h : Correct o q s) {op : Op α}
    (hop : op.Legal {x | q.Mem x}) (hroom : q.RoomFor op) (hle : q.size ≤ q.avail) :
    (Pqueue.exec o q s op).2.1.avail = q.avail ∧ (Pqueue.exec o q s op).2.1.size ≤ q.avail := by
  cases op with
  | insert x =>
    have hr := pqueueInsert_requeued lw h.placed h.size hop
    exact ⟨hr.avail, hr.size.le.trans (Nat.succ_le_of_lt hroom)⟩
  | setPri x p => exact ⟨rfl, hle⟩
  | changePriority x p =>
    have hr := pqueueChangePriority_requeued lw h.placed hop p
    exact ⟨hr.avail, hr.size.le.trans hle⟩
  | remove x =>
    have hr := pqueueRemove_requeued lw mf h.placed hop
    exact ⟨hr.avail, hr.size.le.trans ((Nat.sub_le _ _).trans hle)⟩
  | peek => exact ⟨rfl, hle⟩
  | pop =>
    by_cases hone : q.size = 1
    · have hsame : pqueuePop o q s = (none, q, s) := if_pos hone
      unfold Pqueue.exec
      rw [hsame]
      exact ⟨rfl, hle⟩
    · have hsz := h.size
      have hr := pqueuePop_requeued lw h.placed (by omega)
      exact ⟨hr.avail, hr.size.le.trans ((Nat.sub_le _ _).trans hle)⟩

variable [DecidableEq α]

/-- A priority is written in the store. -/
theorem getpri_setpri (mf : o.MinFirst) (s : σ) (x : α) (p : ℕ) :
    o.getpri (o.setpri s x p) = Function.update (o.getpri s) x p := by
  funext y
  by_cases hy : y = x
  · rw [hy, mf.getpri_setpri_self, Function.update_self]
  · rw [mf.getpri_setpri_ne _ _ _ _ hy, Function.update_of_ne hy]

/-- **One call does what the set with priorities allows.** -/
theorem Correct.exec (lw : o.Lawful) (mf : o.MinFirst) (h : Correct o q s) (op : Op α)
    (hop : op.Legal {x | q.Mem x}) :
    Correct o (exec o q s op).2.1 (exec o q s op).2.2 ∧
      PrioritySet.Step (prioritySet o q s) op (exec o q s op).1
        (prioritySet o (exec o q s op).2.1 (exec o q s op).2.2) := by
  have hpos : ∀ y s x k, o.getpri (o.setpos s x k) y = o.getpri s y := fun y s x k =>
    mf.getpri_setpos s x k y
  cases op with
  | insert x =>
    have hr := pqueueInsert_requeued lw h.placed h.size hop
    refine ⟨⟨?_, hr.placed, pqueueInsert_heaped mf h.heaped h.size x⟩, ?_⟩
    · exact hr.size ▸ Nat.le_add_left 1 q.size
    · have hset := prioritySet_of_requeued hr fun y => pqueueInsert_frame (o.getpri · y) (hpos y)
      exact hset ▸ PrioritySet.Step.insert _ x hop
  | setPri x p =>
    refine ⟨⟨h.size, fun i hi hi' => ?_, h.heaped.congr rfl fun i hi hi' => ?_⟩, ?_⟩
    · exact (lw.getpos_setpri _ _ _ _).trans (h.placed i hi hi')
    · exact mf.getpri_setpri_ne _ _ _ _ fun hx => hop ⟨i, hi, hi', hx⟩
    · have hset : prioritySet o q (o.setpri s x p) =
          { prioritySet o q s with pri := Function.update (o.getpri s) x p } := by
        unfold prioritySet
        rw [getpri_setpri mf]
      exact hset ▸ PrioritySet.Step.setPri _ x p hop
  | changePriority x p =>
    have hr := pqueueChangePriority_requeued lw h.placed hop p
    refine ⟨⟨?_, hr.placed, pqueueChangePriority_heaped lw mf h.placed h.heaped hop p⟩, ?_⟩
    · exact hr.size ▸ h.size
    · have hpri : o.getpri (pqueueChangePriority o q s p x).2 =
          Function.update (o.getpri s) x p := by
        rw [← getpri_setpri mf]
        exact funext fun y =>
          pqueueChangePriority_frame (o.getpri · y) (hpos y) lw h.placed hop p
      have hset : prioritySet o (pqueueChangePriority o q s p x).1
          (pqueueChangePriority o q s p x).2 =
            { prioritySet o q s with pri := Function.update (o.getpri s) x p } := by
        unfold prioritySet
        rw [hpri, show {y | (pqueueChangePriority o q s p x).1.Mem y} = {y | q.Mem y} from
          Set.ext hr.mem]
      exact hset ▸ PrioritySet.Step.changePriority _ x p hop
  | remove x =>
    have hr := pqueueRemove_requeued lw mf h.placed hop
    have hsz := mem_pos h.size ⟨x, hop⟩
    refine ⟨⟨?_, hr.placed, pqueueRemove_heaped mf h.placed h.heaped hop⟩, ?_⟩
    · exact hr.size ▸ Nat.le_sub_one_of_lt hsz
    · have hset := prioritySet_of_requeued hr fun y =>
        pqueueRemove_frame (o.getpri · y) (hpos y) mf h.placed hop
      exact hset ▸ PrioritySet.Step.remove _ x hop
  | peek => exact ⟨h, PrioritySet.Step.peek _ _ h.front⟩
  | pop =>
    have hfront := h.front
    have hstep := PrioritySet.Step.pop _ _ hfront
    rw [← pqueuePop_head o q s] at hstep hfront
    by_cases hone : q.size = 1
    · have hsame : pqueuePop o q s = (none, q, s) := if_pos hone
      have hset : prioritySet o q s =
          { prioritySet o q s with elems := {y ∈ (prioritySet o q s).elems | some y ≠ none} } := by
        simp [prioritySet]
      unfold Pqueue.exec
      rw [hsame] at hstep ⊢
      refine ⟨h, ?_⟩
      show PrioritySet.Step (prioritySet o q s) .pop none (prioritySet o q s)
      nth_rewrite 2 [hset]
      exact hstep
    · have hsz := h.size
      have hr := pqueuePop_requeued lw h.placed (by omega)
      have hhead : (pqueuePop o q s).1 = some (q.d 1) := by
        rw [pqueuePop_head]
        exact pqueuePeek_eq_some.2 ⟨hone, rfl⟩
      refine ⟨⟨?_, hr.placed, pqueuePop_heaped mf h.heaped (by omega)⟩, ?_⟩
      · show 1 ≤ (pqueuePop o q s).2.1.size
        rw [hr.size]
        omega
      · have hset := prioritySet_of_requeued hr fun y => pqueuePop_frame (o.getpri · y) (hpos y)
        unfold Pqueue.exec
        rw [hset]
        rw [hhead] at hstep ⊢
        simp only [ne_eq, Option.some.injEq] at hstep
        exact hstep

/-- **Calls in a row do what the set with priorities allows.** -/
theorem Correct.execAll (lw : o.Lawful) (mf : o.MinFirst) {ops : List (Op α)}
    (h : Correct o q s) (hops : LegalCalls o q s ops) :
    Correct o (execAll o q s ops).2.1 (execAll o q s ops).2.2 ∧
      PrioritySet.Run (prioritySet o q s) (execAll o q s ops).1
        (prioritySet o (execAll o q s ops).2.1 (execAll o q s ops).2.2) := by
  induction ops generalizing q s with
  | nil => exact ⟨h, .nil _⟩
  | cons op ops ih =>
    obtain ⟨h', hstep⟩ := h.exec lw mf op hops.1
    obtain ⟨hend, hrun⟩ := ih h' hops.2.2
    exact ⟨hend, .cons hstep hrun⟩

/-- **Calls in a row stay in the allocation.** -/
theorem Correct.execAll_size_le (lw : o.Lawful) (mf : o.MinFirst) {ops : List (Op α)}
    (h : Correct o q s) (hops : LegalCalls o q s ops) (hle : q.size ≤ q.avail) :
    (Pqueue.execAll o q s ops).2.1.size ≤ q.avail := by
  induction ops generalizing q s with
  | nil => exact hle
  | cons op ops ih =>
    obtain ⟨hop, hroom, hops⟩ := hops
    obtain ⟨havail, hsize⟩ := h.exec_size_le lw mf hop hroom hle
    rw [← havail] at hsize ⊢
    exact ih (h.exec lw mf op hop).1 hops hsize

/-- **The queue refines the set with priorities.**  After any legal calls on an empty queue the
results are those of a run of the set, `pqueue_size` is the number of its elements, no slot past
the `n + 1` that `pqueue_init` allocates is in use, and `pqueue_is_valid` holds. -/
theorem pqueue_refines_prioritySet [Inhabited α] (lw : o.Lawful) (mf : o.MinFirst) (n : ℕ)
    (s : σ) (ops : List (Op α)) (hops : LegalCalls o (pqueueInit n) s ops) :
    let r := execAll o (pqueueInit n) s ops
    PrioritySet.Run ⟨∅, o.getpri s⟩ r.1 (prioritySet o r.2.1 r.2.2) ∧
      (prioritySet o r.2.1 r.2.2).elems.ncard = pqueueSize r.2.1 ∧ r.2.1.size ≤ n + 1 ∧
      (r.2.1.size ≤ 2 ^ 63 → pqueueIsValid o r.2.1 r.2.2 = some true) := by
  obtain ⟨hinit, hempty⟩ := correct_init o n s
  obtain ⟨h, hrun⟩ := hinit.execAll lw mf hops
  have hset : prioritySet o (pqueueInit n) s = ⟨∅, o.getpri s⟩ := by
    rw [← hempty]
    rfl
  rw [hset] at hrun
  have hsize := hinit.execAll_size_le lw mf hops (Nat.le_add_left 1 n)
  exact ⟨hrun, h.placed.ncard_mem, hsize, h.heaped.isValid mf h.size⟩

instance (q : Pqueue α) (x : α) : Decidable (q.Mem x) :=
  decidable_of_iff (∃ i < q.size, 1 ≤ i ∧ q.d i = x)
    ⟨fun ⟨i, hi', hi, hd⟩ => ⟨i, hi, hi', hd⟩, fun ⟨i, hi, hi', hd⟩ => ⟨i, hi', hi, hd⟩⟩

/-- A call is legal or not. -/
def decidableLegal (q : Pqueue α) : (op : Op α) → Decidable (op.Legal {x | q.Mem x})
  | .insert x => inferInstanceAs (Decidable ¬ q.Mem x)
  | .setPri x _ => inferInstanceAs (Decidable ¬ q.Mem x)
  | .changePriority x _ => inferInstanceAs (Decidable (q.Mem x))
  | .remove x => inferInstanceAs (Decidable (q.Mem x))
  | .peek => inferInstanceAs (Decidable True)
  | .pop => inferInstanceAs (Decidable True)

instance (q : Pqueue α) : (op : Op α) → Decidable (q.RoomFor op)
  | .insert _ => inferInstanceAs (Decidable (_ < _))
  | .setPri _ _ | .changePriority _ _ | .remove _ | .peek | .pop => inferInstanceAs (Decidable True)

/-- A row of calls is legal or not. -/
def decidableLegalCalls (o : PqueueOps σ α) :
    (q : Pqueue α) → (s : σ) → (ops : List (Op α)) → Decidable (LegalCalls o q s ops)
  | _, _, [] => inferInstanceAs (Decidable True)
  | q, s, op :: ops =>
    have := decidableLegal q op
    have := decidableLegalCalls o (Pqueue.exec o q s op).2.1 (Pqueue.exec o q s op).2.2 ops
    inferInstanceAs (Decidable (_ ∧ _ ∧ _))

instance (q : Pqueue α) (s : σ) (ops : List (Op α)) : Decidable (LegalCalls o q s ops) :=
  decidableLegalCalls o q s ops

/-- Lines with their ids for valid pages, and calls of every kind. -/
def threeLines : List (Op ℕ) :=
  [.insert 3, .insert 1, .setPri 2 0, .insert 2, .changePriority 1 7, .peek, .remove 2, .pop]

/-- Lines whose number of valid pages is their id. -/
def idLines : ℕ → Line := fun i => ⟨i, 0, i, 0⟩

/-- **Three lines as victims:** line 2 is in front until it is taken out, then line 3 is popped. -/
theorem pqueue_refines_prioritySet_three :
    ∃ r, execAll victimOps (pqueueInit 4) idLines threeLines = r ∧
      r.1.map Prod.snd = [none, none, none, none, none, some 2, none, some 3] ∧
      PrioritySet.Run ⟨∅, victimOps.getpri idLines⟩ r.1 (prioritySet victimOps r.2.1 r.2.2) ∧
      pqueueSize r.2.1 = 1 ∧ pqueueIsValid victimOps r.2.1 r.2.2 = some true := by
  have hlegal : LegalCalls victimOps (pqueueInit 4) idLines threeLines := by decide +kernel
  have hrun := pqueue_refines_prioritySet victimOps_lawful victimOps_minFirst 4 idLines
    threeLines hlegal
  have hend : (execAll victimOps (pqueueInit 4) idLines threeLines).1.map Prod.snd =
        [none, none, none, none, none, some 2, none, some 3] ∧
      (execAll victimOps (pqueueInit 4) idLines threeLines).2.1.size = 2 := by decide +kernel
  obtain ⟨r, hr⟩ : ∃ r, execAll victimOps (pqueueInit 4) idLines threeLines = r := ⟨_, rfl⟩
  rw [hr] at hrun hend
  obtain ⟨hret, hsize⟩ := hend
  obtain ⟨hset, -, -, hvalid⟩ := hrun
  exact ⟨r, hr, hret, hset, by rw [pqueueSize, hsize], hvalid (by rw [hsize]; decide)⟩

/-- Three lines queued in the wrong order. -/
def threeQueued : List (Op ℕ) := [.insert 3, .insert 1, .insert 2]

end Pqueue

end NvmeVirt
