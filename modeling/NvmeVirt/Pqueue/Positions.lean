/-
# The positions the priority queue keeps

Every element of the heap knows its slot.  `bubble_up` and `percolate_down` move
a hole through the heap by filling it from a neighbouring slot (`Slides`) and put
the moving node into the last hole, so both keep that and the set of elements;
`pqueue_insert`, `pqueue_change_priority` and `pqueue_pop` follow.
-/

import NvmeVirt.Pqueue.Basic

namespace NvmeVirt

/-- The laws of the callbacks: a position is read back, and priorities and
positions do not interfere. -/
structure PqueueOps.Lawful {σ α : Type} (o : PqueueOps σ α) : Prop where
  getpos_setpos_self : ∀ s x k, o.getpos (o.setpos s x k) x = k
  getpos_setpos_ne : ∀ s x k y, y ≠ x → o.getpos (o.setpos s x k) y = o.getpos s y
  getpos_setpri : ∀ s x p y, o.getpos (o.setpri s x p) y = o.getpos s y

namespace Pqueue

variable {σ α : Type} {o : PqueueOps σ α} {q q' : Pqueue α} {s s' : σ} {h h' : ℕ} {x : α}

@[simp] theorem setD_size (q : Pqueue α) (i : ℕ) (x : α) : (q.setD i x).size = q.size := rfl

@[simp] theorem setD_avail (q : Pqueue α) (i : ℕ) (x : α) : (q.setD i x).avail = q.avail := rfl

@[simp] theorem setD_d_self (q : Pqueue α) (i : ℕ) (x : α) : (q.setD i x).d i = x := by
  simp [setD]

theorem setD_d_ne (q : Pqueue α) {i j : ℕ} (x : α) (hj : j ≠ i) : (q.setD i x).d j = q.d j := by
  simp [setD, hj]

/-- `x` is an element of the queue. -/
def Mem (q : Pqueue α) (x : α) : Prop := ∃ i, 1 ≤ i ∧ i < q.size ∧ q.d i = x

/-- Every element knows its slot. -/
def Placed (o : PqueueOps σ α) (q : Pqueue α) (s : σ) : Prop :=
  ∀ i, 1 ≤ i → i < q.size → o.getpos s (q.d i) = i

theorem Placed.inj (hp : Placed o q s) {i j : ℕ} (hi : 1 ≤ i) (hi' : i < q.size) (hj : 1 ≤ j)
    (hj' : j < q.size) (hd : q.d i = q.d j) : i = j := by
  have h1 := hp i hi hi'
  rw [hd, hp j hj hj'] at h1
  exact h1.symm

/-- The slot of an element is its position. -/
theorem Placed.d_getpos (hp : Placed o q s) (hx : q.Mem x) :
    1 ≤ o.getpos s x ∧ o.getpos s x < q.size ∧ q.d (o.getpos s x) = x := by
  obtain ⟨i, hi, hi', rfl⟩ := hx
  rw [hp i hi hi']
  exact ⟨hi, hi', rfl⟩

/-! ### The moving hole -/

/-- `y` stands in a slot other than the hole `h`. -/
def Others (q : Pqueue α) (h : ℕ) (y : α) : Prop := ∃ i, 1 ≤ i ∧ i < q.size ∧ i ≠ h ∧ q.d i = y

/-- Every slot but the hole `h` is placed, and the node `x` meant for the hole stands in none of
them. -/
structure Hole (o : PqueueOps σ α) (q : Pqueue α) (s : σ) (h : ℕ) (x : α) : Prop where
  pos : 1 ≤ h
  lt : h < q.size
  placed : ∀ i, 1 ≤ i → i < q.size → i ≠ h → o.getpos s (q.d i) = i
  fresh : ¬ q.Others h x

/-- The hole moves from slot to slot: each round fills it from the next slot. -/
inductive Slides (o : PqueueOps σ α) : Pqueue α → σ → ℕ → Pqueue α → σ → ℕ → Prop
  | done (q : Pqueue α) (s : σ) (h : ℕ) : Slides o q s h q s h
  | move {q q' : Pqueue α} {s s' : σ} {h h' j : ℕ} (hj : 1 ≤ j) (hj' : j < q.size) (hne : j ≠ h)
      (rest : Slides o (q.setD h (q.d j)) (o.setpos s (q.d j) h) j q' s' h') :
      Slides o q s h q' s' h'

theorem bubbleUpLoop_slides (pri : ℕ) (fuel : ℕ) (q : Pqueue α) (s : σ) (h : ℕ)
    (hlt : h < q.size) :
    Slides o q s h (bubbleUpLoop o pri fuel q s h).1 (bubbleUpLoop o pri fuel q s h).2.1
      (bubbleUpLoop o pri fuel q s h).2.2 := by
  induction fuel generalizing q s h with
  | zero => exact Slides.done q s h
  | succ fuel ih =>
    unfold bubbleUpLoop
    split_ifs with hc
    · have hlt' : h / 2 < q.size := by omega
      exact Slides.move (by omega) hlt' (by omega) (ih _ _ _ hlt')
    · exact Slides.done q s h

/-- A child the percolation moves to is a slot of the heap further down. -/
theorem maxchild_range (o : PqueueOps σ α) (q : Pqueue α) (s : σ) (h : ℕ)
    (hne : maxchild o q s h ≠ 0) : 2 * h ≤ maxchild o q s h ∧ maxchild o q s h < q.size := by
  unfold maxchild at hne ⊢
  dsimp only at hne ⊢
  split_ifs at hne ⊢ with h1 h2
  · exact absurd rfl hne
  · omega
  · omega

theorem percolateDownLoop_slides (pri : ℕ) (fuel : ℕ) (q : Pqueue α) (s : σ) (h : ℕ)
    (hpos : 1 ≤ h) :
    Slides o q s h (percolateDownLoop o pri fuel q s h).1 (percolateDownLoop o pri fuel q s h).2.1
      (percolateDownLoop o pri fuel q s h).2.2 := by
  induction fuel generalizing q s h with
  | zero => exact Slides.done q s h
  | succ fuel ih =>
    unfold percolateDownLoop
    dsimp only
    split_ifs with hc
    · obtain ⟨hge, hlt⟩ := maxchild_range o q s h hc.1
      exact Slides.move (by omega) hlt (by omega) (ih _ _ _ (by omega))
    · exact Slides.done q s h

/-- Filling the hole from slot `j` leaves the other elements the same. -/
theorem others_fill {j : ℕ} (hj : 1 ≤ j) (hj' : j < q.size) (hne : j ≠ h) (hpos : 1 ≤ h)
    (hlt : h < q.size) (y : α) : (q.setD h (q.d j)).Others j y ↔ q.Others h y := by
  constructor
  · rintro ⟨i, hi, hi', hij, rfl⟩
    by_cases hih : i = h
    · subst hih
      exact ⟨j, hj, hj', hne, (setD_d_self q i _).symm⟩
    · exact ⟨i, hi, hi', hih, (setD_d_ne q _ hih).symm⟩
  · rintro ⟨i, hi, hi', hih, rfl⟩
    by_cases hij : i = j
    · subst hij
      exact ⟨h, hpos, hlt, hne.symm, setD_d_self q h _⟩
    · exact ⟨i, hi, hi', hij, setD_d_ne q _ hih⟩

/-- Filling the hole from slot `j` moves the hole there. -/
theorem Hole.fill (lw : o.Lawful) (ho : Hole o q s h x) {j : ℕ} (hj : 1 ≤ j) (hj' : j < q.size)
    (hne : j ≠ h) : Hole o (q.setD h (q.d j)) (o.setpos s (q.d j) h) j x where
  pos := hj
  lt := hj'
  placed := by
    intro i hi hi' hij
    by_cases hih : i = h
    · subst hih
      rw [setD_d_self, lw.getpos_setpos_self]
    · have hd : q.d i ≠ q.d j := by
        intro hd
        have h1 := ho.placed i hi hi' hih
        rw [hd, ho.placed j hj hj' hne] at h1
        exact hij h1.symm
      rw [setD_d_ne q _ hih, lw.getpos_setpos_ne _ _ _ _ hd]
      exact ho.placed i hi hi' hih
  fresh := by
    rw [others_fill hj hj' hne ho.pos ho.lt]
    exact ho.fresh

/-- What a moving hole keeps: the hole, the sizes, the other elements, and the positions of
everything else. -/
structure SlideSpec (o : PqueueOps σ α) (q : Pqueue α) (s : σ) (h : ℕ) (x : α) (q' : Pqueue α)
    (s' : σ) (h' : ℕ) : Prop where
  hole : Hole o q' s' h' x
  size : q'.size = q.size
  avail : q'.avail = q.avail
  others : ∀ y, q'.Others h' y ↔ q.Others h y
  getpos : ∀ y, ¬ q.Others h y → o.getpos s' y = o.getpos s y

theorem Slides.spec (lw : o.Lawful) (hs : Slides o q s h q' s' h') (ho : Hole o q s h x) :
    SlideSpec o q s h x q' s' h' := by
  induction hs with
  | done q s h => exact ⟨ho, rfl, rfl, fun _ => Iff.rfl, fun _ _ => rfl⟩
  | @move q q' s s' h h' j hj hj' hne rest ih =>
    obtain ⟨hole, size, avail, others, getpos⟩ := ih (ho.fill lw hj hj' hne)
    have hfill := others_fill (q := q) hj hj' hne ho.pos ho.lt
    refine ⟨hole, size, avail, fun y => (others y).trans (hfill y), fun y hy => ?_⟩
    have hyj : y ≠ q.d j := fun hyj => hy ⟨j, hj, hj', hne, hyj.symm⟩
    rw [getpos y fun hyo => hy ((hfill y).1 hyo), lw.getpos_setpos_ne _ _ _ _ hyj]

/-- A component of the store that positions do not touch stays. -/
theorem Slides.frame {β : Type} (g : σ → β) (hg : ∀ s x k, g (o.setpos s x k) = g s)
    (hs : Slides o q s h q' s' h') : g s' = g s := by
  induction hs with
  | done => rfl
  | move _ _ _ _ ih => rw [ih, hg]

/-! ### The moving node takes the last hole -/

/-- A queue of size `n` whose elements are those with `P`, all placed, after a change of `q` and
`s` that moves only their positions. -/
structure Requeued (o : PqueueOps σ α) (q : Pqueue α) (s : σ) (n : ℕ) (P : α → Prop)
    (q' : Pqueue α) (s' : σ) : Prop where
  placed : Placed o q' s'
  size : q'.size = n
  avail : q'.avail = q.avail
  mem : ∀ y, q'.Mem y ↔ P y
  getpos : ∀ y, ¬ P y → o.getpos s' y = o.getpos s y

/-- Putting the moving node into the hole. -/
theorem Hole.place (lw : o.Lawful) (ho : Hole o q s h x) :
    Placed o (q.setD h x) (o.setpos s x h) := by
  intro i hi hi'
  by_cases hih : i = h
  · subst hih
    rw [setD_d_self, lw.getpos_setpos_self]
  · have hd : q.d i ≠ x := fun hd => ho.fresh ⟨i, hi, hi', hih, hd⟩
    rw [setD_d_ne q _ hih, lw.getpos_setpos_ne _ _ _ _ hd]
    exact ho.placed i hi hi' hih

theorem mem_setD (hpos : 1 ≤ h) (hlt : h < q.size) (y : α) :
    (q.setD h x).Mem y ↔ y = x ∨ q.Others h y := by
  constructor
  · rintro ⟨i, hi, hi', rfl⟩
    by_cases hih : i = h
    · subst hih
      exact .inl (setD_d_self q i x)
    · exact .inr ⟨i, hi, hi', hih, (setD_d_ne q _ hih).symm⟩
  · rintro (rfl | ⟨i, hi, hi', hih, rfl⟩)
    · exact ⟨h, hpos, hlt, setD_d_self q h y⟩
    · exact ⟨i, hi, hi', setD_d_ne q _ hih⟩

theorem Slides.place (lw : o.Lawful) (hs : Slides o q s h q' s' h') (ho : Hole o q s h x) :
    Requeued o q s q.size (fun y => y = x ∨ q.Others h y) (q'.setD h' x) (o.setpos s' x h') := by
  obtain ⟨hole, size, avail, others, getpos⟩ := hs.spec lw ho
  refine ⟨hole.place lw, size, avail, fun y => ?_, fun y hy => ?_⟩
  · rw [mem_setD hole.pos hole.lt, others]
  · obtain ⟨hyx, hyo⟩ := not_or.1 hy
    rw [lw.getpos_setpos_ne _ _ _ _ hyx, getpos y hyo]

theorem bubbleUp_requeued (lw : o.Lawful) (ho : Hole o q s h (q.d h)) :
    Requeued o q s q.size (fun y => y = q.d h ∨ q.Others h y) (bubbleUp o q s h).1
      (bubbleUp o q s h).2 :=
  (bubbleUpLoop_slides _ h q s h ho.lt).place lw ho

theorem percolateDown_requeued (lw : o.Lawful) (ho : Hole o q s h (q.d h)) :
    Requeued o q s q.size (fun y => y = q.d h ∨ q.Others h y) (percolateDown o q s h).1
      (percolateDown o q s h).2 :=
  (percolateDownLoop_slides _ q.size q s h ho.pos).place lw ho

theorem bubbleUp_frame {β : Type} (g : σ → β) (hg : ∀ s x k, g (o.setpos s x k) = g s)
    (hlt : h < q.size) : g (bubbleUp o q s h).2 = g s := by
  have hs := bubbleUpLoop_slides (o := o) (o.getpri s (q.d h)) h q s h hlt
  exact (hg _ _ _).trans (hs.frame g hg)

theorem percolateDown_frame {β : Type} (g : σ → β) (hg : ∀ s x k, g (o.setpos s x k) = g s)
    (hpos : 1 ≤ h) : g (percolateDown o q s h).2 = g s := by
  have hs := percolateDownLoop_slides (o := o) (o.getpri s (q.d h)) q.size q s h hpos
  exact (hg _ _ _).trans (hs.frame g hg)

/-! ### The operations of the queue -/

theorem Placed.others_iff (hp : Placed o q s) (hpos : 1 ≤ h) (hlt : h < q.size) (y : α) :
    q.Others h y ↔ q.Mem y ∧ y ≠ q.d h := by
  constructor
  · rintro ⟨i, hi, hi', hih, rfl⟩
    exact ⟨⟨i, hi, hi', rfl⟩, fun hd => hih (hp.inj hi hi' hpos hlt hd)⟩
  · rintro ⟨⟨i, hi, hi', rfl⟩, hne⟩
    exact ⟨i, hi, hi', fun hih => hne (by rw [hih]), rfl⟩

/-- A placed queue has a hole at every slot, for the element that stands there. -/
theorem Placed.hole (hp : Placed o q s) (hpos : 1 ≤ h) (hlt : h < q.size) :
    Hole o q s h (q.d h) where
  pos := hpos
  lt := hlt
  placed := fun i hi hi' _ => hp i hi hi'
  fresh := fun ho => ((hp.others_iff hpos hlt _).1 ho).2 rfl

/-- **`pqueue_insert` adds the element and keeps every element placed.** -/
theorem pqueueInsert_requeued (lw : o.Lawful) (hp : Placed o q s) (hsz : 1 ≤ q.size)
    (hx : ¬ q.Mem x) :
    Requeued o q s (q.size + 1) (fun y => y = x ∨ q.Mem y) (pqueueInsert o q s x).1
      (pqueueInsert o q s x).2 := by
  have hd : ∀ i, i < q.size → (({ q with size := q.size + 1 } : Pqueue α).setD q.size x).d i
      = q.d i := fun i hi => setD_d_ne _ x (by omega)
  have hothers : ∀ y, (({ q with size := q.size + 1 } : Pqueue α).setD q.size x).Others q.size y
      ↔ q.Mem y := by
    intro y
    constructor
    · rintro ⟨i, hi, hi', hih, rfl⟩
      rw [setD_size] at hi'
      exact ⟨i, hi, by dsimp only at hi'; omega, (hd i (by dsimp only at hi'; omega)).symm⟩
    · rintro ⟨i, hi, hi', rfl⟩
      exact ⟨i, hi, by rw [setD_size]; dsimp only; omega, by omega, hd i hi'⟩
  have hole : Hole o (({ q with size := q.size + 1 } : Pqueue α).setD q.size x) s q.size x := by
    refine ⟨hsz, by rw [setD_size]; dsimp only; omega, fun i hi hi' hih => ?_, ?_⟩
    · rw [setD_size] at hi'
      dsimp only at hi'
      rw [hd i (by omega)]
      exact hp i hi (by omega)
    · rwa [hothers]
  have hr := bubbleUp_requeued (h := q.size) lw (by rwa [setD_d_self])
  rw [setD_d_self] at hr
  refine ⟨hr.placed, hr.size, hr.avail, fun y => ?_, fun y hy => hr.getpos y ?_⟩
  · rw [← hothers y]
    exact hr.mem y
  · rwa [hothers y]

theorem pqueueInsert_frame {β : Type} (g : σ → β) (hg : ∀ s x k, g (o.setpos s x k) = g s) :
    g (pqueueInsert o q s x).2 = g s :=
  bubbleUp_frame g hg (by rw [setD_size]; exact Nat.lt_succ_self _)

/-- **`pqueue_change_priority` keeps the elements and every element placed.** -/
theorem pqueueChangePriority_requeued (lw : o.Lawful) (hp : Placed o q s) (hx : q.Mem x)
    (pri : ℕ) :
    Requeued o q s q.size q.Mem (pqueueChangePriority o q s pri x).1
      (pqueueChangePriority o q s pri x).2 := by
  obtain ⟨hpos, hlt, hd⟩ := hp.d_getpos hx
  have hp' : Placed o q (o.setpri s x pri) := fun i hi hi' => by
    rw [lw.getpos_setpri]
    exact hp i hi hi'
  have hpq : ∀ y, (y = q.d (o.getpos s x) ∨ q.Others (o.getpos s x) y) ↔ q.Mem y := by
    intro y
    rw [hp.others_iff hpos hlt]
    constructor
    · rintro (rfl | hy)
      · exact ⟨_, hpos, hlt, rfl⟩
      · exact hy.1
    · exact fun hy => or_iff_not_imp_left.2 fun hne => ⟨hy, hne⟩
  have key : ∀ r : Pqueue α × σ,
      Requeued o q (o.setpri s x pri) q.size
        (fun y => y = q.d (o.getpos s x) ∨ q.Others (o.getpos s x) y) r.1 r.2 →
      Requeued o q s q.size q.Mem r.1 r.2 := by
    intro r hr
    refine ⟨hr.placed, hr.size, hr.avail, fun y => (hr.mem y).trans (hpq y), fun y hy => ?_⟩
    rw [hr.getpos y fun h => hy ((hpq y).1 h), lw.getpos_setpri]
  unfold pqueueChangePriority
  simp only [lw.getpos_setpri]
  split_ifs
  · exact key _ (bubbleUp_requeued lw (hp'.hole hpos hlt))
  · exact key _ (percolateDown_requeued lw (hp'.hole hpos hlt))

theorem pqueueChangePriority_frame {β : Type} (g : σ → β)
    (hg : ∀ s x k, g (o.setpos s x k) = g s) (lw : o.Lawful) (hp : Placed o q s) (hx : q.Mem x)
    (pri : ℕ) : g (pqueueChangePriority o q s pri x).2 = g (o.setpri s x pri) := by
  obtain ⟨hpos, hlt, -⟩ := hp.d_getpos hx
  unfold pqueueChangePriority
  simp only [lw.getpos_setpri]
  split_ifs
  · exact bubbleUp_frame g hg hlt
  · exact percolateDown_frame g hg hpos

theorem pqueuePeek_eq_none : pqueuePeek q = none ↔ q.size = 1 := by
  unfold pqueuePeek; split_ifs with h <;> simp [h]

theorem pqueuePeek_eq_some : pqueuePeek q = some x ↔ q.size ≠ 1 ∧ q.d 1 = x := by
  unfold pqueuePeek; split_ifs with h <;> simp [h]

/-- The queue once the last element has taken slot `k`. -/
def takeLast (q : Pqueue α) (k : ℕ) : Pqueue α :=
  ({ q with size := q.size - 1 } : Pqueue α).setD k (q.d (q.size - 1))

@[simp] theorem takeLast_size (q : Pqueue α) (k : ℕ) : (q.takeLast k).size = q.size - 1 := rfl

theorem takeLast_d_ne (q : Pqueue α) {i k : ℕ} (hi : i ≠ k) : (q.takeLast k).d i = q.d i :=
  setD_d_ne _ _ hi

@[simp] theorem takeLast_d_self (q : Pqueue α) (k : ℕ) :
    (q.takeLast k).d k = q.d (q.size - 1) := setD_d_self _ _ _

/-- The elements in the other slots, when the last element takes the slot of another. -/
theorem Placed.takeLast_others (hp : Placed o q s) {k : ℕ} (hk : 1 ≤ k) (hlt : k < q.size - 1)
    (y : α) : (q.takeLast k).Others k y ↔ q.Mem y ∧ y ≠ q.d k ∧ y ≠ q.d (q.size - 1) := by
  constructor
  · rintro ⟨i, hi, hi', hik, rfl⟩
    rw [takeLast_size] at hi'
    rw [takeLast_d_ne q hik]
    refine ⟨⟨i, hi, by omega, rfl⟩, fun h => hik (hp.inj hi (by omega) hk (by omega) h), fun h => ?_⟩
    have := hp.inj hi (by omega) (by omega) (by omega) h
    omega
  · rintro ⟨⟨i, hi, hi', rfl⟩, hne, hl⟩
    have hik : i ≠ k := fun h => hne (by rw [h])
    have hil : i ≠ q.size - 1 := fun h => hl (by rw [h])
    exact ⟨i, hi, by rw [takeLast_size]; omega, hik, takeLast_d_ne q hik⟩

/-- The last element may move from the slot it has taken. -/
theorem Placed.takeLast_hole (hp : Placed o q s) {k : ℕ} (hk : 1 ≤ k) (hlt : k < q.size - 1) :
    Hole o (q.takeLast k) s k ((q.takeLast k).d k) where
  pos := hk
  lt := hlt
  placed := fun i hi hi' hik => by
    rw [takeLast_size] at hi'
    rw [takeLast_d_ne q hik]
    exact hp i hi (by omega)
  fresh := fun ho => ((hp.takeLast_others hk hlt _).1 ho).2.2 (takeLast_d_self q k)

/-- The elements once the last one has taken the slot of another: all but the one that stood
there. -/
theorem Placed.takeLast_mem (hp : Placed o q s) {k : ℕ} (hk : 1 ≤ k) (hlt : k < q.size - 1)
    (y : α) : (y = (q.takeLast k).d k ∨ (q.takeLast k).Others k y) ↔ q.Mem y ∧ y ≠ q.d k := by
  have hlast : q.d (q.size - 1) ≠ q.d k := fun hd => by
    have := hp.inj (by omega) (by omega) hk (by omega) hd
    omega
  rw [takeLast_d_self, hp.takeLast_others hk hlt]
  constructor
  · rintro (rfl | ⟨hy, hne, -⟩)
    · exact ⟨⟨_, by omega, by omega, rfl⟩, hlast⟩
    · exact ⟨hy, hne⟩
  · exact fun hy => or_iff_not_imp_left.2 fun hne => ⟨hy.1, hy.2, hne⟩

/-- Behind the last slot nothing moves. -/
theorem percolateDown_behind {k : ℕ} (hk : q.size ≤ 2 * k) :
    percolateDown o q s k = (q.setD k (q.d k), o.setpos s (q.d k) k) := by
  have hloop : ∀ pri fuel, percolateDownLoop o pri fuel q s k = (q, s, k) := by
    intro pri fuel
    cases fuel with
    | zero => rfl
    | succ fuel => simp [percolateDownLoop, maxchild, hk]
  unfold percolateDown
  simp only [hloop]

/-- The last element is taken off: it is stored over itself. -/
theorem Placed.takeLast_end (lw : o.Lawful) (hp : Placed o q s) {k : ℕ} (hk : 1 ≤ k)
    (hlast : q.size = k + 1) :
    Requeued o q s (q.size - 1) (fun y => q.Mem y ∧ y ≠ q.d k)
      (percolateDown o (q.takeLast k) s k).1 (percolateDown o (q.takeLast k) s k).2 := by
  have hd : (q.takeLast k).d k = q.d k := by rw [takeLast_d_self, show q.size - 1 = k by omega]
  have hsame : ∀ i, i ≠ k → ((q.takeLast k).setD k (q.d k)).d i = q.d i := fun i hi =>
    (setD_d_ne _ _ hi).trans (takeLast_d_ne q hi)
  have hpos : ∀ y, o.getpos (o.setpos s (q.d k) k) y = o.getpos s y := by
    intro y
    by_cases hy : y = q.d k
    · rw [hy, lw.getpos_setpos_self, hp k hk (by omega)]
    · exact lw.getpos_setpos_ne _ _ _ _ hy
  rw [percolateDown_behind (by rw [takeLast_size]; omega), hd]
  refine ⟨fun i hi hi' => ?_, rfl, rfl, fun y => ⟨?_, ?_⟩, fun y _ => hpos y⟩
  · rw [setD_size, takeLast_size] at hi'
    rw [hpos, hsame i (by omega)]
    exact hp i hi (by omega)
  · rintro ⟨i, hi, hi', rfl⟩
    rw [setD_size, takeLast_size] at hi'
    rw [hsame i (by omega)]
    refine ⟨⟨i, hi, by omega, rfl⟩, fun h => ?_⟩
    have := hp.inj hi (by omega) hk (by omega) h
    omega
  · rintro ⟨⟨i, hi, hi', rfl⟩, hne⟩
    have hik : i ≠ k := fun h => hne (by rw [h])
    exact ⟨i, hi, by rw [setD_size, takeLast_size]; omega, hsame i hik⟩

/-- **`pqueue_pop` takes the head off and keeps the other elements placed.** -/
theorem pqueuePop_requeued (lw : o.Lawful) (hp : Placed o q s) (hsz : 1 < q.size) :
    Requeued o q s (q.size - 1) (fun y => q.Mem y ∧ y ≠ q.d 1) (pqueuePop o q s).2.1
      (pqueuePop o q s).2.2 := by
  have hpop : (pqueuePop o q s).2 = percolateDown o (q.takeLast 1) s 1 := by
    unfold pqueuePop
    rw [if_neg (by omega)]
    rfl
  rw [hpop]
  by_cases h2 : q.size = 2
  · exact hp.takeLast_end lw le_rfl h2
  · -- the last element takes the slot of the head and moves down from there
    have hlt : 1 < q.size - 1 := by omega
    have hr := percolateDown_requeued lw (hp.takeLast_hole le_rfl hlt)
    exact ⟨hr.placed, hr.size, hr.avail, fun y => (hr.mem y).trans (hp.takeLast_mem le_rfl hlt y),
      fun y hy => hr.getpos y fun h => hy ((hp.takeLast_mem le_rfl hlt y).1 h)⟩

theorem pqueuePop_frame {β : Type} (g : σ → β) (hg : ∀ s x k, g (o.setpos s x k) = g s) :
    g (pqueuePop o q s).2.2 = g s := by
  unfold pqueuePop
  split_ifs
  · rfl
  · exact percolateDown_frame g hg le_rfl

end Pqueue

end NvmeVirt
