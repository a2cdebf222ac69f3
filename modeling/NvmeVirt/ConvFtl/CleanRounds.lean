/-
# The rounds of the cleaner

A round of `clean_ftl` keeps, for every partition, the pages that are mapped and
the pages of its chunks taken together.  A round that finds a chunk in its list,
and has not used up its turn, leaves less to do; any other round only moves on to
the next list.
-/

import NvmeVirt.ConvFtl.CleanTurns

namespace NvmeVirt

open Outcome ConvFtl TurnState

/-- The lists of one number, in partition `q`: the chunks are those of the partition, a chunk that
waits has a page left, and when one waits one is active. -/
structure SlotOk (n q : ℕ) (cs ws : List LbaChunk) : Prop where
  active : ∀ c ∈ cs, c.idx = q
  waiting : ∀ c ∈ ws, c.idx = q ∧ 0 < (c.locals n).length
  awake : ws ≠ [] → cs ≠ []

namespace CleanState

variable {n numLists degree : ℕ} {draws : Draws} {limit : ℤ} {spp : Ssdparams}
  {target : ℕ → Multiset ℕ} {s s' : CleanState}

/-- The pages of the chunks of partition `q`. -/
def pending (n numLists : ℕ) (s : CleanState) (q : ℕ) : Multiset ℕ :=
  ∑ k ∈ Finset.range numLists,
    (pagesOf n (s.active (q * numLists + k)) + pagesOf n (s.lists (q * numLists + k)))

/-- What is left to do. -/
def load (n numLists : ℕ) (s : CleanState) : ℕ :=
  ∑ j ∈ Finset.range (n * numLists), (weight n (s.active j) + weight n (s.lists j))

/-- **What every round keeps:** the pages of each partition, mapped and pending, are those in
`target`. -/
structure Inv (n numLists : ℕ) (spp : Ssdparams) (target : ℕ → Multiset ℕ) (s : CleanState) :
    Prop where
  nrParts : s.ns.nrParts = n
  index : s.curIndex < n
  chunk : s.curChunk < numLists
  tidy : ∀ q, q < n → (s.ns.ftls q).Tidy ∧ (s.ns.ftls q).ssd.sp = spp
  balance : ∀ q, q < n → (s.ns.ftls q).mappedSet.val + s.pending n numLists q = target q
  slots : ∀ q k, q < n → k < numLists →
    SlotOk n q (s.active (q * numLists + k)) (s.lists (q * numLists + k))

/-- The lists of a number in use are numbered below their count. -/
theorem slot_lt {q k : ℕ} (hq : q < n) (hk : k < numLists) : q * numLists + k < n * numLists := by
  have := Nat.mul_le_mul_right numLists (show q + 1 ≤ n from hq)
  rw [Nat.succ_mul] at this
  omega

/-- A number is that of one list of one partition. -/
theorem slot_inj {q k q' k' : ℕ} (hk : k < numLists) (hk' : k' < numLists)
    (h : q * numLists + k = q' * numLists + k') : q = q' ∧ k = k' := by
  have hdiv : ∀ q k, k < numLists → (q * numLists + k) / numLists = q := fun q k hk => by
    rw [Nat.add_comm, Nat.add_mul_div_right _ _ (by omega), Nat.div_eq_of_lt hk, Nat.zero_add]
  have hq : q = q' := by rw [← hdiv q k hk, h, hdiv q' k' hk']
  exact ⟨hq, by subst hq; omega⟩

/-! ### The next list -/

/-- Which lists are in use does not count. -/
theorem Inv.move (h : s.Inv n numLists spp target) (count : ℤ) {i k : ℕ} (restart : Bool)
    (hi : i < n) (hk : k < numLists) : Inv n numLists spp target
      { s with count := count, curChunk := k, curIndex := i, restart := restart } :=
  ⟨h.nrParts, hi, hk, h.tidy, h.balance, h.slots⟩

/-- The number behind `k`, or the first. -/
theorem wrap_lt {n k : ℕ} (hk : k < n) : (if n ≤ k + 1 then 0 else k + 1) < n := by
  split_ifs <;> omega

/-- The next list is one there is. -/
theorem Inv.nextSlot (h : s.Inv n numLists spp target) (limit : ℤ) :
    (s.nextSlot numLists n limit).Inv n numLists spp target := by
  have hi := h.index
  have hk := h.chunk
  unfold CleanState.nextSlot
  by_cases hnext : ¬ s.restart ∧ limit ≤ s.count ∨ s.active (s.slot numLists) = []
  · rw [if_pos hnext]
    dsimp only
    by_cases hhave : s.HaveChunk numLists
    · rw [if_pos hhave]
      exact h.move 0 s.restart hi (wrap_lt hk)
    · rw [if_neg hhave]
      exact h.move 0 s.restart (wrap_lt hi) (by omega)
  · rw [if_neg hnext]
    exact h

/-- It changes only which lists are in use. -/
theorem nextSlot_same (s : CleanState) (n numLists : ℕ) (limit : ℤ) :
    (s.nextSlot numLists n limit).active = s.active ∧
      (s.nextSlot numLists n limit).lists = s.lists ∧
      (s.nextSlot numLists n limit).restart = s.restart := by
  unfold CleanState.nextSlot
  split_ifs <;> exact ⟨rfl, rfl, rfl⟩

/-! ### A round -/

/-- The lists in use. -/
theorem Inv.slotOk (h : s.Inv n numLists spp target) :
    SlotOk n s.curIndex (s.active (s.slot numLists)) (s.lists (s.slot numLists)) :=
  h.slots _ _ h.index h.chunk

/-- Their pages are some of the partition's. -/
theorem Inv.turn (h : s.Inv n numLists spp target) (hw : Writable spp (target s.curIndex)) :
    ∃ m, m ≤ target s.curIndex ∧ Writable spp m ∧
      OnTurn n s.curIndex spp s.ns m (s.active (s.slot numLists)) (s.turn numLists) := by
  obtain ⟨htidy, hsp⟩ := h.tidy _ h.index
  have hslot := h.slotOk
  refine ⟨_, ?_, ?_, ⟨⟨rfl, fun _ _ => rfl, htidy, hsp⟩, rfl, by simp [CleanState.turn],
    hslot.active, hslot.waiting⟩⟩
  all_goals
    have hle : (s.turn numLists).mapped s.curIndex + (pagesOf n (s.turn numLists).active +
        pagesOf n (s.active (s.slot numLists)) + pagesOf n (s.turn numLists).waiting) ≤
        target s.curIndex := by
      rw [← h.balance _ h.index]
      refine add_le_add_right ?_ _
      have hsum := Finset.single_le_sum (f := fun k =>
        pagesOf n (s.active (s.curIndex * numLists + k)) +
          pagesOf n (s.lists (s.curIndex * numLists + k)))
        (fun k _ => Multiset.zero_le _) (Finset.mem_range.2 h.chunk)
      exact (by rw [CleanState.turn, pagesOf_nil, zero_add]; exact hsum)
  · exact hle
  · exact ⟨Multiset.nodup_of_le hle hw.nodup, fun l hl => hw.lt l (Multiset.mem_of_le hle hl)⟩

/-- What a round achieves. -/
structure RoundDone (n numLists : ℕ) (spp : Ssdparams) (target : ℕ → Multiset ℕ) (w : ℕ)
    (busy : Prop) (s : CleanState) : Prop where
  inv : s.Inv n numLists spp target
  le : s.load n numLists ≤ w
  less : busy → s.load n numLists < w

/-- The turn of a list is put back. -/
theorem Inv.putBack (h : s.Inv n numLists spp target) {m : Multiset ℕ} {t : TurnState}
    {busy : Prop}
    (hturn : OnTurn n s.curIndex spp s.ns m (s.active (s.slot numLists)) (s.turn numLists))
    (ht : TurnDone n s.curIndex spp s.ns m (weight n (s.turn numLists).active +
      weight n (s.active (s.slot numLists)) + weight n (s.turn numLists).waiting) busy t)
    (hawake : t.waiting ≠ [] → t.active ≠ []) :
    RoundDone n numLists spp target (s.load n numLists) busy (s.putBack numLists t) := by
  have hact : (s.putBack numLists t).active (s.slot numLists) = t.active :=
    Function.update_self _ _ _
  have hlists : (s.putBack numLists t).lists (s.slot numLists) = t.waiting :=
    Function.update_self _ _ _
  have hact' : ∀ j, j ≠ s.slot numLists → (s.putBack numLists t).active j = s.active j :=
    fun j hj => Function.update_of_ne hj _ _
  have hlists' : ∀ j, j ≠ s.slot numLists → (s.putBack numLists t).lists j = s.lists j :=
    fun j hj => Function.update_of_ne hj _ _
  have hload := Sums.sum_change
    (f := fun j => weight n (s.active j) + weight n (s.lists j))
    (g := fun j => weight n ((s.putBack numLists t).active j) +
      weight n ((s.putBack numLists t).lists j))
    (Finset.mem_range.2 (slot_lt h.index h.chunk)) fun j _ hj => by
      rw [hact' j hj, hlists' j hj]
  have hslot : s.slot numLists = s.curIndex * numLists + s.curChunk := rfl
  rw [← hslot, hact, hlists] at hload
  have hle := ht.le
  have hless := ht.less
  have hnil : (s.turn numLists).active = [] := rfl
  have hwait : (s.turn numLists).waiting = s.lists (s.slot numLists) := rfl
  rw [hnil, hwait, weight_nil, Nat.zero_add] at hle hless
  refine ⟨⟨ht.on.else_.nrParts.trans h.nrParts, h.index, h.chunk, fun q hq => ?_, fun q hq => ?_,
    fun q k hq hk => ?_⟩, ?_, fun hb => ?_⟩
  · by_cases he : q = s.curIndex
    · subst he
      exact ⟨ht.on.else_.tidy, ht.on.else_.sp⟩
    · show (t.ns.ftls q).Tidy ∧ (t.ns.ftls q).ssd.sp = spp
      rw [ht.on.else_.others q he]
      exact h.tidy q hq
  · rw [← h.balance q hq]
    by_cases he : q = s.curIndex
    · subst he
      have hchange := Sums.sum_change
        (f := fun k => pagesOf n (s.active (s.curIndex * numLists + k)) +
          pagesOf n (s.lists (s.curIndex * numLists + k)))
        (g := fun k => pagesOf n ((s.putBack numLists t).active (s.curIndex * numLists + k)) +
          pagesOf n ((s.putBack numLists t).lists (s.curIndex * numLists + k)))
        (Finset.mem_range.2 h.chunk) fun k _ hk => by
          have hj : s.curIndex * numLists + k ≠ s.slot numLists := by
            rw [hslot]
            omega
          rw [hact' _ hj, hlists' _ hj]
      rw [← hslot, hact, hlists] at hchange
      have hbal := ht.on.balance.trans hturn.balance.symm
      rw [hnil, hwait, pagesOf_nil, zero_add, add_zero] at hbal
      -- Both sides with the pages of the lists that were put back.
      refine add_right_cancel (b := pagesOf n (s.active (s.slot numLists)) +
        pagesOf n (s.lists (s.slot numLists))) ?_
      show t.mapped s.curIndex + _ + _ = (s.turn numLists).mapped s.curIndex + _ + _
      unfold CleanState.pending
      rw [add_assoc, hchange, add_left_comm, hbal]
      abel
    · have hsame : (s.putBack numLists t).pending n numLists q = s.pending n numLists q := by
        refine Finset.sum_congr rfl fun k hk => ?_
        have hj : q * numLists + k ≠ s.slot numLists := fun hj =>
          he (slot_inj (Finset.mem_range.1 hk) h.chunk hj).1
        rw [hact' _ hj, hlists' _ hj]
      rw [hsame]
      show (t.ns.ftls q).mappedSet.val + _ = _
      rw [ht.on.else_.others q he]
  · by_cases hj : q * numLists + k = s.slot numLists
    · obtain ⟨rfl, rfl⟩ := slot_inj hk h.chunk hj
      rw [hj, hact, hlists]
      exact ⟨ht.on.active, ht.on.waiting, hawake⟩
    · rw [hact' _ hj, hlists' _ hj]
      exact h.slots q k hq hk
  · unfold CleanState.load
    omega
  · have := hless hb
    unfold CleanState.load
    omega

/-- **A round** keeps the pages of every partition, and leaves less to do if there is a chunk in
the list it comes to and the turn is not used up. -/
theorem Inv.round (h : s.Inv n numLists spp target)
    (hw : ∀ q, q < n → Writable spp (target q)) :
    Ends (s.round numLists n degree draws limit)
      (RoundDone n numLists spp target (s.load n numLists)
        ((s.nextSlot numLists n limit).active ((s.nextSlot numLists n limit).slot numLists) ≠ [] ∧
          (s.nextSlot numLists n limit).count < limit))
      (fun e => ∃ q, q < n ∧ Overfull spp (target q) e) := by
  obtain ⟨hact, hlists, -⟩ := nextSlot_same s n numLists limit
  have hload : (s.nextSlot numLists n limit).load n numLists = s.load n numLists := by
    unfold CleanState.load
    rw [hact, hlists]
  unfold CleanState.round
  have h₁ := h.nextSlot limit
  rw [← hload]
  generalize s.nextSlot numLists n limit = s₁ at h₁ ⊢
  obtain ⟨m, hm, hwm, hturn⟩ := h₁.turn (hw _ h₁.index)
  dsimp only
  refine ((ends_visitAll h₁.nrParts h₁.index hwm hturn rfl).mono (fun _ h => h) ?_).bind ?_
  · rintro e ⟨he, hfull⟩
    have := Multiset.card_le_card hm
    exact ⟨_, h₁.index, he, by omega⟩
  · intro t ht
    obtain ⟨hwake, hawake, -⟩ := ht.wake
    exact h₁.putBack hturn hwake hawake

/-- **A round that finds nothing to do** only moves on. -/
theorem Inv.round_idle (h : s.Inv n numLists spp target)
    (hidle : (s.nextSlot numLists n limit).active ((s.nextSlot numLists n limit).slot numLists) = [] ∨
      limit ≤ (s.nextSlot numLists n limit).count) :
    s.round numLists n degree draws limit =
      .ok { s.nextSlot numLists n limit with restart := false } := by
  unfold CleanState.round
  have h₁ := h.nextSlot limit
  generalize s.nextSlot numLists n limit = s₁ at h₁ hidle ⊢
  have hslot := h₁.slotOk
  dsimp only
  rw [visitAll_idle hslot.active hidle, ok_bind]
  have hwake : TurnState.wake { s₁.turn numLists with
      active := (s₁.turn numLists).active ++ s₁.active (s₁.slot numLists) } =
        { s₁.turn numLists with active := s₁.active (s₁.slot numLists) } := by
    unfold TurnState.wake
    split_ifs with hc
    · have hempty : s₁.active (s₁.slot numLists) = [] := hc.2
      have hnone : s₁.lists (s₁.slot numLists) = [] := by
        by_contra hne
        exact hslot.awake hne hempty
      dsimp only [CleanState.turn]
      rw [hnone]
      rfl
    · rfl
  rw [hwake]
  unfold CleanState.putBack
  dsimp only [CleanState.turn]
  rw [Function.update_eq_self, Function.update_eq_self]

end CleanState

end NvmeVirt
