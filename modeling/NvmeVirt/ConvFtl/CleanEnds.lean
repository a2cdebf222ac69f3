/-
# The cleaner comes to its end

The loop of `clean_ftl` ends whatever the draws and the bounds of the turns are: a
round that finds a chunk leaves less to do, and a round that finds none moves on to
the next list, from where at most `num_lists` rounds lead to a chunk of the same
partition and at most `nr_parts` rounds to a partition that has one.  At the end
every chunk is written, so the new namespace maps the logical pages the old one
mapped, each of them once.
-/

import NvmeVirt.ConvFtl.CleanRounds

namespace NvmeVirt

open Outcome ConvFtl

namespace CleanState

variable {n numLists degree : ℕ} {draws : Draws} {limit : ℤ} {limits : ℕ → ℤ} {spp : Ssdparams}
  {target : ℕ → Multiset ℕ} {s s' : CleanState} {i : ℕ}

/-! ### Where a round leads -/

/-- The number behind `k`, or the first, counted round. -/
theorem wrap_eq {n k : ℕ} (hk : k < n) : (if n ≤ k + 1 then 0 else k + 1) = (k + 1) % n := by
  split_ifs with h
  · rw [show k + 1 = n by omega, Nat.mod_self]
  · rw [Nat.mod_eq_of_lt (by omega)]

/-- From any number every other one is reached by counting round. -/
theorem exists_steps {n j k : ℕ} (hj : j < n) (hk : k < n) : ∃ d, (j + (d + 1)) % n = k :=
  ⟨k + n - j - 1, by
    rw [show j + (k + n - j - 1 + 1) = k + n by omega, Nat.add_mod_right, Nat.mod_eq_of_lt hk]⟩

/-- One step round, and `d` more. -/
theorem step_mod (n j d : ℕ) : ((j + 1) % n + (d + 1)) % n = (j + (d + 1 + 1)) % n := by
  rw [Nat.mod_add_mod]
  congr 1
  omega

/-- The list in use is left: the turn is over, or the list is empty. -/
def Leaves (numLists : ℕ) (s : CleanState) (limit : ℤ) : Prop :=
  (¬ s.restart ∧ limit ≤ s.count) ∨ s.active (s.slot numLists) = []

/-- The next list of the partition, as it has a chunk. -/
theorem nextSlot_of_have (hk : s.curChunk < numLists) (hleaves : s.Leaves numLists limit)
    (hhave : s.HaveChunk numLists) : s.nextSlot numLists n limit =
      { s with count := 0, curChunk := (s.curChunk + 1) % numLists } := by
  unfold CleanState.nextSlot
  rw [if_pos (show _ ∨ _ from hleaves), if_pos hhave, wrap_eq hk]

/-- The next partition, as this one has no chunk. -/
theorem nextSlot_of_not_have (hi : s.curIndex < n) (hleaves : s.Leaves numLists limit)
    (hhave : ¬ s.HaveChunk numLists) : s.nextSlot numLists n limit =
      { s with count := 0, curChunk := 0, curIndex := (s.curIndex + 1) % n } := by
  unfold CleanState.nextSlot
  rw [if_pos (show _ ∨ _ from hleaves), if_neg hhave, wrap_eq hi]

/-! ### The end of the loop -/

variable (n numLists degree draws limits i s) in
/-- The loop ends when it comes to the state `s` in round `i`. -/
def Finishes : Prop :=
  Halts (fun i s => s.round numLists n degree draws (limits i)) (Again numLists n) i s

section

variable (hlim : ∀ i, 0 < limits i) (hw : ∀ q, q < n → Writable spp (target q)) {w : ℕ}
  (ih : ∀ i (s : CleanState), s.Inv n numLists spp target → s.load n numLists < w →
    s.Finishes n numLists degree draws limits i)

/-- A round that finds no chunk, or has used up its turn. -/
theorem Inv.finishes_idle (h : s.Inv n numLists spp target)
    (hidle : (s.nextSlot numLists n (limits i)).active
        ((s.nextSlot numLists n (limits i)).slot numLists) = [] ∨
      limits i ≤ (s.nextSlot numLists n (limits i)).count)
    (hnext : Again numLists n { s.nextSlot numLists n (limits i) with restart := false } →
      Finishes n numLists degree draws limits
        { s.nextSlot numLists n (limits i) with restart := false } (i + 1)) :
    s.Finishes n numLists degree draws limits i := by
  refine Halts.round (Q := fun t => t = { s.nextSlot numLists n (limits i) with restart := false })
    (E := fun _ => True) ?_ ?_
  · dsimp only
    rw [h.round_idle hidle]
    rfl
  · rintro t rfl
    exact hnext

include hw ih

/-- A round that finds a chunk. -/
theorem Inv.finishes_busy (h : s.Inv n numLists spp target) (hload : s.load n numLists ≤ w)
    (hchunk : (s.nextSlot numLists n (limits i)).active
      ((s.nextSlot numLists n (limits i)).slot numLists) ≠ [])
    (hcount : (s.nextSlot numLists n (limits i)).count < limits i) :
    s.Finishes n numLists degree draws limits i := by
  refine Halts.round (h.round hw) fun t ht _ => ih _ _ ht.inv ?_
  exact (ht.less ⟨hchunk, hcount⟩).trans_le hload

include hlim

/-- A round that moves on to the next list: there is a chunk in it, or the loop goes on with
it. -/
theorem Inv.finishes_leaves (h : s.Inv n numLists spp target) (hload : s.load n numLists ≤ w)
    {j k : ℕ} (hslot : s.nextSlot numLists n (limits i) =
      { s with count := 0, curChunk := k, curIndex := j })
    (hnext : s.active (j * numLists + k) = [] → Finishes n numLists degree draws limits
      { s with count := 0, curChunk := k, curIndex := j, restart := false } (i + 1)) :
    s.Finishes n numLists degree draws limits i := by
  by_cases hempty : s.active (j * numLists + k) = []
  · refine h.finishes_idle (.inl ?_) fun _ => ?_
    · rw [hslot]
      exact hempty
    · rw [hslot]
      exact hnext hempty
  · refine h.finishes_busy hw ih hload ?_ ?_
    · rw [hslot]
      exact hempty
    · rw [hslot]
      exact hlim i

/-- **Within a partition:** the list `d + 1` steps on has a chunk. -/
theorem Inv.finishes_near (d : ℕ) (h : s.Inv n numLists spp target)
    (hload : s.load n numLists ≤ w) (hleaves : s.Leaves numLists (limits i))
    (hchunk : s.active (s.curIndex * numLists + (s.curChunk + (d + 1)) % numLists) ≠ []) :
    s.Finishes n numLists degree draws limits i := by
  induction d generalizing i s with
  | zero =>
    have hhave : s.HaveChunk numLists := ⟨_, Nat.mod_lt _ (by have := h.chunk; omega), hchunk⟩
    exact h.finishes_leaves hlim hw ih hload (nextSlot_of_have h.chunk hleaves hhave)
      fun hempty => absurd hempty hchunk
  | succ d hd =>
    have hpos : 0 < numLists := by have := h.chunk; omega
    have hhave : s.HaveChunk numLists := ⟨_, Nat.mod_lt _ hpos, hchunk⟩
    refine h.finishes_leaves hlim hw ih hload (nextSlot_of_have h.chunk hleaves hhave)
      fun hempty => ?_
    refine hd (h.move 0 false h.index (Nat.mod_lt _ hpos)) hload (.inr hempty) ?_
    dsimp only
    rw [step_mod]
    exact hchunk

/-- The partition in use has a chunk. -/
theorem Inv.finishes_have (h : s.Inv n numLists spp target) (hload : s.load n numLists ≤ w)
    (hleaves : s.Leaves numLists (limits i)) (hhave : s.HaveChunk numLists) :
    s.Finishes n numLists degree draws limits i := by
  obtain ⟨k, hk, hchunk⟩ := hhave
  obtain ⟨d, hd⟩ := exists_steps h.chunk hk
  exact h.finishes_near hlim hw ih d hload hleaves (by rwa [hd])

/-- **Between the partitions:** the one `e + 1` steps on has a chunk. -/
theorem Inv.finishes_far (e : ℕ) (h : s.Inv n numLists spp target)
    (hload : s.load n numLists ≤ w) (hleaves : s.Leaves numLists (limits i))
    (hchunk : ∃ k < numLists, s.active ((s.curIndex + (e + 1)) % n * numLists + k) ≠ []) :
    s.Finishes n numLists degree draws limits i := by
  have hn : 0 < n := by have := h.index; omega
  have hpos : 0 < numLists := by have := h.chunk; omega
  induction e generalizing i s with
  | zero =>
    by_cases hhave : s.HaveChunk numLists
    · exact h.finishes_have hlim hw ih hload hleaves hhave
    · refine h.finishes_leaves hlim hw ih hload (nextSlot_of_not_have h.index hleaves hhave)
        fun hempty => ?_
      exact (h.move 0 false (Nat.mod_lt _ hn) hpos).finishes_have hlim hw ih hload (.inr hempty)
        hchunk
  | succ e he =>
    by_cases hhave : s.HaveChunk numLists
    · exact h.finishes_have hlim hw ih hload hleaves hhave
    · refine h.finishes_leaves hlim hw ih hload (nextSlot_of_not_have h.index hleaves hhave)
        fun hempty => ?_
      refine he (h.move 0 false (Nat.mod_lt _ hn) hpos) hload (.inr hempty) ?_
      dsimp only
      rw [step_mod]
      exact hchunk

/-- **A list that is left:** some list has a chunk and is found, or nothing is left to do. -/
theorem Inv.finishes_of_leaves (h : s.Inv n numLists spp target)
    (hload : s.load n numLists ≤ w) (hleaves : s.Leaves numLists (limits i)) :
    s.Finishes n numLists degree draws limits i := by
  by_cases hany : ∃ q < n, ∃ k < numLists, s.active (q * numLists + k) ≠ []
  · obtain ⟨q, hq, k, hk, hchunk⟩ := hany
    obtain ⟨e, he⟩ := exists_steps h.index hq
    exact h.finishes_far hlim hw ih e hload hleaves ⟨k, hk, by rwa [he]⟩
  · push Not at hany
    obtain ⟨hact, -, -⟩ := nextSlot_same s n numLists (limits i)
    have hnext := h.nextSlot (limits i)
    refine h.finishes_idle (.inl ?_) fun hagain => ?_
    · rw [hact]
      exact hany _ hnext.index _ hnext.chunk
    · -- Nothing is active, so the loop is over.
      rcases hagain with hfalse | ⟨j, hj, hchunk⟩
      · cases hfalse
      · have hpos : 0 < numLists := by have := h.chunk; omega
        have hq : j / numLists < n := Nat.div_lt_of_lt_mul hj
        have hempty := hany _ hq _ (Nat.mod_lt j hpos)
        rw [Nat.mul_comm, Nat.div_add_mod] at hempty
        exact absurd (hact ▸ hempty) hchunk

end

/-- **The loop ends**, from every state and whatever is found as the bounds of the turns. -/
theorem Inv.finishes (hlim : ∀ i, 0 < limits i) (hw : ∀ q, q < n → Writable spp (target q))
    (h : s.Inv n numLists spp target) : s.Finishes n numLists degree draws limits i := by
  induction hload : s.load n numLists using Nat.strong_induction_on generalizing i s with
  | _ w ih =>
    replace ih : ∀ i (s : CleanState), s.Inv n numLists spp target → s.load n numLists < w →
        s.Finishes n numLists degree draws limits i := fun i s h hlt => ih _ hlt h rfl
    by_cases hleaves : s.Leaves numLists (limits i)
    · exact h.finishes_of_leaves hlim hw ih hload.le hleaves
    have hslot : s.nextSlot numLists n (limits i) = s := if_neg hleaves
    have hchunk : s.active (s.slot numLists) ≠ [] := fun hempty => hleaves (.inr hempty)
    by_cases hcount : s.count < limits i
    · exact h.finishes_busy hw ih hload.le (by rwa [hslot]) (by rwa [hslot])
    refine h.finishes_idle (.inr (by rw [hslot]; exact not_lt.1 hcount)) fun _ => ?_
    -- The turn was used up but `restart` was set: now it is not.
    rw [hslot]
    have hinv := h.move s.count false h.index h.chunk
    by_cases hleaves' : Leaves numLists { s with restart := false } (limits (i + 1))
    · exact hinv.finishes_of_leaves hlim hw ih hload.le hleaves'
    have hslot' : CleanState.nextSlot numLists n { s with restart := false } (limits (i + 1)) =
        { s with restart := false } := if_neg hleaves'
    refine hinv.finishes_busy hw ih hload.le ?_ ?_
    · rw [hslot']
      exact hchunk
    · rw [hslot']
      by_contra hle
      exact hleaves' (.inl ⟨Bool.false_ne_true, not_lt.1 hle⟩)

/-- **At the end** every chunk is written. -/
theorem Inv.finished (h : s.Inv n numLists spp target) (hend : ¬ s.Again numLists n) :
    (∀ k < n * numLists, s.active k = [] ∧ s.lists k = []) ∧
      ∀ q < n, (s.ns.ftls q).mappedSet.val = target q := by
  have hempty : ∀ q < n, ∀ k < numLists,
      s.active (q * numLists + k) = [] ∧ s.lists (q * numLists + k) = [] := by
    intro q hq k hk
    have hlt := slot_lt hq hk
    have hact : s.active (q * numLists + k) = [] := by
      by_contra hchunk
      exact hend (.inr ⟨_, by rw [Nat.mul_comm numLists]; exact hlt, hchunk⟩)
    refine ⟨hact, ?_⟩
    by_contra hwait
    exact (h.slots q k hq hk).awake hwait hact
  refine ⟨fun j hj => ?_, fun q hq => ?_⟩
  · have hpos : 0 < numLists := Nat.pos_of_ne_zero fun h0 => by
      rw [h0] at hj
      omega
    have hq : j / numLists < n := Nat.div_lt_of_lt_mul (by rwa [Nat.mul_comm])
    have hboth := hempty _ hq _ (Nat.mod_lt j hpos)
    rwa [Nat.mul_comm, Nat.div_add_mod] at hboth
  · have hnone : s.pending n numLists q = 0 := Finset.sum_eq_zero fun k hk => by
      obtain ⟨hact, hwait⟩ := hempty q hq k (Finset.mem_range.1 hk)
      rw [hact, hwait, pagesOf_nil, add_zero]
    rw [← h.balance q hq, hnone, add_zero]

end CleanState

end NvmeVirt
