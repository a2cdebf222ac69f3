/-
# What `pqueue_is_valid` checks

`subtree_is_valid` counts its positions in an `int`.  The left child of a position
from `2^30` on is a negative number, which a `size_t` never exceeds: the check
stops there, so it covers the slots below `2^31`.
-/

import NvmeVirt.ConvFtl.Lines

namespace NvmeVirt

open BinaryHeap

namespace Pqueue

variable {σ α : Type}

/-- An `int` compared with a `size_t`. -/
def intSlot (n : ℕ) : ℕ := (Int.bmod n (2 ^ 32) % 2 ^ 64).toNat

theorem intSlot_small {n : ℕ} (hn : n < 2 ^ 31) : intSlot n = n := by
  unfold intSlot Int.bmod
  dsimp only
  split_ifs <;> omega

theorem intSlot_large {n : ℕ} (hn : 2 ^ 31 ≤ n) (hn' : n < 2 ^ 32) : 2 ^ 63 ≤ intSlot n := by
  unfold intSlot Int.bmod
  dsimp only
  split_ifs <;> omega

section

variable (o : PqueueOps σ α) (q : Pqueue α) (s : σ)

/-- The check of one child of the node at `pos`; `rest` is what follows it. -/
def childIsValid (sub : ℕ → Option Bool) (pos child : ℕ) (rest : Option Bool) : Option Bool :=
  if child < q.size then
    if o.cmppri (o.getpri s (q.d pos)) (o.getpri s (q.d child)) then some false
    else
      match sub child with
      | some true => rest
      | r => r
  else rest

/-- `subtree_is_valid`; `none` is a recursion deeper than `fuel`. -/
def subtreeIsValid : ℕ → ℕ → Option Bool
  | 0, _ => none
  | fuel + 1, pos =>
    childIsValid o q s (subtreeIsValid fuel) pos (intSlot (2 * pos))
      (childIsValid o q s (subtreeIsValid fuel) pos (intSlot (2 * pos + 1)) (some true))

/-- `pqueue_is_valid`; a child is at least one slot further, so `size` levels are enough. -/
def pqueueIsValid : Option Bool := subtreeIsValid o q s q.size 1

end

variable {o : PqueueOps σ α} {q : Pqueue α} {s : σ}

/-- The slots the check covers. -/
def checked (q : Pqueue α) : ℕ := min q.size (2 ^ 31)

/-- A child the check looks at is a slot it covers. -/
theorem intSlot_lt_iff {c : ℕ} (hsize : q.size ≤ 2 ^ 63) (hc : c < 2 ^ 32) :
    intSlot c < q.size ↔ c < q.checked := by
  unfold checked
  rcases Nat.lt_or_ge c (2 ^ 31) with hlt | hge
  · rw [intSlot_small hlt]
    omega
  · have := intSlot_large hge hc
    omega

/-- **One child** is in order with its subtree, and so is the rest. -/
theorem childIsValid_spec (mf : o.MinFirst) {sub : ℕ → Option Bool} (pos : ℕ) {c : ℕ} {b : Bool}
    {rest : Option Bool} (hsize : q.size ≤ 2 ^ 63) (hc : c < 2 ^ 32)
    (hsub : c < q.checked → ∃ b', sub c = some b' ∧
      (b' = true ↔ OrderedBelow q.checked (prio o q s) c))
    (hrest : rest = some b) : ∃ b', childIsValid o q s sub pos (intSlot c) rest = some b' ∧
      (b' = true ↔ (c < q.checked → prio o q s pos ≤ prio o q s c ∧
        OrderedBelow q.checked (prio o q s) c) ∧ b = true) := by
  unfold childIsValid
  by_cases hlt : c < q.checked
  · have hslot : intSlot c = c := intSlot_small (lt_of_lt_of_le hlt (min_le_right _ _))
    rw [if_pos ((intSlot_lt_iff hsize hc).2 hlt), hslot]
    by_cases hcmp : o.cmppri (o.getpri s (q.d pos)) (o.getpri s (q.d c))
    · rw [if_pos hcmp]
      refine ⟨false, rfl, by simp, fun h => ?_⟩
      exact absurd ((mf.cmppri_iff _ _).1 hcmp) (not_lt.2 (h.1 hlt).1)
    · rw [if_neg hcmp]
      have hle : prio o q s pos ≤ prio o q s c :=
        not_lt.1 fun h => hcmp ((mf.cmppri_iff _ _).2 h)
      obtain ⟨b', hb', hiff⟩ := hsub hlt
      rw [hb']
      cases b' with
      | true => exact ⟨b, hrest, fun h => ⟨fun _ => ⟨hle, hiff.1 rfl⟩, h⟩, fun h => h.2⟩
      | false => exact ⟨false, rfl, by simp, fun h => (hiff.2 (h.1 hlt).2)⟩
  · rw [if_neg fun h => hlt ((intSlot_lt_iff hsize hc).1 h)]
    exact ⟨b, hrest, fun h => ⟨fun h' => absurd h' hlt, h⟩, fun h => h.2⟩

/-- **`subtree_is_valid`** decides whether the subtree of a slot is in order. -/
theorem subtreeIsValid_spec (mf : o.MinFirst) (hsize : q.size ≤ 2 ^ 63) (fuel : ℕ) {pos : ℕ}
    (hpos : 1 ≤ pos) (hpos' : pos < 2 ^ 31) (hfuel : 0 < fuel) (hdeep : q.checked ≤ pos + fuel) :
    ∃ b, subtreeIsValid o q s fuel pos = some b ∧
      (b = true ↔ OrderedBelow q.checked (prio o q s) pos) := by
  induction fuel generalizing pos with
  | zero => omega
  | succ fuel ih =>
    have hsub : ∀ c, c = 2 * pos ∨ c = 2 * pos + 1 → c < q.checked →
        ∃ b', subtreeIsValid o q s fuel c = some b' ∧
          (b' = true ↔ OrderedBelow q.checked (prio o q s) c) := by
      intro c hc hlt
      have hlt' : c < 2 ^ 31 := lt_of_lt_of_le hlt (min_le_right _ _)
      exact ih (by omega) hlt' (by omega) (by omega)
    obtain ⟨b₁, hright, hiff₁⟩ := childIsValid_spec mf pos (b := true) hsize (by omega)
      (hsub (2 * pos + 1) (.inr rfl)) rfl
    obtain ⟨b₂, hleft, hiff₂⟩ := childIsValid_spec mf pos hsize (by omega)
      (hsub (2 * pos) (.inl rfl)) hright
    refine ⟨b₂, hleft, hiff₂.trans ?_⟩
    rw [hiff₁, orderedBelow_iff hpos]
    constructor
    · rintro ⟨hl, hr, -⟩ c hc hlt
      obtain rfl | rfl : c = 2 * pos ∨ c = 2 * pos + 1 := by omega
      · exact hl hlt
      · exact hr hlt
    · exact fun h => ⟨h _ (by omega), h _ (by omega), rfl⟩

/-- **`pqueue_is_valid`** ends, and returns 1 if and only if the slots below `2^31` are a heap. -/
theorem pqueueIsValid_iff (mf : o.MinFirst) (hsz : 1 ≤ q.size) (hsize : q.size ≤ 2 ^ 63) :
    ∃ b, pqueueIsValid o q s = some b ∧ (b = true ↔ Ordered q.checked (prio o q s)) := by
  obtain ⟨b, hb, hiff⟩ := subtreeIsValid_spec (s := s) mf hsize q.size le_rfl (by decide) hsz
    ((min_le_left _ _).trans (Nat.le_add_left _ _))
  exact ⟨b, hb, hiff.trans orderedBelow_one⟩

/-- Two lines, the one with more valid pages in front. -/
def wrongFront : Pqueue ℕ where
  size := 3
  avail := 5
  step := 5
  d := fun i => 3 - i

/-- **Two lines in the wrong order** do not pass the check, and are no heap. -/
theorem pqueueIsValid_iff_wrongFront :
    pqueueIsValid victimOps wrongFront (fun i => ⟨i, 0, i, 3 - i⟩) = some false ∧
      ¬ Ordered wrongFront.checked (prio victimOps wrongFront fun i => ⟨i, 0, i, 3 - i⟩) := by
  obtain ⟨b, hb, hiff⟩ := pqueueIsValid_iff victimOps_minFirst (q := wrongFront)
    (s := fun i => ⟨i, 0, i, 3 - i⟩) (by decide) (by decide)
  have hfalse : pqueueIsValid victimOps wrongFront (fun i => ⟨i, 0, i, 3 - i⟩) = some false := by
    decide +kernel
  rw [hfalse] at hb
  cases hb
  exact ⟨hfalse, fun ho => Bool.false_ne_true (hiff.2 ho)⟩

/-- A heap passes the check. -/
theorem Heaped.isValid (mf : o.MinFirst) (hh : Heaped o q s) (hsz : 1 ≤ q.size)
    (hsize : q.size ≤ 2 ^ 63) : pqueueIsValid o q s = some true := by
  obtain ⟨b, hb, hiff⟩ := pqueueIsValid_iff mf (s := s) hsz hsize
  rw [hb, hiff.2 (hh.mono (min_le_left _ _))]

end Pqueue

end NvmeVirt
