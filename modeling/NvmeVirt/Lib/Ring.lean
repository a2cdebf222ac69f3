/-
# Positions on a ring

The slots of a ring of `n` entries are the numbers below `n`; `dist n a b` is the
way from `a` forward to `b`.  A slot lies in the stretch from `a` up to `b` when
it comes before `b` on the way from `a`.
-/

import Mathlib.Tactic

namespace Ring

variable {n a b i x : ℕ}

/-- The steps from `a` forward to `b` on a ring of `n` slots. -/
def dist (n a b : ℕ) : ℕ := if b < a then b + n - a else b - a

/-- The slot after `a`. -/
def succ (n a : ℕ) : ℕ := if a + 1 = n then 0 else a + 1

theorem dist_lt (ha : a < n) (hb : b < n) : dist n a b < n := by
  unfold dist
  split_ifs <;> omega

@[simp] theorem dist_self : dist n a a = 0 := by
  unfold dist
  split_ifs <;> omega

/-- Walking the distance leads there. -/
theorem add_dist_mod (ha : a < n) (hb : b < n) : (a + dist n a b) % n = b := by
  unfold dist
  split_ifs with hba
  · rw [show a + (b + n - a) = b + n by omega, Nat.add_mod_right, Nat.mod_eq_of_lt hb]
  · rw [show a + (b - a) = b by omega, Nat.mod_eq_of_lt hb]

/-- The slot after a position counted without wrap-around. -/
theorem succ_mod (hn : 0 < n) : succ n (i % n) = (i + 1) % n := by
  have hlt := Nat.mod_lt i hn
  unfold succ
  rw [← Nat.mod_add_mod]
  split_ifs with h
  · rw [h, Nat.mod_self]
  · rw [Nat.mod_eq_of_lt (show i % n + 1 < n by omega)]

theorem succ_lt (hb : b < n) : succ n b < n := by
  unfold succ
  split_ifs <;> omega

/-- The slots left to pass, some way on from `a`. -/
theorem dist_advance (ha : a < n) (hb : b < n) (hi : i ≤ dist n a b) :
    dist n ((a + i) % n) b = dist n a b - i := by
  have hlt := dist_lt ha hb
  rcases Nat.lt_or_ge (a + i) n with h | h
  · rw [Nat.mod_eq_of_lt h]
    unfold dist at *
    split_ifs at * <;> omega
  · rw [Nat.mod_eq_sub_mod h, Nat.mod_eq_of_lt (by omega)]
    unfold dist at *
    split_ifs at * <;> omega

/-- Slot `x` lies in the stretch from `a` up to `b`. -/
def Between (n a x b : ℕ) : Prop := dist n a x < dist n a b

theorem not_between_right (n a b : ℕ) : ¬ Between n a b b := Nat.lt_irrefl _

theorem between_left (h : dist n a b ≠ 0) : Between n a a b := by
  unfold Between
  rw [dist_self]
  omega

/-- A stretch that grows by a slot at its end. -/
theorem between_succ_right (ha : a < n) (hb : b < n) (hx : x < n) (hs : succ n b ≠ a) :
    Between n a x (succ n b) ↔ Between n a x b ∨ x = b := by
  unfold Between dist succ at *
  split_ifs at * <;> omega

theorem dist_succ_right (ha : a < n) (hs : succ n b ≠ a) :
    dist n a (succ n b) = dist n a b + 1 := by
  unfold dist succ at *
  split_ifs at * <;> omega

/-- A stretch that loses its first slot. -/
theorem between_succ_left (ha : a < n) (hb : b < n) (hx : x < n) (hd : dist n a b ≠ 0) :
    Between n (succ n a) x b ↔ Between n a x b ∧ x ≠ a := by
  unfold Between dist succ at *
  split_ifs at * <;> omega

theorem dist_succ_left (hb : b < n) (hd : dist n a b ≠ 0) :
    dist n (succ n a) b = dist n a b - 1 := by
  unfold dist succ at *
  split_ifs at * <;> omega

end Ring
