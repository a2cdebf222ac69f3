/-
# A ledger of time slots, and a ring that shows a window of it

Every slot holds `max` credits.  A request takes what it needs from consecutive
slots, from each what is left of it.  A ring of `n` entries shows the next `n` slots
from some slot on if each entry is what its slot has left.
-/

import Mathlib.Tactic

namespace SlotLedger

variable {max n m s t rem head x k : ℕ} {used : ℕ → ℕ} {ring : ℕ → ℕ}

/-- The credits a request takes from a slot that has `u` used up. -/
def share (max rem u : ℕ) : ℕ := min rem (max - u)

/-- A request for `rem` credits takes them from `n` slots at most, from slot `s` on. -/
def take (max : ℕ) : ℕ → ℕ → ℕ → (ℕ → ℕ) → ℕ → ℕ
  | 0, _, _, used => used
  | n + 1, s, rem, used =>
    take max n (s + 1) (rem - share max rem (used s))
      (Function.update used s (used s + share max rem (used s)))

/-- Nothing is taken for nothing. -/
theorem take_zero : take max n s 0 used = used := by
  induction n generalizing s used with
  | zero => rfl
  | succ n ih =>
    have hshare : share max 0 (used s) = 0 := Nat.zero_min _
    have hsame : Function.update used s (used s + 0) = used := Function.update_eq_self s used
    rw [take, hshare, hsame]
    exact ih

/-- Slots before the first and behind the last one are left alone. -/
theorem take_of_outside (h : x < s ∨ s + n ≤ x) : take max n s rem used x = used x := by
  induction n generalizing s rem used with
  | zero => rfl
  | succ n ih =>
    rw [take, ih (by omega), Function.update_of_ne (by omega)]

/-- **No slot is over-committed.** -/
theorem take_le (h : ∀ x, used x ≤ max) : take max n s rem used x ≤ max := by
  induction n generalizing s rem used with
  | zero => exact h x
  | succ n ih =>
    refine ih fun y => ?_
    by_cases hy : y = s
    · subst hy
      rw [Function.update_self]
      unfold share
      have := h y
      omega
    · rw [Function.update_of_ne hy]
      exact h y

/-- Entry `k` of the ring, counted from its head, is what slot `t + k` has left. -/
def Shows (n max : ℕ) (ring : ℕ → ℕ) (head t : ℕ) (used : ℕ → ℕ) : Prop :=
  ∀ k < n, ring ((head + k) % n) = max - used (t + k)

/-- The entries of a ring are different places. -/
theorem ring_index_inj {a b : ℕ} (ha : a < n) (hb : b < n)
    (h : (head + a) % n = (head + b) % n) : a = b := by
  have hmod : a % n = b % n := Nat.ModEq.add_left_cancel' head h
  rwa [Nat.mod_eq_of_lt ha, Nat.mod_eq_of_lt hb] at hmod

/-- **Credits are taken from an entry and its slot.** -/
theorem Shows.consume (h : Shows n max ring head t used) (hk : k < n) (c : ℕ) :
    Shows n max
      (Function.update ring ((head + k) % n) (ring ((head + k) % n) - c)) head t
      (Function.update used (t + k) (used (t + k) + c)) := by
  intro j hj
  by_cases hjk : j = k
  · subst hjk
    rw [Function.update_self, Function.update_self, h j hj]
    omega
  · have hne : (head + j) % n ≠ (head + k) % n := fun he => hjk (ring_index_inj hj hk he)
    rw [Function.update_of_ne hne, Function.update_of_ne (by omega), h j hj]

/-- **The head moves on:** the entries it passes are filled up, and no slot that comes into the
window has been used. -/
theorem Shows.advance {ring' : ℕ → ℕ} {t' : ℕ} (h : Shows n max ring head t used) (hm : m ≤ n)
    (hring : ∀ k < n, ring' ((head + k) % n) = if k < m then max else ring ((head + k) % n))
    (hkeep : ∀ k, m + k < n → used (t + (m + k)) = used (t' + k))
    (hnew : ∀ k, n ≤ m + k → used (t' + k) = 0) :
    Shows n max ring' ((head + m) % n) t' used := by
  intro k hk
  rw [Nat.mod_add_mod, Nat.add_assoc]
  rcases Nat.lt_or_ge (m + k) n with hlt | hge
  · rw [hring _ hlt, if_neg (by omega), h _ hlt, hkeep k hlt]
  · have hwrap : (head + (m + k)) % n = (head + (m + k - n)) % n := by
      rw [show head + (m + k) = head + (m + k - n) + n by omega, Nat.add_mod_right]
    rw [hwrap, hring _ (by omega), if_pos (by omega), hnew k hge, Nat.sub_zero]

end SlotLedger
