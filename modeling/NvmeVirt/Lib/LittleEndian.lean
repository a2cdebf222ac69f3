/-
# Numbers and byte strings

Unsigned numbers of a fixed width as bytes, the lowest first, and byte strings
that are partly overwritten.  A number that fits its width is read back as it
was written.
-/

import Mathlib.Tactic

namespace LittleEndian

/-- The `k` low bytes of `n`, the lowest first. -/
def leBytes : ℕ → ℕ → List UInt8
  | 0, _ => []
  | k + 1, n => UInt8.ofNat n :: leBytes k (n / 256)

/-- The number of a byte string, the lowest byte first. -/
def leNat : List UInt8 → ℕ
  | [] => 0
  | b :: bs => b.toNat + 256 * leNat bs

@[simp] theorem length_leBytes (k n : ℕ) : (leBytes k n).length = k := by
  induction k generalizing n with
  | zero => rfl
  | succ k ih => rw [leBytes, List.length_cons, ih]

/-- What is read is what was written, up to the width. -/
theorem leNat_leBytes (k n : ℕ) : leNat (leBytes k n) = n % 256 ^ k := by
  induction k generalizing n with
  | zero => rw [leBytes, leNat, pow_zero, Nat.mod_one]
  | succ k ih =>
    have hpow : 256 ^ (k + 1) = 256 * 256 ^ k := pow_succ' 256 k
    rw [leBytes, leNat, ih, UInt8.toNat_ofNat', hpow, Nat.mod_mul]

theorem leNat_leBytes_of_lt {k n : ℕ} (h : n < 256 ^ k) : leNat (leBytes k n) = n := by
  rw [leNat_leBytes, Nat.mod_eq_of_lt h]

theorem leNat_lt (bs : List UInt8) : leNat bs < 256 ^ bs.length := by
  induction bs with
  | nil => exact Nat.one_pos
  | cons b bs ih =>
    have := b.toNat_lt
    rw [leNat, List.length_cons, pow_succ]
    omega

/-- A byte string whose beginning is overwritten. -/
def overlay (old new : List UInt8) : List UInt8 := new ++ old.drop new.length

theorem overlay_of_length {old new : List UInt8} (h : old.length = new.length) :
    overlay old new = new := by
  rw [overlay, ← h, List.drop_length, List.append_nil]

@[simp] theorem overlay_nil (old : List UInt8) : overlay old [] = old := rfl

theorem length_overlay {old new : List UInt8} (h : new.length ≤ old.length) :
    (overlay old new).length = old.length := by
  rw [overlay, List.length_append, List.length_drop]
  omega

/-- The beginning of a byte string in front of anything. -/
theorem take_append_of_length {n : ℕ} {bs : List UInt8} (h : bs.length = n) (rest : List UInt8) :
    (bs ++ rest).take n = bs := by
  rw [← h, List.take_left]

theorem drop_append_of_length {n : ℕ} {bs : List UInt8} (h : bs.length = n) (rest : List UInt8) :
    (bs ++ rest).drop n = rest := by
  rw [← h, List.drop_left]

@[simp] theorem take_leBytes_append (k n : ℕ) (rest : List UInt8) :
    (leBytes k n ++ rest).take k = leBytes k n := take_append_of_length (length_leBytes k n) rest

/-- What lies behind a number. -/
theorem drop_leBytes_append {k i : ℕ} (h : k ≤ i) (n : ℕ) (rest : List UInt8) :
    (leBytes k n ++ rest).drop i = rest.drop (i - k) := by
  obtain ⟨j, rfl⟩ := Nat.exists_eq_add_of_le h
  rw [Nat.add_sub_cancel_left, ← List.drop_drop, drop_append_of_length (length_leBytes k n)]

theorem length_flatMap {k : ℕ} {f : ℕ → List UInt8} (hf : ∀ j, (f j).length = k) (n : ℕ) :
    ((List.range n).flatMap f).length = k * n := by
  rw [List.length_flatMap, List.map_congr_left fun j _ => hf j, List.map_const',
    List.length_range, List.sum_replicate, smul_eq_mul, mul_comm]

/-- An entry of an array of structures of `k` bytes. -/
theorem take_drop_flatMap {k n i : ℕ} {f : ℕ → List UInt8} (hf : ∀ j, (f j).length = k)
    (hi : i < n) : (((List.range n).flatMap f).drop (k * i)).take k = f i := by
  obtain ⟨m, rfl⟩ := Nat.exists_eq_add_of_lt hi
  rw [show i + m + 1 = i + (m + 1) by omega, List.range_add, List.flatMap_append,
    drop_append_of_length (length_flatMap hf i), List.range_succ_eq_map, List.map_cons, List.flatMap_cons,
    take_append_of_length (hf _), add_zero]

/-- A word of four bytes. -/
example : leNat (leBytes 4 0x5A4E5346) = 0x5A4E5346 := by decide

end LittleEndian
