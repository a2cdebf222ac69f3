/-
# Sums and counts that change in one place, and sums along strides
-/

import Mathlib.Tactic
import Mathlib.Algebra.BigOperators.Group.Finset.Basic
import Mathlib.Algebra.BigOperators.Group.Finset.Sigma
import Mathlib.Algebra.Order.BigOperators.Group.Finset

namespace Sums

universe u v

variable {ι : Type u} [DecidableEq ι]

/-- A sum of which one term changes. -/
theorem sum_change {M : Type v} [AddCommMonoid M] {s : Finset ι} {f g : ι → M} {i : ι}
    (hi : i ∈ s) (h : ∀ j ∈ s, j ≠ i → g j = f j) : s.sum g + f i = s.sum f + g i := by
  have hrest : (s.erase i).sum g = (s.erase i).sum f :=
    Finset.sum_congr rfl fun j hj => h j (Finset.mem_of_mem_erase hj) (Finset.ne_of_mem_erase hj)
  rw [← Finset.add_sum_erase s f hi, ← Finset.add_sum_erase s g hi, hrest]
  abel

/-- One more element satisfies the predicate. -/
theorem card_filter_add_one {s : Finset ι} {p q : ι → Prop} [DecidablePred p] [DecidablePred q]
    {i : ι} (hi : i ∈ s) (h : ∀ j, j ≠ i → (q j ↔ p j)) (hp : ¬ p i) (hq : q i) :
    (s.filter q).card = (s.filter p).card + 1 := by
  have hins : s.filter q = insert i (s.filter p) := by
    ext j
    by_cases hj : j = i
    · subst hj; simp [hi, hq]
    · simp [hj, h j hj]
  rw [hins, Finset.card_insert_of_notMem (by simp [hp])]

/-- The numbers of a range, stride by stride from each of the first `n`: what is added up are the
numbers whose successor along the stride is in the range as well. -/
theorem sum_strides {M : Type v} [AddCommMonoid M] {n : ℕ} (hn : 0 < n) (s e : ℕ) (f : ℕ → M) :
    ∑ i ∈ Finset.range (min n (e + 1 - s)), ∑ j ∈ Finset.range ((e - (s + i)) / n),
      f (s + i + j * n) = ∑ l ∈ Finset.Ico s (e + 1 - n), f l := by
  rw [Finset.sum_sigma']
  refine Finset.sum_bij' (fun x _ => s + x.1 + x.2 * n) (fun l _ => ⟨(l - s) % n, (l - s) / n⟩)
    ?_ ?_ ?_ ?_ ?_
  · rintro ⟨i, j⟩ hx
    simp only [Finset.mem_sigma, Finset.mem_range, Finset.mem_Ico] at hx ⊢
    obtain ⟨hi, hj⟩ := hx
    have hle := (Nat.le_div_iff_mul_le hn).1 hj
    rw [Nat.succ_mul] at hle
    omega
  · intro l hl
    simp only [Finset.mem_sigma, Finset.mem_range, Finset.mem_Ico] at hl ⊢
    have hdiv := Nat.div_add_mod' (l - s) n
    have hmod := Nat.mod_lt (l - s) hn
    refine ⟨by omega, (Nat.le_div_iff_mul_le hn).2 ?_⟩
    rw [Nat.succ_mul]
    omega
  · rintro ⟨i, j⟩ hx
    simp only [Finset.mem_sigma, Finset.mem_range] at hx
    have hi : i < n := by omega
    have hsub : s + i + j * n - s = i + j * n := by omega
    simp only [hsub, Nat.add_mul_mod_self_right, Nat.mod_eq_of_lt hi, Nat.add_mul_div_right _ _ hn,
      Nat.div_eq_of_lt hi, Nat.zero_add]
  · intro l hl
    have hdiv := Nat.div_add_mod' (l - s) n
    simp only [Finset.mem_Ico] at hl
    show s + (l - s) % n + (l - s) / n * n = l
    omega
  · intros
    rfl

end Sums
