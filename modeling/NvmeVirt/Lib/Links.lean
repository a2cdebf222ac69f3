/-
# Links without a cycle

Every element names at most one other.  Where some rank goes down along every link no
walk comes back, so a walk whose links stay in a finite set ends within as many steps as
the set has elements.
-/

import Mathlib.Data.Finset.Card
import Mathlib.Data.Finset.Filter

namespace Links

universe u

variable {ι : Type u} {next next' : ι → Option ι} {rank : ι → ℕ} {x y s : ι} {k : ℕ}

/-- Where `k` links lead, if there are so many. -/
def follow (next : ι → Option ι) : ℕ → ι → Option ι
  | 0, x => some x
  | k + 1, x => (next x).bind (follow next k)

@[simp] theorem follow_zero : follow next 0 x = some x := rfl

theorem follow_succ_of_none (h : next x = none) : follow next (k + 1) x = none := by
  rw [follow, h, Option.bind_none]

theorem follow_succ_of_some (h : next x = some y) :
    follow next (k + 1) x = follow next k y := by
  rw [follow, h, Option.bind_some]

/-- The rank goes down along every link. -/
def Descends (next : ι → Option ι) (rank : ι → ℕ) : Prop :=
  ∀ x y, next x = some y → rank y < rank x

/-- A walk ends before it has passed all elements of lower rank. -/
theorem follow_eq_none_of_card_lt {S : Finset ι} (hd : Descends next rank)
    (hS : ∀ x y, next x = some y → y ∈ S)
    (hk : (S.filter fun z => rank z < rank x).card < k) : follow next k x = none := by
  induction k generalizing x with
  | zero => exact absurd hk (Nat.not_lt_zero _)
  | succ k ih =>
    cases hx : next x with
    | none => exact follow_succ_of_none hx
    | some y =>
      rw [follow_succ_of_some hx]
      have hlow := hd x y hx
      have hsub : (S.filter fun z => rank z < rank y) ⊂ S.filter fun z => rank z < rank x := by
        refine Finset.ssubset_iff_of_subset (fun z hz => ?_) |>.2 ⟨y, ?_, ?_⟩
        · rw [Finset.mem_filter] at hz ⊢
          exact ⟨hz.1, hz.2.trans hlow⟩
        · exact Finset.mem_filter.2 ⟨hS x y hx, hlow⟩
        · exact fun hy => lt_irrefl _ (Finset.mem_filter.1 hy).2
      exact ih ((Finset.card_lt_card hsub).trans_le (Nat.lt_succ_iff.1 hk))

/-- **Every walk ends** within as many steps as there are elements to walk over. -/
theorem follow_card_eq_none {S : Finset ι} (hd : Descends next rank)
    (hS : ∀ x y, next x = some y → y ∈ S) (hx : x ∈ S) : follow next S.card x = none := by
  refine follow_eq_none_of_card_lt hd hS (Finset.card_lt_card ?_)
  refine Finset.filter_ssubset.2 ⟨x, hx, lt_irrefl _⟩

/-- Taking links away brings no cycle. -/
theorem Descends.of_le (hd : Descends next rank)
    (h : ∀ x y, next' x = some y → next x = some y) : Descends next' rank :=
  fun x y hxy => hd x y (h x y hxy)

/-- **A new link to an end brings no cycle:** it goes below everything. -/
theorem Descends.link [DecidableEq ι] (hd : Descends next rank) (hend : next' s = none)
    (h : ∀ x y, next' x = some y → next x = some y ∨ y = s) :
    Descends next' fun x => if x = s then 0 else rank x + 1 := by
  intro x y hxy
  have hxs : x ≠ s := by
    rintro rfl
    rw [hend] at hxy
    cases hxy
  dsimp only
  rw [if_neg hxs]
  split_ifs with hys
  · exact Nat.succ_pos _
  · exact Nat.succ_lt_succ (hd x y ((h x y hxy).resolve_right hys))

end Links
