/-
# A table and its reverse table

A table `m` maps keys to places and a reverse table `r` names, for every live
place, the key that maps there.  `Inverse` is the relation between them;
dropping the mapping of a key and assigning a new place to an unmapped key keep
it, which is all that an update in place or a move does.
-/

import Mathlib.Tactic
import Mathlib.Algebra.Order.BigOperators.Group.Finset

namespace Inverse

universe u v

variable {K : Type u} {V : Type v}

/-- `r` is the inverse of `m` between the keys in `dom` and the live places. -/
structure IsInverse (dom : K → Prop) (m : K → Option V) (r : V → K) (live : V → Prop) :
    Prop where
  forward : ∀ k, dom k → ∀ v, m k = some v → live v ∧ r v = k
  backward : ∀ v, live v → dom (r v) ∧ m (r v) = some v

variable {dom : K → Prop} {m m' : K → Option V} {r r' : V → K} {live live' : V → Prop} {k : K}
  {v : V}

/-- Two keys do not share a place. -/
theorem IsInverse.inj (h : IsInverse dom m r live) {j : K} (hk : dom k) (hj : dom j)
    (hkv : m k = some v) (hjv : m j = some v) : k = j := by
  rw [← (h.forward k hk v hkv).2, (h.forward j hj v hjv).2]

/-- What is not looked at may differ. -/
theorem IsInverse.congr (h : IsInverse dom m r live) (hm : ∀ j, dom j → m' j = m j)
    (hl : ∀ w, live' w ↔ live w) (hr : ∀ w, live w → r' w = r w) :
    IsInverse dom m' r' live' where
  forward := fun j hj w hjw => by
    obtain ⟨h1, h2⟩ := h.forward j hj w (by rw [← hm j hj, hjw])
    exact ⟨(hl w).2 h1, (hr w h1).trans h2⟩
  backward := fun w hw => by
    obtain ⟨h1, h2⟩ := h.backward w ((hl w).1 hw)
    rw [hr w ((hl w).1 hw)]
    exact ⟨h1, by rw [hm _ h1, h2]⟩

section

variable [DecidableEq K]

/-- **Dropping the mapping of a key:** its place stops being live. -/
theorem IsInverse.drop (h : IsInverse dom m r live) (hk : dom k) (hv : m k = some v)
    (hl : ∀ w, live' w ↔ live w ∧ w ≠ v) (hr : ∀ w, live w → w ≠ v → r' w = r w) :
    IsInverse dom (Function.update m k none) r' live' where
  forward := fun j hj w hjw => by
    by_cases hjk : j = k
    · rw [hjk, Function.update_self] at hjw
      cases hjw
    · rw [Function.update_of_ne hjk] at hjw
      obtain ⟨h1, h2⟩ := h.forward j hj w hjw
      have hwv : w ≠ v := by
        rintro rfl
        exact hjk (h.inj hj hk hjw hv)
      exact ⟨(hl w).2 ⟨h1, hwv⟩, (hr w h1 hwv).trans h2⟩
  backward := fun w hw => by
    obtain ⟨h1, hwv⟩ := (hl w).1 hw
    obtain ⟨h2, h3⟩ := h.backward w h1
    rw [hr w h1 hwv]
    have hne : r w ≠ k := by
      intro hrk
      rw [hrk, hv] at h3
      exact hwv (Option.some.inj h3).symm
    exact ⟨h2, by rw [Function.update_of_ne hne, h3]⟩

/-- **Assigning a new place to an unmapped key:** the place becomes live. -/
theorem IsInverse.assign (h : IsInverse dom m r live) (hk : dom k) (hm : m k = none)
    (hv : ¬ live v) (hl : ∀ w, live' w ↔ live w ∨ w = v) (hrv : r' v = k)
    (hr : ∀ w, live w → r' w = r w) :
    IsInverse dom (Function.update m k (some v)) r' live' where
  forward := fun j hj w hjw => by
    by_cases hjk : j = k
    · subst hjk
      rw [Function.update_self] at hjw
      obtain rfl := Option.some.inj hjw
      exact ⟨(hl v).2 (.inr rfl), hrv⟩
    · rw [Function.update_of_ne hjk] at hjw
      obtain ⟨h1, h2⟩ := h.forward j hj w hjw
      exact ⟨(hl w).2 (.inl h1), (hr w h1).trans h2⟩
  backward := fun w hw => by
    rcases (hl w).1 hw with hw | rfl
    · obtain ⟨h1, h2⟩ := h.backward w hw
      rw [hr w hw]
      have hne : r w ≠ k := by
        intro hrk
        rw [hrk, hm] at h2
        cases h2
      exact ⟨h1, by rw [Function.update_of_ne hne, h2]⟩
    · rw [hrv]
      exact ⟨hk, Function.update_self ..⟩

end

/-- **Live places are as many as mapped keys.** -/
theorem IsInverse.card_eq (h : IsInverse dom m r live) (keys : Finset K) (places : Finset V)
    (hkeys : ∀ j, j ∈ keys ↔ dom j ∧ (m j).isSome) (hplaces : ∀ w, w ∈ places ↔ live w) :
    places.card = keys.card := by
  refine Finset.card_bij (fun w _ => r w) (fun w hw => ?_) (fun w hw w' hw' he => ?_)
    fun j hj => ?_
  · obtain ⟨h1, h2⟩ := h.backward w ((hplaces w).1 hw)
    exact (hkeys _).2 ⟨h1, by rw [h2]; rfl⟩
  · have h1 := (h.backward w ((hplaces w).1 hw)).2
    have h2 := (h.backward w' ((hplaces w').1 hw')).2
    rw [he, h2] at h1
    exact (Option.some.inj h1).symm
  · obtain ⟨h1, h2⟩ := (hkeys j).1 hj
    obtain ⟨w, hw⟩ := Option.isSome_iff_exists.1 h2
    obtain ⟨h3, h4⟩ := h.forward j h1 w hw
    exact ⟨w, (hplaces w).2 h3, h4⟩

end Inverse
