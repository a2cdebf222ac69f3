/-
# Two programs in lockstep

`Agree R x y` says that two programs end alike.  The rules here let a proof walk
down two programs of the same text: branches on equal conditions, loops and runs
of commands keep a relation, and what one side is known to end in may be used on
the way.
-/

import NvmeVirt.Lib.Outcome

namespace Outcome

universe u v

variable {ε : Type u} {α β σ τ : Type v}

@[simp] theorem agree_ok {R : α → β → Prop} {a : α} {b : β} :
    Agree R (.ok a : Except ε α) (.ok b) ↔ R a b := Iff.rfl

@[simp] theorem agree_pure {R : α → β → Prop} {a : α} {b : β} :
    Agree R (pure a : Except ε α) (pure b) ↔ R a b := Iff.rfl

@[simp] theorem agree_error {R : α → β → Prop} {e e' : ε} :
    Agree R (.error e : Except ε α) (.error e' : Except ε β) ↔ e = e' := Iff.rfl

/-- What the left program is known to end in. -/
theorem Agree.and_ends {R : α → β → Prop} {x : Except ε α} {y : Except ε β} {Q : α → Prop}
    {E : ε → Prop} (h : Agree R x y) (hx : Ends x Q E) :
    Agree (fun a b => R a b ∧ Q a) x y := by
  cases x with
  | ok a =>
    cases y with
    | ok b => exact ⟨h, hx⟩
    | error e => exact h.elim
  | error e =>
    cases y with
    | ok b => exact h.elim
    | error e' => exact h

/-- Both programs begin with the same step. -/
theorem Agree.same_bind {γ : Type v} {R : α → β → Prop} (x : Except ε γ) {f : γ → Except ε α}
    {g : γ → Except ε β} (h : ∀ c, x = .ok c → Agree R (f c) (g c)) :
    Agree R (x >>= f) (x >>= g) := by
  cases x with
  | ok c => exact h c rfl
  | error e => exact rfl

/-- **The rule of the branch:** both programs take the same one. -/
theorem Agree.ite {R : α → β → Prop} {p q : Prop} [Decidable p] [Decidable q]
    {x x' : Except ε α} {y y' : Except ε β} (hpq : q ↔ p) (hpos : p → Agree R x y)
    (hneg : ¬ p → Agree R x' y') :
    Agree R (if p then x else x') (if q then y else y') := by
  by_cases h : p
  · rw [if_pos h, if_pos (hpq.2 h)]
    exact hpos h
  · rw [if_neg h, if_neg fun hq => h (hpq.1 hq)]
    exact hneg h

/-- **The rule of the counted loop:** the bodies keep a relation indexed by the number of rounds
done. -/
theorem Agree.forRange {n : ℕ} {b : ℕ → σ → Except ε σ} {c : ℕ → τ → Except ε τ} {s : σ} {t : τ}
    (I : ℕ → σ → τ → Prop) (h0 : I 0 s t)
    (hstep : ∀ i, i < n → ∀ s t, I i s t → Agree (I (i + 1)) (b i s) (c i t)) :
    Agree (I n) (Outcome.forRange n b s) (Outcome.forRange n c t) := by
  induction n with
  | zero => exact h0
  | succ n ih =>
    rw [forRange_succ, forRange_succ]
    exact (ih fun i hi => hstep i (by omega)).bind fun s t h => hstep n (by omega) s t h

/-- **The rule of runs:** what every pair of steps keeps, every pair of runs keeps. -/
theorem Agree.runList {step : σ → α → Except ε σ} {step' : τ → α → Except ε τ}
    {R : σ → τ → Prop} (hstep : ∀ a s t, R s t → Agree R (step s a) (step' t a))
    (as : List α) {s : σ} {t : τ} (h : R s t) :
    Agree R (Outcome.runList step s as) (Outcome.runList step' t as) := by
  induction as generalizing s t with
  | nil => exact h
  | cons a as ih =>
    rw [runList_cons, runList_cons]
    exact (hstep a s t h).bind fun s t h => ih h

/-! ### One program ends well where another does -/

/-- **The rule of the counted loop:** the loop ends as one does whose rounds end alike. -/
theorem forRange_of_ok {n : ℕ} {b c : ℕ → σ → Except ε σ} {s s' : σ}
    (hstep : ∀ i t t', b i t = .ok t' → c i t = .ok t') (h : Outcome.forRange n b s = .ok s') :
    Outcome.forRange n c s = .ok s' := by
  induction n generalizing s' with
  | zero => exact h
  | succ n ih =>
    rw [forRange_succ, bind_eq_ok] at h ⊢
    obtain ⟨t, hloop, hlast⟩ := h
    exact ⟨t, ih hloop, hstep n t s' hlast⟩

end Outcome
