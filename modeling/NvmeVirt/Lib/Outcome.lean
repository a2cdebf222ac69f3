/-
# Programs that end in a value or stop with an error

`Ends x Q E` is the partial-correctness judgement for `x : Except ε α`: a value
satisfies `Q`, an error satisfies `E`.  Sequencing, weakening and the counted
loop `forRange` have one rule each; a proof about a program is a chain of
`Ends.bind` along its text, with the loop rule where the text has a loop.
-/

import Mathlib.Tactic

namespace Outcome

universe u v

variable {ε : Type u} {α β σ : Type v}

/-- `x` ends in a value with `Q` or stops with an error with `E`. -/
def Ends (x : Except ε α) (Q : α → Prop) (E : ε → Prop) : Prop :=
  match x with
  | .ok a => Q a
  | .error e => E e

@[simp] theorem ends_ok {a : α} {Q : α → Prop} {E : ε → Prop} :
    Ends (.ok a) Q E ↔ Q a := Iff.rfl

@[simp] theorem ends_pure {a : α} {Q : α → Prop} {E : ε → Prop} :
    Ends (pure a : Except ε α) Q E ↔ Q a := Iff.rfl

@[simp] theorem ends_error {e : ε} {Q : α → Prop} {E : ε → Prop} :
    Ends (.error e) Q E ↔ E e := Iff.rfl

/-- **The rule of sequencing.** -/
theorem Ends.bind {x : Except ε α} {f : α → Except ε β} {Q : α → Prop} {R : β → Prop}
    {E : ε → Prop} (hx : Ends x Q E) (hf : ∀ a, Q a → Ends (f a) R E) :
    Ends (x >>= f) R E := by
  cases x with
  | ok a => exact hf a hx
  | error e => exact hx

/-- **The rule of consequence.** -/
theorem Ends.mono {x : Except ε α} {Q Q' : α → Prop} {E E' : ε → Prop} (hx : Ends x Q E)
    (hQ : ∀ a, Q a → Q' a) (hE : ∀ e, E e → E' e) : Ends x Q' E' := by
  cases x with
  | ok a => exact hQ a hx
  | error e => exact hE e hx

/-- Every program ends somehow. -/
theorem Ends.trivial (x : Except ε α) : Ends x (fun _ => True) fun _ => True := by
  cases x <;> exact True.intro

theorem Ends.of_ok {x : Except ε α} {a : α} {Q : α → Prop} {E : ε → Prop} (hx : Ends x Q E)
    (h : x = .ok a) : Q a := by
  subst h; exact hx

theorem Ends.of_error {x : Except ε α} {e : ε} {Q : α → Prop} {E : ε → Prop} (hx : Ends x Q E)
    (h : x = .error e) : E e := by
  subst h; exact hx

/-- A program whose errors are given other names. -/
theorem Ends.mapError {ε' : Type u} {x : Except ε α} {g : ε → ε'} {Q : α → Prop} {E : ε' → Prop}
    (hx : Ends x Q fun e => E (g e)) : Ends (x.mapError g) Q E := by
  cases x with
  | ok a => exact hx
  | error e => exact hx

/-- The value a program ends in is its value. -/
theorem Ends.with_eq {x : Except ε α} {Q : α → Prop} {E : ε → Prop} (hx : Ends x Q E) :
    Ends x (fun a => Q a ∧ x = .ok a) E := by
  cases x with
  | ok a => exact ⟨hx, rfl⟩
  | error e => exact hx

/-- Two judgements of one program. -/
theorem Ends.and {x : Except ε α} {Q Q' : α → Prop} {E E' : ε → Prop} (hx : Ends x Q E)
    (hx' : Ends x Q' E') : Ends x (fun a => Q a ∧ Q' a) (fun e => E e ∧ E' e) := by
  cases x with
  | ok a => exact ⟨hx, hx'⟩
  | error e => exact ⟨hx, hx'⟩

/-- A second judgement that says nothing of the errors. -/
theorem Ends.and_ok {x : Except ε α} {Q Q' : α → Prop} {E : ε → Prop} (hx : Ends x Q E)
    (hx' : Ends x Q' fun _ => True) : Ends x (fun a => Q a ∧ Q' a) E :=
  (hx.and hx').mono (fun _ h => h) fun _ h => h.1

/-- A program that cannot stop ends in a value. -/
theorem Ends.exists_ok {x : Except ε α} {Q : α → Prop} (hx : Ends x Q fun _ => False) :
    ∃ a, x = .ok a ∧ Q a := by
  cases x with
  | ok a => exact ⟨a, rfl, hx⟩
  | error e => exact hx.elim

@[simp] theorem ok_bind (a : α) (f : α → Except ε β) : (Except.ok a >>= f) = f a := rfl

@[simp] theorem error_bind (e : ε) (f : α → Except ε β) :
    (Except.error e >>= f) = .error e := rfl

/-- A sequence ends in a value when both parts do. -/
theorem bind_eq_ok {x : Except ε α} {f : α → Except ε β} {b : β} :
    x >>= f = .ok b ↔ ∃ a, x = .ok a ∧ f a = .ok b := by
  cases x with
  | ok a => simp [Bind.bind, Except.bind]
  | error e => simp [Bind.bind, Except.bind]

/-- `for (i = 0; i < n; i++) s = body(i, s)`. -/
def forRange : ℕ → (ℕ → σ → Except ε σ) → σ → Except ε σ
  | 0, _, s => .ok s
  | n + 1, body, s => do
      let s ← forRange n body s
      body n s

@[simp] theorem forRange_zero (body : ℕ → σ → Except ε σ) (s : σ) :
    forRange 0 body s = .ok s := rfl

theorem forRange_succ (n : ℕ) (body : ℕ → σ → Except ε σ) (s : σ) :
    forRange (n + 1) body s = forRange n body s >>= body n := rfl

/-- **The rule of the counted loop:** an invariant indexed by the number of
rounds done. -/
theorem Ends.forRange {n : ℕ} {b : ℕ → σ → Except ε σ} {s : σ} (I : ℕ → σ → Prop)
    {E : ε → Prop} (h0 : I 0 s)
    (hstep : ∀ i, i < n → ∀ t, I i t → Ends (b i t) (I (i + 1)) E) :
    Ends (forRange n b s) (I n) E := by
  induction n with
  | zero => exact h0
  | succ n ih =>
    rw [forRange_succ]
    exact Ends.bind (ih fun i hi => hstep i (by omega)) fun t ht => hstep n (by omega) t ht

/-- Two programs end alike: in related values, or with the same error. -/
def Agree (R : α → β → Prop) (x : Except ε α) (y : Except ε β) : Prop :=
  match x, y with
  | .ok a, .ok b => R a b
  | .error e, .error e' => e = e'
  | _, _ => False

/-- **The rule of sequencing for two programs.** -/
theorem Agree.bind {γ δ : Type v} {R : α → β → Prop} {S : γ → δ → Prop} {x : Except ε α}
    {y : Except ε β} {f : α → Except ε γ} {g : β → Except ε δ} (h : Agree R x y)
    (hf : ∀ a b, R a b → Agree S (f a) (g b)) : Agree S (x >>= f) (y >>= g) := by
  cases x with
  | ok a =>
    cases y with
    | ok b => exact hf a b h
    | error e => exact h.elim
  | error e =>
    cases y with
    | ok b => exact h.elim
    | error e' => exact h

theorem Agree.mono {R S : α → β → Prop} {x : Except ε α} {y : Except ε β} (h : Agree R x y)
    (hRS : ∀ a b, R a b → S a b) : Agree S x y := by
  cases x with
  | ok a =>
    cases y with
    | ok b => exact hRS a b h
    | error e => exact h.elim
  | error e =>
    cases y with
    | ok b => exact h.elim
    | error e' => exact h

/-- A program ends like itself. -/
theorem Agree.of_eq {R : α → α → Prop} {x y : Except ε α} (h : x = y) (hR : ∀ a, R a a) :
    Agree R x y := by
  subst h
  cases x with
  | ok a => exact hR a
  | error e => exact rfl

/-- What a program ends in when the other one ends in a value. -/
theorem Agree.of_ok {R : α → β → Prop} {x : Except ε α} {y : Except ε β} {a : α}
    (h : Agree R x y) (hx : x = .ok a) : ∃ b, y = .ok b ∧ R a b := by
  subst hx
  cases y with
  | ok b => exact ⟨b, rfl, h⟩
  | error e => exact h.elim

/-- Every command of the list in order, stopping at the first error. -/
def runList (step : σ → α → Except ε σ) : σ → List α → Except ε σ
  | s, [] => .ok s
  | s, a :: as => do
      let s ← step s a
      runList step s as

@[simp] theorem runList_nil (step : σ → α → Except ε σ) (s : σ) :
    runList step s [] = .ok s := rfl

theorem runList_cons (step : σ → α → Except ε σ) (s : σ) (a : α) (as : List α) :
    runList step s (a :: as) = step s a >>= fun s => runList step s as := rfl

/-- A run of an appended list is the run of the one list and then the other. -/
theorem runList_append (step : σ → α → Except ε σ) (s : σ) (as bs : List α) :
    runList step s (as ++ bs) = runList step s as >>= fun s => runList step s bs := by
  induction as generalizing s with
  | nil => rfl
  | cons a as ih =>
    rw [List.cons_append, runList_cons, runList_cons]
    cases step s a with
    | ok t => exact ih t
    | error e => rfl

/-- **The rule of runs:** what every step keeps, every run keeps. -/
theorem Ends.runList {step : σ → α → Except ε σ} {I : σ → Prop} {E : ε → Prop} {as : List α}
    (hstep : ∀ a ∈ as, ∀ s, I s → Ends (step s a) I E) {s : σ} (h : I s) :
    Ends (runList step s as) I E := by
  induction as generalizing s with
  | nil => exact h
  | cons a as ih =>
    exact Ends.bind (hstep a (by simp) s h) fun t ht =>
      ih (fun b hb => hstep b (List.mem_cons_of_mem a hb)) ht

/-- A value of a program that passes a check. -/
theorem exists_ok_of_any {x : Except ε α} {p : α → Bool} (h : x.toOption.any p = true) :
    ∃ a, x = .ok a ∧ p a = true := by
  cases x with
  | ok a => exact ⟨a, rfl, h⟩
  | error e => exact absurd h Bool.false_ne_true

/-- The error a program stops with can be checked. -/
instance decidableEqError [DecidableEq ε] {x : Except ε α} {e : ε} : Decidable (x = .error e) :=
  match x with
  | .ok _ => .isFalse nofun
  | .error e' => decidable_of_iff (e' = e) ⟨congrArg _, fun h => by cases h; rfl⟩

/-- What is said about the result of a program can be checked on it. -/
instance decidableForallOk {x : Except ε α} {Q : α → Prop} [DecidablePred Q] :
    Decidable (∀ a, x = .ok a → Q a) :=
  match x with
  | .ok a => decidable_of_iff (Q a) ⟨fun h _ hb => by cases hb; exact h, fun h => h a rfl⟩
  | .error _ => .isTrue nofun

/-- `C` holds of every step of the run and the state it starts in. -/
def Along (step : σ → α → Except ε σ) (C : σ → α → Prop) : σ → List α → Prop
  | _, [] => True
  | s, a :: as => C s a ∧ ∀ t, step s a = .ok t → Along step C t as

/-- A condition that can be checked on a step can be checked along a run. -/
instance decidableAlong {step : σ → α → Except ε σ} {C : σ → α → Prop}
    [∀ s a, Decidable (C s a)] : ∀ s as, Decidable (Along step C s as)
  | _, [] => .isTrue trivial
  | s, a :: as =>
    match h : step s a with
    | .ok t =>
      have : Decidable (Along step C t as) := decidableAlong t as
      decidable_of_iff (C s a ∧ Along step C t as)
        (and_congr_right fun _ => ⟨fun ht t' ht' => by cases h ▸ ht'; exact ht, fun ht => ht t h⟩)
    | .error _ =>
      decidable_of_iff (C s a)
        ⟨fun hc => ⟨hc, fun t ht => by rw [h] at ht; cases ht⟩, fun hc => hc.1⟩

/-- A condition on the commands alone holds along every run. -/
theorem Along.and_forall {step : σ → α → Except ε σ} {C : σ → α → Prop} {D : α → Prop} {s : σ}
    {as : List α} (h : Along step C s as) (hD : ∀ a ∈ as, D a) :
    Along step (fun s a => C s a ∧ D a) s as := by
  induction as generalizing s with
  | nil => exact h
  | cons a as ih =>
    exact ⟨⟨h.1, hD a (by simp)⟩, fun t ht =>
      ih (h.2 t ht) fun b hb => hD b (List.mem_cons_of_mem a hb)⟩

/-- A condition on every step holds on the first part of a run and, from the state it ends in, on
the rest. -/
theorem along_append {step : σ → α → Except ε σ} {C : σ → α → Prop} {s : σ} {as bs : List α} :
    Along step C s (as ++ bs) ↔
      Along step C s as ∧ ∀ t, runList step s as = .ok t → Along step C t bs := by
  induction as generalizing s with
  | nil => simp [Along]
  | cons a as ih =>
    rw [List.cons_append, Along, Along, and_assoc]
    refine and_congr_right fun _ => ⟨fun h => ⟨fun t ht => (ih.1 (h t ht)).1, fun t ht => ?_⟩,
      fun h t ht => ih.2 ⟨h.1 t ht, fun r hr => h.2 r ?_⟩⟩
    · obtain ⟨r, hr, ht⟩ := bind_eq_ok.1 ht
      exact (ih.1 (h r hr)).2 t ht
    · exact bind_eq_ok.2 ⟨t, ht, hr⟩

/-- **The rule of runs under a condition:** what every step that meets the condition keeps, every
run of such steps keeps. -/
theorem Ends.runList_along {step : σ → α → Except ε σ} {C : σ → α → Prop} {I : σ → Prop}
    {E : ε → Prop} (hstep : ∀ s a, I s → C s a → Ends (step s a) I E) {as : List α} {s : σ}
    (h : I s) (hc : Along step C s as) : Ends (Outcome.runList step s as) I E := by
  induction as generalizing s with
  | nil => exact h
  | cons a as ih =>
    refine (hstep s a h hc.1).with_eq.bind ?_
    rintro t ⟨ht, hst⟩
    exact ih ht (hc.2 t hst)

/-- **The rule of steps under a condition:** what a step that meets the condition does in a state
with the invariant, every step of the run does. -/
theorem Along.of_invariant {step : σ → α → Except ε σ} {C D : σ → α → Prop} {I : σ → Prop}
    (hstep : ∀ s a, I s → C s a → D s a ∧ ∀ t, step s a = .ok t → I t) {as : List α} {s : σ}
    (h : I s) (hc : Along step C s as) : Along step D s as := by
  induction as generalizing s with
  | nil => exact True.intro
  | cons a as ih =>
    obtain ⟨hd, hkeep⟩ := hstep s a h hc.1
    exact ⟨hd, fun t ht => ih (hkeep t ht) (hc.2 t ht)⟩

/-- The rule of the counted loop at work: a loop that adds its counter. -/
example : (forRange 4 (fun i s => .ok (s + i)) 0 : Except Unit ℕ) = .ok 6 := rfl

end Outcome
