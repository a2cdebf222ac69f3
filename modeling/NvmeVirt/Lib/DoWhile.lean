/-
# Loops that test at the end

`doWhile body again` runs the body once and goes on while `again` holds; the body
is told the number of its round and may stop the loop with an error.  The fuel
bounds the rounds, and a loop that needs more has no result.  What the body keeps
holds at the end; a loop halts if from every state some weight comes down within
finitely many rounds, which is shown round by round with `Halts`.
-/

import NvmeVirt.Lib.Outcome

namespace Outcome

universe u v

variable {ε : Type u} {σ : Type v}

/-- `do s = body(n++, s) while (again(s))`. -/
def doWhile (body : ℕ → σ → Except ε σ) (again : σ → Prop) [DecidablePred again] :
    ℕ → ℕ → σ → Option (Except ε σ)
  | 0, _, _ => none
  | fuel + 1, n, s =>
    match body n s with
    | .error e => some (.error e)
    | .ok s => if again s then doWhile body again fuel (n + 1) s else some (.ok s)

section

variable {body : ℕ → σ → Except ε σ} {again : σ → Prop} [DecidablePred again] {n fuel : ℕ}
  {s s' : σ} {r : Except ε σ}

theorem doWhile_of_error {e : ε} (h : body n s = .error e) :
    doWhile body again (fuel + 1) n s = some (.error e) := by
  rw [doWhile, h]

theorem doWhile_of_ok (h : body n s = .ok s') : doWhile body again (fuel + 1) n s =
    if again s' then doWhile body again fuel (n + 1) s' else some (.ok s') := by
  rw [doWhile, h]

/-- **The rule of the loop:** what every round keeps holds at the end, where the loop is not
asked to go on. -/
theorem Ends.doWhile {I : σ → Prop} {E : ε → Prop} (hbody : ∀ n s, I s → Ends (body n s) I E)
    (h : I s) (hr : Outcome.doWhile body again fuel n s = some r) :
    Ends r (fun s => I s ∧ ¬ again s) E := by
  induction fuel generalizing n s with
  | zero => cases hr
  | succ fuel ih =>
    have hstep := hbody n s h
    cases hb : body n s with
    | error e =>
      rw [doWhile_of_error hb] at hr
      cases hr
      exact hstep.of_error hb
    | ok s' =>
      rw [doWhile_of_ok hb] at hr
      by_cases ha : again s'
      · rw [if_pos ha] at hr
        exact ih (hstep.of_ok hb) hr
      · rw [if_neg ha] at hr
        cases hr
        exact ⟨hstep.of_ok hb, ha⟩

variable (body again n s) in
/-- The loop comes to its end from round `n` on. -/
def Halts : Prop := ∃ fuel r, doWhile body again fuel n s = some r

/-- **One round:** the loop halts if it does from where the round leads. -/
theorem Halts.round {Q : σ → Prop} {E : ε → Prop} (hround : Ends (body n s) Q E)
    (hnext : ∀ s', Q s' → again s' → Halts body again (n + 1) s') : Halts body again n s := by
  cases hb : body n s with
  | error e => exact ⟨1, _, doWhile_of_error hb⟩
  | ok s' =>
    by_cases ha : again s'
    · obtain ⟨fuel, r, hr⟩ := hnext s' (hround.of_ok hb) ha
      exact ⟨fuel + 1, r, by rw [doWhile_of_ok hb, if_pos ha, hr]⟩
    · exact ⟨1, _, by rw [doWhile_of_ok hb, if_neg ha]⟩

end

end Outcome
