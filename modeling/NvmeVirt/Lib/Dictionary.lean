/-
# Dictionaries and programs that answer for one

A dictionary takes requests on its keys, one after the other, and answers each: a store
puts a value under its key, a delete takes it away, a retrieve returns it and an exist
tells whether there is one.

A session of a program is its run with the answers it gives on the way.  `Ends.session`
is the rule of simulation: a program whose steps answer as the dictionary of its state
does, and leave the dictionary the request leaves, answers every session as a dictionary.
-/

import NvmeVirt.Lib.Outcome

universe u v w

/-- A request on a key. -/
inductive DictRequest (κ : Type u) (ν : Type v)
  | store (key : κ) (value : ν)
  | delete (key : κ)
  | retrieve (key : κ)
  | exist (key : κ)
  deriving DecidableEq, Repr

/-- An answer. -/
inductive DictAnswer (ν : Type v)
  | done
  | missing
  | value (v : ν)
  deriving DecidableEq, Repr

/-- The values under the keys. -/
abbrev Dictionary (κ : Type u) (ν : Type v) : Type (max u v) := κ → Option ν

namespace Dictionary

variable {κ : Type u} {ν : Type v}

/-- No key has a value. -/
def empty : Dictionary κ ν := fun _ => none

/-- The answer to a request. -/
def answer (t : Dictionary κ ν) : DictRequest κ ν → DictAnswer ν
  | .store _ _ => .done
  | .delete k => if t k = none then .missing else .done
  | .exist k => if t k = none then .missing else .done
  | .retrieve k => (t k).elim .missing .value

variable [DecidableEq κ]

/-- What a request leaves. -/
def after (t : Dictionary κ ν) : DictRequest κ ν → Dictionary κ ν
  | .store k v => Function.update t k (some v)
  | .delete k => Function.update t k none
  | .retrieve _ => t
  | .exist _ => t

/-- The answers to some requests, in order. -/
def answers : Dictionary κ ν → List (DictRequest κ ν) → List (DictAnswer ν)
  | _, [] => []
  | t, q :: qs => t.answer q :: (t.after q).answers qs

/-- A value is returned until its key is stored again or deleted. -/
example : (empty : Dictionary ℕ ℕ).answers
    [.store 1 10, .store 1 11, .retrieve 1, .delete 1, .retrieve 1, .delete 1] =
    [.done, .done, .value 11, .done, .missing, .missing] := rfl

end Dictionary

/-! ### Dictionaries as lists -/

namespace Dictionary

variable {κ : Type u} {ν : Type v} [BEq κ] [LawfulBEq κ]

/-- The dictionary of a list of keys with values, the last store first. -/
def ofList (l : List (κ × ν)) : Dictionary κ ν := fun k => l.lookup k

/-- A key without a value is not in the list. -/
theorem ofList_eq_none {k : κ} {l : List (κ × ν)} : ofList l k = none ↔ k ∉ l.map Prod.fst := by
  unfold ofList
  rw [List.lookup_eq_none_iff, List.mem_map]
  constructor
  · rintro h ⟨p, hp, rfl⟩
    simpa using h p hp
  · intro h p hp
    have hne : k ≠ p.1 := fun heq => h ⟨p, hp, heq.symm⟩
    exact bne_iff_ne.2 hne

variable [DecidableEq κ]

theorem ofList_cons (k : κ) (v : ν) (l : List (κ × ν)) :
    ofList ((k, v) :: l) = Function.update (ofList l) k (some v) := by
  funext x
  unfold ofList
  rw [List.lookup_cons, Function.update_apply]
  by_cases h : x = k
  · simp [h]
  · simp [h, beq_eq_false_iff_ne.2 h]

/-- Without the values under one key. -/
theorem ofList_filter (k : κ) (l : List (κ × ν)) :
    ofList (l.filter fun p => p.1 ≠ k) = Function.update (ofList l) k none := by
  funext x
  by_cases hx : x = k
  · rw [hx, Function.update_self, ofList_eq_none]
    simp
  · rw [Function.update_of_ne hx]
    induction l with
    | nil => rfl
    | cons p l ih =>
      rcases p with ⟨y, v⟩
      rw [ofList_cons, Function.update_apply, ← ih]
      by_cases hy : y = k
      · simp [hy, hx]
      · simp [hy, ofList_cons, Function.update_apply]

end Dictionary

namespace Outcome

variable {ε : Type u} {σ α ρ : Type v}

/-- A step without its reply. -/
def quiet (step : σ → α → Except ε (σ × ρ)) (s : σ) (a : α) : Except ε σ := do
  let (t, _) ← step s a
  .ok t

/-- Every command of the list in order, with its reply. -/
def session (step : σ → α → Except ε (σ × ρ)) : σ → List α → Except ε (σ × List ρ)
  | s, [] => .ok (s, [])
  | s, a :: as => do
    let (t, r) ← step s a
    let (t, rs) ← session step t as
    .ok (t, r :: rs)

/-- **The rule of simulation:** each step under the condition keeps the invariant, leaves the
dictionary its request leaves and replies with the answer to it. -/
theorem Ends.session {κ ν : Type w} [DecidableEq κ] {step : σ → α → Except ε (σ × ρ)}
    {I : σ → Prop} {C : σ → α → Prop} {E : ε → Prop} {dict : σ → Dictionary κ ν}
    {request : α → DictRequest κ ν} {R : α → ρ → DictAnswer ν → Prop}
    (hstep : ∀ s a, I s → C s a → Ends (step s a) (fun out => I out.1 ∧
      dict out.1 = (dict s).after (request a) ∧ R a out.2 ((dict s).answer (request a))) E)
    {as : List α} {s : σ} (h : I s) (hc : Along (quiet step) C s as) :
    Ends (session step s as) (fun out => I out.1 ∧
      List.Forall₂ (fun p q => R p.1 p.2 q) (as.zip out.2)
        ((dict s).answers (as.map request)) ∧ out.2.length = as.length) E := by
  induction as generalizing s with
  | nil => exact ⟨h, .nil, rfl⟩
  | cons a as ih =>
    refine (hstep s a h hc.1).with_eq.bind ?_
    rintro ⟨t, r⟩ ⟨⟨ht, hdict, hr⟩, hst⟩
    have hc' : Along (quiet step) C t as := hc.2 t (by unfold quiet; rw [hst]; rfl)
    refine (ih ht hc').bind ?_
    rintro ⟨t', rs⟩ ⟨ht', hrs, hlen⟩
    refine ⟨ht', .cons hr ?_, by simpa using hlen⟩
    rwa [hdict] at hrs

end Outcome
