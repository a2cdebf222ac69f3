/-
# Sets with priorities

What a priority queue is for: a set of elements and their priorities.  Elements
come and go, a priority changes, and an element with the smallest priority is
found.  `Step` says what one operation may do and return, `Run` what a sequence
may.
-/

import Mathlib.Data.Set.Card
import Mathlib.Order.Basic

/-- A set of elements and the priorities of all there are. -/
structure PrioritySet (α : Type*) where
  elems : Set α
  pri : α → ℕ

namespace PrioritySet

variable {α : Type*}

/-- The operations.  `setPri` gives a priority to something that is not an element. -/
inductive Op (α : Type*)
  | insert (x : α)
  | setPri (x : α) (p : ℕ)
  | changePriority (x : α) (p : ℕ)
  | remove (x : α)
  | peek
  | pop

/-- The operation makes sense on a set of elements. -/
def Op.Legal (elems : Set α) : Op α → Prop
  | .insert x => x ∉ elems
  | .setPri x _ => x ∉ elems
  | .changePriority x _ => x ∈ elems
  | .remove x => x ∈ elems
  | .peek => True
  | .pop => True

/-- An element with the smallest priority, if there is an element. -/
def Front (a : PrioritySet α) : Option α → Prop
  | none => a.elems = ∅
  | some x => x ∈ a.elems ∧ ∀ y ∈ a.elems, a.pri x ≤ a.pri y

/-- What an operation may do and return. -/
inductive Step [DecidableEq α] : PrioritySet α → Op α → Option α → PrioritySet α → Prop
  | insert (a : PrioritySet α) (x : α) : x ∉ a.elems →
      Step a (.insert x) none { a with elems := Insert.insert x a.elems }
  | setPri (a : PrioritySet α) (x : α) (p : ℕ) : x ∉ a.elems →
      Step a (.setPri x p) none { a with pri := Function.update a.pri x p }
  | changePriority (a : PrioritySet α) (x : α) (p : ℕ) : x ∈ a.elems →
      Step a (.changePriority x p) none { a with pri := Function.update a.pri x p }
  | remove (a : PrioritySet α) (x : α) : x ∈ a.elems →
      Step a (.remove x) none { a with elems := a.elems \ {x} }
  | peek (a : PrioritySet α) (r : Option α) : a.Front r → Step a .peek r a
  | pop (a : PrioritySet α) (r : Option α) : a.Front r →
      Step a .pop r { a with elems := {y ∈ a.elems | some y ≠ r} }

/-- What a sequence of operations may do and return. -/
inductive Run [DecidableEq α] : PrioritySet α → List (Op α × Option α) → PrioritySet α → Prop
  | nil (a : PrioritySet α) : Run a [] a
  | cons {a b c : PrioritySet α} {op : Op α} {r : Option α} {ops : List (Op α × Option α)} :
      Step a op r b → Run b ops c → Run a ((op, r) :: ops) c

/-- **Elements popped in a row** come out in the order of their priorities, and none is smaller
than those that were there before. -/
theorem Run.returns_sorted [DecidableEq α] {a b : PrioritySet α} {rs : List α}
    (h : Run a (rs.map fun x => (.pop, some x)) b) :
    (rs.map a.pri).Pairwise (· ≤ ·) ∧ b.pri = a.pri ∧ rs.Nodup ∧ {x | x ∈ rs} ⊆ a.elems ∧
      b.elems = a.elems \ {x | x ∈ rs} := by
  induction rs generalizing a with
  | nil =>
    cases h
    exact ⟨List.Pairwise.nil, rfl, List.nodup_nil, by simp, by simp⟩
  | cons x rs ih =>
    rw [List.map_cons] at h
    cases h with
    | cons hstep hrun =>
      cases hstep with
      | pop _ hfront =>
        obtain ⟨hsorted, hpri, hnodup, hsub, hend⟩ := ih hrun
        have hmem : ∀ y ∈ rs, y ∈ a.elems ∧ y ≠ x := fun y hy =>
          ⟨(hsub hy).1, fun hyx => (hsub hy).2 (congrArg some hyx)⟩
        refine ⟨List.pairwise_cons.2 ⟨fun p hp => ?_, hsorted⟩, hpri,
          List.nodup_cons.2 ⟨fun hx => (hmem x hx).2 rfl, hnodup⟩, fun y hy => ?_, ?_⟩
        · obtain ⟨y, hy, rfl⟩ := List.mem_map.1 hp
          exact hfront.2 y (hmem y hy).1
        · rcases List.mem_cons.1 hy with rfl | hy
          · exact hfront.1
          · exact (hmem y hy).1
        · rw [hend]
          ext y
          simp only [Set.mem_sdiff, Set.mem_ofPred_eq, List.mem_cons, ne_eq, Option.some.injEq]
          tauto

end PrioritySet
