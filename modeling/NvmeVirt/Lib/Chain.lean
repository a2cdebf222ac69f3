/-
# Chains of indices

A list kept inside an array: every element names its successor, so the list is
what the links lead through.  `Seg next s l t` says that the links lead from `s`
through the elements of `l` to `t`, `Backs prev p l` that every element of `l`
names the one before it, the first one `p`.  Both are about the links of the
elements only, so a change elsewhere keeps them, and both come apart where the
list does; relinking is changing one link at such a place.
-/

import Mathlib.Tactic

namespace Chain

universe u

variable {ι : Type u} {next next' prev prev' : ι → Option ι} {s t p : Option ι} {l m : List ι}
  {a e : ι}

/-- The links lead from `s` through the elements of the list to `t`. -/
def Seg (next : ι → Option ι) : Option ι → List ι → Option ι → Prop
  | s, [], t => s = t
  | s, a :: l, t => s = some a ∧ Seg next (next a) l t

/-- Every element names the one before it, the first one `p`. -/
def Backs (prev : ι → Option ι) : Option ι → List ι → Prop
  | _, [] => True
  | p, a :: l => prev a = p ∧ Backs prev (some a) l

@[simp] theorem seg_nil : Seg next s [] t ↔ s = t := Iff.rfl

@[simp] theorem seg_cons : Seg next s (a :: l) t ↔ s = some a ∧ Seg next (next a) l t := Iff.rfl

@[simp] theorem backs_nil : Backs prev p [] := trivial

@[simp] theorem backs_cons : Backs prev p (a :: l) ↔ prev a = p ∧ Backs prev (some a) l := Iff.rfl

/-- Two segments in a row are a segment. -/
theorem seg_append : Seg next s (l ++ m) t ↔ ∃ r, Seg next s l r ∧ Seg next r m t := by
  induction l generalizing s with
  | nil => simp
  | cons a l ih =>
    rw [List.cons_append, seg_cons, ih]
    constructor
    · rintro ⟨hs, r, h1, h2⟩
      exact ⟨r, ⟨hs, h1⟩, h2⟩
    · rintro ⟨r, ⟨hs, h1⟩, h2⟩
      exact ⟨hs, r, h1, h2⟩

/-- A segment starts at its first element. -/
theorem Seg.head (h : Seg next s l t) : s = l.head?.or t := by
  cases l with
  | nil => exact h
  | cons a l => exact h.1

/-- Only the links of the elements count. -/
theorem Seg.congr (h : Seg next s l t) (hn : ∀ a ∈ l, next' a = next a) : Seg next' s l t := by
  induction l generalizing s with
  | nil => exact h
  | cons a l ih =>
    refine ⟨h.1, ?_⟩
    rw [hn a (by simp)]
    exact ih h.2 fun b hb => hn b (List.mem_cons_of_mem a hb)

/-- The link of the last element leads out of the segment. -/
theorem Seg.last (h : Seg next s (l ++ [a]) t) : next a = t := by
  obtain ⟨r, -, hr⟩ := seg_append.1 h
  exact hr.2

/-- **Changing the last link** makes the segment lead elsewhere. -/
theorem Seg.retarget (h : Seg next s (l ++ [a]) t) (hn : ∀ b ∈ l, next' b = next b) :
    Seg next' s (l ++ [a]) (next' a) := by
  obtain ⟨r, hl, hr⟩ := seg_append.1 h
  exact seg_append.2 ⟨r, hl.congr hn, hr.1, rfl⟩

/-- The back links of an appended list. -/
theorem backs_append :
    Backs prev p (l ++ m) ↔ Backs prev p l ∧ Backs prev (l.getLast?.or p) m := by
  induction l generalizing p with
  | nil => simp
  | cons a l ih =>
    have hlast : (a :: l).getLast?.or p = l.getLast?.or (some a) := by
      cases l using List.reverseRecOn with
      | nil => rfl
      | append_singleton l b =>
        rw [← List.cons_append, List.getLast?_append, List.getLast?_append]
        rfl
    rw [List.cons_append, backs_cons, backs_cons, ih, hlast, and_assoc]

/-- Only the back links of the elements count. -/
theorem Backs.congr (h : Backs prev p l) (hp : ∀ a ∈ l, prev' a = prev a) : Backs prev' p l := by
  induction l generalizing p with
  | nil => trivial
  | cons a l ih =>
    exact ⟨(hp a (by simp)).trans h.1, ih h.2 fun b hb => hp b (List.mem_cons_of_mem a hb)⟩

/-- **Changing the first back link** makes the list follow another element. -/
theorem Backs.refront (h : Backs prev p (a :: l)) (hp : ∀ b ∈ l, prev' b = prev b) :
    Backs prev' (prev' a) (a :: l) :=
  ⟨rfl, h.2.congr hp⟩

/-- The links of a chain that ends lead to its own elements only. -/
theorem Seg.split_of_next {b : ι} (h : Seg next s l none) (ha : a ∈ l) (hb : next a = some b) :
    ∃ pre post, l = pre ++ a :: b :: post := by
  obtain ⟨pre, post, rfl⟩ := List.append_of_mem ha
  obtain ⟨r, -, -, hpost⟩ := seg_append.1 h
  rw [hb] at hpost
  cases post with
  | nil => cases hpost
  | cons c post =>
    rw [Option.some.inj hpost.1]
    exact ⟨pre, post, rfl⟩

/-- The back links of a list lead to its own elements only. -/
theorem Backs.split_of_prev {b : ι} (h : Backs prev none l) (hb : b ∈ l) (ha : prev b = some a) :
    ∃ pre post, l = pre ++ a :: b :: post := by
  obtain ⟨pre, post, rfl⟩ := List.append_of_mem hb
  obtain ⟨-, hpost, -⟩ := backs_append.1 h
  rw [ha] at hpost
  cases pre using List.reverseRecOn with
  | nil => cases hpost
  | append_singleton pre c =>
    rw [List.getLast?_concat] at hpost
    cases hpost
    exact ⟨pre, post, by rw [List.append_assoc, List.singleton_append]⟩

/-- **The back links of a chain that ends are the inverse of its links.** -/
theorem Seg.next_iff_prev {b : ι} (h : Seg next s l none) (hback : Backs prev none l) (ha : a ∈ l)
    (hb : b ∈ l) : next a = some b ↔ prev b = some a := by
  constructor
  · intro hn
    obtain ⟨pre, post, rfl⟩ := h.split_of_next ha hn
    exact (backs_append.1 hback).2.2.1
  · intro hp
    obtain ⟨pre, post, rfl⟩ := hback.split_of_prev hb hp
    obtain ⟨r, -, -, hn, -⟩ := seg_append.1 h
    exact hn

section

variable [DecidableEq ι]

/-- A link outside the segment does not count. -/
theorem Seg.update (h : Seg next s l t) (ha : a ∉ l) (n : Option ι) :
    Seg (Function.update next a n) s l t :=
  h.congr fun b hb => Function.update_of_ne (fun hba : b = a => ha (hba ▸ hb)) n next

/-- The last link, changed. -/
theorem Seg.update_last (h : Seg next s (l ++ [a]) t) (ha : a ∉ l) (n : Option ι) :
    Seg (Function.update next a n) s (l ++ [a]) n := by
  have hl : ∀ b ∈ l, Function.update next a n b = next b := fun b hb =>
    Function.update_of_ne (fun hba : b = a => ha (hba ▸ hb)) n next
  have := h.retarget hl
  rwa [Function.update_self] at this

/-- A back link outside the list does not count. -/
theorem Backs.update (h : Backs prev p l) (ha : a ∉ l) (q : Option ι) :
    Backs (Function.update prev a q) p l :=
  h.congr fun b hb => Function.update_of_ne (fun hba : b = a => ha (hba ▸ hb)) q prev

/-- The first back link, changed. -/
theorem Backs.update_first (h : Backs prev p (a :: l)) (ha : a ∉ l) (q : Option ι) :
    Backs (Function.update prev a q) q (a :: l) := by
  have hl : ∀ b ∈ l, Function.update prev a q b = prev b := fun b hb =>
    Function.update_of_ne (fun hba : b = a => ha (hba ▸ hb)) q prev
  have := h.refront hl
  rwa [Function.update_self] at this

end

/-! ### Walking the links -/

/-- At most `n` elements of the chain at `s`. -/
def follow (next : ι → Option ι) : ℕ → Option ι → List ι
  | 0, _ => []
  | _ + 1, none => []
  | n + 1, some a => a :: follow next n (next a)

/-- **Walking a chain** visits its elements. -/
theorem Seg.follow (h : Seg next s l none) {n : ℕ} (hn : l.length ≤ n) :
    follow next n s = l := by
  induction l generalizing s n with
  | nil =>
    cases h
    cases n <;> rfl
  | cons a l ih =>
    obtain ⟨rfl, h⟩ := h
    cases n with
    | zero => simp at hn
    | succ n =>
      rw [Chain.follow, ih h (by simpa using hn)]

/-- Back along the links from `c` to the first element where the walk stops. -/
def seekBack (prev : ι → Option ι) (stop : ι → Prop) [DecidablePred stop] :
    ℕ → Option ι → Option ι
  | 0, c => c
  | _ + 1, none => none
  | n + 1, some c => if stop c then some c else seekBack prev stop n (prev c)

/-- **Walking back** passes the elements behind the last one where the walk stops. -/
theorem Backs.seekBack (h : Backs prev none l) (stop : ι → Prop) [DecidablePred stop] {n : ℕ}
    (hn : l.length ≤ n) :
    ∃ xs ys, l = xs ++ ys ∧ Chain.seekBack prev stop n l.getLast? = xs.getLast? ∧
      (∀ y ∈ ys, ¬ stop y) ∧ ∀ x, xs.getLast? = some x → stop x := by
  induction l using List.reverseRecOn generalizing n with
  | nil => exact ⟨[], [], rfl, by cases n <;> rfl, by simp, by simp⟩
  | append_singleton l a ih =>
    obtain ⟨hl, ha⟩ := backs_append.1 h
    rw [List.length_append, List.length_singleton] at hn
    obtain ⟨n, rfl⟩ : ∃ k, n = k + 1 := ⟨n - 1, by omega⟩
    rw [List.getLast?_concat, Chain.seekBack]
    by_cases hstop : stop a
    · refine ⟨l ++ [a], [], by simp, ?_, by simp, ?_⟩
      · rw [if_pos hstop, List.getLast?_concat]
      · intro x hx
        rw [List.getLast?_concat] at hx
        cases hx
        exact hstop
    · obtain ⟨xs, ys, hxy, hc, hys, hxs⟩ := ih hl (by omega : l.length ≤ n)
      refine ⟨xs, ys ++ [a], by rw [hxy, List.append_assoc], ?_, ?_, hxs⟩
      · rw [if_neg hstop, ha.1, Option.or_none, hc]
      · intro y hy
        rcases List.mem_append.1 hy with hy | hy
        · exact hys y hy
        · rw [List.mem_singleton.1 hy]
          exact hstop

end Chain
