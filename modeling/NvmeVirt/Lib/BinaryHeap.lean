/-
# Binary heaps in an array

Keys in the slots `1 .. n - 1`, the parent of slot `i` in slot `i / 2`.  A key is
moved up or down by sliding a hole through the array: `Rising` and `Sinking`
say what the keys around the hole have to satisfy for a key `p` that is still to
be put down, one step of the hole keeps them, and where the hole stops the key
completes the heap.
-/

import Mathlib.Tactic

namespace BinaryHeap

universe u

variable {κ : Type u} [LinearOrder κ] {n h c i : ℕ} {P P' : ℕ → κ} {p : κ}

/-- No key is smaller than that of its parent. -/
def Ordered (n : ℕ) (P : ℕ → κ) : Prop := ∀ i, 2 ≤ i → i < n → P (i / 2) ≤ P i

/-- **The smallest key stands in front.** -/
theorem Ordered.root_le (ho : Ordered n P) (hi : 1 ≤ i) (hn : i < n) : P 1 ≤ P i := by
  induction i using Nat.strong_induction_on with
  | _ i ih =>
    rcases Nat.lt_or_ge i 2 with h1 | h2
    · rw [show i = 1 by omega]
    · exact (ih (i / 2) (by omega) (by omega) (by omega)).trans (ho i h2 hn)

/-! ### A hole -/

/-- The keys are in order around the hole `h`: those of a parent and a child other than the hole,
and those of its parent and its children. -/
structure Gap (n : ℕ) (P : ℕ → κ) (h : ℕ) : Prop where
  off : ∀ i, 2 ≤ i → i < n → i ≠ h → i / 2 ≠ h → P (i / 2) ≤ P i
  across : 2 ≤ h → ∀ c, c / 2 = h → c < n → P (h / 2) ≤ P c

/-- A key that may go up: it is not larger than the keys below the hole. -/
structure Rising (n : ℕ) (P : ℕ → κ) (h : ℕ) (p : κ) : Prop extends Gap n P h where
  below : ∀ c, c / 2 = h → c < n → p ≤ P c

/-- A key that may go down: it is not smaller than the key above the hole. -/
structure Sinking (n : ℕ) (P : ℕ → κ) (h : ℕ) (p : κ) : Prop extends Gap n P h where
  above : 2 ≤ h → P (h / 2) ≤ p

/-- Only the keys of the other slots count. -/
theorem Gap.congr (hg : Gap n P h) (hP : ∀ i, 1 ≤ i → i < n → i ≠ h → P' i = P i) :
    Gap n P' h where
  off := fun i hi hin hih hih' => by
    rw [hP i (by omega) hin hih, hP (i / 2) (by omega) (by omega) hih']
    exact hg.off i hi hin hih hih'
  across := fun hh c hc hcn => by
    rw [hP (h / 2) (by omega) (by omega) (by omega), hP c (by omega) hcn (by omega)]
    exact hg.across hh c hc hcn

theorem Rising.congr (ho : Rising n P h p) (hh : 1 ≤ h)
    (hP : ∀ i, 1 ≤ i → i < n → i ≠ h → P' i = P i) : Rising n P' h p where
  toGap := ho.toGap.congr hP
  below := fun c hc hcn => by
    rw [hP c (by omega) hcn (by omega)]
    exact ho.below c hc hcn

theorem Sinking.congr (ho : Sinking n P h p) (hn : h < n)
    (hP : ∀ i, 1 ≤ i → i < n → i ≠ h → P' i = P i) : Sinking n P' h p where
  toGap := ho.toGap.congr hP
  above := fun hh => by
    rw [hP (h / 2) (by omega) (by omega) (by omega)]
    exact ho.above hh

theorem Ordered.gap (ho : Ordered n P) (hn : h < n) : Gap n P h where
  off := fun i hi hin _ _ => ho i hi hin
  across := fun hh c hc hcn => by
    subst hc
    exact (ho (c / 2) hh hn).trans (ho c (by omega) hcn)

/-- A key that is made smaller may go up. -/
theorem Ordered.up (ho : Ordered n P) (hh : 1 ≤ h) (hn : h < n) (hp : p ≤ P h) :
    Rising n P h p where
  toGap := ho.gap hn
  below := fun c hc hcn => by
    subst hc
    exact hp.trans (ho c (by omega) hcn)

/-- A key that is made larger may go down. -/
theorem Ordered.down (ho : Ordered n P) (hn : h < n) (hp : P h ≤ p) : Sinking n P h p where
  toGap := ho.gap hn
  above := fun hh => (ho h hh hn).trans hp

/-- A new key may go up from the slot behind the last. -/
theorem Ordered.insert (ho : Ordered n P) (hn : 1 ≤ n) (p : κ) : Rising (n + 1) P n p where
  off := fun i hi hin hne _ => ho i hi (by omega)
  across := fun _ c hc hcn => by omega
  below := fun c hc hcn => by omega

/-- A key may go down from the front of a shorter heap. -/
theorem Ordered.shrink (ho : Ordered (n + 1) P) (p : κ) : Sinking n P 1 p where
  off := fun i hi hin _ _ => ho i hi (by omega)
  across := fun h1 => absurd h1 (by omega)
  above := fun h1 => absurd h1 (by omega)

/-! ### The hole moves -/

/-- **A step up:** the key of the parent fills the hole. -/
theorem Rising.step (ho : Rising n P h p) (hh : 2 ≤ h) (hn : h < n) (hp : p < P (h / 2)) :
    Rising n (Function.update P h (P (h / 2))) (h / 2) p := by
  have hup : 2 ≤ h / 2 → P (h / 2 / 2) ≤ P (h / 2) := fun h2 =>
    ho.off (h / 2) h2 (by omega) (by omega) (by omega)
  have hne : ∀ i, i ≠ h → Function.update P h (P (h / 2)) i = P i := fun i hi =>
    Function.update_of_ne hi _ _
  have hchild : ∀ c, c ≠ h → c / 2 = h / 2 → c < n → P (h / 2) ≤ P c := fun c hch hc hcn =>
    hc ▸ ho.off c (by omega) hcn hch (by omega)
  refine ⟨⟨fun i hi hin hih hih' => ?_, fun h2 c hc hcn => ?_⟩, fun c hc hcn => ?_⟩
  · rw [hne i fun he => hih' (by rw [he])]
    by_cases hph : i / 2 = h
    · rw [hph, Function.update_self]
      exact ho.across hh i hph hin
    · rw [hne _ hph]
      exact ho.off i hi hin (fun he => hih' (by rw [he])) hph
  · rw [hne _ (by omega)]
    by_cases hch : c = h
    · rw [hch, Function.update_self]
      exact hup h2
    · rw [hne c hch]
      exact (hup h2).trans (hchild c hch hc hcn)
  · by_cases hch : c = h
    · rw [hch, Function.update_self]
      exact hp.le
    · rw [hne c hch]
      exact hp.le.trans (hchild c hch hc hcn)

/-- **A step down:** the smallest key below fills the hole. -/
theorem Sinking.step (ho : Sinking n P h p) (hh : 1 ≤ h) (hc : c / 2 = h) (hcn : c < n)
    (hp : P c < p) (hmin : ∀ c', c' / 2 = h → c' < n → P c ≤ P c') :
    Sinking n (Function.update P h (P c)) c p := by
  have hne : ∀ i, i ≠ h → Function.update P h (P c) i = P i := fun i hi =>
    Function.update_of_ne hi _ _
  refine ⟨⟨fun i hi hin hic hic' => ?_, fun _ g hg hgn => ?_⟩, fun _ => ?_⟩
  · by_cases hph : i / 2 = h
    · rw [hph, Function.update_self, hne i (by omega)]
      exact hmin i hph hin
    · rw [hne _ hph]
      by_cases hih : i = h
      · rw [hih, Function.update_self]
        exact ho.across (by omega) c hc hcn
      · rw [hne i hih]
        exact ho.off i hi hin hih hph
  · rw [hc, Function.update_self, hne g (by omega)]
    subst hg
    exact ho.off g (by omega) hgn (by omega) (by omega)
  · rw [hc, Function.update_self]
    exact hp.le

/-- **The key is put down** where it is not larger than the keys below and not smaller than the
one above. -/
theorem Gap.fill (hg : Gap n P h) (habove : 2 ≤ h → P (h / 2) ≤ p)
    (hbelow : ∀ c, c / 2 = h → c < n → p ≤ P c) : Ordered n (Function.update P h p) := by
  intro i hi hin
  by_cases hih : i = h
  · subst hih
    rw [Function.update_self, Function.update_of_ne (by omega)]
    exact habove hi
  · rw [Function.update_of_ne hih]
    by_cases hph : i / 2 = h
    · rw [hph, Function.update_self]
      exact hbelow i hph hin
    · rw [Function.update_of_ne hph]
      exact hg.off i hi hin hih hph

/-! ### Below a slot -/

/-- The keys are in order in the subtree of slot `h`. -/
def OrderedBelow (n : ℕ) (P : ℕ → κ) (h : ℕ) : Prop :=
  ∀ i k, 2 ≤ i → i < n → i / 2 / 2 ^ k = h → P (i / 2) ≤ P i

/-- **The subtree of a slot** is the slot with the subtrees of its children. -/
theorem orderedBelow_iff (hh : 1 ≤ h) : OrderedBelow n P h ↔
    ∀ c, c / 2 = h → c < n → P h ≤ P c ∧ OrderedBelow n P c := by
  constructor
  · intro ho c hc hcn
    refine ⟨hc ▸ ho c 0 (by omega) hcn (by rw [pow_zero, Nat.div_one, hc]), fun i k hi hin hik => ?_⟩
    exact ho i (k + 1) hi hin (by rw [pow_succ, ← Nat.div_div_eq_div_mul, hik, hc])
  · intro ho i k hi hin hik
    cases k with
    | zero =>
      rw [pow_zero, Nat.div_one] at hik
      rw [hik]
      exact (ho i hik hin).1
    | succ k =>
      rw [pow_succ, ← Nat.div_div_eq_div_mul] at hik
      have hle : i / 2 / 2 ^ k ≤ i / 2 := Nat.div_le_self _ _
      exact (ho _ hik (by omega)).2 i k hi hin rfl

/-- The subtree of the first slot is the heap. -/
theorem orderedBelow_one : OrderedBelow n P 1 ↔ Ordered n P := by
  refine ⟨fun ho i hi hin => ?_, fun ho i _ hi hin _ => ho i hi hin⟩
  refine ho i (Nat.log 2 (i / 2)) hi hin ?_
  have hle := Nat.pow_log_le_self 2 (show i / 2 ≠ 0 by omega)
  have hlt := Nat.lt_pow_succ_log_self (show 1 < 2 by decide) (i / 2)
  have hdiv : i / 2 / 2 ^ Nat.log 2 (i / 2) < 2 :=
    Nat.div_lt_of_lt_mul (by rwa [← pow_succ])
  have hpos : 0 < i / 2 / 2 ^ Nat.log 2 (i / 2) := Nat.div_pos hle (by positivity)
  omega

/-- A heap stays one when slots are left out at the end. -/
theorem Ordered.mono (ho : Ordered n P) {m : ℕ} (hm : m ≤ n) : Ordered m P := fun i hi hin =>
  ho i hi (hin.trans_le hm)

end BinaryHeap
