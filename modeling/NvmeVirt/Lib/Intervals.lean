/-
# Maximal runs of a predicate

A scan over `0, 1, 2, …` that opens a run at the first number with `p` and closes
it before the first one without collects the maximal runs of `p`, in order and
apart from each other.
-/

import Mathlib.Tactic

namespace Intervals

variable {p : ℕ → Prop} {g count : ℕ} {rs : List (ℕ × ℕ)}

/-- The numbers from `r.1` up to `r.2` are a maximal run of `p`. -/
structure IsRun (p : ℕ → Prop) (r : ℕ × ℕ) : Prop where
  le : r.1 ≤ r.2
  all : ∀ n, r.1 ≤ n → n ≤ r.2 → p n
  before : ∀ n, n + 1 = r.1 → ¬ p n
  after : ¬ p (r.2 + 1)

/-- A maximal run starts no later than another one it shares a number with, and ends no earlier. -/
theorem IsRun.covers {r r' : ℕ × ℕ} {n : ℕ} (h : IsRun p r) (h' : IsRun p r')
    (hr : r.1 ≤ n ∧ n ≤ r.2) (hr' : r'.1 ≤ n ∧ n ≤ r'.2) : r.1 ≤ r'.1 ∧ r'.2 ≤ r.2 := by
  obtain ⟨h1, h2⟩ := hr
  obtain ⟨h1', h2'⟩ := hr'
  constructor
  · by_contra hlt
    exact h.before (r.1 - 1) (by omega) (h'.all _ (by omega) (by omega))
  · by_contra hlt
    exact h.after (h'.all _ (by omega) (by omega))

/-- Two maximal runs with a number in common are one. -/
theorem IsRun.eq_of_mem {r r' : ℕ × ℕ} {n : ℕ} (h : IsRun p r) (h' : IsRun p r')
    (hr : r.1 ≤ n ∧ n ≤ r.2) (hr' : r'.1 ≤ n ∧ n ≤ r'.2) : r = r' := by
  obtain ⟨h1, h2⟩ := h.covers h' hr hr'
  obtain ⟨h1', h2'⟩ := h'.covers h hr' hr
  exact Prod.ext (le_antisymm h1 h1') (le_antisymm h2' h2)

/-- A scan that has passed the numbers below `g`: `rs` are the runs closed so far, and the last
`count` numbers passed are a run that is still open. -/
structure RunScan (p : ℕ → Prop) (g count : ℕ) (rs : List (ℕ × ℕ)) : Prop where
  le : count ≤ g
  all : ∀ n, g ≤ n + count → n < g → p n
  before : ∀ n, n + count + 1 = g → ¬ p n
  runs : ∀ r ∈ rs, IsRun p r
  below : ∀ r ∈ rs, r.2 + count + 1 < g
  sorted : rs.Pairwise fun a b => a.2 + 1 < b.1
  covers : ∀ n, n + count < g → p n → ∃ r ∈ rs, r.1 ≤ n ∧ n ≤ r.2

/-- Nothing is scanned yet. -/
theorem RunScan.nil : RunScan p 0 0 [] where
  le := le_rfl
  all n _ h := absurd h (Nat.not_lt_zero n)
  before n h := by omega
  runs := by simp
  below := by simp
  sorted := List.Pairwise.nil
  covers n h := by omega

/-- A number with the predicate prolongs the open run. -/
theorem RunScan.extend (h : RunScan p g count rs) (hp : p g) : RunScan p (g + 1) (count + 1) rs where
  le := Nat.add_le_add_right h.le 1
  all n h1 h2 := by
    rcases Nat.lt_or_ge n g with hn | hn
    · exact h.all n (by omega) hn
    · rwa [show n = g by omega]
  before n hn := h.before n (by omega)
  runs := h.runs
  below r hr := by have := h.below r hr; omega
  sorted := h.sorted
  covers n hn := h.covers n (by omega)

/-- With no run open, a number without the predicate changes nothing. -/
theorem RunScan.skip (h : RunScan p g 0 rs) (hp : ¬ p g) : RunScan p (g + 1) 0 rs where
  le := Nat.zero_le _
  all n h1 h2 := by omega
  before n hn := by rwa [show n = g by omega]
  runs := h.runs
  below r hr := by have := h.below r hr; omega
  sorted := h.sorted
  covers n hn hpn := by
    rcases Nat.lt_or_ge n g with hlt | hge
    · exact h.covers n (by omega) hpn
    · exact absurd (show p g by rwa [show g = n by omega]) hp

/-- The open run is a maximal one when the next number lacks the predicate. -/
theorem RunScan.isRun (h : RunScan p g count rs) (hp : ¬ p g) (hc : 0 < count) :
    IsRun p (g - count, g - 1) where
  le := by simp only; have := h.le; omega
  all n h1 h2 := h.all n (by simp only at h1; omega) (by simp only at h2; have := h.le; omega)
  before n hn := h.before n (by simp only at hn; have := h.le; omega)
  after := by have := h.le; rwa [show g - 1 + 1 = g by omega]

/-- A number without the predicate closes the open run. -/
theorem RunScan.close (h : RunScan p g count rs) (hp : ¬ p g) (hc : 0 < count) :
    RunScan p (g + 1) 0 (rs ++ [(g - count, g - 1)]) where
  le := Nat.zero_le _
  all n h1 h2 := by omega
  before n hn := by rwa [show n = g by omega]
  runs r hr := by
    rcases List.mem_append.1 hr with hr | hr
    · exact h.runs r hr
    · rw [List.mem_singleton.1 hr]
      exact h.isRun hp hc
  below r hr := by
    have hle := h.le
    rcases List.mem_append.1 hr with hr | hr
    · have := h.below r hr
      omega
    · rw [List.mem_singleton.1 hr]
      simp only
      omega
  sorted := by
    refine List.pairwise_append.2 ⟨h.sorted, List.pairwise_singleton _ _, fun a ha b hb => ?_⟩
    have := h.below a ha
    rw [List.mem_singleton.1 hb]
    simp only
    omega
  covers n hn hpn := by
    have hle := h.le
    rcases Nat.lt_or_ge (n + count) g with hlt | hge
    · obtain ⟨r, hr, hrn⟩ := h.covers n hlt hpn
      exact ⟨r, List.mem_append_left _ hr, hrn⟩
    · have : n ≠ g := fun h => hp (h ▸ hpn)
      exact ⟨_, List.mem_append_right _ (List.mem_singleton_self _), by simp only; omega,
        by simp only; omega⟩

/-- The closed runs of a scan whose end has no open run are all runs below it. -/
theorem RunScan.mem_iff (h : RunScan p g 0 rs) {n : ℕ} (hn : n < g) :
    p n ↔ ∃ r ∈ rs, r.1 ≤ n ∧ n ≤ r.2 :=
  ⟨h.covers n hn, fun ⟨r, hr, h1, h2⟩ => (h.runs r hr).all n h1 h2⟩

/-- The closed runs of a scan that has passed the last number are all maximal runs there are. -/
theorem RunScan.mem_runs (h : RunScan p g 0 rs) (hg : ∀ n, p n → n < g) {r : ℕ × ℕ} :
    r ∈ rs ↔ IsRun p r := by
  refine ⟨h.runs r, fun hr => ?_⟩
  have hp := hr.all r.1 le_rfl hr.le
  obtain ⟨r', hmem, hr'⟩ := h.covers r.1 (hg _ hp) hp
  rwa [hr.eq_of_mem (h.runs r' hmem) ⟨le_rfl, hr.le⟩ hr']

/-- The closed runs are apart from each other. -/
theorem RunScan.nodup (h : RunScan p g 0 rs) : rs.Nodup :=
  h.sorted.imp_of_mem fun ha _ hab heq => by
    have := (h.runs _ ha).le
    rw [← heq] at hab
    omega

/-- A number of a run that the next one does not continue ends it. -/
theorem RunScan.exists_end (h : RunScan p g 0 rs) {n : ℕ} (hn : n < g) (hp : p n)
    (hend : ¬ p (n + 1)) : ∃ r ∈ rs, r.2 = n := by
  obtain ⟨r, hr, h1, h2⟩ := h.covers n hn hp
  refine ⟨r, hr, le_antisymm ?_ h2⟩
  by_contra hlt
  exact hend ((h.runs r hr).all (n + 1) (by omega) (by omega))

end Intervals
