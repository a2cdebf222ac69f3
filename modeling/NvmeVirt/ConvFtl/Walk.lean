/-
# The walk over the dies

`advance_write_pointer` looks for the next die with a page left by a wrap-around
search, channel by channel.  The search visits every die: it comes back empty
only when all page counters are at the end of the block.
-/

import NvmeVirt.ConvFtl.Invariant

namespace NvmeVirt

open Outcome

namespace Ssdparams

variable {spp : Ssdparams} {d e : ℕ × ℕ}

/-- The place of a die in the walk. -/
def dieNo (spp : Ssdparams) (d : ℕ × ℕ) : ℕ := d.2 * spp.nchs + d.1

theorem dieNo_lt (hd : d ∈ spp.dies) : spp.dieNo d < spp.dies.card := by
  obtain ⟨h1, h2⟩ := mem_dies.1 hd
  rw [card_dies, mul_comm]
  exact digit_lt h2 h1

theorem dieNo_inj (hd : d ∈ spp.dies) (he : e ∈ spp.dies) (h : spp.dieNo d = spp.dieNo e) :
    d = e := by
  obtain ⟨h2, h1⟩ := digit_inj (mem_dies.1 hd).1 (mem_dies.1 he).1 h
  exact Prod.ext h1 h2

theorem dieIdx_inj (hd : d ∈ spp.dies) (he : e ∈ spp.dies)
    (h : spp.dieIdx d.1 d.2 = spp.dieIdx e.1 e.2) : d = e := by
  obtain ⟨h1, h2⟩ := digit_inj (mem_dies.1 hd).2 (mem_dies.1 he).2 h
  exact Prod.ext h1 h2

theorem nextDie_mem (hd : d ∈ spp.dies) : spp.nextDie d.1 d.2 ∈ spp.dies := by
  obtain ⟨h1, h2⟩ := mem_dies.1 hd
  rw [mem_dies]
  unfold nextDie
  split_ifs with hc hl
  · exact ⟨by omega, by omega⟩
  · exact ⟨by dsimp only; omega, by dsimp only; omega⟩
  · exact ⟨by dsimp only; omega, by dsimp only; omega⟩

/-- **The next die of the walk** is the following one, or the first after the last. -/
theorem dieNo_nextDie (hd : d ∈ spp.dies) :
    spp.dieNo (spp.nextDie d.1 d.2) = spp.dieNo d + 1 ∨
      spp.dieNo (spp.nextDie d.1 d.2) = 0 ∧ spp.dieNo d + 1 = spp.dies.card := by
  obtain ⟨h1, h2⟩ := mem_dies.1 hd
  rw [card_dies]
  unfold nextDie dieNo
  split_ifs with hc hl
  · refine .inr ⟨by simp, ?_⟩
    rw [← hl, ← hc]
    ring
  · refine .inl ?_
    dsimp only
    rw [← hc]
    ring
  · exact .inl (by dsimp only; omega)

end Ssdparams

open Ssdparams

/-- The walk from `cur`, which is `j` dies after `start`, when the dies in between are used up. -/
theorem walkDies_from {spp : Ssdparams} {cnt : ℕ → ℕ} {start : ℕ × ℕ} (hs : start ∈ spp.dies)
    (fuel : ℕ) (cur : ℕ × ℕ) (hc : cur ∈ spp.dies) (j : ℕ) (hj : fuel + j = spp.dies.card)
    (hpos : spp.dieNo cur = spp.dieNo start + j ∨
      spp.dieNo cur + spp.dies.card = spp.dieNo start + j)
    (hne : j = 0 ∨ cur ≠ start)
    (hfull : ∀ d ∈ spp.dies, ∀ i, 1 ≤ i → i ≤ j → (spp.dieNo d = spp.dieNo start + i ∨
      spp.dieNo d + spp.dies.card = spp.dieNo start + i) →
      spp.pgsPerBlk ≤ cnt (spp.dieIdx d.1 d.2)) :
    ∃ r, walkDies spp cnt start.1 start.2 fuel cur = .ok r ∧
      (∀ d, r = some d → d ∈ spp.dies ∧ cnt (spp.dieIdx d.1 d.2) < spp.pgsPerBlk) ∧
      (r = none → ∀ d ∈ spp.dies, spp.pgsPerBlk ≤ cnt (spp.dieIdx d.1 d.2)) := by
  have hslt := dieNo_lt hs
  induction fuel generalizing cur j with
  | zero =>
    -- the walk has come around: the current die is the start
    exfalso
    have hclt := dieNo_lt hc
    rcases hne with h0 | hne
    · omega
    · exact hne (dieNo_inj hc hs (by omega))
  | succ fuel ih =>
    obtain ⟨h1, h2⟩ := mem_dies.1 hc
    have hn := nextDie_mem hc
    have hno := dieNo_nextDie hc
    have hnlt := dieNo_lt hn
    have hclt := dieNo_lt hc
    unfold walkDies
    have hchk1 : checkAddr cur.1 spp.nchs = .ok () := nvmevAssert_eq_ok.2 h1
    have hchk2 : checkAddr cur.2 spp.lunsPerCh = .ok () := nvmevAssert_eq_ok.2 h2
    simp only [hchk1, hchk2, ok_bind, ite_self]
    set n := spp.nextDie cur.1 cur.2 with hndef
    have hnpos : spp.dieNo n = spp.dieNo start + (j + 1) ∨
        spp.dieNo n + spp.dies.card = spp.dieNo start + (j + 1) := by omega
    by_cases hroom : cnt (spp.dieIdx n.1 n.2) < spp.pgsPerBlk
    · rw [if_pos hroom]
      refine ⟨some n, rfl, fun d hd => ?_, fun h => nomatch h⟩
      obtain rfl := Option.some.inj hd
      exact ⟨hn, hroom⟩
    · rw [if_neg hroom]
      have hfull' : ∀ d ∈ spp.dies, ∀ i, 1 ≤ i → i ≤ j + 1 → (spp.dieNo d = spp.dieNo start + i ∨
          spp.dieNo d + spp.dies.card = spp.dieNo start + i) →
          spp.pgsPerBlk ≤ cnt (spp.dieIdx d.1 d.2) := by
        intro d hd i hi hij hdi
        rcases Nat.lt_or_ge j i with hji | hji
        · have hdlt := dieNo_lt hd
          have hdn : d = n := dieNo_inj hd hn (by omega)
          rw [hdn]
          exact not_lt.1 hroom
        · exact hfull d hd i hi hji hdi
      by_cases hback : n = start
      · rw [if_pos hback]
        refine ⟨none, rfl, fun d hd => (nomatch hd), fun _ d hd => ?_⟩
        have hdlt := dieNo_lt hd
        rw [hback] at hnpos
        rcases Nat.lt_or_ge (spp.dieNo start) (spp.dieNo d) with hlt | hge
        · exact hfull' d hd (spp.dieNo d - spp.dieNo start) (by omega) (by omega) (by omega)
        · exact hfull' d hd (spp.dieNo d + spp.dies.card - spp.dieNo start) (by omega) (by omega)
            (by omega)
      · rw [if_neg hback]
        exact ih n hn (j + 1) (by omega) hnpos (.inr hback) hfull'

/-- **The walk finds a die with a page left, or there is none.** -/
theorem walkDies_spec {spp : Ssdparams} (cnt : ℕ → ℕ) {start : ℕ × ℕ} (hs : start ∈ spp.dies) :
    ∃ r, walkDies spp cnt start.1 start.2 (spp.nchs * spp.lunsPerCh) start = .ok r ∧
      (∀ d, r = some d → d ∈ spp.dies ∧ cnt (spp.dieIdx d.1 d.2) < spp.pgsPerBlk) ∧
      (r = none → ∀ d ∈ spp.dies, spp.pgsPerBlk ≤ cnt (spp.dieIdx d.1 d.2)) := by
  rw [← card_dies]
  exact walkDies_from hs spp.dies.card start hs 0 (by omega) (.inl (by omega)) (.inl rfl)
    fun d hd i hi hi0 => absurd hi0 (by omega)

/-- **The counters of a used-up line are reset,** and none of the assertions fails. -/
theorem resetPageCounter_spec {spp : Ssdparams} {cnt : ℕ → ℕ} (fn : Fn)
    (hfull : ∀ d ∈ spp.dies, cnt (spp.dieIdx d.1 d.2) = spp.pgsPerBlk) :
    ∃ cnt', resetPageCounter fn spp cnt = .ok cnt' ∧
      ∀ d ∈ spp.dies, cnt' (spp.dieIdx d.1 d.2) = 0 := by
  have hend := Ends.forRange (n := spp.nchs) (E := fun _ : Fault => False) (s := cnt)
    (b := fun i cnt => forRange spp.lunsPerCh (fun j cnt => do
      nvmevAssert fn (cnt (spp.dieIdx i j) = spp.pgsPerBlk)
      .ok (Function.update cnt (spp.dieIdx i j) 0)) cnt)
    (fun i cnt => ∀ d ∈ spp.dies, cnt (spp.dieIdx d.1 d.2) =
      if d.1 < i then 0 else spp.pgsPerBlk)
    (fun d hd => by simpa using hfull d hd) fun i hi c hc => ?_
  · obtain ⟨cnt', h1, h2⟩ := hend.exists_ok
    exact ⟨cnt', h1, fun d hd => by rw [h2 d hd, if_pos (mem_dies.1 hd).1]⟩
  · refine (Ends.forRange (fun j c => ∀ d ∈ spp.dies, c (spp.dieIdx d.1 d.2) =
      if d.1 < i ∨ d.1 = i ∧ d.2 < j then 0 else spp.pgsPerBlk) ?_ ?_).mono ?_ fun _ h => h
    · exact fun d hd => by simpa using hc d hd
    · intro j hj c hc
      have hij : ((i, j) : ℕ × ℕ) ∈ spp.dies := mem_dies.2 ⟨hi, hj⟩
      have hcur : c (spp.dieIdx i j) = spp.pgsPerBlk := by
        have := hc (i, j) hij
        rwa [if_neg (by simp)] at this
      rw [nvmevAssert_bind hcur]
      intro d hd
      by_cases hdij : d = (i, j)
      · subst hdij
        simp
      · have hne : spp.dieIdx d.1 d.2 ≠ spp.dieIdx i j := fun he => hdij (dieIdx_inj hd hij he)
        rw [Function.update_of_ne hne, hc d hd]
        have : d.1 ≠ i ∨ d.2 ≠ j := by
          by_contra hcon
          push Not at hcon
          exact hdij (Prod.ext hcon.1 hcon.2)
        congr 1
        refine propext ⟨?_, ?_⟩ <;> omega
    · intro c hc d hd
      rw [hc d hd]
      obtain ⟨-, h2⟩ := mem_dies.1 hd
      congr 1
      refine propext ⟨?_, ?_⟩ <;> omega

end NvmeVirt
