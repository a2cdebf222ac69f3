/-
# One call of the cleaner on a new namespace

While a new namespace is filled every page is written once: no page becomes
invalid, so that the free pages and the mapped ones are all there are (`Tidy`).  A
call of `phfrag_cleaner` for unmapped pages writes a first part of them; what it
returns says where the rest begins.
-/

import NvmeVirt.ConvFtl.CleanFtl
import NvmeVirt.ConvFtl.Runs

namespace NvmeVirt

open Outcome

namespace ConvFtl

variable {f f' : ConvFtl} {front front' : ℕ × ℕ → ℕ → ℕ} {lpn : ℕ}

/-! ### Every page once -/

/-- **A page is free, valid or invalid.** -/
theorem Sound.freePages_add (h : f.Sound [] front) (hm : f.MapOk f.table ∅) :
    freePages f.ssd.sp [] front + f.mappedCount +
      ∑ l ∈ Finset.range f.ssd.sp.blksPerPl, (f.lm.lines l).ipc =
        f.ssd.sp.blksPerPl * f.ssd.sp.pgsPerLine := by
  have hline : ∀ l ∈ Finset.range f.ssd.sp.blksPerPl,
      lineFree f.ssd.sp front l + (f.lm.lines l).vpc + (f.lm.lines l).ipc =
        f.ssd.sp.pgsPerLine := by
    intro l hl
    have hl' := Finset.mem_range.1 hl
    have hsum : lineFree f.ssd.sp front l + ∑ d ∈ f.ssd.sp.dies, front d l =
        f.ssd.sp.pgsPerLine := by
      unfold lineFree
      rw [← Finset.sum_add_distrib, ← h.geom.card_mul, ← smul_eq_mul, ← Finset.sum_const]
      exact Finset.sum_congr rfl fun d hd => Nat.sub_add_cancel (h.front_le hl' hd)
    have := h.line_sum hl' (by simp)
    omega
  have hfree : freePages f.ssd.sp [] front =
      ∑ l ∈ Finset.range f.ssd.sp.blksPerPl, lineFree f.ssd.sp front l :=
    Finset.sum_congr rfl fun l _ => if_neg (by simp)
  rw [h.mappedCount_eq hm, hfree, ← Finset.sum_add_distrib, ← Finset.sum_add_distrib,
    Finset.sum_congr rfl hline, Finset.sum_const, Finset.card_range, smul_eq_mul]

/-- The mapped logical pages. -/
def mappedSet (f : ConvFtl) : Finset ℕ :=
  (Finset.range f.ssd.sp.ttPgs).filter fun l => (f.table l).isSome

theorem card_mappedSet (f : ConvFtl) : f.mappedSet.card = f.mappedCount := rfl

theorem mem_mappedSet {l : ℕ} : l ∈ f.mappedSet ↔ l < f.ssd.sp.ttPgs ∧ (f.table l).isSome := by
  unfold mappedSet
  rw [Finset.mem_filter, Finset.mem_range]

/-- **An instance no page of which was written twice:** the invariant holds, and the pages that
are neither free nor mapped add up to nothing. -/
structure Tidy (f : ConvFtl) : Prop where
  sound : ∃ front, f.Sound [] front ∧ f.ssd.sp.blksPerPl * f.ssd.sp.pgsPerLine ≤
    freePages f.ssd.sp [] front + f.mappedCount
  map : f.MapOk f.table ∅
  written : f.WrittenMapped

/-- No page is invalid. -/
theorem Tidy.ipc_eq_zero (h : f.Tidy) {l : ℕ} (hl : l < f.ssd.sp.blksPerPl) :
    (f.lm.lines l).ipc = 0 := by
  obtain ⟨front, hs, hle⟩ := h.sound
  have hsum := hs.freePages_add h.map
  have hzero : ∑ l ∈ Finset.range f.ssd.sp.blksPerPl, (f.lm.lines l).ipc = 0 := by omega
  exact (Finset.sum_eq_zero_iff.1 hzero) l (Finset.mem_range.2 hl)

/-- A fresh instance. -/
theorem Fresh.tidy {cpp : ConvParams} {spp : Ssdparams} (h : Fresh cpp spp f)
    (hs : f.Sound [] fun _ _ => 0) : f.Tidy := by
  have hinv := h.inv hs
  refine ⟨⟨_, hs, ?_⟩, hinv.map, hinv.written⟩
  have hfree : freePages f.ssd.sp [] (fun _ _ => 0) =
      f.ssd.sp.blksPerPl * f.ssd.sp.pgsPerLine := by
    unfold freePages
    rw [Finset.sum_congr rfl fun l _ => (if_neg (by simp)).trans
      (lineFree_empty hs.geom fun _ _ => rfl), Finset.sum_const, Finset.card_range, smul_eq_mul]
  omega

/-- Nothing is mapped in a fresh instance. -/
theorem Fresh.mappedSet {cpp : ConvParams} {spp : Ssdparams} (h : Fresh cpp spp f) :
    f.mappedSet = ∅ :=
  Finset.eq_empty_iff_forall_notMem.2 fun l hl => by
    have := (mem_mappedSet.1 hl).2
    rw [h.unmapped] at this
    cases this

/-- The write credits cost no free page but the one that was handed out. -/
theorem PageDone.free_le (h : PageDone f f' front front' lpn) :
    freePages f.ssd.sp [] front ≤ freePages f.ssd.sp [] front' + 1 := by
  obtain ⟨b, hb, href⟩ := h.credit
  cases href <;> omega

/-- **A page write of the cleaner** for an unmapped page. -/
theorem Tidy.cleanPage (h : f.Tidy) (hlpn : lpn < f.ssd.sp.ttPgs) (hnew : lpn ∉ f.mappedSet)
    (degree : ℕ) (con conti : ℤ) (random : ℕ) :
    Ends (f.cleanPage degree con conti random lpn)
      (fun r => r.1.Tidy ∧ r.1.ssd.sp = f.ssd.sp ∧ r.1.mappedSet = insert lpn f.mappedSet)
      (fun e => e = .noFreeLine ∧ f.ssd.sp.blksPerPl * f.ssd.sp.pgsPerLine ≤
        f.mappedSet.card + 2 * f.ssd.sp.pgsPerLine) := by
  obtain ⟨front, hs, hle⟩ := h.sound
  refine (hs.cleanPage h.map h.written hlpn degree con conti random).mono ?_ ?_
  · rintro ⟨f', con', conti', r⟩ ⟨front', hd⟩
    dsimp only at hd ⊢
    have hset : f'.mappedSet = insert lpn f.mappedSet := by
      ext l
      rw [Finset.mem_insert, mem_mappedSet, mem_mappedSet, hd.sp, hd.dom l]
      constructor
      · rintro ⟨hl, rfl | hm⟩
        · exact .inl rfl
        · exact .inr ⟨hl, hm⟩
      · rintro (rfl | ⟨hl, hm⟩)
        · exact ⟨hlpn, .inl rfl⟩
        · exact ⟨hl, .inr hm⟩
    have hcount : f'.mappedCount = f.mappedCount + 1 := by
      rw [← card_mappedSet, hset, Finset.card_insert_of_notMem hnew, card_mappedSet]
    have hfree := hd.free_le
    refine ⟨⟨⟨front', hd.sound, ?_⟩, hd.map, hd.written⟩, hd.sp, hset⟩
    rw [hd.sp, hcount]
    omega
  · rintro e ⟨he, hfew⟩
    rw [card_mappedSet]
    exact ⟨he, by omega⟩

/-! ### The loop of the cleaner -/

/-- The number of pages from `first` to `last` in steps of `n`. -/
def stepCount (n first last : ℕ) : ℕ := (last + n - first) / n

theorem lt_stepCount {n first last i : ℕ} (hn : 0 < n) :
    i < stepCount n first last ↔ first + i * n ≤ last := by
  unfold stepCount
  rw [Nat.lt_iff_add_one_le, Nat.le_div_iff_mul_le hn, Nat.add_mul, Nat.one_mul]
  omega

/-- **What a call of the cleaner has done** from its round `i` to its round `w`. -/
structure Cleaned (a : CleanRequest) (n : ℕ) (f : ConvFtl) (i w : ℕ)
    (r : ConvFtl × Option RewritePointer × ℤ × ℤ) : Prop where
  tidy : r.1.Tidy
  sp : r.1.ssd.sp = f.ssd.sp
  ge : i ≤ w
  le : w ≤ stepCount n a.startLpn a.endLpn
  mapped : r.1.mappedSet.val = f.mappedSet.val + List.range' (a.startLpn / n + i) (w - i)
  all : r.2.1 = none → w = stepCount n a.startLpn a.endLpn
  rest : ∀ p, r.2.1 = some p → w < stepCount n a.startLpn a.endLpn ∧
    p.startpoint = some (a.startLpn + w * n) ∧
      (p.preempt = some false ∧ i < w ∨
        p.preempt = some true ∧ a.force = false ∧
          ∃ k, p.preemptCounter = some k ∧ k < a.preempt.length)

/-- An entry that waits for the die has a number. -/
theorem preempted_eq_some {a : CleanRequest} {wp : WritePointer} {k : ℕ}
    (h : a.preempted wp = some k) : a.force = false ∧ k < a.preempt.length := by
  unfold CleanRequest.preempted at h
  split_ifs at h with hno
  obtain ⟨hforce, -⟩ := not_or.1 hno
  exact ⟨Bool.eq_false_iff.2 hforce, (List.findIdx?_eq_some_iff_findIdx_eq.1 h).1⟩

/-- One page written before the rest. -/
theorem Cleaned.cons {a : CleanRequest} {n i w : ℕ} {f₁ : ConvFtl}
    {r : ConvFtl × Option RewritePointer × ℤ × ℤ} (h : Cleaned a n f₁ (i + 1) w r)
    (hsp : f₁.ssd.sp = f.ssd.sp)
    (hset : f₁.mappedSet.val = f.mappedSet.val + List.range' (a.startLpn / n + i) 1) :
    Cleaned a n f i w r where
  tidy := h.tidy
  sp := h.sp.trans hsp
  ge := (Nat.le_succ i).trans h.ge
  le := h.le
  mapped := by
    have hge := h.ge
    rw [h.mapped, hset, add_assoc, Multiset.coe_add, ← Nat.add_assoc, List.range'_append_1]
    congr 3
    omega
  all := h.all
  rest := fun p hp => by
    obtain ⟨hlt, hstart, hpre⟩ := h.rest p hp
    exact ⟨hlt, hstart, hpre.imp_left fun hp => ⟨hp.1, (Nat.lt_succ_self i).trans hp.2⟩⟩

/-- **The loop of `phfrag_cleaner`** for pages that are not mapped. -/
theorem Tidy.phfragCleanerLoop (a : CleanRequest) {n : ℕ} (hn : 0 < n) (fuel i : ℕ)
    (con conti : ℤ) (h : f.Tidy) (hi : i ≤ stepCount n a.startLpn a.endLpn)
    (hfuel : stepCount n a.startLpn a.endLpn ≤ i + fuel)
    (hnew : ∀ l ∈ List.range' (a.startLpn / n + i) (stepCount n a.startLpn a.endLpn - i),
      l < f.ssd.sp.ttPgs ∧ l ∉ f.mappedSet) :
    Ends (phfragCleanerLoop a n fuel i f con conti) (fun r => ∃ w, Cleaned a n f i w r)
      (fun e => e = .noFreeLine ∧ f.ssd.sp.blksPerPl * f.ssd.sp.pgsPerLine <
        f.mappedSet.card + (stepCount n a.startLpn a.endLpn - i) + 2 * f.ssd.sp.pgsPerLine) := by
  induction fuel generalizing i f con conti with
  | zero =>
    have hend : i = stepCount n a.startLpn a.endLpn := by omega
    exact ⟨i, h, rfl, le_rfl, hi, by simp, fun _ => hend, fun p hp => by cases hp⟩
  | succ fuel ih =>
    unfold ConvFtl.phfragCleanerLoop
    dsimp only
    by_cases hend : a.endLpn < a.startLpn + i * n
    · have hlen : i = stepCount n a.startLpn a.endLpn := by
        have := mt (lt_stepCount hn).1 (not_le.2 hend)
        omega
      rw [if_pos hend]
      exact ⟨i, h, rfl, le_rfl, hi, by simp, fun _ => hlen, fun p hp => by cases hp⟩
    have hlt := (lt_stepCount hn).2 (not_lt.1 hend)
    rw [if_neg hend]
    cases hpre : a.preempted f.wp with
    | some k =>
      refine ⟨i, h, rfl, le_rfl, hi, by simp, fun hr => (by cases hr), fun p hp => ?_⟩
      cases hp
      obtain ⟨hforce, hk⟩ := preempted_eq_some hpre
      exact ⟨hlt, rfl, .inr ⟨rfl, hforce, k, rfl, hk⟩⟩
    | none =>
      dsimp only
      have hloc : (a.startLpn + i * n) / n = a.startLpn / n + i := Nat.add_mul_div_right _ _ hn
      rw [hloc]
      obtain ⟨hin, hout⟩ := hnew (a.startLpn / n + i) (by rw [List.mem_range'_1]; omega)
      refine ((h.cleanPage hin hout a.degree con conti (a.random i)).mono (fun _ h => h) ?_).bind ?_
      · rintro e ⟨he, hle⟩
        exact ⟨he, by omega⟩
      rintro ⟨f₁, con₁, conti₁, r⟩ ⟨htidy, hsp, hset⟩
      dsimp only at htidy hsp hset ⊢
      have hval : f₁.mappedSet.val = f.mappedSet.val + List.range' (a.startLpn / n + i) 1 := by
        rw [hset, Finset.insert_val_of_notMem hout, List.range'_one, Multiset.coe_singleton]
        exact (Multiset.singleton_add _ _).symm.trans (add_comm _ _)
      -- What remains to be shown for a call that returns behind this page.
      have hstop : ∀ p : RewritePointer, p.startpoint = some (a.startLpn + i * n + n) →
          p.preempt = some false →
          Cleaned a n f i (i + 1)
            (f₁, (if a.endLpn < a.startLpn + i * n + n then none else some p), con₁, conti₁) := by
        intro p hstart hfalse
        have hnext : a.startLpn + i * n + n = a.startLpn + (i + 1) * n := by ring
        refine ⟨htidy, hsp, Nat.le_succ i, hlt, by rw [hval, Nat.add_sub_cancel_left], fun hr => ?_,
          fun p' hp => ?_⟩
        · dsimp only at hr
          split_ifs at hr with hlast
          rw [hnext] at hlast
          have := mt (lt_stepCount hn).1 (not_le.2 hlast)
          omega
        · dsimp only at hp
          split_ifs at hp with hlast
          cases hp
          rw [hnext] at hlast hstart
          exact ⟨(lt_stepCount hn).2 (not_lt.1 hlast), hstart, .inl ⟨hfalse, Nat.lt_succ_self i⟩⟩
      cases r with
      | some r => exact ⟨i + 1, hstop { r with
          startpoint := some (a.startLpn + i * n + n), preempt := some false } rfl rfl⟩
      | none =>
        by_cases hcon : ((16 * f₁.ssd.sp.pgsPerOneshotpg : ℕ) : ℤ) ≤ con₁
        · rw [if_pos hcon]
          exact ⟨i + 1, hstop ⟨-1, -1, some (a.startLpn + i * n + n), some false, none⟩ rfl rfl⟩
        · rw [if_neg hcon]
          refine (ih (i + 1) con₁ conti₁ htidy (by omega) (by omega) fun l hl => ?_).mono ?_ ?_
          · rw [List.mem_range'_1] at hl
            obtain ⟨hl1, hl2⟩ := hnew l (by rw [List.mem_range'_1]; omega)
            rw [hsp, hset, Finset.mem_insert]
            exact ⟨hl1, fun h => h.elim (fun h => by omega) hl2⟩
          · rintro r ⟨w, hw⟩
            exact ⟨w, hw.cons hsp hval⟩
          · rintro e ⟨he, hle⟩
            rw [hsp, hset, Finset.card_insert_of_notMem hout] at hle
            exact ⟨he, by omega⟩

end ConvFtl

end NvmeVirt
