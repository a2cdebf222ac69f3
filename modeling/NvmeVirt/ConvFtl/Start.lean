/-
# A fresh FTL instance

`conv_init_ftl` establishes the invariant: all pages are free, no logical page
is mapped, and the two write pointers stand on the first two lines.
-/

import NvmeVirt.ConvFtl.PageWrite

namespace NvmeVirt

open Outcome Inverse

/-- **All lines are free** after `init_lines`. -/
theorem initLines_homed {spp : Ssdparams} {lm : LineMgmt} (h : initLines spp = .ok lm) :
    spp.blksPerPl = spp.ttLines ∧ lm.freeLineList = List.range spp.blksPerPl ∧
      lm.fullLineList = [] ∧ lm.victimLinePq.size = 1 ∧
      (∀ l, lm.lines l = { id := l, ipc := 0, vpc := 0, pos := 0 }) ∧
      lm.Homed spp.blksPerPl [] := by
  unfold initLines at h
  simp only [bind_eq_ok, nvmevAssert_eq_ok] at h
  obtain ⟨-, htt, h⟩ := h
  cases h
  have hnot : ∀ l, ¬ (Pqueue.pqueueInit spp.ttLines : Pqueue ℕ).Mem l := by
    rintro l ⟨i, h1, h2, -⟩
    exact absurd h2 (not_lt.2 h1)
  refine ⟨htt, rfl, rfl, rfl, fun l => rfl, {
    homes := ?_, placed := fun i h1 h2 => absurd h2 (not_lt.2 h1)
    avail := ?_, size_pos := le_rfl, pos := fun l _ h0 => absurd rfl h0
    freeCnt := by simp, fullCnt := rfl, victimCnt := rfl, id := fun l _ => rfl
    full := by simp, queued := fun l hl => absurd hl (hnot l)
    ordered := fun i h2 hi => absurd hi (not_lt.2 (h2.trans' one_le_two)), ttLines := rfl }⟩
  · simp [LineMgmt.homes, Pqueue.elems, Pqueue.pqueueInit]
  · simp [Pqueue.pqueueInit, htt]

/-- A write pointer starts on a line of its own, on the first page of the first die. -/
theorem prepareWritePointer_spec {lm lm' : LineMgmt} {n : ℕ} {held : List ℕ} {wp : WritePointer}
    (hh : lm.Homed n held) (h : prepareWritePointer lm = .ok (wp, lm')) :
    wp = { curline := wp.curline, ch := 0, lun := 0, pg := 0, blk := wp.curline, pl := 0 } ∧
      lm'.Homed n (wp.curline :: held) ∧ (∀ l ∈ lm'.freeLineList, l ∈ lm.freeLineList) ∧
      lm'.fullLineList = lm.fullLineList ∧ lm'.victimLinePq = lm.victimLinePq ∧
      lm'.lines = lm.lines := by
  unfold prepareWritePointer at h
  cases hs : lm.getNextFreeLine with
  | none => rw [hs] at h; cases h
  | some r =>
    obtain ⟨l, lm₁⟩ := r
    rw [hs] at h
    cases h
    obtain ⟨hh', hfree, hfull, hpq, hlines⟩ := hh.getNextFreeLine hs
    have hid : (lm'.lines l).id = l := hh'.id l (hh'.held_lt (by simp))
    refine ⟨by simp [hid], hh', fun k hk => ?_, hfull, hpq, hlines⟩
    rw [hfree]
    exact List.mem_cons_of_mem _ hk

namespace ConvFtl

/-- The state `conv_init_ftl` returns. -/
structure Fresh (cpp : ConvParams) (spp : Ssdparams) (f : ConvFtl) : Prop where
  ssd : f.ssd = ssdInit spp
  cp : f.cp = cpp
  unmapped : ∀ l, f.table l = none
  log : f.log = []
  wfc : f.wfc = ⟨u32 spp.pgsPerLine, u32 spp.pgsPerLine⟩

/-- The assertion of `init_lines` fixes one plane to a die, as there are two lines. -/
theorem convInitFtl_plsPerLun {capacity nparts : ℕ} {cfg : FtlConfigs} {cpp : ConvParams}
    {spp : Ssdparams} {f : ConvFtl} (hspp : ssdInitParams capacity nparts cfg = .ok spp)
    (h : convInitFtl cpp (ssdInit spp) = .ok f) : spp.plsPerLun = 1 ∧ spp.ttPgs < 2 ^ 31 := by
  unfold convInitFtl at h
  simp only [bind_eq_ok, defined_eq_ok] at h
  obtain ⟨-, htt, lm₀, hlm₀, ⟨wp, lm₁⟩, hwp, -⟩ := h
  obtain ⟨hlines, -, -, -, -, hh₀⟩ := initLines_homed hlm₀
  obtain ⟨-, hh₁, -⟩ := prepareWritePointer_spec hh₀ hwp
  have hpos : 0 < spp.blksPerPl := Nat.zero_lt_of_lt (hh₁.held_lt (l := wp.curline) (by simp))
  have htl : spp.ttLines = spp.blksPerPl * spp.plsPerLun := by
    unfold ssdInitParams at hspp
    simp only [bind_eq_ok, toInt_eq_ok] at hspp
    obtain ⟨_, -, _, -, r, -, _, -, _, -, _, -, _, -, os, -, fl, -, ppb, -, ppp, -, bpl,
      ⟨-, rfl⟩, ttl, -, hspp⟩ := hspp
    cases hspp
    rfl
  have hsp : (ssdInit spp).sp = spp := rfl
  rw [hsp, htl] at hlines
  exact ⟨Nat.eq_of_mul_eq_mul_left hpos (by omega), htt⟩

/-- **A fresh instance satisfies the invariant** if its coordinates fit `struct ppa`. -/
theorem convInitFtl_sound {capacity nparts : ℕ} {cfg : FtlConfigs} {cpp : ConvParams}
    {spp : Ssdparams} {f : ConvFtl} (hspp : ssdInitParams capacity nparts cfg = .ok spp)
    (hfit : spp.FitsPpa) (h : convInitFtl cpp (ssdInit spp) = .ok f) :
    f.Sound [] (fun _ _ => 0) ∧ Fresh cpp spp f := by
  obtain ⟨hpls, htt⟩ := convInitFtl_plsPerLun hspp h
  unfold convInitFtl at h
  simp only [bind_eq_ok, defined_eq_ok] at h
  obtain ⟨-, -, lm₀, hlm₀, ⟨wp, lm₁⟩, hwp, ⟨gcWp, lm₂⟩, hgc, h⟩ := h
  obtain ⟨-, hfree₀, hfull₀, hsize₀, hline₀, hh₀⟩ := initLines_homed hlm₀
  obtain ⟨hwpe, hh₁, hfree₁, hfull₁, hpq₁, hl₁⟩ := prepareWritePointer_spec hh₀ hwp
  obtain ⟨hgce, hh₂, hfree₂, hfull₂, hpq₂, hl₂⟩ := prepareWritePointer_spec hh₁ hgc
  have hsp : (ssdInit spp).sp = spp := rfl
  simp only [hsp] at hh₁ hh₂ h
  have g := ssdInitParams_geometry hspp hpls hfit htt
  have hclosed : ∀ l, ¬ lm₂.Closed l := by
    rintro l (hl | hl)
    · rw [hfull₂, hfull₁, hfull₀] at hl
      cases hl
    · rw [hpq₂, hpq₁] at hl
      obtain ⟨i, h1, h2, -⟩ := hl
      omega
  have hptr : ∀ wp : WritePointer, ∀ cnt : ℕ × ℕ → ℕ,
      wp = { curline := wp.curline, ch := 0, lun := 0, pg := 0, blk := wp.curline, pl := 0 } →
      (∀ d ∈ spp.dies, cnt d = 0) → WpOk spp wp cnt (fun _ _ => 0) := by
    intro wp cnt he hcnt
    have hdie : ((0, 0) : ℕ × ℕ) ∈ spp.dies := Ssdparams.mem_dies.2 ⟨g.nchs_pos, g.luns_pos⟩
    rw [he]
    exact ⟨rfl, rfl, hdie, fun d hd => (hcnt d hd).symm, (hcnt _ hdie).symm, id⟩
  cases h
  refine ⟨{
    geom := g, homed := hh₂.perm_held (List.Perm.swap _ _ _), nand := fun d _ l _ => ?_
    stats := fun l _ _ => ?_, ptr := fun io => ?_, free := fun _ _ _ _ => rfl
    closed := fun l hl => absurd hl (hclosed l), history := trivial
    run := fun io => ?_ }, ⟨rfl, rfl, fun l => ?_, rfl, rfl⟩⟩
  · exact ⟨BlockOk.init spp, rfl⟩
  · simp only [hl₂, hl₁, hline₀]
    exact ⟨(Finset.sum_const_zero).symm, (Finset.sum_const_zero).symm⟩
  · cases io
    · exact hptr wp _ hwpe fun d _ => rfl
    · refine hptr gcWp _ hgce fun d hd => ?_
      simp only [written]
      rw [hgce]
      simp [gcFront]
  · cases io
    · exact List.isChain_singleton _
    · exact List.isChain_singleton _
  · simp [table, mappedPpa]

/-- The invariant of a fresh instance. -/
theorem Fresh.inv {cpp : ConvParams} {spp : Ssdparams} {f : ConvFtl}
    (h : Fresh cpp spp f) (hs : f.Sound [] fun _ _ => 0) : f.Inv := by
  refine ⟨⟨_, hs⟩, ⟨fun l _ p hp => ?_, ?_⟩, fun io l p hp => ?_⟩
  · rw [h.unmapped] at hp
    cases hp
  · rintro p ⟨-, -, hv, -⟩
    rw [h.ssd] at hv
    cases hv
  · rw [h.log] at hp
    cases hp

end ConvFtl

end NvmeVirt
