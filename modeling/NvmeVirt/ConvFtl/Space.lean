/-
# Accounting for free pages

`freePages` counts the pages that are not written, outside the lines in `vs`.
Handing out a page takes one; a write pointer that finds no free line when its
own line is used up says that hardly any are left.
-/

import NvmeVirt.ConvFtl.Remap

namespace NvmeVirt

open Outcome

/-- The free pages of a line. -/
def lineFree (spp : Ssdparams) (front : ℕ × ℕ → ℕ → ℕ) (l : ℕ) : ℕ :=
  ∑ d ∈ spp.dies, (spp.pgsPerBlk - front d l)

/-- The free pages outside the lines in `vs`. -/
def freePages (spp : Ssdparams) (vs : List ℕ) (front : ℕ × ℕ → ℕ → ℕ) : ℕ :=
  ∑ l ∈ Finset.range spp.blksPerPl, if l ∈ vs then 0 else lineFree spp front l

/-- **A sum over all lines** is a sum over the open and the free ones, if the rest add nothing. -/
theorem LineMgmt.Homed.sum_lines {lm : LineMgmt} {n a b : ℕ} {vs : List ℕ}
    (h : lm.Homed n (a :: b :: vs)) (g : ℕ → ℕ) (hvs : ∀ l ∈ vs, g l = 0)
    (hclosed : ∀ l, lm.Closed l → g l = 0) :
    ∑ l ∈ Finset.range n, g l = g a + g b + (lm.freeLineList.map g).sum := by
  have hzero : ∀ ls : List ℕ, (∀ l ∈ ls, g l = 0) → (ls.map g).sum = 0 := fun ls hls =>
    List.sum_eq_zero fun x hx => by
      obtain ⟨l, hl, rfl⟩ := List.mem_map.1 hx
      exact hls l hl
  have hperm : ((List.range n).map g).sum = ((lm.homes (a :: b :: vs)).map g).sum :=
    (h.homes.map g).sum_eq.symm
  have hrange : ∑ l ∈ Finset.range n, g l = ((List.range n).map g).sum := rfl
  rw [hrange, hperm]
  simp only [LineMgmt.homes, List.map_append, List.sum_append, List.map_cons, List.sum_cons]
  rw [hzero vs hvs, hzero lm.fullLineList fun l hl => hclosed l (.inl hl),
    hzero lm.victimLinePq.elems fun l hl => hclosed l (.inr (Pqueue.mem_elems.1 hl))]
  ring

namespace ConvFtl

variable {f : ConvFtl} {vs : List ℕ} {front : ℕ × ℕ → ℕ → ℕ} {l : ℕ} {io : IoType}

theorem lineFree_le {spp : Ssdparams} (g : spp.Geometry) (front : ℕ × ℕ → ℕ → ℕ) (l : ℕ) :
    lineFree spp front l ≤ spp.pgsPerLine := by
  rw [← g.card_mul]
  exact Finset.sum_le_card_nsmul _ _ _ fun d _ => Nat.sub_le _ _

theorem lineFree_full {spp : Ssdparams}
    (h : ∀ d ∈ spp.dies, front d l = spp.pgsPerBlk) : lineFree spp front l = 0 :=
  Finset.sum_eq_zero fun d hd => by rw [h d hd, Nat.sub_self]

theorem lineFree_empty {spp : Ssdparams} (g : spp.Geometry)
    (h : ∀ d ∈ spp.dies, front d l = 0) : lineFree spp front l = spp.pgsPerLine := by
  rw [← g.card_mul, ← smul_eq_mul, ← Finset.sum_const]
  exact Finset.sum_congr rfl fun d hd => by rw [h d hd, Nat.sub_zero]

/-- **Handing out a page takes one free page.** -/
theorem Handed.freePages_next (h : f.Handed vs front io) :
    freePages f.ssd.sp vs (f.nextFront io front) + 1 = freePages f.ssd.sp vs front := by
  have hw := h.ptr io
  have hcur := Finset.mem_range.2 (h.curline_lt io)
  have hv := h.curline_not_vs io
  set c := (f.getWp io).curline with hc
  have hline : lineFree f.ssd.sp (f.nextFront io front) c + 1 = lineFree f.ssd.sp front c := by
    have hs := Sums.sum_change (f := fun d => f.ssd.sp.pgsPerBlk - front d c)
      (g := fun d => f.ssd.sp.pgsPerBlk - f.nextFront io front d c) hw.die fun e _ hne => by
        simp only [nextFront]
        rw [setFront_die hne]
    have hself : f.nextFront io front ((f.getWp io).ch, (f.getWp io).lun) c
        = (f.getWp io).pg + 1 := setFront_same
    have hfr : front ((f.getWp io).ch, (f.getWp io).lun) c = (f.getWp io).pg := by
      rw [hw.front _ hw.die, ← hw.pg]
    have hroom := h.room
    simp only [hself, hfr] at hs
    unfold lineFree
    omega
  have hs := Sums.sum_change
    (f := fun l => if l ∈ vs then 0 else lineFree f.ssd.sp front l)
    (g := fun l => if l ∈ vs then 0 else lineFree f.ssd.sp (f.nextFront io front) l) hcur
    fun m _ hne => by
      have : lineFree f.ssd.sp (f.nextFront io front) m = lineFree f.ssd.sp front m :=
        Finset.sum_congr rfl fun d _ => by rw [nextFront_line hne]
      simp only [this]
  simp only [if_neg hv] at hs
  unfold freePages
  omega

/-- **When no line is free for a used-up one, only the other pointer's line has free pages.** -/
theorem Handed.freePages_le_of_exhausted (h : f.Handed vs front io) (he : f.Exhausted front io) :
    freePages f.ssd.sp vs front ≤ f.ssd.sp.pgsPerLine + 1 := by
  obtain ⟨hfree, hfull⟩ := he
  have hnext := h.freePages_next
  have hsum : freePages f.ssd.sp vs (f.nextFront io front) = _ := h.homed.sum_lines
    (fun l => if l ∈ vs then 0 else lineFree f.ssd.sp (f.nextFront io front) l)
    (fun l hl => if_pos hl) fun l hl => by
      split_ifs
      · rfl
      · exact lineFree_full fun d hd => h.next_closed hl hd
  have hu := h.curline_not_vs .user
  have hg := h.curline_not_vs .gc
  simp only [getWp] at hu hg
  rw [hfree, List.map_nil, List.sum_nil, if_neg hu, if_neg hg] at hsum
  have hu' := lineFree_le h.geom (f.nextFront io front) f.wp.curline
  have hg' := lineFree_le h.geom (f.nextFront io front) f.gcWp.curline
  have hzero := lineFree_full hfull
  cases io
  · simp only [getWp] at hzero
    omega
  · simp only [getWp] at hzero
    omega

/-- **The free pages by their lines:** whole free lines and the rests of the two open ones. -/
theorem Sound.freePages_eq (h : f.Sound [] front) :
    freePages f.ssd.sp [] front = lineFree f.ssd.sp front f.wp.curline +
      lineFree f.ssd.sp front f.gcWp.curline +
      f.lm.freeLineCnt * f.ssd.sp.pgsPerLine := by
  have hsum := h.homed.sum_lines (fun l => lineFree f.ssd.sp front l) (by simp)
    fun l hl => lineFree_full (h.closed l hl)
  have hlist : (f.lm.freeLineList.map fun l => lineFree f.ssd.sp front l).sum
      = f.lm.freeLineCnt * f.ssd.sp.pgsPerLine := by
    rw [List.map_congr_left fun l hl => lineFree_empty h.geom (h.free l hl), List.map_const',
      List.sum_replicate, smul_eq_mul, h.homed.freeCnt]
  rw [hlist] at hsum
  rw [← hsum]
  exact Finset.sum_congr rfl fun l _ => if_neg (by simp)

/-- An open line has a free page. -/
theorem Sound.lineFree_pos (h : f.Sound vs front) (io : IoType) (hppb : 0 < f.ssd.sp.pgsPerBlk) :
    0 < lineFree f.ssd.sp front (f.getWp io).curline := by
  have hw := h.ptr io
  have hroom := hw.room hppb
  have hfr := h.front_page io
  refine lt_of_lt_of_le ?_ (Finset.single_le_sum
    (f := fun d => f.ssd.sp.pgsPerBlk - front d (f.getWp io).curline)
    (fun _ _ => Nat.zero_le _) hw.die)
  simp only [hfr]
  omega

end ConvFtl

end NvmeVirt
