/-
# What a collection has changed so far

A copy moves one entry of the mapping table to a free page outside the victim, an
erase counts one more erase of a block of the victim; the user write pointer and
the page counters do not move.  `Tracked` adds these steps up.
-/

import NvmeVirt.ConvFtl.Space

namespace NvmeVirt

open Outcome

/-! ### The lists of lines -/

theorem LineMgmt.retireLine_freeLineList {lm lm' : LineMgmt} {fn : Fn} {spp : Ssdparams} {l : ℕ}
    (h : lm.retireLine fn spp l = .ok lm') : lm'.freeLineList = lm.freeLineList := by
  unfold LineMgmt.retireLine at h
  dsimp only at h
  split_ifs at h with hv
  · obtain ⟨-, -, h⟩ := bind_eq_ok.1 h
    cases h
    rfl
  · obtain ⟨-, -, h⟩ := bind_eq_ok.1 h
    obtain ⟨-, -, h⟩ := bind_eq_ok.1 h
    obtain ⟨-, -, h⟩ := bind_eq_ok.1 h
    cases h
    rfl

theorem LineMgmt.takeFreeLine_suffix {lm : LineMgmt} {r : ℕ × LineMgmt}
    (h : lm.takeFreeLine = .ok r) : r.2.freeLineList <:+ lm.freeLineList := by
  unfold LineMgmt.takeFreeLine LineMgmt.getNextFreeLine at h
  cases hl : lm.freeLineList with
  | nil =>
    rw [hl] at h
    cases h
  | cons l rest =>
    rw [hl] at h
    cases h
    simp [LineMgmt.listDelInit, hl]

namespace ConvFtl

variable {f f' f₀ : ConvFtl} {v lpn : ℕ} {S : Finset Ppa} {er er' : ℕ × ℕ → Prop} {d : ℕ × ℕ}
  {p old : Ppa}

/-- **The `GC_IO` branch of `advance_write_pointer`** leaves the user write pointer alone and takes
lines from the head of the free list only. -/
theorem advanceGc_frame (h : f.advanceGc = .ok f') :
    f'.wp = f.wp ∧ f'.pageCounter = f.pageCounter ∧
      f'.lm.freeLineList <:+ f.lm.freeLineList := by
  unfold ConvFtl.advanceGc at h
  dsimp only at h
  obtain ⟨-, -, h⟩ := bind_eq_ok.1 h
  split_ifs at h
  · cases h
    exact ⟨rfl, rfl, List.suffix_rfl⟩
  all_goals obtain ⟨-, -, h⟩ := bind_eq_ok.1 h
  · cases h
    exact ⟨rfl, rfl, List.suffix_rfl⟩
  all_goals obtain ⟨-, -, h⟩ := bind_eq_ok.1 h
  · cases h
    exact ⟨rfl, rfl, List.suffix_rfl⟩
  · cases h
    exact ⟨rfl, rfl, List.suffix_rfl⟩
  · obtain ⟨lm, hlm, h⟩ := bind_eq_ok.1 h
    obtain ⟨-, -, h⟩ := bind_eq_ok.1 h
    obtain ⟨r, hr, h⟩ := bind_eq_ok.1 h
    obtain ⟨-, -, h⟩ := bind_eq_ok.1 h
    obtain ⟨-, -, h⟩ := bind_eq_ok.1 h
    cases h
    exact ⟨rfl, rfl, LineMgmt.retireLine_freeLineList hlm ▸ LineMgmt.takeFreeLine_suffix hr⟩

/-! ### Room for copies -/

/-- The pages a collection can hand out: the rest of its line and the free lines. -/
def gcRoom (f : ConvFtl) : ℕ :=
  ∑ d ∈ f.ssd.sp.dies, (f.ssd.sp.pgsPerBlk - gcFront f.ssd.sp f.gcWp d) +
    f.lm.freeLineList.length * f.ssd.sp.pgsPerLine

/-- **The free pages** are those of the user's line and those a collection can hand out. -/
theorem Sound.freePages_gcRoom {vs : List ℕ} {front : ℕ × ℕ → ℕ → ℕ} (h : f.Sound vs front) :
    freePages f.ssd.sp vs front = lineFree f.ssd.sp front f.wp.curline + f.gcRoom := by
  have hsum := h.homed.sum_lines (fun l => if l ∈ vs then 0 else lineFree f.ssd.sp front l)
    (fun l hl => if_pos hl) fun l hl => by
      split_ifs
      · rfl
      · exact lineFree_full (h.closed l hl)
  have hnot : ∀ l, l ∈ f.wp.curline :: f.gcWp.curline :: f.lm.freeLineList → l ∉ vs := by
    intro l hl hv
    have hcount := h.homed.count_le l
    have hpos := List.count_pos_iff.2 hv
    simp only [List.count_cons] at hcount
    rcases List.mem_cons.1 hl with rfl | hl
    · simp at hcount
      omega
    · rcases List.mem_cons.1 hl with rfl | hl
      · simp at hcount
        omega
      · have := List.count_pos_iff.2 hl
        omega
  have hlist : (f.lm.freeLineList.map fun l =>
      if l ∈ vs then 0 else lineFree f.ssd.sp front l).sum
        = f.lm.freeLineList.length * f.ssd.sp.pgsPerLine := by
    rw [List.map_congr_left (g := fun _ => f.ssd.sp.pgsPerLine) fun l hl => ?_, List.map_const',
      List.sum_replicate, smul_eq_mul]
    rw [if_neg (hnot l (by simp [hl])), lineFree_empty h.geom (h.free l hl)]
  rw [hlist, if_neg (hnot _ (by simp)), if_neg (hnot _ (by simp))] at hsum
  have hgc : lineFree f.ssd.sp front f.gcWp.curline =
      ∑ d ∈ f.ssd.sp.dies, (f.ssd.sp.pgsPerBlk - gcFront f.ssd.sp f.gcWp d) :=
    Finset.sum_congr rfl fun d hd => congrArg (f.ssd.sp.pgsPerBlk - ·) ((h.ptr .gc).front d hd)
  unfold freePages gcRoom
  rw [hsum, hgc]
  ring

/-- When no line is free for a collection's used-up one, it handed out its last page. -/
theorem Handed.freePages_of_exhausted {vs : List ℕ} {front : ℕ × ℕ → ℕ → ℕ}
    (h : f.Handed vs front .gc) (he : f.Exhausted front .gc) :
    freePages f.ssd.sp vs front = lineFree f.ssd.sp front f.wp.curline + 1 := by
  obtain ⟨hfree, hfull⟩ := he
  have hnext := h.freePages_next
  have hsum : freePages f.ssd.sp vs (f.nextFront .gc front) = _ := h.homed.sum_lines
    (fun l => if l ∈ vs then 0 else lineFree f.ssd.sp (f.nextFront .gc front) l)
    (fun l hl => if_pos hl) fun l hl => by
      split_ifs
      · rfl
      · exact lineFree_full fun d hd => h.next_closed hl hd
  have hu := h.curline_not_vs .user
  have hg := h.curline_not_vs .gc
  have hzero := lineFree_full hfull
  simp only [getWp] at hu hg hzero
  have hsame : lineFree f.ssd.sp (f.nextFront .gc front) f.wp.curline =
      lineFree f.ssd.sp front f.wp.curline :=
    Finset.sum_congr rfl fun d _ => by rw [nextFront_line h.curline_ne]
  rw [hfree, List.map_nil, List.sum_nil, if_neg hu, if_neg hg, hzero, hsame] at hsum
  omega

/-! ### The steps added up -/

/-- **What a collection of line `v` has changed** since the state `f₀`, with the pages in `S` copied
and the blocks of the dies in `er` erased. -/
structure Tracked (f₀ f : ConvFtl) (v : ℕ) (S : Finset Ppa) (er : ℕ × ℕ → Prop) : Prop where
  wp : f.wp = f₀.wp
  pageCounter : f.pageCounter = f₀.pageCounter
  freeLineList : f.lm.freeLineList <:+ f₀.lm.freeLineList
  kept : ∀ l, f₀.maptbl l ∉ S → f.maptbl l = f₀.maptbl l
  moved : ∀ l, l < f₀.ssd.sp.ttPgs → f₀.maptbl l ∈ S →
    (f.maptbl l).blk ≠ v ∧ (f₀.ssd.getPg (f.maptbl l)).status = .free
  free : ∀ p : Ppa, p.blk ≠ v → (f.ssd.getPg p).status = .free →
    (f₀.ssd.getPg p).status = .free
  erased : ∀ d ∈ f₀.ssd.sp.dies, er d →
    (f.ssd.blk (blockAt d v)).eraseCnt = (f₀.ssd.blk (blockAt d v)).eraseCnt + 1
  spared : ∀ a, (∀ d ∈ f₀.ssd.sp.dies, er d → a ≠ blockAt d v) →
    (f.ssd.blk a).eraseCnt = (f₀.ssd.blk a).eraseCnt
  rmap : S = ∅ → f.rmap = f₀.rmap
  named : ∀ i, f.rmap i = f₀.rmap i ∨
    f.rmap i < f₀.ssd.sp.ttPgs ∧ (f₀.table (f.rmap i)).isSome
  copies : (handOuts .gc f.log).length = (handOuts .gc f₀.log).length + S.card

/-- A collection begins with nothing changed. -/
theorem Tracked.refl (f : ConvFtl) (v : ℕ) (her : ∀ d ∈ f.ssd.sp.dies, ¬ er d) :
    Tracked f f v ∅ er where
  wp := rfl
  pageCounter := rfl
  freeLineList := List.suffix_rfl
  kept := fun _ _ => rfl
  moved := fun _ _ hm => absurd hm (Finset.notMem_empty _)
  free := fun _ _ hf => hf
  erased := fun d hd he => absurd he (her d hd)
  spared := fun _ _ => rfl
  rmap := fun _ => rfl
  named := fun _ => .inl rfl
  copies := by simp

/-- Only what is said of the dies of the geometry counts. -/
theorem Tracked.congr (h : Tracked f₀ f v S er) (her : ∀ d ∈ f₀.ssd.sp.dies, (er' d ↔ er d)) :
    Tracked f₀ f v S er' :=
  { h with
    erased := fun d hd he => h.erased d hd ((her d hd).1 he)
    spared := fun a ha => h.spared a fun d hd he => ha d hd ((her d hd).2 he) }

/-- **A copy** moves the entry of the logical page it is of. -/
theorem Tracked.copy (h : Tracked f₀ f v S er) (hold : old ∉ S)
    (hlpn : f.maptbl lpn = old)
    (hinj : ∀ l, l < f₀.ssd.sp.ttPgs → f.maptbl l = old → l = lpn) (hp : p.blk ≠ v)
    (hfree : (f.ssd.getPg p).status = .free) (hwp : f'.wp = f.wp)
    (hcnt : f'.pageCounter = f.pageCounter)
    (hlist : f'.lm.freeLineList <:+ f.lm.freeLineList)
    (hlt : lpn < f₀.ssd.sp.ttPgs) (hnamed : (f₀.table lpn).isSome)
    (hmap : f'.maptbl = Function.update f.maptbl lpn p) {i : ℕ}
    (hrmap : f'.rmap = Function.update f.rmap i lpn)
    (hstatus : ∀ q, (f'.ssd.getPg q).status = .free → (f.ssd.getPg q).status = .free)
    (herase : ∀ a, (f'.ssd.blk a).eraseCnt = (f.ssd.blk a).eraseCnt)
    (hlog : f'.log = .handOut .gc lpn p :: f.log) : Tracked f₀ f' v (insert old S) er := by
  -- a page of the victim is still where it was
  have hstay : ∀ l, l < f₀.ssd.sp.ttPgs → f₀.maptbl l = old → l = lpn := fun l hl he =>
    hinj l hl (by rw [h.kept l (he ▸ hold), he])
  refine {
    wp := hwp.trans h.wp, pageCounter := hcnt.trans h.pageCounter
    freeLineList := hlist.trans h.freeLineList, kept := fun l hl => ?_, moved := fun l hl hm => ?_
    free := fun q hq hf => h.free q hq (hstatus q hf)
    erased := fun d hd he => (herase _).trans (h.erased d hd he)
    spared := fun a ha => (herase a).trans (h.spared a ha)
    rmap := fun he => absurd he (Finset.insert_ne_empty _ _), named := fun j => ?_, copies := ?_ }
  · rw [Finset.mem_insert, not_or] at hl
    have hne : l ≠ lpn := by
      rintro rfl
      exact hl.1 (by rw [← h.kept l hl.2, hlpn])
    rw [hmap, Function.update_of_ne hne, h.kept l hl.2]
  · by_cases hlp : l = lpn
    · rw [hmap, hlp, Function.update_self]
      exact ⟨hp, h.free p hp hfree⟩
    · rw [hmap, Function.update_of_ne hlp]
      rcases Finset.mem_insert.1 hm with he | hm
      · exact absurd (hstay l hl he) hlp
      · exact h.moved l hl hm
  · rw [hrmap]
    by_cases hj : j = i
    · rw [hj, Function.update_self]
      exact .inr ⟨hlt, hnamed⟩
    · rw [Function.update_of_ne hj]
      exact h.named j
  · rw [hlog, Finset.card_insert_of_notMem hold, ← add_assoc, ← h.copies]
    simp [handOuts]

/-- **An erase** counts once, on one block of the victim. -/
theorem Tracked.erase (h : Tracked f₀ f v S er) (hd : d ∈ f₀.ssd.sp.dies) (her : ¬ er d)
    {b : NandBlock} (hb : b.eraseCnt = (f.ssd.blk (blockAt d v)).eraseCnt + 1)
    (hblk : f'.ssd.blk = Function.update f.ssd.blk (blockAt d v) b) (hwp : f'.wp = f.wp)
    (hcnt : f'.pageCounter = f.pageCounter) (hlist : f'.lm.freeLineList = f.lm.freeLineList)
    (hmap : f'.maptbl = f.maptbl) (hrmap : f'.rmap = f.rmap)
    (hlog : handOuts .gc f'.log = handOuts .gc f.log) :
    Tracked f₀ f' v S (fun e => er e ∨ e = d) := by
  have hne : ∀ a, a ≠ blockAt d v → f'.ssd.blk a = f.ssd.blk a := fun a ha => by
    rw [hblk, Function.update_of_ne ha]
  refine {
    wp := hwp.trans h.wp, pageCounter := hcnt.trans h.pageCounter
    freeLineList := hlist ▸ h.freeLineList, kept := fun l hl => by rw [hmap, h.kept l hl]
    moved := fun l hl hm => by rw [hmap]; exact h.moved l hl hm, free := fun q hq hf => ?_
    erased := fun e he hee => ?_, spared := fun a ha => ?_
    rmap := fun hs => hrmap.trans (h.rmap hs), named := fun j => by rw [hrmap]; exact h.named j
    copies := by rw [hlog]; exact h.copies }
  · refine h.free q hq ?_
    have hq' : q.blkAddr ≠ blockAt d v := fun hc => hq (congrArg BlkAddr.blk hc)
    have hsame : f'.ssd.getPg q = f.ssd.getPg q := by
      unfold Ssd.getPg Ssd.getBlk
      rw [hne _ hq']
    rwa [← hsame]
  · by_cases hed : e = d
    · subst hed
      rw [hblk, Function.update_self, hb, h.spared _ fun e' _ he' hc => ?_]
      rw [(blockAt_inj.1 hc).1] at her
      exact her he'
    · rw [hne _ fun hc => hed (blockAt_inj.1 hc).1]
      exact h.erased e he (hee.resolve_right hed)
  · rw [hne a (ha d hd (.inr rfl))]
    exact h.spared a fun e he hee => ha e he (.inl hee)

end ConvFtl

end NvmeVirt
