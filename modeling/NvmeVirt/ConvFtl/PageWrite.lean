/-
# One page write, from invariant to invariant

A page write of the host or of the cleaner hands out a page, moves the user
write pointer, consumes a credit and, when none is left, refills the credits
after a collection if few lines are free.  `PageDone` is what the whole of it
achieves; it can stop only when no free line is left.
-/

import NvmeVirt.ConvFtl.DoGc
import NvmeVirt.ConvFtl.Cleaner

namespace NvmeVirt

open Outcome Inverse

namespace ConvFtl

variable {f f' f₁ f₂ : ConvFtl} {front : ℕ × ℕ → ℕ → ℕ} {lpn : ℕ}

/-! ### Mapped pages and valid pages -/

/-- The number of mapped logical pages. -/
def mappedCount (f : ConvFtl) : ℕ :=
  ((Finset.range f.ssd.sp.ttPgs).filter fun l => (f.table l).isSome).card

/-- **There are as many mapped logical pages as valid pages.** -/
theorem Sound.mappedCount_eq (h : f.Sound [] front) (hm : f.MapOk f.table ∅) :
    f.mappedCount = ∑ l ∈ Finset.range f.ssd.sp.blksPerPl, (f.lm.lines l).vpc := by
  have hcard := hm.card_eq ((Finset.range f.ssd.sp.ttPgs).filter fun l => (f.table l).isSome)
    ((Finset.range f.ssd.sp.blksPerPl).biUnion f.validPages) (fun l => by simp) fun p => by
      simp only [Finset.mem_biUnion, Finset.mem_range, mem_validPages, Live]
      constructor
      · rintro ⟨l, hl, d, hd, i, hi, hv, rfl⟩
        exact ⟨Ssdparams.validPpa_pageAt h.geom.layout hd hl hi, rfl, hv, Finset.notMem_empty _⟩
      · rintro ⟨h1, h2, h3, -⟩
        obtain ⟨d, l, i, hd, hl, hi, rfl⟩ := Ssdparams.exists_pageAt h.geom.layout h1 h2
        exact ⟨l, hl, d, hd, i, hi, h3, rfl⟩
  unfold mappedCount
  rw [← hcard, Finset.card_biUnion]
  · refine Finset.sum_congr rfl fun l hl => ?_
    have hl' := Finset.mem_range.1 hl
    rw [h.card_validPages hl', (h.stats l hl' (by simp)).1]
  · intro l _ m _ hlm
    rw [Function.onFun, Finset.disjoint_left]
    intro p hp hq
    obtain ⟨d, -, i, -, -, rfl⟩ := mem_validPages.1 hp
    obtain ⟨e, -, j, -, -, hj⟩ := mem_validPages.1 hq
    exact hlm (pageAt_inj.1 hj).2.1.symm

/-- **Without a queued line every closed line is full,** so only the open and the free lines keep
the mapped pages from filling the device. -/
theorem Sound.mapped_of_no_victim (h : f.Sound [] front) (hm : f.MapOk f.table ∅)
    (hq : f.lm.victimLinePq.size = 1) :
    f.ssd.sp.blksPerPl * f.ssd.sp.pgsPerLine ≤
      f.mappedCount + (f.lm.freeLineCnt + 2) * f.ssd.sp.pgsPerLine := by
  have hlen := h.homed.homes.length_eq
  simp only [LineMgmt.homes, List.length_append, List.length_cons, List.length_nil,
    Pqueue.length_elems, hq, List.length_range, ← h.homed.freeCnt] at hlen
  have hfull : f.lm.fullLineList.length * f.ssd.sp.pgsPerLine ≤ f.mappedCount := by
    rw [h.mappedCount_eq hm]
    have hnd : f.lm.fullLineList.Nodup := by
      refine List.nodup_iff_count_le_one.2 fun l => ?_
      have := h.homed.count_le l
      omega
    have hsub : f.lm.fullLineList.toFinset ⊆ Finset.range f.ssd.sp.blksPerPl := fun l hl =>
      Finset.mem_range.2 (h.homed.full_lt (List.mem_toFinset.1 hl))
    refine le_trans ?_ (Finset.sum_le_sum_of_subset (f := fun l => (f.lm.lines l).vpc) hsub)
    rw [← List.toFinset_card_of_nodup hnd]
    refine Finset.card_nsmul_le_sum _ _ _ fun l hl => ?_
    have hf := List.mem_toFinset.1 hl
    have h1 := h.line_sum (h.homed.full_lt hf) (by simp)
    have h2 := h.closed_sum (.inl hf)
    have h3 := h.homed.full l hf
    omega
  calc f.ssd.sp.blksPerPl * f.ssd.sp.pgsPerLine
      = f.lm.fullLineList.length * f.ssd.sp.pgsPerLine +
          (f.lm.freeLineCnt + 2) * f.ssd.sp.pgsPerLine := by rw [← Nat.add_mul]; congr 1; omega
    _ ≤ f.mappedCount + (f.lm.freeLineCnt + 2) * f.ssd.sp.pgsPerLine := by omega

/-! ### Credits -/

/-- What `check_and_refill_write_credit` does to the credits `w` and the free pages `b`, with
`mapped` mapped logical pages and the threshold `thr`. -/
inductive Refilled (spp : Ssdparams) (thr mapped : ℕ) (w : WriteFlowControl) (b : ℕ)
    (w' : WriteFlowControl) (b' : ℕ) : Prop
  /-- Credits are left. -/
  | kept (h : w.writeCredits ≠ 0) (hw : w' = w) (hb : b' = b)
  /-- Enough lines are free. -/
  | plenty (h : w.writeCredits = 0) (hfree : (thr + 1) * spp.pgsPerLine + 2 ≤ b)
      (hw : w' = { w with writeCredits := u32 w.creditsToRefill }) (hb : b' = b)
  /-- No line is queued for collection. -/
  | packed (h : w.writeCredits = 0)
      (hfull : spp.blksPerPl * spp.pgsPerLine ≤ mapped + (thr + 2) * spp.pgsPerLine)
      (hw : w' = { w with writeCredits := u32 w.creditsToRefill }) (hb : b' = b)
  /-- A collection freed the invalid pages of its victim. -/
  | collected (h : w.writeCredits = 0) (ipc : ℕ) (hpos : 0 < ipc) (hle : ipc ≤ spp.pgsPerLine)
      (hw : w' = { writeCredits := ipc, creditsToRefill := ipc }) (hb : b' = b + ipc)

/-- The invariant after the credits have been looked at. -/
structure RefillDone (f f' : ConvFtl) (front front' : ℕ × ℕ → ℕ → ℕ) : Prop where
  sound : f'.Sound [] front'
  map : f'.MapOk f'.table ∅
  written : f'.WrittenMapped
  sp : f'.ssd.sp = f.ssd.sp
  cp : f'.cp = f.cp
  dom : ∀ l, (f'.table l).isSome = (f.table l).isSome
  refilled : Refilled f.ssd.sp f.cp.gcThresLinesHigh f.mappedCount f.wfc
    (freePages f.ssd.sp [] front) f'.wfc (freePages f.ssd.sp [] front')
  copies : f.gcCopies ≤ f'.gcCopies
  tables : f'.gcCopies = f.gcCopies → f'.maptbl = f.maptbl ∧ f'.rmap = f.rmap
  named : f.RmapNames → f'.RmapNames

/-- The write credits are no part of the invariant. -/
theorem Sound.with_wfc (h : f.Sound [] front) (w : WriteFlowControl) :
    Sound { f with wfc := w } [] front := by
  refine {
    geom := h.geom, homed := h.homed, nand := h.nand, stats := h.stats, ptr := fun io => ?_
    free := h.free, closed := h.closed, history := h.history, run := fun io => ?_ }
  · cases io
    · exact h.ptr .user
    · exact h.ptr .gc
  · cases io
    · exact h.run .user
    · exact h.run .gc

/-- **`check_and_refill_write_credit`** keeps the invariant. -/
theorem Sound.refill (h : f.Sound [] front) (hm : f.MapOk f.table ∅) (hw : f.WrittenMapped)
    (hppb : 0 < f.ssd.sp.pgsPerBlk) :
    Ends f.checkAndRefillWriteCredit (fun f' => ∃ front', RefillDone f f' front front')
      (fun e => e = .noFreeLine ∧ freePages f.ssd.sp [] front < 2 * f.ssd.sp.pgsPerLine) := by
  unfold checkAndRefillWriteCredit
  split_ifs with h0
  · have hplain : Refilled f.ssd.sp f.cp.gcThresLinesHigh f.mappedCount f.wfc
        (freePages f.ssd.sp [] front) { f.wfc with writeCredits := u32 f.wfc.creditsToRefill }
        (freePages f.ssd.sp [] front) → ∃ front', RefillDone f { f with wfc :=
          { f.wfc with writeCredits := u32 (f.wfc.writeCredits + f.wfc.creditsToRefill) } }
          front front' := by
      intro hb
      rw [h0, Nat.zero_add]
      exact ⟨front, h.with_wfc _, hm.of_same rfl rfl, hw.of_same rfl rfl rfl, rfl, rfl,
        fun _ => rfl, hb, le_rfl, fun _ => ⟨rfl, rfl⟩, id⟩
    unfold forgroundGc
    split_ifs with hgc
    · rw [bind_assoc]
      refine (h.doGc hm hw hppb).bind fun r hr => ?_
      obtain ⟨f₁, ret⟩ := r
      rcases hr with ⟨hr, hq⟩ | ⟨-, v, front', hc⟩
      · cases hr
        refine hplain (.packed h0 ?_ rfl rfl)
        refine (h.mapped_of_no_victim hm hq).trans (Nat.add_le_add_left ?_ _)
        exact Nat.mul_le_mul_right _ (Nat.add_le_add_right hgc 2)
      · have hcred : u32 (f₁.wfc.writeCredits + f₁.wfc.creditsToRefill) = (f.lm.lines v).ipc := by
          rw [hc.wfc]
          simp only [h0, Nat.zero_add]
          refine u32_of_lt ?_
          have h1 := hc.ipc_le
          have h2 := pgsPerLine_lt h.geom (lt_of_le_of_lt (Nat.zero_le _) (h.curline_lt .user))
          omega
        refine ⟨front', hc.sound.with_wfc _, hc.map.of_same rfl rfl,
          hc.written.of_same rfl rfl rfl, hc.sp, hc.cp, hc.dom,
          .collected h0 _ hc.ipc_pos hc.ipc_le ?_
            (by rw [← hc.free]; exact congrArg (freePages · [] front') hc.sp.symm),
          hc.gcCopies ▸ Nat.le_add_right _ _, hc.tables, hc.rmapNames⟩
        simp only [hcred]
        rw [hc.wfc]
    · refine hplain (.plenty h0 ?_ rfl rfl)
      have hgt : f.cp.gcThresLinesHigh + 1 ≤ f.lm.freeLineCnt := not_le.1 hgc
      have hu := h.lineFree_pos .user hppb
      have hg := h.lineFree_pos .gc hppb
      have hmul := Nat.mul_le_mul_right f.ssd.sp.pgsPerLine hgt
      rw [h.freePages_eq]
      simp only [getWp] at hu hg
      omega
  · exact ⟨front, h, hm, hw, rfl, rfl, fun _ => rfl, .kept h0 rfl rfl, le_rfl,
      fun _ => ⟨rfl, rfl⟩, id⟩

/-! ### One page write -/

/-- **What one page write achieves.** -/
structure PageDone (f f' : ConvFtl) (front front' : ℕ × ℕ → ℕ → ℕ) (lpn : ℕ) : Prop where
  sound : f'.Sound [] front'
  map : f'.MapOk f'.table ∅
  written : f'.WrittenMapped
  sp : f'.ssd.sp = f.ssd.sp
  cp : f'.cp = f.cp
  dom : ∀ l, (f'.table l).isSome ↔ l = lpn ∨ (f.table l).isSome
  credit : ∃ b, b + 1 = freePages f.ssd.sp [] front ∧
    Refilled f.ssd.sp f.cp.gcThresLinesHigh f'.mappedCount f.consumeWriteCredit.wfc b f'.wfc
      (freePages f.ssd.sp [] front')
  copies : f.gcCopies ≤ f'.gcCopies
  current : f'.gcCopies = f.gcCopies → f.ReverseCurrent → f'.ReverseCurrent
  named : f.RmapNames → f'.RmapNames

/-- Equal domains have equally many mapped pages. -/
theorem mappedCount_of_dom (hsp : f'.ssd.sp = f.ssd.sp)
    (h : ∀ l, (f'.table l).isSome = (f.table l).isSome) : f'.mappedCount = f.mappedCount := by
  unfold mappedCount
  rw [hsp]
  exact congrArg Finset.card (Finset.filter_congr fun l _ => by rw [h l])

/-- The credit of a page write is consumed and refilled once the write pointer has moved. -/
theorem Remapped.finish (hr : Remapped f f₁ front lpn)
    (h : f₂.Sound [] (f₁.nextFront .user front)) (ha : Advanced f₁ f₂)
    (hppb : 0 < f.ssd.sp.pgsPerBlk) :
    Ends f₂.consumeWriteCredit.checkAndRefillWriteCredit
      (fun f' => ∃ front', PageDone f f' front front' lpn)
      (fun e => e = .noFreeLine ∧ freePages f.ssd.sp [] front ≤ 2 * f.ssd.sp.pgsPerLine) := by
  have hsp : f₂.ssd.sp = f.ssd.sp := by rw [ha.ssd, hr.sp]
  have hcp : f₂.cp = f.cp := ha.cp.trans hr.cp
  have htab : f₂.table = Function.update f.table lpn (some f.wp.page) :=
    (table_of_same ha.maptbl).trans hr.table
  have hnext := hr.handed.freePages_next
  have hc : f₂.consumeWriteCredit = { f₂ with wfc := f.consumeWriteCredit.wfc } := by
    unfold consumeWriteCredit
    rw [ha.wfc, hr.wfc]
  rw [hc]
  obtain ⟨w, hw⟩ : ∃ w, f.consumeWriteCredit.wfc = w := ⟨_, rfl⟩
  rw [hw]
  have hmap : f₂.MapOk f₂.table ∅ := by
    rw [table_of_same ha.maptbl]
    exact hr.map.of_same ha.ssd ha.rmap
  have hwm : f₂.WrittenMapped :=
    hr.written.of_same (congrArg Ssd.sp ha.ssd) (table_of_same ha.maptbl) ha.log
  have hend := (h.with_wfc w).refill (hmap.of_same rfl rfl) (hwm.of_same rfl rfl rfl)
    (by rw [← hsp] at hppb; exact hppb)
  refine hend.mono ?_ ?_
  · rintro f' ⟨front', hd⟩
    have hcount := mappedCount_of_dom hd.sp hd.dom
    have hcopies : f₂.gcCopies = f.gcCopies := by
      unfold gcCopies
      rw [ha.log, hr.log]
      rfl
    have hc₂ : f.ReverseCurrent → f₂.ReverseCurrent := fun hc =>
      (hr.current hc).of_same (congrArg Ssd.sp ha.ssd) ha.maptbl ha.rmap
    refine ⟨front', hd.sound, hd.map, hd.written, hd.sp.trans hsp, hd.cp.trans hcp, fun l => ?_,
      ⟨freePages f₁.ssd.sp [] (f₁.nextFront .user front), ?_, ?_⟩, hcopies ▸ hd.copies,
      fun he hc => (hc₂ hc).of_same hd.sp (hd.tables (he.trans hcopies.symm)).1
        (hd.tables (he.trans hcopies.symm)).2,
      fun hn => hd.named ((hr.named hn).of_same (congrArg Ssd.sp ha.ssd)
        (table_of_same ha.maptbl) ha.rmap)⟩
    · have htab' : ConvFtl.table { f₂ with wfc := w } = f₂.table := rfl
      rw [hd.dom l, htab', htab]
      by_cases hl : l = lpn
      · simp [hl]
      · simp [hl]
    · rw [hnext, hr.sp]
    · rw [hw, hcount, hr.sp]
      have href := hd.refilled
      dsimp only at href
      rwa [hsp, hcp] at href
  · rintro e ⟨he, hlt⟩
    dsimp only at hlt
    rw [hsp] at hlt
    rw [hr.sp] at hnext
    exact ⟨he, by omega⟩

/-- A line has a page. -/
theorem pgsPerLine_pos {spp : Ssdparams} (g : spp.Geometry) (h : 0 < spp.pgsPerBlk) :
    0 < spp.pgsPerLine := by
  rw [g.pgsPerLine]
  exact Nat.mul_pos (Nat.mul_pos g.luns_pos g.nchs_pos) h

/-- No line was free for a used-up user line. -/
theorem Remapped.exhausted (hr : Remapped f f₁ front lpn) (hppb : 0 < f.ssd.sp.pgsPerBlk)
    {e : Fault} (he : e = .noFreeLine ∧ f₁.Exhausted front .user) :
    e = .noFreeLine ∧ freePages f.ssd.sp [] front ≤ 2 * f.ssd.sp.pgsPerLine := by
  have hle := hr.handed.freePages_le_of_exhausted he.2
  have hg := hr.handed.geom
  rw [hr.sp] at hle hg
  have := pgsPerLine_pos hg hppb
  exact ⟨he.1, by omega⟩

/-- **A page write of the host** keeps the invariant, and stops only when at most two lines' worth
of pages are free. -/
theorem Sound.writePage (h : f.Sound [] front) (hm : f.MapOk f.table ∅) (hw : f.WrittenMapped)
    (hlpn : lpn < f.ssd.sp.ttPgs) :
    Ends (f.writePage lpn) (fun r => ∃ front', PageDone f r.1 front front' lpn)
      (fun e => e = .noFreeLine ∧ freePages f.ssd.sp [] front ≤ 2 * f.ssd.sp.pgsPerLine) := by
  have hppb := pgsPerBlk_pos h.geom hlpn
  obtain ⟨f₁, hf₁, hr⟩ := h.remapPage hm hw hlpn
  unfold ConvFtl.writePage
  rw [hf₁, ok_bind]
  refine Ends.bind (hr.handed.advanceUser.mono (fun _ h => h) fun _ => hr.exhausted hppb) ?_
  rintro f₂ ⟨h₂, ha⟩
  dsimp only
  exact Ends.bind (hr.finish h₂ ha hppb) fun f' hf' => hf'

/-- **A page write of the cleaner** does the same, whatever the dies it chooses. -/
theorem Sound.cleanPage (h : f.Sound [] front) (hm : f.MapOk f.table ∅) (hw : f.WrittenMapped)
    (hlpn : lpn < f.ssd.sp.ttPgs) (degree : ℕ) (con conti : ℤ) (random : ℕ) :
    Ends (f.cleanPage degree con conti random lpn)
      (fun r => ∃ front', PageDone f r.1 front front' lpn)
      (fun e => e = .noFreeLine ∧ freePages f.ssd.sp [] front ≤ 2 * f.ssd.sp.pgsPerLine) := by
  have hppb := pgsPerBlk_pos h.geom hlpn
  obtain ⟨f₁, hf₁, hr⟩ := h.remapPage hm hw hlpn
  unfold ConvFtl.cleanPage
  rw [hf₁, ok_bind]
  refine Ends.bind ((hr.handed.advanceCleanver degree con conti false random).mono
    (fun _ h => h) fun _ => hr.exhausted hppb) ?_
  rintro ⟨f₂, c₂, k₂, r₂⟩ ⟨h₂, ha⟩
  dsimp only
  exact Ends.bind (hr.finish h₂ ha hppb) fun f' hf' => hf'

end ConvFtl

end NvmeVirt
