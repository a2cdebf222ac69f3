/-
# Free lines never run out

The write credits are an advance on free pages: `Spare` says that the free pages
cover the credits that are left and two lines more, so that neither a used-up
line nor a collection ever finds no free line.  A page write keeps it as long as
fewer than `(tt_lines - 4) * pgs_per_line` logical pages have been written: then
a line is queued for collection whenever few lines are free, and the credits it
yields are the pages it frees.
-/

import NvmeVirt.ConvFtl.HandOuts

namespace NvmeVirt

open Outcome

namespace ConvFtl

variable {f f' : ConvFtl} {written : Finset ℕ} {lpn : ℕ}

/-- **The free pages cover the credits** and two lines; `written` are the logical pages written. -/
structure Spare (f : ConvFtl) (written : Finset ℕ) : Prop where
  space : ∃ front, f.Sound [] front ∧
    2 * f.ssd.sp.pgsPerLine + 2 + f.wfc.writeCredits ≤ freePages f.ssd.sp [] front
  map : f.MapOk f.table ∅
  mapped : f.WrittenMapped
  dom : ∀ l, (f.table l).isSome ↔ l ∈ written
  thres : f.cp.gcThresLinesHigh = 2
  credits : 1 ≤ f.wfc.writeCredits
  refill : 1 ≤ f.wfc.creditsToRefill ∧ f.wfc.creditsToRefill ≤ f.ssd.sp.pgsPerLine

/-- Only pages that have been written are mapped. -/
theorem mappedCount_le (h : ∀ l, (f.table l).isSome ↔ l ∈ written) :
    f.mappedCount ≤ written.card := by
  refine Finset.card_le_card fun l hl => ?_
  exact (h l).1 (Finset.mem_filter.1 hl).2

/-- **A page write keeps the free pages ahead of the credits.** -/
theorem Spare.writePage (h : Spare f written) (hlpn : lpn < f.ssd.sp.ttPgs)
    (hcard : (insert lpn written).card < (f.ssd.sp.ttLines - 4) * f.ssd.sp.pgsPerLine) :
    ∃ f', f.pageOp (.host lpn) = .ok f' ∧ Spare f' (insert lpn written) ∧ f'.ssd.sp = f.ssd.sp := by
  obtain ⟨⟨front, hs, hspace⟩, hm, hw, hdom, hthr, hcr, hr1, hrP⟩ := h
  have hend : Ends (f.writePage lpn) (fun r => ∃ front', PageDone f r.1 front front' lpn)
      (fun _ => False) :=
    (hs.writePage hm hw hlpn).mono (fun _ h => h) fun e he => by have := he.2; omega
  obtain ⟨⟨f', last⟩, hf', front', hd⟩ := hend.exists_ok
  have hd : PageDone f f' front front' lpn := hd
  have hpage : f.pageOp (.host lpn) = .ok f' := bind_eq_ok.2 ⟨_, hf', rfl⟩
  have hdom' : ∀ l, (f'.table l).isSome ↔ l ∈ insert lpn written := fun l => by
    rw [hd.dom l, hdom l, Finset.mem_insert]
  have hu32 : u32 f.wfc.creditsToRefill = f.wfc.creditsToRefill := by
    have := pgsPerLine_lt hs.geom (lt_of_le_of_lt (Nat.zero_le _) (hs.curline_lt .user))
    exact u32_of_lt (by omega)
  have hcredit : f.consumeWriteCredit.wfc =
      { f.wfc with writeCredits := f.wfc.writeCredits - 1 } := by
    unfold consumeWriteCredit
    simp only [if_neg (Nat.one_le_iff_ne_zero.1 hcr)]
  -- the credits after the refill, and the free pages that cover them
  obtain ⟨hspace', hcr', href'⟩ : 2 * f.ssd.sp.pgsPerLine + 2 + f'.wfc.writeCredits ≤
      freePages f.ssd.sp [] front' ∧ 1 ≤ f'.wfc.writeCredits ∧
      1 ≤ f'.wfc.creditsToRefill ∧ f'.wfc.creditsToRefill ≤ f.ssd.sp.pgsPerLine := by
    obtain ⟨b, hb, href⟩ := hd.credit
    rw [hcredit, hthr] at href
    cases href with
    | kept h0 hwfc hb' =>
      rw [hwfc, hb']
      dsimp only at h0 ⊢
      omega
    | plenty h0 hfree hwfc hb' =>
      rw [hwfc, hb']
      dsimp only
      rw [hu32]
      omega
    | packed h0 hfull hwfc hb' =>
      -- all closed lines would be full of written pages
      have hle := mappedCount_le hdom'
      rw [hs.geom.ttLines, Nat.sub_mul] at hcard
      omega
    | collected h0 ipc hpos hle hwfc hb' =>
      rw [hwfc, hb']
      dsimp only at h0 ⊢
      omega
  refine ⟨f', hpage, ⟨⟨front', hd.sound, ?_⟩, hd.map, hd.written, hdom', ?_, hcr', ?_⟩, hd.sp⟩
  · rw [hd.sp]
    exact hspace'
  · rw [hd.cp, hthr]
  · rw [hd.sp]
    exact href'

/-- **A run of page writes** of few enough logical pages keeps the free pages ahead. -/
theorem Spare.run (h : Spare f written) {lpns : List ℕ} (hlpns : ∀ l ∈ lpns, l < f.ssd.sp.ttPgs)
    (hcard : (written ∪ lpns.toFinset).card < (f.ssd.sp.ttLines - 4) * f.ssd.sp.pgsPerLine) :
    ∃ f', runList pageOp f (lpns.map .host) = .ok f' ∧ 1 ≤ f'.wfc.writeCredits := by
  induction lpns generalizing f written with
  | nil => exact ⟨f, rfl, h.credits⟩
  | cons lpn lpns ih =>
    have hunion : written ∪ (lpn :: lpns).toFinset = insert lpn written ∪ lpns.toFinset := by
      ext l
      simp only [Finset.mem_union, List.mem_toFinset, List.mem_cons, Finset.mem_insert]
      tauto
    rw [hunion] at hcard
    obtain ⟨f₁, hf₁, h₁, hsp⟩ := h.writePage (hlpns lpn (by simp))
      (lt_of_le_of_lt (Finset.card_le_card Finset.subset_union_left) hcard)
    obtain ⟨f', hf', hcr⟩ := ih h₁
      (fun l hl => by rw [hsp]; exact hlpns l (List.mem_cons_of_mem _ hl)) (by rwa [hsp])
    exact ⟨f', by rw [List.map_cons, runList_cons, hf₁, ok_bind, hf'], hcr⟩

/-- A fresh device with five lines has pages to spare. -/
theorem Fresh.spare {spp : Ssdparams} (h : Fresh convInitParams spp f)
    (hs : f.Sound [] fun _ _ => 0) (hppb : 0 < spp.pgsPerBlk) (hT : 5 ≤ spp.ttLines) :
    Spare f ∅ := by
  have hsp : f.ssd.sp = spp := congrArg Ssd.sp h.ssd
  have hg := hsp ▸ hs.geom
  have hpos := pgsPerLine_pos hg hppb
  have hinv := h.inv hs
  have hu32 : u32 spp.pgsPerLine = spp.pgsPerLine := by
    have := pgsPerLine_lt hg (by rw [hg.ttLines] at hT; omega)
    exact u32_of_lt (by omega)
  have hfree : freePages spp [] (fun _ _ => 0) = spp.ttLines * spp.pgsPerLine := by
    rw [hg.ttLines, ← smul_eq_mul, ← Finset.card_range spp.blksPerPl, ← Finset.sum_const]
    exact Finset.sum_congr rfl fun l _ => by
      rw [if_neg (by simp), lineFree_empty hg fun _ _ => rfl]
  refine ⟨⟨_, hs, ?_⟩, hinv.map, hinv.written, fun l => ?_, ?_, ?_, ?_⟩
  · rw [hsp, h.wfc, hfree, hu32]
    have := Nat.mul_le_mul_right spp.pgsPerLine hT
    dsimp only
    omega
  · simp [h.unmapped]
  · rw [h.cp]
    rfl
  · rw [h.wfc, hu32]
    exact hpos
  · rw [h.wfc, hsp, hu32]
    exact ⟨hpos, le_rfl⟩

end ConvFtl

/-! ### The geometry of the shipped configuration -/

/-- The lines of the shipped configuration: 8192 of them, with blocks of a power of two of bytes
that hold the capacity of their die. -/
theorem loadConvConfigs_lines {size maxCon : ℕ} {ns : ConvNs}
    (h : convInitNamespace size (loadConvConfigs maxCon) = .ok ns) (hsize : size < 2 ^ 64) :
    ns.nrParts = 4 ∧ ns.size ≤ size * 100 / 107 ∧ ns.sp.ttLines = 8192 ∧
      ∃ os, ns.sp.pgsPerLine = 32 * os ∧ size / 4 ≤ os * 32768 * 32768 := by
  unfold convInitNamespace at h
  simp only [bind_eq_ok] at h
  obtain ⟨spp, hspp, ftl, hftl, h⟩ := h
  unfold convInitFtl at hftl
  simp only [bind_eq_ok, defined_eq_ok] at hftl
  obtain ⟨-, -, _, -, _, -, _, -, hftl⟩ := hftl
  cases hftl
  cases h
  unfold ssdInitParams at hspp
  simp only [bind_eq_ok, toInt_eq_ok] at hspp
  obtain ⟨_, -, _, -, r, hblk, _, -, _, -, _, -, _, -, os, ⟨hos, rfl⟩, fl, -, ppb, ⟨hppb, rfl⟩, ppp, -,
    bpl, ⟨-, rfl⟩, ttl, ⟨-, rfl⟩, hspp⟩ := hspp
  have hkb : (loadConvConfigs maxCon).oneshotPageSize = 32768 := rfl
  have hr : r = (8192, divRoundUp (size / 4) 32768) := by
    unfold blkGeometry at hblk
    rw [if_pos (show 0 < (loadConvConfigs maxCon).blksPerPln from Nat.succ_pos _)] at hblk
    simp only [bind_eq_ok, toInt_eq_ok] at hblk
    obtain ⟨_, ⟨-, rfl⟩, _, -, hblk⟩ := hblk
    cases hblk
    simp [loadConvConfigs]
  have hdie := le_divRoundUp (n := size / 4) (d := 32768) (by norm_num) (by omega)
  have hblk' := le_divRoundUp (n := divRoundUp (size / 4) 32768) (d := 32768) (by norm_num) (by
    unfold divRoundUp u64
    omega)
  cases hspp
  subst hr
  rw [hkb] at hos hppb
  refine ⟨rfl, ?_, by simp only [ConvNs.sp, ssdInit, loadConvConfigs],
    divRoundUp (divRoundUp (size / 4) 32768) 32768, ?_, ?_⟩
  · simp only [convInitParams, u64]
    exact Nat.div_le_div_right (Nat.mod_le _ _)
  · have hk : kb 32 * 1 = 32768 := rfl
    dsimp only at hos
    simp only [ConvNs.sp, ssdInit, loadConvConfigs, u64, hk]
    omega
  · calc size / 4 ≤ divRoundUp (size / 4) 32768 * 32768 := hdie
      _ ≤ divRoundUp (divRoundUp (size / 4) 32768) 32768 * 32768 * 32768 :=
        Nat.mul_le_mul_right _ hblk'

/-- **The advertised size leaves four lines and more:** the logical pages of one instance that
hold a sector of the namespace are fewer than the pages of all lines but four. -/
theorem loadConvConfigs_lpns_lt {size maxCon q : ℕ} {ns : ConvNs} {lpns : Finset ℕ}
    (h : convInitNamespace size (loadConvConfigs maxCon) = .ok ns) (hsize : size < 2 ^ 64)
    (hne : lpns.Nonempty) (hlpns : ∀ l ∈ lpns, (l * ns.nrParts + q) * 4096 + 512 ≤ ns.size) :
    5 ≤ ns.sp.ttLines ∧ lpns.card < (ns.sp.ttLines - 4) * ns.sp.pgsPerLine := by
  obtain ⟨hparts, hns, hlines, os, hline, hcap⟩ := loadConvConfigs_lines h hsize
  rw [hparts] at hlpns
  have hsub : lpns ⊆ Finset.range (ns.size / 16384 + 1) := fun l hl => by
    have := hlpns l hl
    rw [Finset.mem_range]
    omega
  have hcard := Finset.card_le_card hsub
  obtain ⟨l, hl⟩ := hne
  have hl := hlpns l hl
  rw [Finset.card_range] at hcard
  rw [hlines, hline]
  -- a namespace with a sector has a block to each die
  have hos : 1 ≤ os := by
    refine Nat.one_le_iff_ne_zero.2 fun h0 => ?_
    rw [h0] at hcap
    omega
  omega

/-! ### The run -/

/-- **Free lines never run out and the credits never wrap,** over every run of page writes of the
host that writes fewer than `(tt_lines - 4) * pgs_per_line` logical pages: every page write of it
returns and leaves a credit.  The advertised size of the shipped geometry is that small. -/
theorem hostRun_credits (capacity nparts : ℕ) (cfg : FtlConfigs) {spp : Ssdparams} {f₀ : ConvFtl}
    (hspp : ssdInitParams capacity nparts cfg = .ok spp) (hfit : spp.FitsPpa)
    (hinit : convInitFtl convInitParams (ssdInit spp) = .ok f₀) (hT : 5 ≤ spp.ttLines) :
    (∀ lpns : List ℕ, (∀ l ∈ lpns, l < spp.ttPgs) →
      lpns.toFinset.card < (spp.ttLines - 4) * spp.pgsPerLine → ∀ done, done <+: lpns →
        ∃ f, runList ConvFtl.pageOp f₀ (done.map .host) = .ok f ∧ 1 ≤ f.wfc.writeCredits) ∧
    ∀ size maxCon ns, convInitNamespace size (loadConvConfigs maxCon) = .ok ns → size < 2 ^ 64 →
      ∀ q, ∀ lpns : Finset ℕ, lpns.Nonempty →
        (∀ l ∈ lpns, (l * ns.nrParts + q) * 4096 + 512 ≤ ns.size) →
        5 ≤ ns.sp.ttLines ∧ lpns.card < (ns.sp.ttLines - 4) * ns.sp.pgsPerLine := by
  refine ⟨fun lpns hlpns hcard done hdone => ?_, fun size maxCon ns h hsize q lpns hne hl =>
    loadConvConfigs_lpns_lt h hsize hne hl⟩
  obtain ⟨hs, hfr⟩ := ConvFtl.convInitFtl_sound hspp hfit hinit
  have hsp : f₀.ssd.sp = spp := congrArg Ssd.sp hfr.ssd
  have hppb : 0 < spp.pgsPerBlk := by
    have hP : 0 < spp.pgsPerLine := Nat.pos_of_mul_pos_left (lt_of_le_of_lt (Nat.zero_le _) hcard)
    have hg := hsp ▸ hs.geom
    rw [hg.pgsPerLine] at hP
    exact Nat.pos_of_mul_pos_left hP
  refine (hfr.spare hs hppb hT).run (fun l hl => ?_) ?_
  · rw [hsp]
    exact hlpns l (hdone.subset hl)
  · rw [hsp, Finset.empty_union]
    refine lt_of_le_of_lt (Finset.card_le_card fun l hl => ?_) hcard
    exact List.mem_toFinset.2 (hdone.subset (List.mem_toFinset.1 hl))

/-- Three logical pages in turn, on six lines of two pages. -/
theorem hostRun_credits_tiny : ∃ spp f₀ f, ssdInitParams tinySize 1 tinyConfigs = .ok spp ∧
    convInitFtl convInitParams (ssdInit spp) = .ok f₀ ∧
    runList ConvFtl.pageOp f₀ ([0, 1, 2, 0, 1, 2, 0, 1, 2, 0].map .host) = .ok f ∧
    1 ≤ f.wfc.writeCredits := by
  have h := (hostRun_credits tinySize 1 tinyConfigs rfl
    ⟨by decide, by decide, by decide, by decide⟩ rfl (by decide)).1
    [0, 1, 2, 0, 1, 2, 0, 1, 2, 0] (by decide) (by decide) _ (List.prefix_refl _)
  obtain ⟨f, hf⟩ := h
  exact ⟨_, _, f, rfl, rfl, hf⟩

end NvmeVirt
