/-
# The shape of an accepted geometry

What `ssd_init_params` guarantees of the parameters it returns when the lines
are one plane wide (`init_lines` asserts that) and the coordinates fit the bit
fields of `struct ppa`.  Blocks are addressed by a die and a line, pages by a
die, a line and a page number; `ppa2pgidx` numbers the pages of the geometry
without collisions.
-/

import NvmeVirt.Ssd.Nand

namespace NvmeVirt

open Outcome

namespace Ssdparams

/-- Every page coordinate of the geometry fits its bit field in `struct ppa`. -/
structure FitsPpa (spp : Ssdparams) : Prop where
  nchs : spp.nchs ≤ 2 ^ 8
  lunsPerCh : spp.lunsPerCh ≤ 2 ^ 8
  blksPerPl : spp.blksPerPl ≤ 2 ^ 16
  pgsPerBlk : spp.pgsPerBlk ≤ 2 ^ 16

/-- How the pages of dies with one plane are numbered. -/
structure PageLayout (spp : Ssdparams) : Prop where
  plsPerLun : spp.plsPerLun = 1
  pgsPerPl : spp.pgsPerPl = spp.pgsPerBlk * spp.blksPerPl
  pgsPerLun : spp.pgsPerLun = spp.pgsPerPl
  pgsPerCh : spp.pgsPerCh = spp.pgsPerLun * spp.lunsPerCh
  ttPgs : spp.ttPgs = spp.pgsPerCh * spp.nchs

/-- The relations between the parameters of a geometry with one plane per die. -/
structure Geometry (spp : Ssdparams) : Prop where
  plsPerLun : spp.plsPerLun = 1
  flashpgs : spp.pgsPerBlk = spp.flashpgsPerBlk * spp.pgsPerFlashpg
  oneshotpgs : spp.pgsPerBlk = spp.oneshotpgsPerBlk * spp.pgsPerOneshotpg
  oneshotpg_pos : 0 < spp.pgsPerOneshotpg
  pgsPerPl : spp.pgsPerPl = spp.pgsPerBlk * spp.blksPerPl
  pgsPerLun : spp.pgsPerLun = spp.pgsPerPl
  pgsPerCh : spp.pgsPerCh = spp.pgsPerLun * spp.lunsPerCh
  ttPgs : spp.ttPgs = spp.pgsPerCh * spp.nchs
  pgsPerLine : spp.pgsPerLine = spp.lunsPerCh * spp.nchs * spp.pgsPerBlk
  ttLines : spp.ttLines = spp.blksPerPl
  nchs_pos : 0 < spp.nchs
  luns_pos : 0 < spp.lunsPerCh
  ttPgs_lt : spp.ttPgs < 2 ^ 31
  fits : spp.FitsPpa

theorem Geometry.layout {spp : Ssdparams} (g : spp.Geometry) : spp.PageLayout :=
  ⟨g.plsPerLun, g.pgsPerPl, g.pgsPerLun, g.pgsPerCh, g.ttPgs⟩

/-- The dies of the geometry, as channel and die of the channel. -/
def dies (spp : Ssdparams) : Finset (ℕ × ℕ) :=
  Finset.range spp.nchs ×ˢ Finset.range spp.lunsPerCh

@[simp] theorem mem_dies {spp : Ssdparams} {d : ℕ × ℕ} :
    d ∈ spp.dies ↔ d.1 < spp.nchs ∧ d.2 < spp.lunsPerCh := by
  simp [dies]

theorem card_dies (spp : Ssdparams) : spp.dies.card = spp.nchs * spp.lunsPerCh := by
  simp [dies]

end Ssdparams

/-- The block of line `l` on die `d`. -/
def blockAt (d : ℕ × ℕ) (l : ℕ) : BlkAddr := ⟨d.1, d.2, 0, l⟩

/-- Page `pg` of the block of line `l` on die `d`. -/
def pageAt (d : ℕ × ℕ) (l pg : ℕ) : Ppa := ⟨pg, l, 0, d.2, d.1, 0⟩

@[simp] theorem pageAt_blkAddr (d : ℕ × ℕ) (l pg : ℕ) : (pageAt d l pg).blkAddr = blockAt d l :=
  rfl

@[simp] theorem pageAt_pg (d : ℕ × ℕ) (l pg : ℕ) : (pageAt d l pg).pg = pg := rfl

@[simp] theorem pageAt_blk (d : ℕ × ℕ) (l pg : ℕ) : (pageAt d l pg).blk = l := rfl

@[simp] theorem blockAt_inj {d e : ℕ × ℕ} {l m : ℕ} :
    blockAt d l = blockAt e m ↔ d = e ∧ l = m := by
  simp [blockAt, Prod.ext_iff, and_assoc]

@[simp] theorem pageAt_inj {d e : ℕ × ℕ} {l m i j : ℕ} :
    pageAt d l i = pageAt e m j ↔ d = e ∧ l = m ∧ i = j := by
  simp only [pageAt, Ppa.mk.injEq, Prod.ext_iff]
  tauto

theorem mapped_pageAt (d : ℕ × ℕ) (l pg : ℕ) : mappedPpa (pageAt d l pg) := by
  intro h
  have := congrArg Ppa.rsv h
  simp [pageAt, unmappedPpa] at this

namespace Ssdparams

variable {spp : Ssdparams}

/-- The stores of the coordinates into the bit fields lose nothing. -/
theorem ofFields_eq (hf : spp.FitsPpa) {d : ℕ × ℕ} {l pg : ℕ} (hd : d ∈ spp.dies)
    (hl : l < spp.blksPerPl) (hpg : pg < spp.pgsPerBlk) :
    Ppa.ofFields d.1 d.2 0 l pg = pageAt d l pg := by
  obtain ⟨h1, h2⟩ := mem_dies.1 hd
  obtain ⟨f1, f2, f3, f4⟩ := hf
  simp only [Ppa.ofFields, pageAt, Nat.mod_eq_of_lt (show pg < 2 ^ 16 by omega),
    Nat.mod_eq_of_lt (show l < 2 ^ 16 by omega), Nat.mod_eq_of_lt (show d.2 < 2 ^ 8 by omega),
    Nat.mod_eq_of_lt (show d.1 < 2 ^ 8 by omega), Nat.zero_mod]

theorem validPpa_pageAt (g : spp.PageLayout) {d : ℕ × ℕ} {l pg : ℕ} (hd : d ∈ spp.dies)
    (hl : l < spp.blksPerPl) (hpg : pg < spp.pgsPerBlk) : spp.validPpa (pageAt d l pg) := by
  obtain ⟨h1, h2⟩ := mem_dies.1 hd
  exact ⟨h1, h2, by rw [g.plsPerLun]; exact Nat.one_pos, hl, hpg⟩

/-- A valid address without reserved bits is a page of a die and a line. -/
theorem exists_pageAt (g : spp.PageLayout) {p : Ppa} (hv : spp.validPpa p) (hr : p.rsv = 0) :
    ∃ d l pg, d ∈ spp.dies ∧ l < spp.blksPerPl ∧ pg < spp.pgsPerBlk ∧ p = pageAt d l pg := by
  obtain ⟨h1, h2, h3, h4, h5⟩ := hv
  rw [g.plsPerLun] at h3
  refine ⟨(p.ch, p.lun), p.blk, p.pg, mem_dies.2 ⟨h1, h2⟩, h4, h5, ?_⟩
  have hpl : p.pl = 0 := by omega
  cases p
  simp_all [pageAt]

theorem pgidx_pageAt (g : spp.PageLayout) (d : ℕ × ℕ) (l pg : ℕ) :
    spp.pgidx (pageAt d l pg) =
      ((d.1 * spp.lunsPerCh + d.2) * spp.blksPerPl + l) * spp.pgsPerBlk + pg := by
  simp only [pgidx, pageAt, g.pgsPerCh, g.pgsPerLun, g.pgsPerPl]
  ring

/-- A digit below the radix appended to a number below `a` gives a number below `a * n`. -/
theorem digit_lt {a n x y : ℕ} (hx : x < a) (hy : y < n) : x * n + y < a * n := by
  have : (x + 1) * n ≤ a * n := Nat.mul_le_mul_right n hx
  linarith [Nat.succ_mul x n]

/-- A digit below the radix is read back. -/
theorem digit_inj {n x y x' y' : ℕ} (hy : y < n) (hy' : y' < n)
    (h : x * n + y = x' * n + y') : x = x' ∧ y = y' := by
  have hmod := congrArg (· % n) h
  simp only [Nat.mul_add_mod_self_right, Nat.mod_eq_of_lt hy, Nat.mod_eq_of_lt hy'] at hmod
  have hn : 0 < n := by omega
  exact ⟨Nat.eq_of_mul_eq_mul_right hn (by omega), hmod⟩

theorem PageLayout.ttPgs_eq (g : spp.PageLayout) :
    spp.ttPgs = spp.nchs * spp.lunsPerCh * spp.blksPerPl * spp.pgsPerBlk := by
  rw [g.ttPgs, g.pgsPerCh, g.pgsPerLun, g.pgsPerPl]
  ring

theorem pgidx_lt (g : spp.PageLayout) {d : ℕ × ℕ} {l pg : ℕ} (hd : d ∈ spp.dies)
    (hl : l < spp.blksPerPl) (hpg : pg < spp.pgsPerBlk) :
    spp.pgidx (pageAt d l pg) < spp.ttPgs := by
  obtain ⟨h1, h2⟩ := mem_dies.1 hd
  rw [pgidx_pageAt g, g.ttPgs_eq]
  exact digit_lt (digit_lt (digit_lt h1 h2) hl) hpg

/-- **`ppa2pgidx` numbers the pages without collisions.** -/
theorem pgidx_inj (g : spp.PageLayout) {d e : ℕ × ℕ} {l m i j : ℕ} (hd : d ∈ spp.dies)
    (he : e ∈ spp.dies) (hl : l < spp.blksPerPl) (hm : m < spp.blksPerPl) (hi : i < spp.pgsPerBlk)
    (hj : j < spp.pgsPerBlk) (h : spp.pgidx (pageAt d l i) = spp.pgidx (pageAt e m j)) :
    pageAt d l i = pageAt e m j := by
  rw [pgidx_pageAt g, pgidx_pageAt g] at h
  obtain ⟨hblk, rfl⟩ := digit_inj hi hj h
  obtain ⟨hdie, rfl⟩ := digit_inj hl hm hblk
  obtain ⟨h1, h2⟩ := digit_inj (mem_dies.1 hd).2 (mem_dies.1 he).2 hdie
  rw [Prod.ext h1 h2]

end Ssdparams

/-! ### What `ssd_init_params` returns -/

theorem toInt_eq_ok {n m : ℕ} : toInt n = .ok m ↔ n < 2 ^ 31 ∧ m = n := by
  unfold toInt
  split_ifs with h
  · simp [eq_comm, show n < 2147483648 from h]
  · simp [show ¬ n < 2147483648 from h]

theorem u64_of_lt {n : ℕ} (h : n < 2 ^ 64) : u64 n = n := Nat.mod_eq_of_lt h

/-- Rounding up loses nothing. -/
theorem le_divRoundUp {n d : ℕ} (hd : 0 < d) (hn : n + d - 1 < 2 ^ 64) :
    n ≤ divRoundUp n d * d := by
  unfold divRoundUp
  rw [u64_of_lt hn]
  have := Nat.div_add_mod (n + d - 1) d
  have := Nat.mod_lt (n + d - 1) hd
  rw [mul_comm]
  omega

/-- The divisors of the capacity are positive, so there is a channel and a die. -/
theorem blkGeometry_dies {capacity nchs : ℕ} {cfg : FtlConfigs} {r : ℕ × ℕ}
    (h : blkGeometry capacity nchs cfg = .ok r) : 0 < cfg.lunsPerNandCh ∧ 0 < nchs := by
  unfold blkGeometry at h
  have hpos : ∀ a : ℕ, 0 < a * cfg.lunsPerNandCh * nchs → 0 < cfg.lunsPerNandCh ∧ 0 < nchs :=
    fun a ha => by
      constructor <;> refine Nat.pos_of_ne_zero fun h0 => ?_ <;> rw [h0] at ha <;> simp at ha
  split_ifs at h with hb
  · simp only [bind_eq_ok, defined_eq_ok, toInt_eq_ok] at h
    obtain ⟨dies, ⟨-, rfl⟩, _, hd, -⟩ := h
    exact hpos _ hd
  · simp only [bind_eq_ok, defined_eq_ok, nvmevAssert_eq_ok] at h
    obtain ⟨_, -, _, hd, -⟩ := h
    refine hpos (cfg.blkSize * cfg.plnsPerLun) (Nat.pos_of_ne_zero fun h0 => ?_)
    rw [h0] at hd
    exact absurd hd (by decide)

/-- **The numbering `ssd_init_params` establishes:** none of its 64-bit products wraps. -/
theorem ssdInitParams_layout {capacity nparts : ℕ} {cfg : FtlConfigs} {spp : Ssdparams}
    (h : ssdInitParams capacity nparts cfg = .ok spp) (hpls : spp.plsPerLun = 1) :
    spp.PageLayout ∧ 0 < spp.nchs ∧ 0 < spp.lunsPerCh := by
  unfold ssdInitParams at h
  simp only [bind_eq_ok, defined_eq_ok, nvmevAssert_eq_ok, toInt_eq_ok] at h
  obtain ⟨_, -, _, -, r, hblk, _, -, _, -, _, -, _, -, os, -, fl, -, ppb, ⟨-, rfl⟩, ppp, ⟨hppp, rfl⟩,
    bpl, -, ttl, ⟨httl, rfl⟩, h⟩ := h
  obtain ⟨hl_pos, hn_pos⟩ := blkGeometry_dies hblk
  cases h
  simp only at hpls
  set luns := cfg.lunsPerNandCh
  set nchs := cfg.nandChannels / nparts
  set pages := cfg.oneshotPageSize / (512 * 8) * os * r.1
  have hmul : luns ≤ luns * nchs := Nat.le_mul_of_pos_right _ hn_pos
  have hall : pages * (luns * nchs) ≤ 2 ^ 31 * 2 ^ 31 := Nat.mul_le_mul hppp.le httl.le
  have hch : pages * luns ≤ 2 ^ 31 * 2 ^ 31 := Nat.mul_le_mul hppp.le (hmul.trans httl.le)
  rw [← mul_assoc] at hall
  have hlun := u64_of_lt (show pages < 2 ^ 64 by omega)
  have hch' := u64_of_lt (show pages * luns < 2 ^ 64 by omega)
  have hall' := u64_of_lt (show pages * luns * nchs < 2 ^ 64 by omega)
  refine ⟨⟨hpls, rfl, ?_, ?_, ?_⟩, hn_pos, hl_pos⟩
  · simp only [hpls, mul_one, hlun]
  · simp only [hpls, mul_one, hlun, hch']
  · simp only [hpls, mul_one, hlun, hch', hall']

/-- **The relations `ssd_init_params` establishes,** for one plane per die and coordinates that
fit `struct ppa`. -/
theorem ssdInitParams_geometry {capacity nparts : ℕ} {cfg : FtlConfigs} {spp : Ssdparams}
    (h : ssdInitParams capacity nparts cfg = .ok spp) (hpls : spp.plsPerLun = 1)
    (hf : spp.FitsPpa) (htt : spp.ttPgs < 2 ^ 31) : spp.Geometry := by
  obtain ⟨layout, hn_pos, hl_pos⟩ := ssdInitParams_layout h hpls
  unfold ssdInitParams at h
  simp only [bind_eq_ok, defined_eq_ok, nvmevAssert_eq_ok, toInt_eq_ok] at h
  obtain ⟨_, -, _, -, r, hblk, _, ⟨ho, hfl⟩, _, hfl_pos, _, hof, _, ho_pos, os, -, fl, ⟨-, rfl⟩, ppb,
    ⟨-, rfl⟩, ppp, ⟨hppp, rfl⟩, bpl, ⟨-, rfl⟩, ttl, ⟨-, rfl⟩, h⟩ := h
  cases h
  obtain ⟨fn, fl, -, fp⟩ := id hf
  simp only at hpls fn fl fp
  have hline := u64_of_lt
    (lt_of_le_of_lt (Nat.mul_le_mul (Nat.mul_le_mul fl fn) fp) (by norm_num))
  refine {
    plsPerLun := hpls, flashpgs := ?_, oneshotpgs := mul_comm _ _, oneshotpg_pos := ?_
    pgsPerPl := layout.pgsPerPl, pgsPerLun := layout.pgsPerLun, pgsPerCh := layout.pgsPerCh
    ttPgs := layout.ttPgs, pgsPerLine := hline, ttLines := ?_, nchs_pos := hn_pos, luns_pos := hl_pos, ttPgs_lt := htt, fits := hf }
  · -- both sides are the 4 KiB pages of a one-shot page times the one-shot pages of a block
    obtain ⟨m, hm⟩ := Nat.dvd_of_mod_eq_zero hfl
    obtain ⟨k, hk⟩ := Nat.dvd_of_mod_eq_zero hof
    have h1 : cfg.oneshotPageSize / cfg.flashPageSize = k := by
      rw [hk, Nat.mul_div_cancel_left _ hfl_pos]
    have h2 : cfg.flashPageSize / (512 * 8) = m := by omega
    have h3 : cfg.oneshotPageSize / (512 * 8) = m * k := by
      rw [hk, hm, mul_assoc, Nat.mul_div_cancel_left _ (by norm_num)]
    simp only [h1, h2, h3]
    ring
  · have := Nat.div_add_mod cfg.oneshotPageSize (512 * 8)
    simp only
    omega
  · simp only [hpls, mul_one]

/-- The sizes of `ssd_init_params`. -/
theorem ssdInitParams_sizes {capacity nparts : ℕ} {cfg : FtlConfigs} {spp : Ssdparams}
    (h : ssdInitParams capacity nparts cfg = .ok spp) :
    spp.secsz = 512 ∧ spp.secsPerPg = 8 ∧ spp.pgsz = 4096 := by
  unfold ssdInitParams at h
  simp only [bind_eq_ok] at h
  obtain ⟨_, -, _, -, _, -, _, -, _, -, _, -, _, -, _, -, _, -, _, -, _, -, _, -, _, -, h⟩ := h
  cases h
  exact ⟨rfl, rfl, rfl⟩

theorem ssdInitParams_plsPerLun {capacity nparts : ℕ} {cfg : FtlConfigs} {spp : Ssdparams}
    (h : ssdInitParams capacity nparts cfg = .ok spp) : spp.plsPerLun = cfg.plnsPerLun := by
  unfold ssdInitParams at h
  simp only [bind_eq_ok] at h
  obtain ⟨_, -, _, -, _, -, _, -, _, -, _, -, _, -, _, -, _, -, _, -, _, -, _, -, _, -, h⟩ := h
  cases h
  rfl

/-- The divisors of a page address are not zero. -/
structure Ssdparams.Divisors (spp : Ssdparams) : Prop where
  nchs : 0 < spp.nchs
  ttLuns : 0 < spp.ttLuns
  oneshotpg : 0 < spp.pgsPerOneshotpg

theorem ssdInitParams_divisors {capacity nparts : ℕ} {cfg : FtlConfigs} {spp : Ssdparams}
    (h : ssdInitParams capacity nparts cfg = .ok spp) : spp.Divisors := by
  unfold ssdInitParams at h
  simp only [bind_eq_ok, defined_eq_ok, nvmevAssert_eq_ok, toInt_eq_ok] at h
  obtain ⟨_, -, _, -, r, hblk, _, ⟨ho, -⟩, _, -, _, -, _, ho_pos, os, -, fl, -, ppb, -, ppp, -, bpl,
    -, ttl, ⟨-, rfl⟩, h⟩ := h
  obtain ⟨hl_pos, hn_pos⟩ := blkGeometry_dies hblk
  cases h
  refine ⟨hn_pos, Nat.mul_pos hl_pos hn_pos, ?_⟩
  have := Nat.div_add_mod cfg.oneshotPageSize (512 * 8)
  simp only
  omega

/-- The number of dies. -/
theorem ssdInitParams_ttLuns {capacity nparts : ℕ} {cfg : FtlConfigs} {spp : Ssdparams}
    (h : ssdInitParams capacity nparts cfg = .ok spp) :
    spp.ttLuns = spp.lunsPerCh * spp.nchs := by
  unfold ssdInitParams at h
  simp only [bind_eq_ok, toInt_eq_ok] at h
  obtain ⟨_, -, _, -, _, -, _, -, _, -, _, -, _, -, _, -, _, -, _, -, _, -, _, -, _, ⟨-, rfl⟩, h⟩ := h
  cases h
  rfl

/-- The blocks of all dies hold the capacity of a partition. -/
theorem blkGeometry_le {capacity nchs : ℕ} {cfg : FtlConfigs} {r : ℕ × ℕ}
    (h : blkGeometry capacity nchs cfg = .ok r) (hpls : cfg.plnsPerLun = 1)
    (hcap : capacity < 2 ^ 63) (hblk : cfg.blkSize < 2 ^ 31)
    (hluns : cfg.lunsPerNandCh * nchs < 2 ^ 31) :
    capacity ≤ r.2 * (r.1 * (cfg.lunsPerNandCh * nchs)) ∧ r.2 < 2 ^ 63 + 2 ^ 31 := by
  unfold blkGeometry at h
  split_ifs at h with hb
  · simp only [bind_eq_ok, defined_eq_ok, toInt_eq_ok] at h
    obtain ⟨dies, ⟨hd, rfl⟩, _, hpos, h⟩ := h
    cases h
    rw [hpls, mul_one] at hd hpos ⊢
    have hsum : capacity + cfg.blksPerPln * cfg.lunsPerNandCh * nchs - 1 < 2 ^ 63 + 2 ^ 31 := by
      omega
    have hle := le_divRoundUp (n := capacity) hpos (by omega)
    refine ⟨?_, lt_of_le_of_lt (Nat.div_le_self _ _) (lt_of_le_of_lt (Nat.mod_le _ _) hsum)⟩
    calc capacity ≤ _ := hle
      _ = _ * (cfg.blksPerPln * (cfg.lunsPerNandCh * nchs)) := by ring
  · simp only [bind_eq_ok, defined_eq_ok, nvmevAssert_eq_ok, toInt_eq_ok] at h
    obtain ⟨_, -, _, hpos, blks, ⟨-, rfl⟩, h⟩ := h
    cases h
    have hdie : cfg.blkSize * (cfg.lunsPerNandCh * nchs) ≤ 2 ^ 31 * 2 ^ 31 :=
      Nat.mul_le_mul hblk.le hluns.le
    rw [hpls, mul_one, mul_assoc] at hpos ⊢
    have hu : u64 (cfg.blkSize * (cfg.lunsPerNandCh * nchs))
        = cfg.blkSize * (cfg.lunsPerNandCh * nchs) := u64_of_lt (by omega)
    rw [hu] at hpos ⊢
    have hle := le_divRoundUp (n := capacity) hpos (by omega)
    refine ⟨?_, by omega⟩
    calc capacity ≤ _ := hle
      _ = cfg.blkSize * (_ * (cfg.lunsPerNandCh * nchs)) := by ring

/-- **The pages of a partition hold its share of the capacity:** all roundings are upwards. -/
theorem ssdInitParams_capacity {capacity nparts : ℕ} {cfg : FtlConfigs} {spp : Ssdparams}
    (h : ssdInitParams capacity nparts cfg = .ok spp) (hpls : spp.plsPerLun = 1)
    (hcap : capacity < 2 ^ 63) (hos : cfg.oneshotPageSize < 2 ^ 31) (hblk : cfg.blkSize < 2 ^ 31) :
    spp.secsPerPg = 8 ∧ capacity / nparts ≤ spp.ttPgs * 4096 := by
  unfold ssdInitParams at h
  simp only [bind_eq_ok, defined_eq_ok, nvmevAssert_eq_ok, toInt_eq_ok] at h
  obtain ⟨_, -, _, -, r, hgeo, _, ⟨ho, -⟩, _, -, _, -, _, hopos, os, ⟨-, rfl⟩, fl, -, ppb, ⟨-, rfl⟩,
    ppp, ⟨hppp, rfl⟩, bpl, -, ttl, ⟨httl, rfl⟩, h⟩ := h
  obtain ⟨-, hn_pos⟩ := blkGeometry_dies hgeo
  cases h
  simp only at hpls ⊢
  obtain ⟨hle, hr⟩ := blkGeometry_le hgeo hpls (lt_of_le_of_lt (Nat.div_le_self _ _) hcap) hblk httl
  have hblkle := le_divRoundUp (n := r.2) hopos (by omega)
  set os := divRoundUp r.2 cfg.oneshotPageSize
  set luns := cfg.lunsPerNandCh
  set nchs := cfg.nandChannels / nparts
  set q := cfg.oneshotPageSize / (512 * 8) with hq
  have hoq : cfg.oneshotPageSize = q * 4096 := by omega
  -- none of the 64-bit products wraps
  have hmul : luns ≤ luns * nchs := Nat.le_mul_of_pos_right _ hn_pos
  have hall : q * os * r.1 * (luns * nchs) ≤ 2 ^ 31 * 2 ^ 31 := Nat.mul_le_mul hppp.le httl.le
  have hch : q * os * r.1 * luns ≤ 2 ^ 31 * 2 ^ 31 := Nat.mul_le_mul hppp.le (hmul.trans httl.le)
  rw [hpls, mul_one, u64_of_lt (show q * os * r.1 < 2 ^ 64 by omega),
    u64_of_lt (show q * os * r.1 * luns < 2 ^ 64 by omega), mul_assoc _ luns nchs,
    u64_of_lt (show q * os * r.1 * (luns * nchs) < 2 ^ 64 by omega)]
  refine ⟨trivial, ?_⟩
  calc capacity / nparts ≤ r.2 * (r.1 * (luns * nchs)) := hle
    _ ≤ os * cfg.oneshotPageSize * (r.1 * (luns * nchs)) := Nat.mul_le_mul_right _ hblkle
    _ = q * os * r.1 * (luns * nchs) * 4096 := by rw [hoq]; ring

end NvmeVirt
