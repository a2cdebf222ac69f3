/-
# Physical page addresses

`get_new_page` stores the coordinates of a write pointer in the bit fields of
`struct ppa`, and `ppa2pgidx` numbers the addresses `valid_ppa` accepts.  Both
lose nothing exactly when every coordinate of the geometry fits its field, which
`ssd_init_params` does not check.
-/

import NvmeVirt.Ssd.Geometry

namespace NvmeVirt

open Outcome

/-- **An address:** its fields fit their bits, and the reserved bits are zero. -/
structure Ppa.Address (p : Ppa) : Prop where
  pg : p.pg < 2 ^ 16
  blk : p.blk < 2 ^ 16
  pl : p.pl < 2 ^ 8
  lun : p.lun < 2 ^ 8
  ch : p.ch < 2 ^ 8
  rsv : p.rsv = 0

/-- Every address `get_new_page` packs is one. -/
theorem address_ofFields (ch lun pl blk pg : ℕ) : (Ppa.ofFields ch lun pl blk pg).Address := by
  unfold Ppa.ofFields
  refine ⟨?_, ?_, ?_, ?_, ?_, rfl⟩
  all_goals exact Nat.mod_lt _ (by norm_num)

/-- A packed address is not `UNMAPPED_PPA`, whose reserved bits are set. -/
theorem mapped_ofFields (ch lun pl blk pg : ℕ) : mappedPpa (Ppa.ofFields ch lun pl blk pg) := by
  intro h
  have := congrArg Ppa.rsv h
  simp [Ppa.ofFields, unmappedPpa] at this

namespace Ssdparams

variable {spp : Ssdparams}

/-- **Physical addressing is a bijection:** coordinates inside the geometry are packed and read
back, the packed address is mapped, and the valid addresses are numbered from zero to `tt_pgs`. -/
structure PpaBijection (spp : Ssdparams) : Prop where
  unpack : ∀ ch lun blk pg, ch < spp.nchs → lun < spp.lunsPerCh → blk < spp.blksPerPl →
    pg < spp.pgsPerBlk → Ppa.ofFields ch lun 0 blk pg = ⟨pg, blk, 0, lun, ch, 0⟩
  mapped : ∀ ch lun blk pg, ch < spp.nchs → lun < spp.lunsPerCh → blk < spp.blksPerPl →
    pg < spp.pgsPerBlk → mappedPpa (Ppa.ofFields ch lun 0 blk pg)
  numbered : Set.BijOn spp.pgidx {p | p.Address ∧ spp.validPpa p} (Set.Iio spp.ttPgs)

/-- The digits of a number below a product. -/
theorem exists_digits {a n i : ℕ} (h : i < a * n) : ∃ x y, x < a ∧ y < n ∧ x * n + y = i := by
  have hn : 0 < n := Nat.pos_of_ne_zero fun h0 => by simp [h0] at h
  exact ⟨i / n, i % n, (Nat.div_lt_iff_lt_mul hn).2 h, Nat.mod_lt _ hn, Nat.div_add_mod' i n⟩

/-- Every number below `tt_pgs` is that of a page. -/
theorem exists_pgidx (g : spp.PageLayout) {i : ℕ} (hi : i < spp.ttPgs) :
    ∃ d l pg, d ∈ spp.dies ∧ l < spp.blksPerPl ∧ pg < spp.pgsPerBlk ∧
      spp.pgidx (pageAt d l pg) = i := by
  rw [g.ttPgs_eq] at hi
  obtain ⟨b, pg, hb, hpg, rfl⟩ := exists_digits hi
  obtain ⟨d, l, hd, hl, rfl⟩ := exists_digits hb
  obtain ⟨ch, lun, hch, hlun, rfl⟩ := exists_digits hd
  exact ⟨(ch, lun), l, pg, mem_dies.2 ⟨hch, hlun⟩, hl, hpg, pgidx_pageAt g _ _ _⟩

/-- **The numbering is a bijection** where the coordinates fit their fields. -/
theorem pgidx_bijOn (g : spp.PageLayout) (hf : spp.FitsPpa) :
    Set.BijOn spp.pgidx {p | p.Address ∧ spp.validPpa p} (Set.Iio spp.ttPgs) := by
  refine ⟨?_, ?_, ?_⟩
  · rintro p ⟨ha, hv⟩
    obtain ⟨d, l, pg, hd, hl, hpg, rfl⟩ := exists_pageAt g hv ha.rsv
    exact pgidx_lt g hd hl hpg
  · rintro p ⟨ha, hv⟩ q ⟨ha', hv'⟩ h
    obtain ⟨d, l, i, hd, hl, hi, rfl⟩ := exists_pageAt g hv ha.rsv
    obtain ⟨e, m, j, he, hm, hj, rfl⟩ := exists_pageAt g hv' ha'.rsv
    exact pgidx_inj g hd he hl hm hi hj h
  · intro i hi
    obtain ⟨d, l, pg, hd, hl, hpg, rfl⟩ := exists_pgidx g hi
    refine ⟨pageAt d l pg, ⟨?_, validPpa_pageAt g hd hl hpg⟩, rfl⟩
    rw [← ofFields_eq hf hd hl hpg]
    exact address_ofFields ..

/-- Without pages there is nothing to number. -/
theorem ppaBijection_of_ttPgs (g : spp.PageLayout) (htt : spp.ttPgs = 0) :
    spp.PpaBijection := by
  have hnone : ∀ ch lun blk pg, ch < spp.nchs → lun < spp.lunsPerCh → blk < spp.blksPerPl →
      ¬ pg < spp.pgsPerBlk := by
    intro ch lun blk pg hch hlun hblk hpg
    have hlt := pgidx_lt g (d := (ch, lun)) (mem_dies.2 ⟨hch, hlun⟩) hblk hpg
    omega
  refine ⟨fun ch lun blk pg h1 h2 h3 h4 => absurd h4 (hnone ch lun blk pg h1 h2 h3),
    fun ch lun blk pg h1 h2 h3 h4 => absurd h4 (hnone ch lun blk pg h1 h2 h3), ?_, ?_, ?_⟩
  · rintro p ⟨-, h1, h2, -, h3, h4⟩
    exact absurd h4 (hnone _ _ _ _ h1 h2 h3)
  · rintro p ⟨-, h1, h2, -, h3, h4⟩
    exact absurd h4 (hnone _ _ _ _ h1 h2 h3)
  · intro i hi
    rw [htt] at hi
    exact absurd hi (Nat.not_lt_zero i)

/-- **Exactly when addressing is a bijection:** there are no pages, or every coordinate fits its
field. -/
theorem ppaBijection_iff (g : spp.PageLayout) (hch : 0 < spp.nchs) (hlun : 0 < spp.lunsPerCh) :
    spp.PpaBijection ↔ spp.ttPgs = 0 ∨ spp.FitsPpa := by
  constructor
  · intro h
    by_cases htt : spp.ttPgs = 0
    · exact .inl htt
    · have hpos := Nat.pos_of_ne_zero htt
      rw [g.ttPgs_eq] at hpos
      have hpg : 0 < spp.pgsPerBlk := Nat.pos_of_mul_pos_left hpos
      have hblk : 0 < spp.blksPerPl := Nat.pos_of_mul_pos_left (Nat.pos_of_mul_pos_right hpos)
      -- the first coordinate that does not fit its field comes back as zero
      refine .inr ⟨?_, ?_, ?_, ?_⟩
      · by_contra hno
        have he := congrArg Ppa.ch (h.unpack (2 ^ 8) 0 0 0 (not_le.1 hno) hlun hblk hpg)
        exact absurd he (by decide)
      · by_contra hno
        have he := congrArg Ppa.lun (h.unpack 0 (2 ^ 8) 0 0 hch (not_le.1 hno) hblk hpg)
        exact absurd he (by decide)
      · by_contra hno
        have he := congrArg Ppa.blk (h.unpack 0 0 (2 ^ 16) 0 hch hlun (not_le.1 hno) hpg)
        exact absurd he (by decide)
      · by_contra hno
        have he := congrArg Ppa.pg (h.unpack 0 0 0 (2 ^ 16) hch hlun hblk (not_le.1 hno))
        exact absurd he (by decide)
  · rintro (htt | hf)
    · exact ppaBijection_of_ttPgs g htt
    · refine ⟨fun ch lun blk pg h1 h2 h3 h4 => ?_, fun ch lun blk pg _ _ _ _ =>
        mapped_ofFields ch lun 0 blk pg, pgidx_bijOn g hf⟩
      exact ofFields_eq hf (d := (ch, lun)) (mem_dies.2 ⟨h1, h2⟩) h3 h4

end Ssdparams

/-- **Exactly when the addresses of an accepted geometry are a bijection.** -/
theorem ssdInitParams_ppaBijection_iff {capacity nparts : ℕ} {cfg : FtlConfigs} {spp : Ssdparams}
    (h : ssdInitParams capacity nparts cfg = .ok spp) (hpls : cfg.plnsPerLun = 1) :
    spp.PpaBijection ↔ spp.ttPgs = 0 ∨ spp.FitsPpa := by
  obtain ⟨g, hch, hlun⟩ := ssdInitParams_layout h ((ssdInitParams_plsPerLun h).trans hpls)
  exact Ssdparams.ppaBijection_iff g hch hlun

/-- The geometry of the default configuration on 1 GiB. -/
theorem ssdInitParams_ppaBijection_gib :
    ∃ spp, ssdInitParams (2 ^ 30) 4 (loadConvConfigs 0) = .ok spp ∧
      (spp.PpaBijection ↔ spp.ttPgs = 0 ∨ spp.FitsPpa) := by
  obtain ⟨spp, h⟩ : ∃ spp, ssdInitParams (2 ^ 30) 4 (loadConvConfigs 0) = .ok spp := ⟨_, rfl⟩
  exact ⟨spp, h, ssdInitParams_ppaBijection_iff h rfl⟩

/-- **64 TiB are too many** for the default configuration: a block has 2^17 pages, and the pages
behind the first 2^16 share their addresses with those. -/
theorem sixtyFourTib_not_ppaBijection :
    ∃ spp, ssdInitParams (2 ^ 46) 4 (loadConvConfigs 0) = .ok spp ∧ spp.pgsPerBlk = 2 ^ 17 ∧
      Ppa.ofFields 0 0 0 0 (2 ^ 16) = Ppa.ofFields 0 0 0 0 0 ∧ ¬ spp.PpaBijection := by
  obtain ⟨spp, h⟩ : ∃ spp, ssdInitParams (2 ^ 46) 4 (loadConvConfigs 0) = .ok spp := ⟨_, rfl⟩
  cases h
  refine ⟨_, rfl, rfl, rfl, fun hb => ?_⟩
  have he := congrArg Ppa.pg (hb.unpack 0 0 0 (2 ^ 16) (by decide) (by decide) (by decide)
    (by decide))
  exact absurd he (by decide)

end NvmeVirt
