/-
# Which commands the range check lets through

`conv_read` and `conv_write` compare the end of a command, computed in 64 bits,
with the pages of the geometry.  `__do_perform_io` computes the byte range of
the command again.  The check is right except for commands whose end wraps
around and for commands that end in the pages the geometry was rounded up by.
-/

import NvmeVirt.ConvFtl.Credits
import NvmeVirt.ConvFtl.Read
import NvmeVirt.Io.Perform

namespace NvmeVirt

open Outcome

namespace ConvNs

variable {ns ns₀ : ConvNs} {slba length : ℕ}

/-- A namespace of the geometry of `ns₀`, with any mapping and any free space. -/
structure Shape (ns₀ ns : ConvNs) : Prop where
  nrParts : ns.nrParts = ns₀.nrParts
  size : ns.size = ns₀.size
  sp : ns.sp = ns₀.sp
  ftl : ∀ q, q < ns₀.nrParts → (ns.ftls q).ssd.sp = ns₀.sp

theorem Kept.shape (h : Kept ns₀ ns) : Shape ns₀ ns :=
  ⟨h.nrParts, h.size, h.sp, fun q hq => by
    rw [h.inv.sp q (by rw [h.nrParts]; exact hq), h.sp]⟩

/-- The two commands with a range check. -/
inductive Rw
  | read | write
  deriving DecidableEq, Repr

/-- The FTL accepts the command: `conv_read` returns true, `conv_write` does not return false. -/
def Accepts (ns : ConvNs) (slba length : ℕ) : Rw → Prop
  | .read => ∃ reads, ns.convRead slba length = .ok (some reads)
  | .write => ∀ ns', ns.convWrite slba length ≠ .ok (ns', none)

/-- The reads of one instance are issued if its pages are in the table. -/
theorem readPart_ok {startLpn endLpn : ℕ} (reads : List NandRead)
    (hle : startLpn ≤ endLpn)
    (hlt : endLpn / ns.nrParts < (ns.ftls (startLpn % ns.nrParts)).ssd.sp.ttPgs) :
    ∃ reads', ns.readPart startLpn endLpn reads = .ok reads' := by
  have hent : ∀ lpn, lpn ≤ endLpn →
      (ns.ftls (startLpn % ns.nrParts)).getMaptblEnt (lpn / ns.nrParts) =
        .ok ((ns.ftls (startLpn % ns.nrParts)).maptbl (lpn / ns.nrParts)) := fun lpn hl =>
    defined_bind (lt_of_le_of_lt (Nat.div_le_div_right hl) hlt) _
  have hend : Ends (ns.readPart startLpn endLpn reads) (fun _ => True) (fun _ => False) := by
    unfold readPart
    simp only [hent _ hle, ok_bind]
    refine (Ends.forRange (fun _ _ => True) trivial fun i hi c _ => ?_).bind fun _ _ => trivial
    have hl : startLpn + i * ns.nrParts ≤ endLpn := by
      have := Nat.mul_le_mul_right ns.nrParts (Nat.lt_succ_iff.1 hi)
      have := Nat.div_mul_le_self (endLpn - startLpn) ns.nrParts
      omega
    simp only [hent _ hl, ok_bind]
    trivial
  obtain ⟨r, hr, -⟩ := hend.exists_ok
  exact ⟨r, hr⟩

/-- **`conv_read` accepts what passes the range check.** -/
theorem accepts_read (hs : Shape ns₀ ns) (hparts : 0 < ns₀.nrParts) :
    ns.Accepts slba length .read ↔ ns.inFtlRange slba length := by
  have hpos : 0 < ns.nrParts := by rw [hs.nrParts]; exact hparts
  unfold Accepts convRead
  rw [defined_bind hpos]
  dsimp only
  split_ifs with hr
  · refine iff_of_true ?_ hr
    have hend : Ends (do
        let reads ← forRange (min ns.nrParts (ns.endLpn slba length + 1 - slba / ns.sp.secsPerPg))
          (fun i reads => ns.readPart (slba / ns.sp.secsPerPg + i) (ns.endLpn slba length) reads) []
        return some reads : Except Fault (Option (List NandRead)))
        (fun r => ∃ reads, r = some reads) (fun _ => False) := by
      refine (Ends.forRange (fun _ _ => True) trivial fun i hi reads _ => ?_).bind
        fun reads _ => ⟨reads, rfl⟩
      have hq : (slba / ns.sp.secsPerPg + i) % ns.nrParts < ns.nrParts := Nat.mod_lt _ hpos
      obtain ⟨r, hr'⟩ := readPart_ok reads
        (show slba / ns.sp.secsPerPg + i ≤ ns.endLpn slba length by omega)
        (by rw [hs.ftl _ (by rw [← hs.nrParts]; exact hq), ← hs.sp]; exact hr)
      rw [hr']
      trivial
    obtain ⟨r, hr', reads, rfl⟩ := hend.exists_ok
    exact ⟨reads, hr'⟩
  · refine iff_of_false ?_ hr
    rintro ⟨reads, h⟩
    cases h

/-- **`conv_write` accepts what passes the range check,** as long as the buffer has room. -/
theorem accepts_write (hparts : 0 < ns.nrParts)
    (hbuf : lbaToByte (length + 1) ≤ ns.writeBuffer.remaining) :
    ns.Accepts slba length .write ↔ ns.inFtlRange slba length := by
  have halloc : (bufferAllocate ns.writeBuffer (lbaToByte (length + 1))).2 =
      lbaToByte (length + 1) := if_neg (by omega)
  unfold Accepts convWrite
  rw [defined_bind hparts]
  dsimp only
  rw [halloc, if_neg (lt_irrefl _)]
  split_ifs with hr
  · refine iff_of_true (fun ns' h => ?_) hr
    obtain ⟨⟨ns₂, releases⟩, -, h⟩ := bind_eq_ok.1 h
    cases h
  · exact iff_of_false (fun h => h _ rfl) hr

end ConvNs

/-- The logical blocks of the rounded-up geometry. -/
def ConvNs.geometryLbas (ns : ConvNs) : ℕ := ns.sp.ttPgs * ns.nrParts * ns.sp.secsPerPg

/-- `__do_perform_io` stays inside the storage for a command of these blocks. -/
def PerformsInside (size slba length : ℕ) : Prop :=
  ∀ (cmd : NvmeRwCommand) (host storage : Mem) (c : IoCursor), cmd.slba = slba →
    cmd.length = length → doPerformIo cmd host storage = .ok c →
      ∀ t ∈ c.moved, t.offset + t.size ≤ size

/-- What `conv_init_namespace` makes of the parameters the range check reads. -/
theorem convInitNamespace_range {size : ℕ} {cfg : FtlConfigs} {ns₀ ns : ConvNs}
    (hinit : convInitNamespace size cfg = .ok ns₀) (hshape : ConvNs.Shape ns₀ ns)
    (hsize : size < 2 ^ 63) (hos : cfg.oneshotPageSize < 2 ^ 31) (hblk : cfg.blkSize < 2 ^ 31) :
    0 < cfg.ssdPartitions ∧ ns.nrParts = cfg.ssdPartitions ∧ ns.sp.secsPerPg = 8 ∧
      size / cfg.ssdPartitions ≤ ns.sp.ttPgs * 4096 ∧ ns.size ≤ size * 100 / 107 := by
  unfold convInitNamespace at hinit
  simp only [bind_eq_ok] at hinit
  obtain ⟨spp, hspp, ftl, hftl, hinit⟩ := hinit
  obtain ⟨hpls, -⟩ := ConvFtl.convInitFtl_plsPerLun hspp hftl
  obtain ⟨hsecs, hcap⟩ := ssdInitParams_capacity hspp hpls hsize hos hblk
  have hpos : 0 < cfg.ssdPartitions := by
    unfold ssdInitParams at hspp
    simp only [bind_eq_ok, defined_eq_ok] at hspp
    exact hspp.choose_spec.1
  have hsp : ftl.ssd.sp = spp := by
    unfold convInitFtl at hftl
    simp only [bind_eq_ok] at hftl
    obtain ⟨-, -, _, -, _, -, _, -, hftl⟩ := hftl
    cases hftl
    rfl
  cases hinit
  have hns : ns.sp = spp := hshape.sp.trans hsp
  rw [hns]
  refine ⟨hpos, hshape.nrParts, hsecs, hcap, ?_⟩
  rw [hshape.size]
  simp only [convInitParams, u64]
  exact Nat.div_le_div_right (Nat.mod_le _ _)

/-- **The blocks a namespace advertises are blocks of its geometry.** -/
theorem lt_geometryLbas_of_advertised {size : ℕ} {cfg : FtlConfigs} {ns₀ ns : ConvNs}
    (hinit : convInitNamespace size cfg = .ok ns₀) (hshape : ConvNs.Shape ns₀ ns)
    (hsize : size < 2 ^ 63) (hos : cfg.oneshotPageSize < 2 ^ 31) (hblk : cfg.blkSize < 2 ^ 31)
    (hparts : cfg.ssdPartitions ≤ size) {lba : ℕ} (h : (lba + 1) * 512 ≤ ns.size) :
    lba < ns.geometryLbas := by
  obtain ⟨hpos, hnr, hsecs, hcap, hadv⟩ := convInitNamespace_range hinit hshape hsize hos hblk
  -- the pages of the geometry hold the storage but for a remainder of less than a byte a partition
  have hdiv := Nat.div_add_mod size cfg.ssdPartitions
  have hmod := Nat.mod_lt size hpos
  have hc : 1 ≤ size / cfg.ssdPartitions := (Nat.one_le_div_iff hpos).2 hparts
  have htpos : 1 ≤ ns.sp.ttPgs := by omega
  have hmul := Nat.mul_le_mul_left cfg.ssdPartitions hcap
  have hmul' := Nat.mul_le_mul_left cfg.ssdPartitions htpos
  have hassoc : cfg.ssdPartitions * (ns.sp.ttPgs * 4096) =
      ns.sp.ttPgs * cfg.ssdPartitions * 4096 := by
    ring
  have hcomm : cfg.ssdPartitions * ns.sp.ttPgs = ns.sp.ttPgs * cfg.ssdPartitions := mul_comm _ _
  unfold ConvNs.geometryLbas
  rw [hnr, hsecs]
  omega

/-- **The range check keeps a command inside the storage of the namespace exactly if** its end
does not wrap around to a block of the geometry and does not lie past the storage in the pages the
geometry was rounded up by; and every command inside the advertised size is accepted.  `size` is
the storage mapped for the namespace. -/
theorem accepts_inside_iff (size : ℕ) (cfg : FtlConfigs) {ns₀ ns : ConvNs}
    (hinit : convInitNamespace size cfg = .ok ns₀) (hshape : ConvNs.Shape ns₀ ns)
    (hsize : size < 2 ^ 63) (hos : cfg.oneshotPageSize < 2 ^ 31) (hblk : cfg.blkSize < 2 ^ 31)
    (hparts : cfg.ssdPartitions ≤ size) (slba length : ℕ) (rw : ConvNs.Rw) (hslba : slba < 2 ^ 64)
    (hlength : length < 2 ^ 16)
    (hbuf : rw = .write → lbaToByte (length + 1) ≤ ns.writeBuffer.remaining) :
    ((ns.Accepts slba length rw → (slba + length + 1) * 512 ≤ size ∧ PerformsInside size slba length)
      ∧ ((slba + length + 1) * 512 ≤ ns.size → ns.Accepts slba length rw)) ↔
    ¬ (2 ^ 64 ≤ slba + length ∧ slba + length - 2 ^ 64 < ns.geometryLbas) ∧
      ¬ (size / 512 ≤ slba + length ∧ slba + length < ns.geometryLbas) := by
  obtain ⟨hpos, hnr, hsecs, -, hadv⟩ := convInitNamespace_range hinit hshape hsize hos hblk
  have hacc : ns.Accepts slba length rw ↔ u64 (slba + length) < ns.geometryLbas := by
    have hrange : ns.Accepts slba length rw ↔ ns.inFtlRange slba length := by
      have hs : ConvNs.Shape ns ns := ⟨rfl, rfl, rfl, fun q hq => by
        rw [hshape.ftl q (by rw [← hshape.nrParts]; exact hq), hshape.sp]⟩
      have hparts' : 0 < ns.nrParts := by omega
      cases rw with
      | read => exact ConvNs.accepts_read hs hparts'
      | write => exact ConvNs.accepts_write hparts' (hbuf rfl)
    rw [hrange]
    unfold ConvNs.inFtlRange ConvNs.endLpn ConvNs.geometryLbas
    rw [hnr, hsecs, Nat.div_div_eq_div_mul, Nat.div_lt_iff_lt_mul (by omega)]
    ring_nf
  have hwrap : u64 (slba + length) =
      if slba + length < 2 ^ 64 then slba + length else slba + length - 2 ^ 64 := by
    unfold u64
    split_ifs <;> omega
  have hhold : (slba + length + 1) * 512 ≤ ns.size → slba + length < ns.geometryLbas :=
    lt_geometryLbas_of_advertised hinit hshape hsize hos hblk hparts
  have hperform : (slba + length + 1) * 512 ≤ size → PerformsInside size slba length := by
    rintro h cmd host storage c rfl rfl hc t ht
    exact ((doPerformIo_within (by omega) hc).1 t ht).2.trans h
  rw [and_iff_left_of_imp hperform, hacc, hwrap]
  split_ifs with hlt
  · omega
  · omega

/-- A device with two lines can be initialised. -/
theorem convInitFtl_ok (cpp : ConvParams) (spp : Ssdparams) (htt : spp.ttPgs < 2 ^ 31)
    (hlines : spp.blksPerPl = spp.ttLines) (h2 : 2 ≤ spp.blksPerPl) :
    ∃ f, convInitFtl cpp (ssdInit spp) = .ok f ∧ f.ssd = ssdInit spp := by
  obtain ⟨lm, hlm⟩ : ∃ lm, initLines spp = .ok lm := ⟨_, nvmevAssert_bind hlines _⟩
  obtain ⟨-, hfree, -, -, -, hh⟩ := initLines_homed hlm
  have hprep : ∀ lm : LineMgmt, ∀ held, lm.Homed spp.blksPerPl held → 1 ≤ lm.freeLineList.length →
      ∃ r, prepareWritePointer lm = .ok r ∧ r.2.Homed spp.blksPerPl (r.1.curline :: held) ∧
        r.2.freeLineList.length + 1 = lm.freeLineList.length := by
    intro lm held h hpos
    unfold prepareWritePointer
    cases hn : lm.getNextFreeLine with
    | none =>
      rw [LineMgmt.getNextFreeLine_eq_none.1 hn] at hpos
      cases hpos
    | some r =>
      obtain ⟨l, lm'⟩ := r
      obtain ⟨h', hl, -⟩ := h.getNextFreeLine hn
      exact ⟨_, rfl, h', by rw [hl]; rfl⟩
  have hlen : lm.freeLineList.length = spp.blksPerPl := by rw [hfree, List.length_range]
  obtain ⟨⟨wp, lm₁⟩, hwp, hh₁, hl₁⟩ := hprep lm [] hh (by omega)
  obtain ⟨⟨gcWp, lm₂⟩, hgc, -⟩ := hprep lm₁ _ hh₁ (by dsimp only at hl₁; omega)
  refine ⟨_, bind_eq_ok.2 ⟨(), defined_eq_ok.2 htt, bind_eq_ok.2 ⟨lm, hlm,
    bind_eq_ok.2 ⟨(wp, lm₁), hwp, bind_eq_ok.2 ⟨(gcWp, lm₂), hgc, rfl⟩⟩⟩⟩, rfl⟩

/-- **A read of two blocks that starts at the last of all blocks** wraps around to block 0 and is
accepted by the shipped namespace of 1 GiB. -/
theorem accepts_wrapped : ∃ ns : ConvNs, convInitNamespace (2 ^ 30) (loadConvConfigs 0) = .ok ns ∧
    ns.Accepts (2 ^ 64 - 1) 1 .read ∧ ¬ ((2 ^ 64 - 1 + 1 + 1) * 512 ≤ 2 ^ 30) := by
  obtain ⟨spp, hspp⟩ : ∃ spp, ssdInitParams (2 ^ 30) 4 (loadConvConfigs 0) = .ok spp := ⟨_, rfl⟩
  have hval : spp.ttPgs = 262144 ∧ spp.blksPerPl = 8192 ∧ spp.ttLines = 8192 ∧
      spp.secsPerPg = 8 := by
    cases hspp
    decide
  obtain ⟨h1, h2, h3, h4⟩ := hval
  obtain ⟨f, hf, hssd⟩ := convInitFtl_ok convInitParams spp (by omega) (by omega) (by omega)
  refine ⟨_, bind_eq_ok.2 ⟨spp, hspp, bind_eq_ok.2 ⟨f, hf, rfl⟩⟩, ?_, by decide⟩
  refine (ConvNs.accepts_read ⟨rfl, rfl, rfl, fun _ _ => rfl⟩ (Nat.succ_pos 3)).2 ?_
  unfold ConvNs.inFtlRange ConvNs.endLpn ConvNs.sp
  dsimp only
  rw [hssd]
  show u64 (2 ^ 64 - 1 + 1) / spp.secsPerPg / 4 < spp.ttPgs
  rw [h1, h4]
  decide

/-- A write of the tiny namespace that stays inside the advertised size. -/
theorem accepts_inside_iff_tiny : ∃ ns : ConvNs, ns.Accepts 0 7 .write ∧
    PerformsInside tinySize 0 7 := by
  obtain ⟨ns, hns⟩ : ∃ ns, convInitNamespace tinySize tinyConfigs = .ok ns := ⟨_, rfl⟩
  have hval : ns.size = 45936 ∧ ns.writeBuffer.remaining = 8192 ∧ ns.geometryLbas = 96 := by
    cases hns
    decide
  obtain ⟨h1, h2, h3⟩ := hval
  obtain ⟨hin, hadv⟩ := (accepts_inside_iff tinySize tinyConfigs hns
    ⟨rfl, rfl, rfl, fun q hq => by cases hns; rfl⟩ (by decide) (by decide) (by decide) (by decide)
    0 7 .write (by decide) (by decide) (by rw [h2]; decide)).2 (by rw [h3]; decide)
  have hacc := hadv (by rw [h1]; decide)
  exact ⟨ns, hacc, (hin hacc).2⟩

end NvmeVirt
