/-
# Where the helpers find a zone

`zone_to_slba`, `zone_to_elba`, `zone_to_slpn`, `lba_to_zone` and `lpn_to_zone`
of `zns_ftl.h` beside the descriptors of `__init_descriptor`.  The helpers that
find blocks multiply two 32-bit numbers, the descriptors are a running sum in 64
bits: the two agree on a zone exactly if the zone ends below block 2^32.
-/

import NvmeVirt.Zns.Protection

namespace NvmeVirt

open Outcome

/-- **The helpers find the zone** where its descriptor says. -/
structure ZnsFtl.AddressesAgree {τ : Type} (f : ZnsFtl τ) (zid : ℕ) : Prop where
  slba : f.zp.zoneToSlba f.sp zid = (f.zoneDescs zid).zslba
  elba : f.zp.zoneToElba f.sp zid
    = (f.zoneDescs zid).zslba + (f.zoneDescs zid).zoneCapacity - 1
  lbas : ∀ lba, (f.zoneDescs zid).zslba ≤ lba →
    lba ≤ (f.zoneDescs zid).zslba + (f.zoneDescs zid).zoneCapacity - 1 →
    f.zp.lbaToZone f.sp lba = zid
  lpns : ∀ lpn, Znsparams.lbaToLpn f.sp (f.zoneDescs zid).zslba ≤ lpn →
    lpn ≤ Znsparams.lbaToLpn f.sp
      ((f.zoneDescs zid).zslba + (f.zoneDescs zid).zoneCapacity - 1) →
    f.zp.lpnToZone f.sp lpn = zid
  slpn : f.zp.zoneToSlpn f.sp zid = Znsparams.lbaToLpn f.sp (f.zp.zoneToSlba f.sp zid)
  /-- The products of `zone_to_slba`, of `zone_to_elba` and of `zone_to_slpn` fit into 32 bits. -/
  products : zid * (f.zp.zoneSize / f.sp.secsz) < 2 ^ 32 ∧
    (zid + 1) * (f.zp.zoneSize / f.sp.secsz) < 2 ^ 32 ∧
    zid * (f.zp.zoneSize / f.sp.pgsz) < 2 ^ 32

namespace ZnsGeometry

variable {zpp : Znsparams} {spp : Ssdparams} {zid : ℕ}

/-- **The last block of a zone is found** if and only if the zone ends below block 2^32. -/
theorem zoneToElba_eq_iff (g : ZnsGeometry zpp spp) (hz : zid < zpp.nrZones) :
    zpp.zoneToElba spp zid = (zid + 1) * zpp.zoneLbas - 1 ↔ (zid + 1) * zpp.zoneLbas < 2 ^ 32 := by
  have hn := g.nrZones
  have hslba := g.slba_lt hz
  have hl := g.zoneLbas_lt
  have h8 := g.eight_le
  have hx : zpp.zoneToSlba spp (zid + 1) = (zid + 1) * zpp.zoneLbas % 2 ^ 32 := by
    unfold Znsparams.zoneToSlba
    rw [g.secsz]
    rfl
  have helba : zpp.zoneToElba spp zid
      = ((zid + 1) * zpp.zoneLbas % 2 ^ 32 + 2 ^ 64 - 1) % 2 ^ 64 := by
    unfold Znsparams.zoneToElba
    rw [u32_of_lt (by omega), hx]
    rfl
  rw [helba, Nat.succ_mul]
  omega

/-- A page lies in the zone of its blocks. -/
theorem lpnToZone_eq (g : ZnsGeometry zpp spp) (lpn : ℕ) :
    zpp.lpnToZone spp lpn = zpp.lbaToZone spp (lpn * 8) := by
  rw [← g.lpnToZone_lbaToLpn]
  unfold Znsparams.lbaToLpn
  rw [g.secsPerPg, Nat.mul_div_cancel _ (by norm_num)]

/-- `zone_to_slpn` finds the page of `zone_to_slba`: a zone has an eighth as many pages as blocks. -/
theorem zoneToSlpn_eq (g : ZnsGeometry zpp spp) (hlow : zpp.Low zid) :
    zpp.zoneToSlpn spp zid = Znsparams.lbaToLpn spp (zpp.zoneToSlba spp zid) := by
  have hlbas := g.zoneLbas_eq
  unfold Znsparams.Low at hlow
  rw [g.zoneToSlba_eq hlow]
  unfold Znsparams.zoneToSlpn Znsparams.lbaToLpn
  rw [g.pgsz, g.secsPerPg, hlbas]
  rw [hlbas] at hlow
  have hassoc : zid * (8 * (zpp.zoneSize / 4096)) = 8 * (zid * (zpp.zoneSize / 4096)) := by ring
  rw [hassoc] at hlow ⊢
  rw [Nat.mul_div_cancel_left _ (by norm_num), u32_of_lt (by omega)]

end ZnsGeometry

namespace ZnsFtl

variable {τ : Type} {f : ZnsFtl τ} {zid : ℕ}

/-- **Exactly where the helpers agree with the descriptors:** on the zones that end below
block 2^32. -/
theorem addressesAgree_iff (h : f.Placed) (hz : zid < f.zp.nrZones) :
    f.AddressesAgree zid ↔ (zid + 1) * f.zp.zoneLbas < 2 ^ 32 := by
  have g := h.geometry
  have hslba := h.zslba zid hz
  have hcap := h.capacity zid hz
  have h8 := g.eight_le
  have hlast := g.zoneToElba_eq_iff hz
  have hsucc : zid * f.zp.zoneLbas + f.zp.zoneLbas = (zid + 1) * f.zp.zoneLbas :=
    (Nat.succ_mul ..).symm
  constructor
  · intro hagree
    have helba := hagree.elba
    rw [hslba, hcap, hsucc] at helba
    exact hlast.1 helba
  · intro hend
    have hlow : f.zp.Low zid := by
      unfold Znsparams.Low
      omega
    have hlba : ∀ lba, zid * f.zp.zoneLbas ≤ lba → lba ≤ (zid + 1) * f.zp.zoneLbas - 1 →
        f.zp.lbaToZone f.sp lba = zid := by
      intro lba hge hle
      exact (g.lbaToZone_eq_iff hz (by omega)).2 ⟨hge, by omega⟩
    have height := g.zoneLbas_eq
    refine ⟨?_, ?_, ?_, ?_, g.zoneToSlpn_eq hlow, ?_⟩
    · rw [hslba]
      exact g.zoneToSlba_eq hlow
    · rw [hslba, hcap, hsucc]
      exact hlast.2 hend
    · rw [hslba, hcap, hsucc]
      exact hlba
    · -- the first and the last block of a page lie in the zone, so its first one does
      rw [hslba, hcap, hsucc]
      intro lpn hge hle
      unfold Znsparams.lbaToLpn at hge hle
      rw [g.secsPerPg] at hge hle
      rw [height] at hge hle hlba hsucc h8
      generalize f.zp.zoneSize / 4096 = pages at hge hle hlba hsucc h8
      have hmul : zid * (8 * pages) = 8 * (zid * pages) := by ring
      have hmul' : (zid + 1) * (8 * pages) = 8 * ((zid + 1) * pages) := by ring
      rw [hmul] at hge hlba
      rw [hmul'] at hle hlba
      rw [g.lpnToZone_eq]
      exact hlba _ (by omega) (by omega)
    · rw [g.secsz, g.pgsz]
      have hpages : zid * f.zp.zoneLbas = 8 * (zid * (f.zp.zoneSize / 4096)) := by
        rw [height]
        ring
      refine ⟨hlow, hend, ?_⟩
      omega

end ZnsFtl

/-- **The addresses of zones in every run:** in every state a zoned namespace reaches behind the
dispatcher and the workers, the helpers agree with the descriptor of a zone if and only if the
zone ends below block 2^32, and with all descriptors if and only if the namespace does. -/
theorem znsRun_addressesAgree_iff {τ : Type} (clk : SsdClock τ) {size : ℕ} {cfg : FtlConfigs}
    {zcfg : ZnsConfigs} {prior : Znsparams} {clock : τ} {storage reportBuffer host : Mem}
    {f : ZnsFtl τ} {iocfg : IoConfig} {sqes : ℕ → Option SubmissionQueue}
    {cqes : ℕ → Option CompletionQueue} {ops : List IoOp} {d : NvmevDev (ZnsNs τ)}
    (hinit : znsInitNamespace size cfg zcfg prior clock storage reportBuffer = .ok f)
    (hrun : runList (NvmevDev.exec iocfg (znsTarget clk))
      (NvmevDev.start sqes cqes { ftl := f, host := host }) ops = .ok d) :
    (∀ zid, zid < d.ns.ftl.zp.nrZones →
      (d.ns.ftl.AddressesAgree zid ↔ (zid + 1) * (d.ns.ftl.zp.zoneSize / 512) < 2 ^ 32)) ∧
    ((∀ zid, zid < d.ns.ftl.zp.nrZones → d.ns.ftl.AddressesAgree zid) ↔
      d.ns.ftl.zp.nrZones * (d.ns.ftl.zp.zoneSize / 512) < 2 ^ 32) := by
  have h := (znsInitNamespace_zonesOk hinit).1.placed.frame (NvmevDev.frame_run hrun)
  have hone : ∀ zid, zid < d.ns.ftl.zp.nrZones →
      (d.ns.ftl.AddressesAgree zid ↔ (zid + 1) * (d.ns.ftl.zp.zoneSize / 512) < 2 ^ 32) :=
    fun zid hz => ZnsFtl.addressesAgree_iff h hz
  refine ⟨hone, fun hall => ?_, fun hend zid hz => (hone zid hz).2 ?_⟩
  · -- the namespace ends with its last zone
    by_cases hzero : d.ns.ftl.zp.nrZones = 0
    · rw [hzero]
      norm_num
    · have hlast := (hone (d.ns.ftl.zp.nrZones - 1) (by omega)).1 (hall _ (by omega))
      rwa [Nat.sub_add_cancel (by omega)] at hlast
  · exact lt_of_le_of_lt (Nat.mul_le_mul_right _ hz) hend

/-- The helpers agree with both zones of the small namespace behind two writes. -/
theorem znsRun_addressesAgree_iff_two : ∃ f d, twoZones = .ok f ∧
    runList zonedExec (zonedStart f) writeTwice = .ok d ∧ d.ns.ftl.zp.nrZones = 2 ∧
    ∀ zid, zid < d.ns.ftl.zp.nrZones → d.ns.ftl.AddressesAgree zid := by
  have hcheck : twoZones.toOption.any (fun f =>
      (runList zonedExec (zonedStart f) writeTwice).toOption.any fun d =>
        decide (d.ns.ftl.zp.nrZones = 2 ∧
          d.ns.ftl.zp.nrZones * (d.ns.ftl.zp.zoneSize / 512) < 2 ^ 32)) = true := by
    decide +kernel
  obtain ⟨f, hinit, hp⟩ := exists_ok_of_any hcheck
  obtain ⟨d, hrun, hp⟩ := exists_ok_of_any hp
  obtain ⟨hnr, hend⟩ := of_decide_eq_true hp
  exact ⟨f, d, hinit, hrun, hnr, (znsRun_addressesAgree_iff idleClock hinit hrun).2.2 hend⟩

/-- Zones of 2 GiB. -/
def wideZones : ZnsConfigs where
  zoneSize := 2 ^ 31
  diesPerZone := 1
  zoneWbSize := 0
  maxZrwaZones := 0
  zrwafgSize := 0
  zrwaSize := 0
  zrwaBufferSize := 0

/-- A namespace of 2 TiB and one zone. -/
def beyondTwoTerabytes : Except Fault (ZnsFtl Unit) :=
  znsInitNamespace (2 ^ 41 + 2 ^ 31) { oneDie with blksPerPln := 2 ^ 16 } wideZones zrwaPrior ()
    (fun _ => 0) fun _ => 0

/-- **Behind 2 TiB a zone is found at block 0,** and the zone before it has no last block. -/
theorem beyondTwoTerabytes_not_addressesAgree : ∃ f, beyondTwoTerabytes = .ok f ∧
    f.zp.nrZones = 1025 ∧ f.zp.zoneToSlba f.sp 1024 = 0 ∧ (f.zoneDescs 1024).zslba = 2 ^ 32 ∧
    f.zp.zoneToElba f.sp 1023 = 2 ^ 64 - 1 ∧
    ¬ ∀ zid, zid < f.zp.nrZones → f.AddressesAgree zid := by
  have hcheck : beyondTwoTerabytes.toOption.any (fun f => decide (f.zp.nrZones = 1025 ∧
      f.zp.zoneToSlba f.sp 1024 = 0 ∧ (f.zoneDescs 1024).zslba = 2 ^ 32 ∧
      f.zp.zoneToElba f.sp 1023 = 2 ^ 64 - 1)) = true := by
    decide +kernel
  obtain ⟨f, hinit, hp⟩ := exists_ok_of_any hcheck
  obtain ⟨hnr, hslba, hdesc, helba⟩ := of_decide_eq_true hp
  refine ⟨f, hinit, hnr, hslba, hdesc, helba, fun h => ?_⟩
  have hagree := (h 1024 (by omega)).slba
  rw [hslba, hdesc] at hagree
  exact absurd hagree (by decide)

end NvmeVirt
