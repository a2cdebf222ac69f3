/-
# The bounds of a zone report

The memory accesses of `zns_mgmt_recv.c`: `__fill_zone_report` copies descriptors
into the report buffer, `__prp_transfer_data` copies bytes of the buffer to the
host.  The number of descriptors is a difference or a quotient less one, both
unsigned, and nothing compares it or the length of the transfer with what is
allocated; `__check_zmgmt_rcv_option_supported` goes on behind its message about
a block behind the last zone.
-/

import NvmeVirt.Io.Transfers
import NvmeVirt.Zns.IndexSafety

namespace NvmeVirt

open Outcome

namespace ZnsFtl

variable {τ : Type} (f : ZnsFtl τ) (cmd : NvmeRwCommand)

/-- **A zone management receive stays in bounds.** -/
structure ReportInBounds : Prop where
  /-- A start behind the last zone ends with an error and without a report. -/
  rejected : f.nrLbas ≤ cmd.slba → ∀ host req, req.cmd = cmd →
    ∃ ret, f.znsZmgmtRecv host req = .ok (f, host, ret) ∧ ret.status ≠ NvmeStatus.success.code
  /-- The descriptors read are those of existing zones, from the zone of the start on. -/
  reads : cmd.ReportSupported → ∀ a, f.ReadsDescriptorByte cmd a →
    cmd.slba / f.zp.zoneLbas ≤ a / zoneDescriptorSize ∧ a / zoneDescriptorSize < f.zp.nrZones
  writes : cmd.ReportSupported → ∀ a, f.WritesReportByte cmd a → a < f.reportBufferSize
  count : cmd.ReportSupported →
    f.nrZoneToReport cmd ≤ f.zp.nrZones - cmd.slba / f.zp.zoneLbas
  /-- `__prp_transfer_data` reads the bytes of the buffer below the length. -/
  transfers : cmd.ReportSupported → ∀ a, a < cmd.reportLength → a < f.reportBufferSize

/-- **The command fits the zones:** it starts at a zone, and a report of all zones is not longer
than the buffer, or a partial one has room for its header and ends with the zones. -/
def ReportFits : Prop :=
  cmd.slba < f.nrLbas ∧
    if cmd.zraSpecificFeatures = 0 then cmd.reportLength ≤ f.reportBufferSize
    else 64 ≤ cmd.reportLength ∧
      cmd.slba / f.zp.zoneLbas + (cmd.reportLength / 64 - 1) ≤ f.zp.nrZones

instance : Decidable (f.ReportFits cmd) := inferInstanceAs (Decidable (_ ∧ _))

variable {f cmd}

/-! ### The model of the report accesses these bytes -/

/-- The zone report changes no other byte of the buffer. -/
theorem reportBuffer_fillZoneReport {f' : ZnsFtl τ} (h : f.fillZoneReport cmd = .ok f') {a : ℕ}
    (ha : ¬ f.WritesReportByte cmd a) : f'.reportBuffer a = f.reportBuffer a := by
  unfold fillZoneReport at h
  obtain ⟨_, -, h⟩ := bind_eq_ok.1 h
  cases h
  exact if_neg ha

/-- **The transfer reads the bytes below its length,** each of them once and in order, whatever the
PRPs of the command say. -/
theorem transferReport_reads {host host' : Mem} (h : f.transferReport cmd host = .ok host') :
    ∃ ps : List (ℕ × ℕ), ps.map Prod.snd = List.range cmd.reportLength ∧
      host' = byteCopy host f.reportBuffer ps := by
  have hlen : cmd.reportLength < 2 ^ 34 := by
    unfold NvmeRwCommand.reportLength u32
    omega
  unfold transferReport at h
  obtain ⟨_, -, h⟩ := bind_eq_ok.1 h
  obtain ⟨c, hc, h⟩ := bind_eq_ok.1 h
  cases h
  obtain ⟨hpairs, hcopied⟩ := IoCursor.loop_passed (by norm_num) (by omega) hc
  exact ⟨c.pairs, by simpa using hpairs, (hcopied.read rfl).2⟩

/-! ### The bounds -/

/-- The count of zones of a start in the namespace, without a wrap of its product. -/
theorem reportBytes_eq (f : ZnsFtl τ) (cmd : NvmeRwCommand) (hlt : f.nrZoneToReport cmd < 2 ^ 58) :
    f.reportBytes cmd = 64 * f.nrZoneToReport cmd := by
  unfold reportBytes zoneDescriptorSize
  exact u64_of_lt (by omega)

/-- **A report that fits stays in bounds.** -/
theorem ReportFits.inBounds (g : ZnsGeometry f.zp f.sp) (h : f.ReportFits cmd) :
    f.ReportInBounds cmd := by
  obtain ⟨hlba, hfit⟩ := h
  obtain ⟨hzone, hlt⟩ := lbaToZone_of_lt g hlba
  have hstart : f.startZid cmd = cmd.slba / f.zp.zoneLbas := hzone
  have hn := g.nrZones
  have hlen : cmd.reportLength < 2 ^ 34 := by
    unfold NvmeRwCommand.reportLength u32
    omega
  have hcount : f.nrZoneToReport cmd ≤ f.zp.nrZones - cmd.slba / f.zp.zoneLbas ∧
      cmd.reportLength ≤ 128 + 64 * f.zp.nrZones := by
    unfold nrZoneToReport zoneDescriptorSize u64
    rw [hstart]
    split_ifs at hfit ⊢ with hall
    · unfold reportBufferSize zoneDescriptorSize at hfit
      omega
    · omega
  obtain ⟨hcnt, htransfer⟩ := hcount
  have hbytes := f.reportBytes_eq cmd (by omega)
  have hsize : f.reportBufferSize = 128 + 64 * f.zp.nrZones := by
    unfold reportBufferSize zoneDescriptorSize
    omega
  refine ⟨fun hno => absurd hlba (not_lt.2 hno), fun _ a ha => ?_, fun _ a ha => ?_, fun _ => hcnt,
    fun _ a ha => by omega⟩
  · unfold ReadsDescriptorByte zoneDescriptorSize at ha
    unfold zoneDescriptorSize
    rw [hstart, hbytes] at ha
    omega
  · unfold WritesReportByte at ha
    rw [hbytes] at ha
    omega

/-- A supported report that starts behind the last zone is not rejected. -/
theorem not_rejected_of_supported (hsup : cmd.ReportSupported) {host : Mem} {req : NvmevRequest}
    (hreq : req.cmd = cmd) {ret : NvmevResult}
    (h : f.znsZmgmtRecv host req = .ok (f, host, ret)) : ret.status = NvmeStatus.success.code := by
  unfold znsZmgmtRecv at h
  rw [hreq, if_pos hsup] at h
  obtain ⟨f', -, h⟩ := bind_eq_ok.1 h
  obtain ⟨host', -, h⟩ := bind_eq_ok.1 h
  cases h
  rfl

/-- **Exactly which reports stay in bounds.** -/
theorem reportInBounds_iff (g : ZnsGeometry f.zp f.sp) (cmd : NvmeRwCommand) :
    f.ReportInBounds cmd ↔ ¬ cmd.ReportSupported ∨ f.ReportFits cmd := by
  constructor
  · intro h
    by_cases hsup : cmd.ReportSupported
    swap
    · exact .inl hsup
    have hlba : cmd.slba < f.nrLbas := by
      by_contra hno
      obtain ⟨ret, hret, hne⟩ := h.rejected (not_lt.1 hno) (fun _ => 0)
        { cmd := cmd, sqId := 0, nsecsStart := 0 } rfl
      exact hne (not_rejected_of_supported hsup rfl hret)
    refine .inr ⟨hlba, ?_⟩
    obtain ⟨-, hlt⟩ := lbaToZone_of_lt g hlba
    have hn := g.nrZones
    have hcnt := h.count hsup
    have htransfer := h.transfers hsup
    split_ifs with hall
    · by_contra hno
      exact absurd (htransfer _ (not_le.1 hno)) (lt_irrefl _)
    · have hlen : cmd.reportLength < 2 ^ 34 := by
        unfold NvmeRwCommand.reportLength u32
        omega
      unfold nrZoneToReport zoneDescriptorSize u64 at hcnt
      rw [if_neg hall] at hcnt
      generalize cmd.slba / f.zp.zoneLbas = start at hcnt hlt ⊢
      omega
  · rintro (hno | hfits)
    · have hrej : ∀ (host : Mem) (req : NvmevRequest), req.cmd = cmd → ∃ ret,
          f.znsZmgmtRecv host req = .ok (f, host, ret) ∧
            ret.status ≠ NvmeStatus.success.code := by
        intro host req hreq
        have hne : NvmeStatus.invalidField.code ≠ NvmeStatus.success.code := by decide
        unfold znsZmgmtRecv
        rw [hreq]
        exact ⟨_, if_neg hno, hne⟩
      exact ⟨fun _ => hrej, fun h => absurd h hno, fun h => absurd h hno, fun h => absurd h hno,
        fun h => absurd h hno⟩
    · exact hfits.inBounds g

end ZnsFtl

/-- **Exactly which reports stay in bounds,** in every state a zoned namespace reaches behind the
dispatcher and the workers. -/
theorem znsRun_reportInBounds_iff {τ : Type} (clk : SsdClock τ) {size : ℕ} {cfg : FtlConfigs}
    {zcfg : ZnsConfigs} {prior : Znsparams} {clock : τ} {storage reportBuffer host : Mem}
    {f : ZnsFtl τ} {iocfg : IoConfig} {sqes : ℕ → Option SubmissionQueue}
    {cqes : ℕ → Option CompletionQueue} {ops : List IoOp} {d : NvmevDev (ZnsNs τ)}
    (hinit : znsInitNamespace size cfg zcfg prior clock storage reportBuffer = .ok f)
    (hrun : runList (NvmevDev.exec iocfg (znsTarget clk))
      (NvmevDev.start sqes cqes { ftl := f, host := host }) ops = .ok d) (cmd : NvmeRwCommand) :
    d.ns.ftl.ReportInBounds cmd ↔ ¬ cmd.ReportSupported ∨ d.ns.ftl.ReportFits cmd := by
  obtain ⟨hzp, hsp⟩ := NvmevDev.params_run hrun
  refine ZnsFtl.reportInBounds_iff ?_ cmd
  rw [hzp, hsp]
  exact (znsInitNamespace_zonesOk hinit).1.geometry

/-- A report of the two zones of the small namespace behind two writes, as long as the buffer. -/
theorem znsRun_reportInBounds_iff_two : ∃ f d, twoZones = .ok f ∧
    runList zonedExec (zonedStart f) writeTwice = .ok d ∧
    (znsRequest .zoneMgmtRecv 0 63 0).cmd.reportLength = 256 ∧ d.ns.ftl.reportBufferSize = 256 ∧
    d.ns.ftl.ReportInBounds (znsRequest .zoneMgmtRecv 0 63 0).cmd := by
  have hcheck : twoZones.toOption.any (fun f =>
      (runList zonedExec (zonedStart f) writeTwice).toOption.any fun d =>
        decide (d.ns.ftl.reportBufferSize = 256 ∧ d.ns.ftl.nrLbas = 32)) = true := by
    decide +kernel
  obtain ⟨f, hinit, hp⟩ := exists_ok_of_any hcheck
  obtain ⟨d, hrun, hp⟩ := exists_ok_of_any hp
  obtain ⟨hsize, hnr⟩ := of_decide_eq_true hp
  have hlba : (znsRequest .zoneMgmtRecv 0 63 0).cmd.slba < d.ns.ftl.nrLbas := by
    rw [hnr]
    decide
  have hlength : (znsRequest .zoneMgmtRecv 0 63 0).cmd.reportLength
      ≤ d.ns.ftl.reportBufferSize := by
    rw [hsize]
    decide
  exact ⟨f, d, hinit, hrun, by decide, hsize, (znsRun_reportInBounds_iff idleClock hinit hrun _).2
    (.inr ⟨hlba, by rwa [if_pos (by decide)]⟩)⟩

/-- **A partial report into 4 KiB** asks for 63 descriptors of two zones. -/
theorem partialReport_not_inBounds : ∃ f, twoZones = .ok f ∧ f.zp.nrZones = 2 ∧
    (znsRequest .zoneMgmtRecv 0 1023 0x10000).cmd.reportLength = 4096 ∧
    f.nrZoneToReport (znsRequest .zoneMgmtRecv 0 1023 0x10000).cmd = 63 ∧
    f.reportBufferSize = 256 ∧
    ¬ f.ReportInBounds (znsRequest .zoneMgmtRecv 0 1023 0x10000).cmd := by
  have hcheck : twoZones.toOption.any (fun f => decide (f.zp.nrZones = 2 ∧
      f.nrZoneToReport (znsRequest .zoneMgmtRecv 0 1023 0x10000).cmd = 63 ∧
      f.reportBufferSize = 256)) = true := by
    decide +kernel
  obtain ⟨f, hinit, hp⟩ := exists_ok_of_any hcheck
  obtain ⟨hnr, hcnt, hsize⟩ := of_decide_eq_true hp
  refine ⟨f, hinit, hnr, by decide, hcnt, hsize, fun h => ?_⟩
  have hle := h.count (by decide)
  rw [hcnt, hnr] at hle
  exact absurd (hle.trans (Nat.sub_le ..)) (by decide)

end NvmeVirt
