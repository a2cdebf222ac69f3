/-
# The zone a command addresses

Every handler of `zns_ftl.c` computes the zone of a command from its `slba` and
goes to the arrays of the zones with it.  None looks at the number of zones
first: `__check_zmgmt_rcv_option_supported` prints a message about a block behind
the last zone and goes on.  Zones are numbers of 32 bits, so a block far behind
the last zone is one of an existing zone again, and an append that is refused
comes back with the write pointer of its zone, which may be the end of the last.
-/

import NvmeVirt.Zns.Appends
import NvmeVirt.Zns.IndexFaults

namespace NvmeVirt

open Outcome

/-- The command is for the zone of its `slba`. -/
def NvmeRwCommand.HasSlba (cmd : NvmeRwCommand) : Prop :=
  match cmd.opcode with
  | .write | .zoneAppend | .read | .zoneMgmtRecv => True
  | .zoneMgmtSend => cmd.selectAll = false
  | .flush | .other _ => False

namespace ZnsFtl

variable {τ : Type} (clk : SsdClock τ) (f : ZnsFtl τ)

/-- **The command is rejected for its block:** it ends with one error, whatever the zones hold, and
leaves everything as it is. -/
def RejectsSlba (req : NvmevRequest) : Prop :=
  ∃ status ≠ NvmeStatus.success.code, ∀ ns : ZnsNs τ, ns.ftl.zp = f.zp → ns.ftl.sp = f.sp →
    ∃ t, ns.znsProcNvmeIoCmd clk req = .ok {
      ns := ns, cmd := req.cmd, ops := []
      ret := some { status := status, nsecsTarget := t } }

/-- **The block of the command is in the namespace,** if the command has one.  An append whose zone is
written up to the end of the namespace finds room in the write buffer, and a partial report is as
long as a descriptor at least and ends with the last zone. -/
def InNamespace (cmd : NvmeRwCommand) : Prop :=
  match cmd.opcode with
  | .write | .read => cmd.slba < f.nrLbas
  | .zoneAppend => cmd.slba < f.nrLbas ∧
      ((f.zoneDescs (f.zp.lbaToZone f.sp cmd.slba)).zrwav = false → ¬ f.HasRoom cmd →
        (f.zoneDescs (f.zp.lbaToZone f.sp cmd.slba)).wp < f.nrLbas)
  | .zoneMgmtSend => cmd.selectAll = false → cmd.slba < f.nrLbas
  | .zoneMgmtRecv => cmd.ReportSupported → cmd.slba < f.nrLbas ∧
      (cmd.zraSpecificFeatures ≠ 0 → 1 ≤ cmd.reportLength / zoneDescriptorSize ∧
        cmd.slba / f.zp.zoneLbas + (cmd.reportLength / zoneDescriptorSize - 1) ≤ f.zp.nrZones)
  | .flush | .other _ => True

end ZnsFtl

/-- **A command is index safe.** -/
structure ZnsNs.IndexSafe {τ : Type} (clk : SsdClock τ) (ns : ZnsNs τ) (req : NvmevRequest) :
    Prop where
  /-- No access leaves the arrays of the zones. -/
  inBounds : ns.znsProcNvmeIoCmd clk req ≠ .error .zoneIndex
  /-- A block behind the last zone leads to an error. -/
  rejected : req.cmd.HasSlba → ns.ftl.nrLbas ≤ req.cmd.slba → ns.ftl.RejectsSlba clk req
  /-- A command that is refused comes back with a block of the namespace. -/
  retry : ∀ o, ns.znsProcNvmeIoCmd clk req = .ok o → o.ret = none → o.cmd.slba < ns.ftl.nrLbas

namespace ZnsFtl

variable {τ : Type} (clk : SsdClock τ) {f : ZnsFtl τ} {req : NvmevRequest}

/-! ### Reports -/

/-- **The descriptors of a report** are those of existing zones if it says so, and only then. -/
theorem descriptors_iff (g : ZnsGeometry f.zp f.sp) {cmd : NvmeRwCommand}
    (hslba : cmd.slba < f.nrLbas) :
    zoneDescriptorSize * f.startZid cmd + f.reportBytes cmd ≤ zoneDescriptorSize * f.zp.nrZones ↔
      (cmd.zraSpecificFeatures ≠ 0 → 1 ≤ cmd.reportLength / zoneDescriptorSize ∧
        cmd.slba / f.zp.zoneLbas + (cmd.reportLength / zoneDescriptorSize - 1)
          ≤ f.zp.nrZones) := by
  have hn := g.nrZones
  obtain ⟨hstart, hlt⟩ := lbaToZone_of_lt g hslba
  have hlen : cmd.reportLength / zoneDescriptorSize < 2 ^ 28 := by
    unfold NvmeRwCommand.reportLength zoneDescriptorSize u32
    omega
  unfold reportBytes nrZoneToReport startZid
  rw [hstart]
  generalize cmd.reportLength / zoneDescriptorSize = q at hlen ⊢
  generalize cmd.slba / f.zp.zoneLbas = z at hlt ⊢
  unfold zoneDescriptorSize u64
  split_ifs with hall
  · refine iff_of_true (by omega) fun h => absurd hall h
  · constructor
    · intro h _
      omega
    · intro h
      have := h hall
      omega

/-! ### Nothing turns a block away -/

/-- A read ends with the error of an offline zone exactly in one. -/
theorem status_znsRead (f : ZnsFtl τ) (req : NvmevRequest) :
    Ends (f.znsRead clk req) (fun o => ∀ r, o.ret = some r →
      (r.status = NvmeStatus.znsErrOffline.code ↔
        (f.zoneDescs (f.zp.lpnToZone f.sp (Znsparams.lbaToLpn f.sp req.cmd.slba))).state
          = .offline)) fun _ => True := by
  unfold znsRead
  refine (Ends.trivial _).bind fun _ _ => (Ends.trivial _).bind fun c _ => ?_
  rintro r ⟨⟩
  dsimp only
  split_ifs with hoff hbound
  · exact iff_of_true rfl hoff
  · exact iff_of_false (by decide) hoff
  · exact iff_of_false (by decide) hoff

/-- A write or append to a zone without a random write area, where the buffer is full, ends with no
status at all. -/
theorem exists_write_refused (f : ZnsFtl τ) (req : NvmevRequest) :
    ∃ g : ZnsFtl τ, g.zp = f.zp ∧ g.sp = f.sp ∧
      Ends (g.znsWrite clk req) (fun o => o.ret = none) fun _ => True := by
  set z := f.zp.lpnToZone f.sp (Znsparams.lbaToLpn f.sp req.cmd.slba) with hz
  set buf := f.writeBufferOf (f.zp.lbaToZone f.sp req.cmd.slba) with hbuf
  set g := (f.setZone z fun d => { d with zrwav := false }).setBuffer buf
    { size := 0, remaining := 0 } with hg
  have hzp : g.zp = f.zp := zp_setBuffer _ _
  have hsp : g.sp = f.sp := sp_setBuffer _ _
  refine ⟨g, hzp, hsp, ?_⟩
  have hzrwav : (g.zoneDescs z).zrwav = false := by
    rw [hg, zoneDescs_setBuffer, zoneDescs_setZone]
  have hroom : ¬ g.HasRoom req.cmd := by
    have hsame : g.writeBufferOf (g.zp.lbaToZone g.sp req.cmd.slba) = buf := by
      unfold writeBufferOf
      rw [hzp, hsp, hbuf]
      rfl
    unfold HasRoom
    rw [hsame, hg, buffer_setBuffer, if_pos rfl]
    exact not_le.2 (lbaToByte_nrLbas_pos _)
  unfold znsWrite
  refine ends_zoneExists.bind fun _ _ => ?_
  rw [hzp, hsp, ← hz, if_pos hzrwav]
  by_cases hexists : g.zp.lbaToZone g.sp req.cmd.slba < g.zp.nrZones
  · obtain ⟨o, ho, hret, -⟩ := znsWriteSeq_of_not_room clk hexists hroom
    rw [ho]
    exact hret
  · unfold znsWriteSeq
    exact ends_zoneExists.bind fun _ h => absurd h hexists

/-- The explicit flush ends with another status than that of a zone without a random write area where
the block lies in the window. -/
theorem exists_flush_ne (f : ZnsFtl τ) {slba : ℕ} (hslba : slba < 2 ^ 64) :
    ∃ g : ZnsFtl τ, g.zp = f.zp ∧ g.sp = f.sp ∧ Ends (g.zmgmtSendFlushExplicitZrwa slba)
      (fun r => r.2 ≠ .znsInvalidZoneOperation) fun _ => True := by
  set z := f.zp.lbaToZone f.sp slba with hz
  set window := u64 (f.zp.lbasPerZrwa + 2 ^ 64 - 1) with hwindow
  -- the window ends at the block, or goes on from the block 0, and the zone ends behind it
  set g := f.setZone z fun d => { d with
    zrwav := true, state := .openedExpl, wp := slba - window
    zoneCapacity := slba + 2 ^ 64 + 1 - f.zp.zoneToSlba f.sp z } with hg
  have hd : (g.zoneDescs z).zrwav = true ∧ (g.zoneDescs z).state = .openedExpl ∧
      (g.zoneDescs z).wp = slba - window ∧
      (g.zoneDescs z).zoneCapacity = slba + 2 ^ 64 + 1 - f.zp.zoneToSlba f.sp z := by
    rw [hg, zoneDescs_setZone]
    exact ⟨rfl, rfl, rfl, rfl⟩
  obtain ⟨hzrwav, hstate, hwp, hcap⟩ := hd
  have hstart : f.zp.zoneToSlba f.sp z < 2 ^ 32 := Nat.mod_lt _ (by norm_num)
  have hin : (g.zoneDescs z).wp ≤ slba ∧ slba ≤ g.zrwaEnd z := by
    unfold zrwaEnd
    dsimp only
    rw [hwp, hcap, le_min_iff]
    refine ⟨Nat.sub_le _ _, ?_, ?_⟩
    · show slba ≤ u64 (slba - window + f.zp.lbasPerZrwa + 2 ^ 64 - 1)
      unfold u64 at hwindow ⊢
      omega
    · show slba ≤ u64 (f.zp.zoneToSlba f.sp z + (slba + 2 ^ 64 + 1 - f.zp.zoneToSlba f.sp z)
        + 2 ^ 64 - 1)
      unfold u64
      omega
  have hzone : g.zp.lbaToZone g.sp slba = z := rfl
  refine ⟨g, rfl, rfl, ?_⟩
  unfold zmgmtSendFlushExplicitZrwa
  dsimp only
  rw [hzone, if_neg (by rw [hzrwav]; decide), if_neg (not_not.2 hin)]
  refine (Ends.trivial _).bind fun _ _ => ?_
  split_ifs
  · exact NvmeStatus.noConfusion
  · rw [hstate]
    exact NvmeStatus.noConfusion

/-- **No action of a zone management send** ends with one error whatever the zones hold. -/
theorem exists_action_ne (f : ZnsFtl τ) {slba : ℕ} (hslba : slba < 2 ^ 64)
    (action : ZoneSendAction) (option : Bool) {status : ℕ} (hs : status ≠ NvmeStatus.success.code) :
    ∃ g : ZnsFtl τ, g.zp = f.zp ∧ g.sp = f.sp ∧
      Ends (g.zmgmtAction slba action option) (fun r => r.2.code ≠ status) fun _ => True := by
  set z := f.zp.lbaToZone f.sp slba with hz
  have hstate : ∀ s, ((f.changeZoneState z s).zoneDescs z).state = s := by simp
  cases action with
  | closeZone =>
    refine ⟨f.changeZoneState z .closed, rfl, rfl, ?_⟩
    show ((f.changeZoneState z .closed).zmgmtSendCloseZone z).2.code ≠ status
    unfold zmgmtSendCloseZone
    rw [hstate]
    exact hs.symm
  | finishZone =>
    refine ⟨f.changeZoneState z .full, rfl, rfl, ?_⟩
    show ((f.changeZoneState z .full).zmgmtSendFinishZone z).2.code ≠ status
    unfold zmgmtSendFinishZone
    rw [hstate]
    exact hs.symm
  | openZone =>
    refine ⟨f.changeZoneState z .openedExpl, rfl, rfl, ?_⟩
    show ((f.changeZoneState z .openedExpl).zmgmtSendOpenZone z option).2.code ≠ status
    unfold zmgmtSendOpenZone
    rw [hstate]
    exact hs.symm
  | resetZone =>
    refine ⟨f.changeZoneState z .empty, rfl, rfl, ?_⟩
    show ((f.changeZoneState z .empty).zmgmtSendResetZone z).2.code ≠ status
    unfold zmgmtSendResetZone
    rw [hstate]
    exact hs.symm
  | offlineZone =>
    refine ⟨f.changeZoneState z .offline, rfl, rfl, ?_⟩
    show ((f.changeZoneState z .offline).zmgmtSendOfflineZone z).2.code ≠ status
    unfold zmgmtSendOfflineZone
    rw [hstate]
    exact hs.symm
  | flushExplZrwa =>
    by_cases hop : status = NvmeStatus.znsInvalidZoneOperation.code
    · obtain ⟨g, hzp, hsp, hg⟩ := f.exists_flush_ne hslba
      refine ⟨g, hzp, hsp, hg.mono (fun r hr he => hr ?_) fun _ _ => trivial⟩
      rw [hop] at he
      revert he
      cases r.2 <;> decide
    · set g := f.setZone z fun d => { d with zrwav := false } with hg
      have hzone : g.zp.lbaToZone g.sp slba = z := rfl
      have hzrwav : (g.zoneDescs z).zrwav = false := by rw [hg, zoneDescs_setZone]
      refine ⟨g, rfl, rfl, ?_⟩
      unfold zmgmtAction
      dsimp only
      unfold zmgmtSendFlushExplicitZrwa
      dsimp only
      rw [hzone, if_pos hzrwav]
      exact Ne.symm hop

/-- What a command that ends as `RejectsSlba` says has ended with. -/
theorem ret_of_ofFtl {ns : ZnsNs τ} {x : Except Fault (IoOutcome (ZnsFtl τ))} {cmd : NvmeRwCommand}
    {ret : NvmevResult}
    (h : (x >>= fun o => .ok (ns.ofFtl o)) = .ok { ns := ns, cmd := cmd, ops := [], ret := some ret }) :
    ∃ o, x = .ok o ∧ o.ret = some ret := by
  obtain ⟨o, ho, hout⟩ := bind_eq_ok.1 h
  exact ⟨o, ho, congrArg IoOutcome.ret (Except.ok.inj hout)⟩

theorem not_rejectsSlba_of_writes (hw : req.cmd.Writes) : ¬ f.RejectsSlba clk req := by
  rintro ⟨status, -, h⟩
  obtain ⟨g, hzp, hsp, hg⟩ := f.exists_write_refused clk req
  obtain ⟨t, ht⟩ := h { ftl := g, host := fun _ => 0 } hzp hsp
  rw [ZnsNs.znsProcNvmeIoCmd_of_writes clk _ hw] at ht
  obtain ⟨o, ho, hret⟩ := ret_of_ofFtl ht
  rw [hg.of_ok ho] at hret
  cases hret

theorem not_rejectsSlba_of_read (hop : req.cmd.opcode = .read) : ¬ f.RejectsSlba clk req := by
  rintro ⟨status, -, h⟩
  set z := f.zp.lpnToZone f.sp (Znsparams.lbaToLpn f.sp req.cmd.slba) with hz
  have hread : ∀ s : ZoneState, status = NvmeStatus.znsErrOffline.code ↔ s = .offline := by
    intro s
    obtain ⟨t, ht⟩ := h { ftl := f.changeZoneState z s, host := fun _ => 0 } rfl rfl
    unfold ZnsNs.znsProcNvmeIoCmd at ht
    rw [hop] at ht
    obtain ⟨o, ho, hret⟩ := ret_of_ofFtl ht
    have hstatus := (status_znsRead clk (f.changeZoneState z s) req).of_ok ho _ hret
    rwa [zp_changeZoneState, sp_changeZoneState, ← hz, zoneDescs_changeZoneState] at hstatus
  exact absurd ((hread .empty).1 ((hread .offline).2 rfl)) (by decide)

theorem not_rejectsSlba_of_send (hop : req.cmd.opcode = .zoneMgmtSend)
    (hall : req.cmd.selectAll = false) (hslba : req.cmd.slba < 2 ^ 64) :
    ¬ f.RejectsSlba clk req := by
  rintro ⟨status, hs, h⟩
  have hsend : ∀ ns : ZnsNs τ, ns.ftl.zp = f.zp → ns.ftl.sp = f.sp →
      ∃ o t, ns.ftl.znsZmgmtSend clk req = .ok o ∧
        o.ret = some { status := status, nsecsTarget := t } := by
    intro ns hzp hsp
    obtain ⟨t, ht⟩ := h ns hzp hsp
    unfold ZnsNs.znsProcNvmeIoCmd at ht
    rw [hop] at ht
    obtain ⟨o, ho, hret⟩ := ret_of_ofFtl ht
    exact ⟨o, t, ho, hret⟩
  unfold znsZmgmtSend at hsend
  cases haction : ZoneSendAction.ofZsa req.cmd.zsa with
  | none =>
    rw [haction] at hsend
    obtain ⟨o, -, ho, -⟩ := hsend { ftl := f, host := fun _ => 0 } rfl rfl
    cases ho
  | some action =>
    obtain ⟨g, hzp, hsp, hg⟩ := f.exists_action_ne hslba action req.cmd.zsaso hs
    rw [haction] at hsend
    obtain ⟨o, t, ho, hret⟩ := hsend { ftl := g, host := fun _ => 0 } hzp hsp
    obtain ⟨⟨g', status', t'⟩, hzone, hout⟩ := bind_eq_ok.1 ho
    cases hout
    cases hret
    have hne : Ends (g.zmgmtSend clk action req) (fun r => r.2.1.code ≠ status'.code)
        fun _ => True := by
      unfold zmgmtSend
      rw [hall, if_neg (by decide)]
      unfold zmgmtSendZone
      refine (Ends.trivial _).bind fun _ _ => hg.bind ?_
      rintro ⟨g', status'⟩ hne
      dsimp only
      split_ifs
      · exact (Ends.trivial _).bind fun _ _ => hne
      · exact hne
    exact hne.of_ok hzone rfl

theorem not_rejectsSlba_of_report (hop : req.cmd.opcode = .zoneMgmtRecv)
    (hsup : req.cmd.ReportSupported) : ¬ f.RejectsSlba clk req := by
  rintro ⟨status, hs, h⟩
  obtain ⟨t, ht⟩ := h { ftl := f, host := fun _ => 0 } rfl rfl
  unfold ZnsNs.znsProcNvmeIoCmd znsZmgmtRecv at ht
  rw [hop, if_pos hsup] at ht
  obtain ⟨r, hr, hout⟩ := bind_eq_ok.1 ht
  obtain ⟨g, -, hr⟩ := bind_eq_ok.1 hr
  obtain ⟨host, -, hr⟩ := bind_eq_ok.1 hr
  cases hr
  exact hs (congrArg NvmevResult.status
    (Option.some.inj (congrArg IoOutcome.ret (Except.ok.inj hout)))).symm

/-- A report that is not supported is turned away for that. -/
theorem rejectsSlba_of_not_supported (hop : req.cmd.opcode = .zoneMgmtRecv)
    (hno : ¬ req.cmd.ReportSupported) : f.RejectsSlba clk req := by
  refine ⟨NvmeStatus.invalidField.code, by decide, fun ns _ _ => ⟨req.nsecsStart, ?_⟩⟩
  unfold ZnsNs.znsProcNvmeIoCmd znsZmgmtRecv
  rw [hop, if_neg hno]
  rfl

/-! ### Exactly which commands are safe -/

/-- **A command with its blocks in the namespace** stays in the arrays. -/
theorem InNamespace.inArrays {ns : ZnsNs τ} (g : ZnsGeometry ns.ftl.zp ns.ftl.sp)
    (h : ns.ftl.InNamespace req.cmd) : InArrays (ns.znsProcNvmeIoCmd clk req) := by
  have hzone : req.cmd.slba < ns.ftl.nrLbas →
      ns.ftl.zp.lbaToZone ns.ftl.sp req.cmd.slba < ns.ftl.zp.nrZones := fun hlt => by
    obtain ⟨h1, h2⟩ := lbaToZone_of_lt g hlt
    rwa [h1]
  unfold InNamespace at h
  unfold ZnsNs.znsProcNvmeIoCmd
  cases hop : req.cmd.opcode with
  | write =>
    rw [hop] at h
    exact (ns.ftl.inArrays_znsWrite clk g (hzone h)).bind fun _ => .of_ok _
  | zoneAppend =>
    rw [hop] at h
    exact (ns.ftl.inArrays_znsWrite clk g (hzone h.1)).bind fun _ => .of_ok _
  | read =>
    rw [hop] at h
    exact (ns.ftl.inArrays_znsRead clk g (hzone h)).bind fun _ => .of_ok _
  | flush => exact .of_ok _
  | zoneMgmtSend =>
    rw [hop] at h
    exact (ns.ftl.inArrays_znsZmgmtSend clk g fun hall => hzone (h hall)).bind fun _ => .of_ok _
  | zoneMgmtRecv =>
    rw [hop] at h
    exact (ns.ftl.inArrays_znsZmgmtRecv ns.host fun hsup =>
      (descriptors_iff g (h hsup).1).2 (h hsup).2).bind fun _ => .of_ok _
  | other code => exact .of_ok _

/-- Only writes and appends are refused. -/
theorem ret_of_not_writes {ns : ZnsNs τ} (hno : ¬ req.cmd.Writes) :
    Ends (ns.znsProcNvmeIoCmd clk req) (fun o => o.ret ≠ none) fun _ => True := by
  unfold ZnsNs.znsProcNvmeIoCmd
  cases hop : req.cmd.opcode with
  | write => exact absurd (.inl hop) hno
  | zoneAppend => exact absurd (.inr hop) hno
  | read =>
    refine Ends.bind (Q := fun o => o.ret ≠ none) ?_ fun _ h => by exact h
    unfold znsRead
    exact (Ends.trivial _).bind fun _ _ => (Ends.trivial _).bind fun _ _ => Option.some_ne_none _
  | flush => exact Option.some_ne_none _
  | zoneMgmtSend =>
    refine Ends.bind (Q := fun o => o.ret ≠ none) ?_ fun _ h => by exact h
    unfold znsZmgmtSend
    cases ZoneSendAction.ofZsa req.cmd.zsa with
    | none => trivial
    | some action => exact (Ends.trivial _).bind fun _ _ => Option.some_ne_none _
  | zoneMgmtRecv => exact (Ends.trivial _).bind fun _ _ => Option.some_ne_none _
  | other code => exact Option.some_ne_none _

/-- Of the commands with their blocks in the namespace, one for a block behind the last zone is a
report that is not supported. -/
theorem InNamespace.rejected (h : f.InNamespace req.cmd) (hhas : req.cmd.HasSlba)
    (hout : f.nrLbas ≤ req.cmd.slba) : f.RejectsSlba clk req := by
  unfold NvmeRwCommand.HasSlba at hhas
  unfold InNamespace at h
  cases hop : req.cmd.opcode with
  | zoneMgmtRecv =>
    rw [hop] at h
    exact rejectsSlba_of_not_supported clk hop fun hsup => absurd (h hsup).1 (not_lt.2 hout)
  | write => rw [hop] at h; exact absurd h (not_lt.2 hout)
  | zoneAppend => rw [hop] at h; exact absurd h.1 (not_lt.2 hout)
  | read => rw [hop] at h; exact absurd h (not_lt.2 hout)
  | zoneMgmtSend => rw [hop] at h hhas; exact absurd (h hhas) (not_lt.2 hout)
  | flush => rw [hop] at hhas; exact hhas.elim
  | other code => rw [hop] at hhas; exact hhas.elim

/-- **An append without room** is refused and comes back with the write pointer of its zone. -/
theorem exists_refused_append {ns : ZnsNs τ} (g : ZnsGeometry ns.ftl.zp ns.ftl.sp)
    (hop : req.cmd.opcode = .zoneAppend) (hlt : req.cmd.slba < ns.ftl.nrLbas)
    (hzrwav : (ns.ftl.zoneDescs (ns.ftl.zp.lbaToZone ns.ftl.sp req.cmd.slba)).zrwav = false)
    (hroom : ¬ ns.ftl.HasRoom req.cmd) : ∃ o, ns.znsProcNvmeIoCmd clk req = .ok o ∧
      o.ret = none ∧
      o.cmd.slba = (ns.ftl.zoneDescs (ns.ftl.zp.lbaToZone ns.ftl.sp req.cmd.slba)).wp := by
  obtain ⟨h1, h2⟩ := lbaToZone_of_lt g hlt
  have hexists : ns.ftl.zp.lbaToZone ns.ftl.sp req.cmd.slba < ns.ftl.zp.nrZones := by rwa [h1]
  obtain ⟨o, ho, hret, -, hcmd⟩ := znsWriteSeq_of_not_room clk hexists hroom
  refine ⟨ns.ofFtl o, ?_, hret, ?_⟩
  · rw [ZnsNs.znsProcNvmeIoCmd_of_writes clk ns (.inr hop)]
    unfold znsWrite
    rw [g.lpnToZone_lbaToLpn, zoneExists_bind hexists, if_pos hzrwav, ho]
    rfl
  · show o.cmd.slba = _
    rw [hcmd]
    unfold rewritten
    rw [if_pos hop]

/-- **A refused command with its blocks in the namespace** comes back with a block of it. -/
theorem InNamespace.retry {ns : ZnsNs τ} (g : ZnsGeometry ns.ftl.zp ns.ftl.sp)
    (h : ns.ftl.InNamespace req.cmd) {o : IoOutcome (ZnsNs τ)}
    (ho : ns.znsProcNvmeIoCmd clk req = .ok o) (hret : o.ret = none) :
    o.cmd.slba < ns.ftl.nrLbas := by
  by_cases hw : req.cmd.Writes
  swap
  · exact absurd hret ((ret_of_not_writes clk hw).of_ok ho)
  unfold InNamespace at h
  rcases hw with hop | hop
  · rw [hop] at h
    rw [(ns.cmd_procNvmeIoCmd clk req (by rw [hop]; decide)).of_ok ho]
    exact h
  · rw [hop] at h
    rw [ZnsNs.znsProcNvmeIoCmd_of_writes clk ns (.inr hop)] at ho
    obtain ⟨o', ho', hout⟩ := bind_eq_ok.1 ho
    cases hout
    obtain ⟨_, -, hwrite⟩ := bind_eq_ok.1 ho'
    rw [g.lpnToZone_lbaToLpn] at hwrite
    show o'.cmd.slba < ns.ftl.nrLbas
    split_ifs at hwrite with hzrwav
    · obtain ⟨-, -, hcmd⟩ := (ns.ftl.frame_znsWriteSeq (R := False) clk req).of_ok hwrite
      have hroom := (ns.ftl.znsWriteSeq_refused clk req).of_ok hwrite hret
      rw [hcmd]
      unfold rewritten
      rw [if_pos hop]
      exact h.2 hzrwav hroom
    · obtain ⟨-, -, hcmd⟩ := (ns.ftl.frame_znsWriteZrwa (R := False) clk req).of_ok hwrite
      rw [hcmd]
      exact h.1

end ZnsFtl

namespace ZnsNs

variable {τ : Type} (clk : SsdClock τ) {ns : ZnsNs τ} {req : NvmevRequest}

/-- **A safe command** has its blocks in the namespace: nothing else turns a block away. -/
theorem IndexSafe.inNamespace (h : ns.IndexSafe clk req) (g : ZnsGeometry ns.ftl.zp ns.ftl.sp)
    (hslba : req.cmd.slba < 2 ^ 64) : ns.ftl.InNamespace req.cmd := by
  have hblock : req.cmd.HasSlba → ¬ ns.ftl.RejectsSlba clk req →
      req.cmd.slba < ns.ftl.nrLbas := fun hhas hno => by
    by_contra hout
    exact hno (h.rejected hhas (not_lt.1 hout))
  unfold NvmeRwCommand.HasSlba at hblock
  unfold ZnsFtl.InNamespace
  cases hop : req.cmd.opcode with
  | write =>
    rw [hop] at hblock
    exact hblock trivial (ZnsFtl.not_rejectsSlba_of_writes clk (.inl hop))
  | zoneAppend =>
    rw [hop] at hblock
    have hlt := hblock trivial (ZnsFtl.not_rejectsSlba_of_writes clk (.inr hop))
    refine ⟨hlt, fun hzrwav hroom => ?_⟩
    obtain ⟨o, ho, hret, hwp⟩ := ZnsFtl.exists_refused_append clk g hop hlt hzrwav hroom
    exact hwp ▸ h.retry o ho hret
  | read =>
    rw [hop] at hblock
    exact hblock trivial (ZnsFtl.not_rejectsSlba_of_read clk hop)
  | flush => trivial
  | zoneMgmtSend =>
    rw [hop] at hblock
    exact fun hall => hblock hall (ZnsFtl.not_rejectsSlba_of_send clk hop hall hslba)
  | zoneMgmtRecv =>
    rw [hop] at hblock
    intro hsup
    have hlt := hblock trivial (ZnsFtl.not_rejectsSlba_of_report clk hop hsup)
    refine ⟨hlt, (ZnsFtl.descriptors_iff g hlt).1 ?_⟩
    by_contra hout
    refine h.inBounds ?_
    unfold znsProcNvmeIoCmd ZnsFtl.znsZmgmtRecv ZnsFtl.fillZoneReport ZnsFtl.descriptorsExist
    rw [hop, if_pos hsup, if_neg hout]
    rfl
  | other code => trivial

/-- **Exactly which commands are safe.** -/
theorem indexSafe_iff (g : ZnsGeometry ns.ftl.zp ns.ftl.sp) (hslba : req.cmd.slba < 2 ^ 64) :
    ns.IndexSafe clk req ↔ ns.ftl.InNamespace req.cmd :=
  ⟨fun h => h.inNamespace clk g hslba, fun h => {
    inBounds := (h.inArrays clk g).ne
    rejected := fun hhas hout => h.rejected clk hhas hout
    retry := fun _ ho hret => h.retry clk g ho hret }⟩

end ZnsNs

/-- **Exactly which commands are safe** in every state a zoned namespace reaches behind the
dispatcher and the workers; a command that was refused is one of them when it comes back. -/
theorem znsRun_indexSafe_iff {τ : Type} (clk : SsdClock τ) {size : ℕ} {cfg : FtlConfigs}
    {zcfg : ZnsConfigs} {prior : Znsparams} {clock : τ} {storage reportBuffer host : Mem}
    {f : ZnsFtl τ} {iocfg : IoConfig} {sqes : ℕ → Option SubmissionQueue}
    {cqes : ℕ → Option CompletionQueue} {ops : List IoOp} {d : NvmevDev (ZnsNs τ)}
    (hinit : znsInitNamespace size cfg zcfg prior clock storage reportBuffer = .ok f)
    (hrun : runList (NvmevDev.exec iocfg (znsTarget clk))
      (NvmevDev.start sqes cqes { ftl := f, host := host }) ops = .ok d)
    {req : NvmevRequest} (hslba : req.cmd.slba < 2 ^ 64) :
    d.ns.IndexSafe clk req ↔ d.ns.ftl.InNamespace req.cmd := by
  obtain ⟨hzp, hsp⟩ := NvmevDev.params_run hrun
  refine ZnsNs.indexSafe_iff clk ?_ hslba
  rw [hzp, hsp]
  exact (znsInitNamespace_zonesOk hinit).1.geometry

/-- The append to the full first zone is refused, and comes back for the second one. -/
theorem znsRun_indexSafe_iff_retry : ∃ f d o, fewPages = .ok f ∧
    runList zonedExec (zonedStart f) ((retryAppend 0).take 5) = .ok d ∧
    d.ns.znsProcNvmeIoCmd idleClock (znsRequest .zoneAppend 0 7 0) = .ok o ∧
    o.ret = none ∧ o.cmd.slba = 16 ∧ d.ns.ftl.nrLbas = 32 ∧
    d.ns.IndexSafe idleClock (znsRequest .zoneAppend 0 7 0) := by
  have hcheck : fewPages.toOption.any (fun f =>
      (runList zonedExec (zonedStart f) ((retryAppend 0).take 5)).toOption.any fun d =>
        (d.ns.znsProcNvmeIoCmd idleClock (znsRequest .zoneAppend 0 7 0)).toOption.any fun o =>
          decide (o.ret = none ∧ o.cmd.slba = 16 ∧ d.ns.ftl.nrLbas = 32 ∧
            (d.ns.ftl.zoneDescs (d.ns.ftl.zp.lbaToZone d.ns.ftl.sp 0)).wp < d.ns.ftl.nrLbas))
        = true := by
    decide +kernel
  obtain ⟨f, hinit, hp⟩ := exists_ok_of_any hcheck
  obtain ⟨d, hrun, hp⟩ := exists_ok_of_any hp
  obtain ⟨o, ho, hp⟩ := exists_ok_of_any hp
  obtain ⟨hret, hback, hnr, hwp⟩ := of_decide_eq_true hp
  have hin : d.ns.ftl.InNamespace (znsRequest .zoneAppend 0 7 0).cmd :=
    ⟨by rw [hnr]; decide, fun _ _ => hwp⟩
  exact ⟨f, d, o, hinit, hrun, ho, hret, hback, hnr,
    (znsRun_indexSafe_iff idleClock hinit hrun (by decide)).2 hin⟩

/-- **A read right behind the last zone** takes the descriptor with the number of zones. -/
theorem readBehind_not_indexSafe : ∃ f, twoZones = .ok f ∧ f.zp.nrZones = 2 ∧ f.nrLbas = 32 ∧
    ({ ftl := f, host := fun _ => 0 } : ZnsNs Unit).znsProcNvmeIoCmd idleClock
      (znsRequest .read 32 7 0) = .error .zoneIndex ∧
    ¬ ({ ftl := f, host := fun _ => 0 } : ZnsNs Unit).IndexSafe idleClock
      (znsRequest .read 32 7 0) := by
  have hcheck : twoZones.toOption.any (fun f => decide (f.zp.nrZones = 2 ∧ f.nrLbas = 32 ∧
      f.zp.nrZones ≤ f.zp.lpnToZone f.sp
        (Znsparams.lbaToLpn f.sp (znsRequest .read 32 7 0).cmd.slba))) = true := by
    decide +kernel
  obtain ⟨f, hinit, hp⟩ := exists_ok_of_any hcheck
  obtain ⟨hnr, hlbas, hzone⟩ := of_decide_eq_true hp
  have hproc : ({ ftl := f, host := fun _ => 0 } : ZnsNs Unit).znsProcNvmeIoCmd idleClock
      (znsRequest .read 32 7 0) = .error .zoneIndex := by
    show f.znsRead idleClock (znsRequest .read 32 7 0) >>= _ = _
    unfold ZnsFtl.znsRead
    dsimp only
    rw [ZnsFtl.zoneExists_bind_of_le hzone]
    rfl
  exact ⟨f, hinit, hnr, hlbas, hproc, fun h => h.inBounds hproc⟩

end NvmeVirt
