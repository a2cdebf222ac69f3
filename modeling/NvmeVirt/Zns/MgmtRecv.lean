/-
# Zone reports

`zns_mgmt_recv.c`: the report of the zones is written to the report buffer of
the namespace as the bytes of `struct zone_report` and copied from there to the
host pages the PRPs of the command name, by the loop of `__do_perform_io`.
-/

import NvmeVirt.Zns.MgmtSend

namespace NvmeVirt

open Outcome

/-- The number of a zone state. -/
def ZoneState.code : ZoneState → ℕ
  | .empty => 1
  | .openedImpl => 2
  | .openedExpl => 3
  | .closed => 4
  | .readOnly => 0xD
  | .full => 0xE
  | .offline => 0xF

/-- Byte `i` of a little-endian number. -/
def leByte (n i : ℕ) : UInt8 := UInt8.ofNat (n / 256 ^ i % 256)

/-- `sizeof(struct zone_descriptor)`. -/
def zoneDescriptorSize : ℕ := 64

/-- Byte `i` of a zone descriptor. -/
def ZoneDescriptor.byte (d : ZoneDescriptor) (i : ℕ) : UInt8 :=
  if i = 0 then UInt8.ofNat (d.type % 16)
  else if i = 1 then UInt8.ofNat (d.state.code <<< 4)
  else if i = 2 then UInt8.ofNat (d.zrwav.toNat <<< 3)
  else if i < 8 then 0
  else if i < 16 then leByte d.zoneCapacity (i - 8)
  else if i < 24 then leByte d.zslba (i - 16)
  else if i < 32 then leByte d.wp (i - 24)
  else 0

/-- `nr_dw` of `struct nvme_zone_mgmt_recv`. -/
def NvmeRwCommand.nrDw (cmd : NvmeRwCommand) : ℕ := cmd.length + cmd.control * 2 ^ 16

/-- `zra` of `struct nvme_zone_mgmt_recv`. -/
def NvmeRwCommand.zra (cmd : NvmeRwCommand) : ℕ := cmd.dsmgmt % 2 ^ 8

/-- `zra_specific_field` of `struct nvme_zone_mgmt_recv`. -/
def NvmeRwCommand.zraSpecificField (cmd : NvmeRwCommand) : ℕ := cmd.dsmgmt / 2 ^ 8 % 2 ^ 8

/-- `zra_specific_features` of `struct nvme_zone_mgmt_recv`. -/
def NvmeRwCommand.zraSpecificFeatures (cmd : NvmeRwCommand) : ℕ := cmd.dsmgmt / 2 ^ 16 % 2

/-- The bytes a zone management receive transfers. -/
def NvmeRwCommand.reportLength (cmd : NvmeRwCommand) : ℕ := u32 (cmd.nrDw + 1) * 4

/-- `__check_zmgmt_rcv_option_supported`, which goes on behind its message about the block. -/
def NvmeRwCommand.ReportSupported (cmd : NvmeRwCommand) : Prop :=
  cmd.zra = 0 ∧ cmd.zraSpecificField = 0

instance (cmd : NvmeRwCommand) : Decidable cmd.ReportSupported :=
  inferInstanceAs (Decidable (_ ∧ _))

namespace ZnsFtl

variable {τ : Type} (f : ZnsFtl τ) (cmd : NvmeRwCommand)

/-- The size of the report buffer: `struct zone_report` with one descriptor, and one a zone. -/
def reportBufferSize : ℕ := 64 + zoneDescriptorSize + zoneDescriptorSize * f.zp.nrZones

/-- `start_zid` of `__fill_zone_report`. -/
def startZid : ℕ := f.zp.lbaToZone f.sp cmd.slba

/-- `nr_zone_to_report` of `__fill_zone_report`. -/
def nrZoneToReport : ℕ :=
  if cmd.zraSpecificFeatures = 0 then u64 (f.zp.nrZones + 2 ^ 64 - f.startZid cmd)
  else u64 (cmd.reportLength / zoneDescriptorSize + 2 ^ 64 - 1)

/-- The bytes `memcpy` of `__fill_zone_report` copies, a `size_t`. -/
def reportBytes : ℕ := u64 (zoneDescriptorSize * f.nrZoneToReport cmd)

/-- Byte `a` of `zone_descs` is read by `__fill_zone_report`. -/
def ReadsDescriptorByte (a : ℕ) : Prop :=
  zoneDescriptorSize * f.startZid cmd ≤ a ∧
    a < zoneDescriptorSize * f.startZid cmd + f.reportBytes cmd

/-- Byte `a` behind `report_buffer` is written by `__fill_zone_report`: the count or a
descriptor. -/
def WritesReportByte (a : ℕ) : Prop := a < 8 ∨ 64 ≤ a ∧ a < 64 + f.reportBytes cmd

instance (a : ℕ) : Decidable (f.WritesReportByte cmd a) := inferInstanceAs (Decidable (_ ∨ _))

/-- The byte it writes there. -/
def reportByte (a : ℕ) : UInt8 :=
  if a < 8 then leByte (f.nrZoneToReport cmd) a
  else (f.zoneDescs (f.startZid cmd + (a - 64) / zoneDescriptorSize)).byte
    ((a - 64) % zoneDescriptorSize)

/-- `memcpy` ends with the descriptors, which have room in the report buffer then. -/
def descriptorsExist : Except Fault Unit :=
  if zoneDescriptorSize * f.startZid cmd + f.reportBytes cmd ≤ zoneDescriptorSize * f.zp.nrZones
  then .ok () else .error .zoneIndex

/-- `__fill_zone_report`. -/
def fillZoneReport : Except Fault (ZnsFtl τ) := do
  f.descriptorsExist cmd
  .ok { f with
    reportBuffer := fun a =>
      if f.WritesReportByte cmd a then f.reportByte cmd a else f.reportBuffer a }

/-- `__prp_transfer_data` from the report buffer to the host. -/
def transferReport (host : Mem) : Except Fault Mem := do
  defined (cmd.reportLength ≤ f.reportBufferSize)
  let c ← IoCursor.loop { cmd with opcode := .read } cmd.reportLength {
    remaining := cmd.reportLength, offset := 0, prpOffs := 0, prp2Offs := 0
    paddrList := none, host := host, storage := f.reportBuffer, moved := [] }
  .ok c.host

/-- `zns_zmgmt_recv`, with the host memory; an unknown action or option is an invalid field. -/
def znsZmgmtRecv (host : Mem) (req : NvmevRequest) :
    Except Fault (ZnsFtl τ × Mem × NvmevResult) :=
  if req.cmd.ReportSupported then do
    let f ← f.fillZoneReport req.cmd
    let host ← f.transferReport req.cmd host
    .ok (f, host, { status := NvmeStatus.success.code, nsecsTarget := req.nsecsStart })
  else .ok (f, host, { status := NvmeStatus.invalidField.code, nsecsTarget := req.nsecsStart })

end ZnsFtl

end NvmeVirt
