/-
# Snapshots of a zoned device

`save_zns_device` and `load_zns_device` of `zns_save_load.c` on the device as
they see it: its parameters, and the arrays they move as raw bytes.  The file is
the header, the descriptors, the resource counters, two optional sections with
what remains of the buffers, and for each zone that is not empty or offline its
number, a length and the bytes below its write pointer, up to a sentinel.
-/

import NvmeVirt.Io.KernelFile
import NvmeVirt.Zns.MgmtRecv

namespace NvmeVirt

open LittleEndian

/-! ### Structures in memory -/

/-- The zone state of a number. -/
def ZoneState.ofCode : ℕ → Option ZoneState
  | 0x1 => some .empty
  | 0x2 => some .openedImpl
  | 0x3 => some .openedExpl
  | 0x4 => some .closed
  | 0xD => some .readOnly
  | 0xE => some .full
  | 0xF => some .offline
  | _ => none

namespace ZoneDescriptor

/-- A `struct zone_descriptor` in memory. -/
def bytes (d : ZoneDescriptor) : List UInt8 := (List.range zoneDescriptorSize).map d.byte

/-- `state` of a descriptor in memory. -/
def stateOf (bs : List UInt8) : ℕ := (bs.getD 1 0).toNat / 16

/-- `zone_capacity`. -/
def zoneCapacityOf (bs : List UInt8) : ℕ := leNat ((bs.drop 8).take 8)

/-- `zslba`. -/
def zslbaOf (bs : List UInt8) : ℕ := leNat ((bs.drop 16).take 8)

/-- `wp`. -/
def wpOf (bs : List UInt8) : ℕ := leNat ((bs.drop 24).take 8)

/-- The descriptor in memory, if its state is one. -/
def ofBytes (bs : List UInt8) : Option ZoneDescriptor :=
  (ZoneState.ofCode (stateOf bs)).map fun state => {
    type := (bs.getD 0 0).toNat % 16
    state := state
    zrwav := (bs.getD 2 0).toNat / 8 % 2 = 1
    zoneCapacity := zoneCapacityOf bs
    zslba := zslbaOf bs
    wp := wpOf bs }

end ZoneDescriptor

/-- A `struct zone_resource_info` in memory. -/
def ZoneResourceInfo.bytes (r : ZoneResourceInfo) : List UInt8 :=
  leBytes 4 r.acquiredCnt ++ leBytes 4 r.totalCnt

/-- `sizeof(struct zone_resource_info) * RES_TYPE_COUNT`. -/
def resInfosSize : ℕ := 24

/-- `struct zns_dump_header`. -/
structure ZnsDumpHeader where
  magic : ℕ
  nrZones : ℕ
  zoneSize : ℕ
  nchs : ℕ
  lunsPerCh : ℕ
  zrwaBufEn : ℕ
  zoneWbEn : ℕ
  deriving DecidableEq, Repr

/-- `ZNS_DUMP_MAGIC`. -/
def znsDumpMagic : ℕ := 0x5A4E5346

/-- `ZNS_ZONE_SENTINEL`. -/
def znsZoneSentinel : ℕ := 0xFFFFFFFF

/-- `sizeof(struct zns_dump_header)`. -/
def znsDumpHeaderSize : ℕ := 24

namespace ZnsDumpHeader

/-- The header in memory. -/
def bytes (h : ZnsDumpHeader) : List UInt8 :=
  leBytes 4 h.magic ++ (leBytes 4 h.nrZones ++ (leBytes 4 h.zoneSize ++ (leBytes 4 h.nchs ++
    (leBytes 4 h.lunsPerCh ++ (leBytes 1 h.zrwaBufEn ++ (leBytes 1 h.zoneWbEn ++ [0, 0]))))))

/-- A header read from memory. -/
def ofBytes (bs : List UInt8) : ZnsDumpHeader where
  magic := leNat (bs.take 4)
  nrZones := leNat ((bs.drop 4).take 4)
  zoneSize := leNat ((bs.drop 8).take 4)
  nchs := leNat ((bs.drop 12).take 4)
  lunsPerCh := leNat ((bs.drop 16).take 4)
  zrwaBufEn := leNat ((bs.drop 20).take 1)
  zoneWbEn := leNat ((bs.drop 21).take 1)

end ZnsDumpHeader

/-- What the snapshot functions see of a zoned device: the fields of `struct zns_ftl` and the
storage, the arrays of structures as they lie in memory, and `ssd->write_buffer`, which they leave
alone. -/
structure ZnsDevice where
  zp : Znsparams
  sp : Ssdparams
  storageSize : ℕ
  zoneDescs : List UInt8
  resInfos : List UInt8
  zwraRemaining : ℕ → ℕ
  zoneWbRemaining : ℕ → ℕ
  writeBufferRemaining : ℕ
  storage : Mem
  reportBuffer : Mem

/-- A zoned namespace on a device with `storageSize` bytes. -/
def ZnsFtl.device {τ : Type} (f : ZnsFtl τ) (storageSize : ℕ) : ZnsDevice where
  zp := f.zp
  sp := f.sp
  storageSize := storageSize
  zoneDescs := (List.range f.zp.nrZones).flatMap fun z => (f.zoneDescs z).bytes
  resInfos := (f.resInfos .active).bytes ++ ((f.resInfos .open).bytes ++ (f.resInfos .zrwa).bytes)
  zwraRemaining := fun z => u64 (f.zwraBuffer z).remaining
  zoneWbRemaining := fun z => u64 (f.zoneWriteBuffer z).remaining
  writeBufferRemaining := u64 f.writeBuffer.remaining
  storage := f.storage
  reportBuffer := f.reportBuffer

namespace ZnsDevice

variable (calls : FileCalls) (fuel : ℕ) (d : ZnsDevice)

/-- `zone_descs[i]` in memory. -/
def zd (i : ℕ) : List UInt8 := (d.zoneDescs.drop (zoneDescriptorSize * i)).take zoneDescriptorSize

/-- `(int)zpp->nr_zones`, the bound of the loops over the zones. -/
def zoneRounds : ℕ := (asInt d.zp.nrZones).toNat

/-- `get_storage_addr_from_zid`, from the start of the storage. -/
def storageAddr (zid : ℕ) : ℕ := u64 (zid * d.zp.zoneSize)

/-! ### Saving -/

/-- The header `save_zns_device` writes. -/
def header : ZnsDumpHeader where
  magic := znsDumpMagic
  nrZones := d.zp.nrZones
  zoneSize := d.zp.zoneSize
  nchs := d.sp.nchs
  lunsPerCh := d.sp.lunsPerCh
  zrwaBufEn := if 0 < d.zp.zrwaBufferSize then 1 else 0
  zoneWbEn := if 0 < d.zp.zoneWbSize then 1 else 0

/-- `byte_len` of zone `i`: the bytes below its write pointer. -/
def byteLen (i : ℕ) : ℕ :=
  let writtenLbas := u64 (ZoneDescriptor.wpOf (d.zd i) + 2 ^ 64 - ZoneDescriptor.zslbaOf (d.zd i))
  u64 (writtenLbas * d.sp.secsz)

/-- The zone has a chunk in the snapshot. -/
def Saved (i : ℕ) : Prop :=
  ¬ (ZoneDescriptor.stateOf (d.zd i) = ZoneState.empty.code ∨
    ZoneDescriptor.stateOf (d.zd i) = ZoneState.offline.code) ∧ d.byteLen i ≠ 0

instance (i : ℕ) : Decidable (d.Saved i) := inferInstanceAs (Decidable (_ ∧ _))

/-- One of the loops that save what remains of the buffers. -/
def saveRemaining (remaining : ℕ → ℕ) (o : OpenFile) : OpenFile :=
  (List.range d.zoneRounds).foldl (fun o i => o.kernelWrite calls (leBytes 8 (remaining i))) o

/-- The chunk of zone `i`. -/
def saveZone (i : ℕ) (o : OpenFile) : OpenFile × LoopEnd :=
  if ¬ d.Saved i then (o, .done)
  else
    let o := o.kernelWrite calls (leBytes 4 i)
    let o := o.kernelWrite calls (leBytes 8 (d.byteLen i))
    let (s, e) := copyLoop (fun cur => cur < asInt (d.byteLen i)) true
      (copyOut calls (d.storageAddr i) (d.byteLen i)) fuel 0 { file := o, mem := d.storage }
    (s.file, e)

/-- The chunks of the zones up to the first that fails. -/
def saveZones (zones : List ℕ) (o : OpenFile) : OpenFile × LoopEnd :=
  match zones with
  | [] => (o, .done)
  | i :: zones =>
    match d.saveZone calls fuel i o with
    | (o, .done) => saveZones zones o
    | r => r

/-- What is written before the chunks. -/
def saveSections : OpenFile :=
  let o : OpenFile := { bytes := [] }
  let o := o.kernelWrite calls d.header.bytes
  let o := o.kernelWrite calls (d.zoneDescs.take (zoneDescriptorSize * d.zp.nrZones))
  let o := o.kernelWrite calls d.resInfos
  let o := if d.header.zrwaBufEn ≠ 0 then d.saveRemaining calls d.zwraRemaining o else o
  if d.header.zoneWbEn ≠ 0 then d.saveRemaining calls d.zoneWbRemaining o else o

/-- The end of the file. -/
def saveSentinel : OpenFile × LoopEnd → OpenFile × CallEnd
  | (o, .done) => (o.kernelWrite calls (leBytes 4 znsZoneSentinel), .returns 0)
  | (o, .failed _) => (o, .returns 0)
  | (o, .running) => (o, .running)
  | (o, .undefined) => (o, .undefined)

/-- **`save_zns_device`** on the result of `filp_open`. -/
def saveZnsDevice : Except ℤ Unit → OpenFile × CallEnd
  | .error e => ({ bytes := [] }, .returns e)
  | .ok () =>
    saveSentinel calls (d.saveZones calls fuel (List.range d.zoneRounds) (d.saveSections calls))

end ZnsDevice

/-! ### Loading -/

/-- `EINVAL`. -/
def einval : ℤ := 22

/-- The device and the file while a snapshot is loaded. -/
structure ZnsLoad where
  dev : ZnsDevice
  file : OpenFile

namespace ZnsLoad

variable (calls : FileCalls) (fuel : ℕ) (s : ZnsLoad)

/-- `memset_io` of the storage. -/
def clearStorage : ZnsLoad :=
  { s with dev.storage := fun a => if a < s.dev.storageSize then 0 else s.dev.storage a }

/-- The read of `zone_descs`. -/
def loadZoneDescs : ZnsLoad :=
  let (file, got, _) := s.file.kernelRead calls (zoneDescriptorSize * s.dev.zp.nrZones)
  { s with file := file, dev.zoneDescs := overlay s.dev.zoneDescs got }

/-- The read of `res_infos`. -/
def loadResInfos : ZnsLoad :=
  let (file, got, _) := s.file.kernelRead calls resInfosSize
  { s with file := file, dev.resInfos := overlay s.dev.resInfos got }

/-- One round of a loop that loads what remains of the buffers. -/
def readRemaining (s : OpenFile × (ℕ → ℕ)) (i : ℕ) : OpenFile × (ℕ → ℕ) :=
  let (file, got, _) := s.1.kernelRead calls 8
  (file, Function.update s.2 i (leNat (overlay (leBytes 8 0) got)))

/-- What remains of the buffers of the random write areas. -/
def loadZwra : ZnsLoad :=
  let r := (List.range s.dev.zoneRounds).foldl (readRemaining calls) (s.file, s.dev.zwraRemaining)
  { s with file := r.1, dev.zwraRemaining := r.2 }

/-- What remains of the write buffers of the zones. -/
def loadZoneWb : ZnsLoad :=
  let r := (List.range s.dev.zoneRounds).foldl (readRemaining calls) (s.file, s.dev.zoneWbRemaining)
  { s with file := r.1, dev.zoneWbRemaining := r.2 }

/-- The loop over the chunks. -/
def loadChunks : ℕ → ZnsLoad → ZnsLoad × LoopEnd
  | 0, s => (s, .running)
  | rounds + 1, s =>
    let (file, got, ret) := s.file.kernelRead calls 4
    let s := { s with file := file }
    let zid := leNat (overlay (leBytes 4 0) got)
    if ret ≤ 0 ∨ zid = znsZoneSentinel then (s, .done)
    else if s.dev.zp.nrZones ≤ zid then (s, .failed (-einval))
    else
      let (file, got, _) := s.file.kernelRead calls 8
      let byteLen := leNat (overlay (leBytes 8 0) got)
      let (c, e) := copyLoop (fun cur => cur < asInt byteLen) true
        (copyIn calls zid (s.dev.storageAddr zid) byteLen) fuel 0
        { file := file, mem := s.dev.storage }
      let s : ZnsLoad := { dev := { s.dev with storage := c.mem }, file := c.file }
      match e with
      | .done => loadChunks rounds s
      | _ => (s, e)

/-- `report_buffer` from the descriptors. -/
def fillReport : ZnsLoad :=
  let zd := s.dev.zoneDescs.take (zoneDescriptorSize * s.dev.zp.nrZones)
  { s with dev.reportBuffer :=
      writeBytes (writeBytes s.dev.reportBuffer 64 zd) 0 (leBytes 8 s.dev.zp.nrZones) }

/-- What follows the chunks. -/
def finish : ZnsLoad × LoopEnd → ZnsLoad × CallEnd
  | (s, .done) => (s.fillReport, .returns 0)
  | (s, .failed ret) => (s, .returns ret)
  | (s, .running) => (s, .running)
  | (s, .undefined) => (s, .undefined)

/-- The storage is cleared and the sections every snapshot has are read. -/
def loadArrays : ZnsLoad := (s.clearStorage.loadZoneDescs calls).loadResInfos calls

/-- The section for the random write areas, if the header says that there is one. -/
def loadZwraIf (hdr : ZnsDumpHeader) : ZnsLoad :=
  if hdr.zrwaBufEn ≠ 0 then s.loadZwra calls else s

/-- The section for the write buffers of the zones, if the header says that there is one. -/
def loadZoneWbIf (hdr : ZnsDumpHeader) : ZnsLoad :=
  if hdr.zoneWbEn ≠ 0 then s.loadZoneWb calls else s

/-- The header says that there is a section for buffers the device does not have. -/
def Unbuffered (hdr : ZnsDumpHeader) : Prop :=
  0 < s.dev.zoneRounds ∧ (hdr.zrwaBufEn ≠ 0 ∧ s.dev.zp.zrwaBufferSize = 0 ∨
    hdr.zoneWbEn ≠ 0 ∧ s.dev.zp.zoneWbSize = 0)

instance (hdr : ZnsDumpHeader) : Decidable (s.Unbuffered hdr) :=
  inferInstanceAs (Decidable (_ ∧ _))

/-- What follows the header: the sections, the chunks and the report.  A section for buffers that
were never allocated is read through a null pointer. -/
def loadSections (hdr : ZnsDumpHeader) : ZnsLoad × CallEnd :=
  let s := s.loadArrays calls
  if s.Unbuffered hdr then (s, .undefined)
  else finish (loadChunks calls fuel fuel ((s.loadZwraIf calls hdr).loadZoneWbIf calls hdr))

end ZnsLoad

namespace ZnsDevice

variable (calls : FileCalls) (fuel : ℕ) (d : ZnsDevice)

/-- The checks of the header. -/
def HeaderPasses (hdr : ZnsDumpHeader) : Prop :=
  hdr.magic = znsDumpMagic ∧ hdr.nrZones = d.zp.nrZones ∧ hdr.zoneSize = d.zp.zoneSize

instance (hdr : ZnsDumpHeader) : Decidable (d.HeaderPasses hdr) :=
  inferInstanceAs (Decidable (_ ∧ _))

/-- The file is open and the header is read; `stack` is what `hdr` holds before. -/
def loadHeader (stack bytes : List UInt8) : ZnsDumpHeader × ZnsLoad :=
  let (o, got, _) := ({ bytes := bytes } : OpenFile).kernelRead calls znsDumpHeaderSize
  (ZnsDumpHeader.ofBytes (overlay stack got), { dev := d, file := o })

/-- **`load_zns_device`** on the result of `filp_open`. -/
def loadZnsDevice (stack : List UInt8) : Except ℤ (List UInt8) → ZnsLoad × CallEnd
  | .error e => ({ dev := d, file := { bytes := [] } }, .returns e)
  | .ok bytes =>
    let (hdr, s) := d.loadHeader calls stack bytes
    if d.HeaderPasses hdr then s.loadSections calls fuel hdr else (s, .returns (-einval))

end ZnsDevice

end NvmeVirt
