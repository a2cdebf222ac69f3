/-
# The state of a zoned namespace

`struct znsparams`, `struct zns_ftl` and the accessors of `zns_ftl.h`, the zone
descriptors and status codes of `nvme_zns.h`, `zns_init_params`,
`__init_descriptor`, `__init_resource` and `zns_init_namespace` of `zns_ftl.c`.

The times NAND and PCIe transfers take come from the timing model of the SSD,
which is a parameter here: its state is `τ`.  Of `struct zone_descriptor` the
attributes no function sets are left out.
-/

import NvmeVirt.ConvFtl.Write
import NvmeVirt.Io.Perform

namespace NvmeVirt

open Outcome

/-- `n - 1` in a `uint32_t`. -/
def u32Pred (n : ℕ) : ℕ := u32 (n + 2 ^ 32 - 1)

/-- `struct znsparams`. -/
structure Znsparams where
  nrZones : ℕ
  nrActiveZones : ℕ
  nrOpenZones : ℕ
  diesPerZone : ℕ
  zoneSize : ℕ
  zoneWbSize : ℕ
  nrZrwaZones : ℕ
  zrwafgSize : ℕ
  zrwaSize : ℕ
  zrwaBufferSize : ℕ
  lbasPerZrwafg : ℕ
  lbasPerZrwa : ℕ
  deriving DecidableEq, Repr

/-- `struct zns_configs`. -/
structure ZnsConfigs where
  zoneSize : ℕ
  diesPerZone : ℕ
  zoneWbSize : ℕ
  maxZrwaZones : ℕ
  zrwafgSize : ℕ
  zrwaSize : ℕ
  zrwaBufferSize : ℕ
  deriving DecidableEq, Repr

/-- The status codes of the zoned command set and the generic ones used with it. -/
inductive NvmeStatus
  | success | invalidField
  | znsInvalidZoneOperation | znsZrwaRsrcUnavail | znsErrBoundary | znsErrFull | znsErrReadOnly
  | znsErrOffline | znsInvalidWrite | znsNoActiveZone | znsNoOpenZone | znsInvalidTransition
  deriving DecidableEq, Repr

/-- `NVME_SC_ZNS_INVALID_ZONE_OPERATION`, the first of the zoned codes. -/
def nvmeScZnsBase : ℕ := 1 <<< 8 ||| 0xB6

/-- The number of a status code. -/
def NvmeStatus.code : NvmeStatus → ℕ
  | .success => 0
  | .invalidField => 2
  | .znsInvalidZoneOperation => nvmeScZnsBase
  | .znsZrwaRsrcUnavail => nvmeScZnsBase + 1
  | .znsErrBoundary => nvmeScZnsBase + 2
  | .znsErrFull => nvmeScZnsBase + 3
  | .znsErrReadOnly => nvmeScZnsBase + 4
  | .znsErrOffline => nvmeScZnsBase + 5
  | .znsInvalidWrite => nvmeScZnsBase + 6
  | .znsNoActiveZone => nvmeScZnsBase + 7
  | .znsNoOpenZone => nvmeScZnsBase + 8
  | .znsInvalidTransition => nvmeScZnsBase + 9

/-- Only success has the number 0. -/
theorem NvmeStatus.code_eq_zero {s : NvmeStatus} : s.code = 0 ↔ s = .success := by
  cases s <;> decide

/-- `enum zone_state`. -/
inductive ZoneState
  | empty | openedImpl | openedExpl | closed | readOnly | full | offline
  deriving DecidableEq, Repr

/-- `enum zone_resource_type`. -/
inductive ZoneResourceType
  | active | open | zrwa
  deriving DecidableEq, Repr

/-- `struct zone_resource_info`. -/
structure ZoneResourceInfo where
  acquiredCnt : ℕ
  totalCnt : ℕ
  deriving DecidableEq, Repr

/-- `struct zone_descriptor`; `type` is `ZONE_TYPE_SEQ_WRITE_REQUIRED` where it is set. -/
structure ZoneDescriptor where
  type : ℕ
  state : ZoneState
  zrwav : Bool
  zoneCapacity : ℕ
  zslba : ℕ
  wp : ℕ
  deriving DecidableEq, Repr

/-- `ZONE_TYPE_SEQ_WRITE_REQUIRED`. -/
def zoneTypeSeqWriteRequired : ℕ := 2

/-- The timing model of the SSD: `ssd_advance_write_buffer`, `ssd_advance_nand`,
`ssd_advance_pcie`, `ssd_next_idle_time`, `__get_ioclock`, `next_lun_avail_time`, and the firmware
latencies of a read. -/
structure SsdClock (τ : Type) where
  fw4kbRdLat : ℕ
  fwRdLat : ℕ
  advanceWriteBuffer : τ → ℕ → ℕ → τ × ℕ
  advanceNand : τ → NandCmd → τ × ℕ
  advancePcie : τ → ℕ → ℕ → τ × ℕ
  nextIdleTime : τ → τ × ℕ
  ioclock : τ → τ × ℕ
  nextLunAvailTime : τ → Ppa → ℕ
  setNextLunAvailTime : τ → Ppa → ℕ → τ

/-- `struct zns_ftl` with its `struct ssd`: `writeBuffer` is `ssd->write_buffer`, `clock` the state
of the timing model, `storage` what `storage_base_addr` points to and `reportBuffer` what
`report_buffer` points to. -/
structure ZnsFtl (τ : Type) where
  sp : Ssdparams
  zp : Znsparams
  resInfos : ZoneResourceType → ZoneResourceInfo
  zoneDescs : ℕ → ZoneDescriptor
  zoneWriteBuffer : ℕ → Buffer
  zwraBuffer : ℕ → Buffer
  writeBuffer : Buffer
  clock : τ
  storage : Mem
  reportBuffer : Mem

/-- The write buffers of a zoned namespace. -/
inductive ZnsBuffer
  | ssd
  | zone (zid : ℕ)
  | zrwa (zid : ℕ)
  deriving DecidableEq, Repr

/-- A buffer as the number an internal operation carries. -/
def ZnsBuffer.toNat : ZnsBuffer → ℕ
  | .ssd => 0
  | .zone zid => 2 * zid + 1
  | .zrwa zid => 2 * zid + 2

/-- The buffer of a number. -/
def ZnsBuffer.ofNat (n : ℕ) : ZnsBuffer :=
  if n = 0 then .ssd else if n % 2 = 1 then .zone (n / 2) else .zrwa (n / 2 - 1)

@[simp] theorem ZnsBuffer.ofNat_toNat (b : ZnsBuffer) : ofNat b.toNat = b := by
  cases b with
  | ssd => rfl
  | zone zid =>
    show ofNat (2 * zid + 1) = .zone zid
    unfold ofNat
    rw [if_neg (by omega), if_pos (by omega)]
    congr 1
    omega
  | zrwa zid =>
    show ofNat (2 * zid + 2) = .zrwa zid
    unfold ofNat
    rw [if_neg (by omega), if_neg (by omega)]
    congr 1
    omega

/-! ### Zones, pages and dies -/

namespace Znsparams

variable (zpp : Znsparams) (spp : Ssdparams)

/-- `lpn_to_zone`; the zone is a `uint32_t`. -/
def lpnToZone (lpn : ℕ) : ℕ := u32 (lpn / (zpp.zoneSize / spp.pgsz))

/-- `zone_to_slpn`; the product is computed in 32 bits. -/
def zoneToSlpn (zid : ℕ) : ℕ := u32 (zid * (zpp.zoneSize / spp.pgsz))

/-- `lba_to_zone`; the zone is a `uint32_t`. -/
def lbaToZone (lba : ℕ) : ℕ := u32 (lba / (zpp.zoneSize / spp.secsz))

/-- `zone_to_slba`; the product is computed in 32 bits. -/
def zoneToSlba (zid : ℕ) : ℕ := u32 (zid * (zpp.zoneSize / spp.secsz))

/-- `zone_to_elba`. -/
def zoneToElba (zid : ℕ) : ℕ := u64 (zpp.zoneToSlba spp (u32 (zid + 1)) + 2 ^ 64 - 1)

/-- `zone_to_elpn`. -/
def zoneToElpn (zid : ℕ) : ℕ := zpp.zoneToElba spp zid / spp.secsPerPg

/-- `die_to_channel`. -/
def dieToChannel (die : ℕ) : ℕ := die % spp.nchs

/-- `die_to_lun`. -/
def dieToLun (die : ℕ) : ℕ := die / spp.nchs

/-- `lba_to_lpn`. -/
def lbaToLpn (lba : ℕ) : ℕ := lba / spp.secsPerPg

/-- `__lpn_to_ppa`. -/
def lpnToPpa (lpn : ℕ) : Except Fault Ppa := do
  defined (0 < spp.ttLuns ∧ 0 < zpp.diesPerZone ∧ 0 < spp.nchs ∧ 0 < spp.pgsPerOneshotpg)
  let zone := zpp.lpnToZone spp lpn
  let off := u64 (lpn + 2 ^ 64 - zpp.zoneToSlpn spp zone)
  let sdie := u32 (u64 (zone * zpp.diesPerZone) % spp.ttLuns)
  let die := u32 (sdie + off / spp.pgsPerOneshotpg % zpp.diesPerZone)
  .ok (Ppa.ofFields (dieToChannel spp die) (dieToLun spp die) 0 0 (off % spp.pgsPerOneshotpg))

end Znsparams

/-! ### Resources and descriptors -/

namespace ZnsFtl

variable {τ : Type} (f : ZnsFtl τ)

/-- `is_zone_resource_avail`. -/
def isZoneResourceAvail (type : ZoneResourceType) : Prop :=
  (f.resInfos type).acquiredCnt < (f.resInfos type).totalCnt

instance (type : ZoneResourceType) : Decidable (f.isZoneResourceAvail type) :=
  inferInstanceAs (Decidable (_ < _))

/-- `is_zone_resource_full`. -/
def isZoneResourceFull (type : ZoneResourceType) : Prop :=
  (f.resInfos type).acquiredCnt = (f.resInfos type).totalCnt

instance (type : ZoneResourceType) : Decidable (f.isZoneResourceFull type) :=
  inferInstanceAs (Decidable (_ = _))

/-- An assignment to `acquired_cnt`. -/
def setAcquiredCnt (type : ZoneResourceType) (cnt : ℕ) : ZnsFtl τ :=
  { f with
    resInfos := Function.update f.resInfos type ({ f.resInfos type with acquiredCnt := cnt }) }

/-- `acquire_zone_resource`. -/
def acquireZoneResource (type : ZoneResourceType) : ZnsFtl τ × Bool :=
  if f.isZoneResourceAvail type then
    (f.setAcquiredCnt type (u32 ((f.resInfos type).acquiredCnt + 1)), true)
  else (f, false)

/-- `release_zone_resource`; `ASSERT` is compiled to nothing. -/
def releaseZoneResource (type : ZoneResourceType) : ZnsFtl τ :=
  f.setAcquiredCnt type (u32Pred (f.resInfos type).acquiredCnt)

/-- An assignment to a zone descriptor. -/
def setZone (zid : ℕ) (g : ZoneDescriptor → ZoneDescriptor) : ZnsFtl τ :=
  { f with zoneDescs := Function.update f.zoneDescs zid (g (f.zoneDescs zid)) }

/-- `change_zone_state`. -/
def changeZoneState (zid : ℕ) (state : ZoneState) : ZnsFtl τ :=
  f.setZone zid fun d => { d with state := state }

/-- A write buffer. -/
def buffer : ZnsBuffer → Buffer
  | .ssd => f.writeBuffer
  | .zone zid => f.zoneWriteBuffer zid
  | .zrwa zid => f.zwraBuffer zid

/-- An assignment to a write buffer. -/
def setBuffer (b : ZnsBuffer) (buf : Buffer) : ZnsFtl τ :=
  match b with
  | .ssd => { f with writeBuffer := buf }
  | .zone zid => { f with zoneWriteBuffer := Function.update f.zoneWriteBuffer zid buf }
  | .zrwa zid => { f with zwraBuffer := Function.update f.zwraBuffer zid buf }

/-- `zone_descs[zid]` is an access to the array only below `nr_zones`. -/
def zoneExists (zid : ℕ) : Except Fault Unit :=
  if zid < f.zp.nrZones then .ok () else .error .zoneIndex

variable {f} in
/-- Behind the access the zone exists. -/
theorem ends_zoneExists {zid : ℕ} :
    Ends (f.zoneExists zid) (fun _ => zid < f.zp.nrZones) fun _ => True := by
  unfold zoneExists
  split_ifs with h
  · exact h
  · trivial

variable {f} in
theorem zoneExists_bind {α : Type} {zid : ℕ} (h : zid < f.zp.nrZones) (k : Unit → Except Fault α) :
    (f.zoneExists zid >>= k) = k () := by
  unfold zoneExists
  rw [if_pos h]
  rfl

variable {f} in
theorem zoneExists_bind_of_le {α : Type} {zid : ℕ} (h : f.zp.nrZones ≤ zid)
    (k : Unit → Except Fault α) : (f.zoneExists zid >>= k) = .error .zoneIndex := by
  unfold zoneExists
  rw [if_neg (not_lt.2 h)]
  rfl

end ZnsFtl

/-! ### Initialization -/

/-- `zns_init_params`: the initializer reads the structure it assigns. -/
def znsInitParams (zpp : Znsparams) (spp : Ssdparams) (capacity : ℕ) (cfg : ZnsConfigs) :
    Except Fault Znsparams := do
  defined (0 < cfg.zoneSize ∧ 0 < spp.secsz)
  let zpp : Znsparams := {
    zoneSize := u32 cfg.zoneSize
    nrZones := u32 (capacity / cfg.zoneSize)
    diesPerZone := cfg.diesPerZone
    nrActiveZones := zpp.nrZones
    nrOpenZones := zpp.nrZones
    nrZrwaZones := cfg.maxZrwaZones
    zoneWbSize := cfg.zoneWbSize
    zrwaSize := cfg.zrwaSize
    zrwafgSize := cfg.zrwafgSize
    zrwaBufferSize := cfg.zrwaBufferSize
    lbasPerZrwa := zpp.zrwaSize / spp.secsz
    lbasPerZrwafg := zpp.zrwafgSize / spp.secsz }
  defined (0 < zpp.zoneSize ∧ 0 < spp.pgsz)
  nvmevAssert .znsInitParams (capacity % zpp.zoneSize = 0)
  nvmevAssert .znsInitParams (zpp.zoneSize % spp.pgsz = 0)
  .ok zpp

/-- `BYTE_TO_LBA`. -/
def byteToLba (byte : ℕ) : ℕ := byte >>> 9

/-- The descriptor `__init_descriptor` writes for zone `i`. -/
def initDescriptor (zpp : Znsparams) (i : ℕ) : ZoneDescriptor where
  type := zoneTypeSeqWriteRequired
  state := .empty
  zrwav := false
  zoneCapacity := byteToLba zpp.zoneSize
  zslba := i * byteToLba zpp.zoneSize
  wp := i * byteToLba zpp.zoneSize

/-- The entries `__init_resource` writes, the same for all types. -/
def initResource (zpp : Znsparams) : ZoneResourceInfo where
  acquiredCnt := 0
  totalCnt := zpp.nrZones

/-- `zns_init_ftl` on an initialized SSD; the report buffer is not cleared. -/
def znsInitFtl {τ : Type} (zpp : Znsparams) (spp : Ssdparams) (clock : τ)
    (storage reportBuffer : Mem) : ZnsFtl τ where
  sp := spp
  zp := zpp
  resInfos := fun _ => initResource zpp
  zoneDescs := initDescriptor zpp
  zoneWriteBuffer := fun _ => bufferInit zpp.zoneWbSize
  zwraBuffer := fun _ => bufferInit zpp.zrwaBufferSize
  writeBuffer := bufferInit spp.writeBufferSize
  clock := clock
  storage := storage
  reportBuffer := reportBuffer

/-- `zns_init_namespace`; `zpp` is the local variable before it is assigned. -/
def znsInitNamespace {τ : Type} (size : ℕ) (cfg : FtlConfigs) (zcfg : ZnsConfigs) (zpp : Znsparams)
    (clock : τ) (storage reportBuffer : Mem) : Except Fault (ZnsFtl τ) := do
  let spp ← ssdInitParams size 1 cfg
  let zpp ← znsInitParams zpp spp size zcfg
  .ok (znsInitFtl zpp spp clock storage reportBuffer)

end NvmeVirt
