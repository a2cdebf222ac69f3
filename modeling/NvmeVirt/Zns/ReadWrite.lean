/-
# Reads and writes of a zoned namespace

`__zns_write`, `__zns_write_zrwa`, `zns_write` and `zns_read` of
`zns_read_write.c`.  A function that returns false is refused and tried again; a
function that returns true ends the command with a status.  The checks that
follow the reservation of buffer space in `__zns_write` are `checkWrite`, the switch
on the state of the zone in it `openForWrite`.
-/

import NvmeVirt.Zns.State
import NvmeVirt.Io.Device

namespace NvmeVirt

open Outcome

/-- `__nr_lbas_from_rw_cmd`. -/
def NvmeRwCommand.nrLbas (cmd : NvmeRwCommand) : ℕ := cmd.length + 1

/-- `cmd->control & NVME_RW_FUA`. -/
def NvmeRwCommand.fua (cmd : NvmeRwCommand) : Prop := cmd.control &&& 1 <<< 14 ≠ 0

instance (cmd : NvmeRwCommand) : Decidable cmd.fua := inferInstanceAs (Decidable (_ ≠ _))

/-- What the loops over the flash pages of a command change: the timing model, `nsecs_latest` and
the internal operations scheduled so far. -/
structure FlashCursor (τ : Type) where
  clock : τ
  nsecsLatest : ℕ
  ops : List InternalOp

namespace ZnsFtl

variable {τ : Type} (clk : SsdClock τ) (f : ZnsFtl τ)

/-- `__check_boundary_error`: false where the blocks lie in two zones. -/
def checkBoundaryError (slba nrLba : ℕ) : Prop :=
  f.zp.lbaToZone f.sp slba = f.zp.lbaToZone f.sp (u64 (slba + nrLba - 1))

instance (slba nrLba : ℕ) : Decidable (f.checkBoundaryError slba nrLba) :=
  inferInstanceAs (Decidable (_ = _))

/-- `__increase_write_ptr`; `ASSERT` is compiled to nothing. -/
def increaseWritePtr (zid nrLba : ℕ) : ZnsFtl τ :=
  let wp := u64 ((f.zoneDescs zid).wp + nrLba)
  let f := f.setZone zid fun d => { d with wp := wp }
  if wp = u64 (f.zp.zoneToSlba f.sp zid + (f.zoneDescs zid).zoneCapacity) then
    ((f.releaseZoneResource .open).releaseZoneResource .active).changeZoneState zid .full
  else f

/-- The size of the command is a multiple of `write_unit_size`. -/
def unitOk (nrLba : ℕ) : Prop := lbaToByte nrLba % f.sp.writeUnitSize = 0

instance (nrLba : ℕ) : Decidable (f.unitOk nrLba) := inferInstanceAs (Decidable (_ = _))

/-- The end of a command: its result, early where the writes do not have to reach the flash. -/
def writeResult (cmd : NvmeRwCommand) (status : NvmeStatus) (nsecsLatest nsecsXferCompleted : ℕ) :
    NvmevResult where
  status := status.code
  nsecsTarget :=
    if cmd.fua ∨ f.sp.writeEarlyCompletion = false then nsecsLatest else nsecsXferCompleted

/-! ### Writes and appends -/

/-- The case `ZONE_STATE_CLOSED` of the switch in `__zns_write`. -/
def openClosed (zid : ℕ) : ZnsFtl τ × NvmeStatus :=
  match f.acquireZoneResource .open with
  | (f, false) => (f, .znsNoOpenZone)
  | (f, true) => (f.changeZoneState zid .openedImpl, .success)

/-- The switch on the state of the zone in `__zns_write`: an empty zone goes through to the case of
a closed one, a full zone through to the status of an offline one. -/
def openForWrite (zid slba : ℕ) : ZnsFtl τ × NvmeStatus :=
  match (f.zoneDescs zid).state with
  | .empty =>
    if slba ≠ (f.zoneDescs zid).zslba then (f, .znsInvalidWrite)
    else if f.isZoneResourceFull .active then (f, .znsNoActiveZone)
    else if f.isZoneResourceFull .open then (f, .znsNoOpenZone)
    else (f.acquireZoneResource .active).1.openClosed zid
  | .closed => f.openClosed zid
  | .openedImpl | .openedExpl => (f, .success)
  | .full | .readOnly | .offline => (f, .znsErrOffline)

/-- The checks of `__zns_write`. -/
def checkWrite (zid slba nrLba : ℕ) : ZnsFtl τ × NvmeStatus :=
  if ¬ f.unitOk nrLba then (f, .znsInvalidWrite)
  else if ¬ f.checkBoundaryError slba nrLba then (f, .znsErrBoundary)
  else if slba ≠ (f.zoneDescs zid).wp then (f, .znsInvalidWrite)
  else f.openForWrite zid slba

/-- The write buffer of a zone. -/
def writeBufferOf (zid : ℕ) : ZnsBuffer := if f.zp.zoneWbSize ≠ 0 then .zone zid else .ssd

/-- A one-shot page is written at `stime` and `bytes` of the buffer are given back then. -/
def flush (ppa : Ppa) (stime : ℕ) (buf : ZnsBuffer) (bytes : ℕ) (c : FlashCursor τ) :
    FlashCursor τ :=
  let (clock, nsecsCompleted) := clk.advanceNand c.clock {
    cmd := .write, xferSize := f.sp.pgsPerOneshotpg * f.sp.pgsz, stime := stime
    interleavePciDma := false, ppa := ppa }
  { clock := clock
    nsecsLatest := max nsecsCompleted c.nsecsLatest
    ops := c.ops ++ [{
      nsecsTarget := nsecsCompleted, writeBuffer := buf.toNat, buffsToRelease := bytes }] }

/-- `bufs_to_release` of `__zns_write` for pages that end at `last`. -/
def bufsToRelease (zoneElpn last : ℕ) : ℕ :=
  let unalignedSpace := f.zp.zoneSize % (f.sp.pgsPerOneshotpg * f.sp.pgsz)
  if last = zoneElpn ∧ 0 < unalignedSpace then unalignedSpace
  else f.sp.pgsPerOneshotpg * f.sp.pgsz

/-- The loop of `__zns_write` over the pages `lpn` to `elpn`; a round takes a page at least. -/
def writePages (stime : ℕ) (buf : ZnsBuffer) (elpn zoneElpn : ℕ) :
    ℕ → ℕ → FlashCursor τ → Except Fault (FlashCursor τ)
  | 0, _, c => .ok c
  | fuel + 1, lpn, c =>
    if elpn < lpn then .ok c
    else do
      let ppa ← f.zp.lpnToPpa f.sp lpn
      let pgOff := ppa.pg % f.sp.pgsPerOneshotpg
      let pgs := min (elpn - lpn + 1) (f.sp.pgsPerOneshotpg - pgOff)
      let c :=
        if pgOff + pgs = f.sp.pgsPerOneshotpg ∨ lpn + pgs - 1 = zoneElpn then
          f.flush clk ppa stime buf (f.bufsToRelease zoneElpn (lpn + pgs - 1)) c
        else c
      writePages stime buf elpn zoneElpn fuel (lpn + pgs) c

/-- `__zns_write` behind the checks: the write pointer moves and the pages are written. -/
def writeAdmitted (cmd : NvmeRwCommand) (nsecsStart zid : ℕ) :
    Except Fault (IoOutcome (ZnsFtl τ)) := do
  let nrLba := cmd.nrLbas
  let slpn := Znsparams.lbaToLpn f.sp cmd.slba
  let elpn := Znsparams.lbaToLpn f.sp (u64 (cmd.slba + nrLba - 1))
  let f := f.increaseWritePtr zid nrLba
  let (clock, nsecsXferCompleted) := clk.advanceWriteBuffer f.clock nsecsStart (lbaToByte nrLba)
  let c ← f.writePages clk nsecsXferCompleted (f.writeBufferOf zid) elpn (f.zp.zoneToElpn f.sp zid)
    (elpn + 1 - slpn) slpn { clock := clock, nsecsLatest := nsecsXferCompleted, ops := [] }
  .ok {
    ns := { f with clock := c.clock }, cmd := cmd, ops := c.ops
    ret := some (f.writeResult cmd .success c.nsecsLatest nsecsXferCompleted) }

/-- `__zns_write`; the `slba` of an append becomes the write pointer of its zone. -/
def znsWriteSeq (req : NvmevRequest) : Except Fault (IoOutcome (ZnsFtl τ)) := do
  let zid := f.zp.lbaToZone f.sp req.cmd.slba
  f.zoneExists zid
  let cmd :=
    if req.cmd.opcode = .zoneAppend then { req.cmd with slba := (f.zoneDescs zid).wp } else req.cmd
  let buf := f.writeBufferOf zid
  let (b, allocated) := bufferAllocate (f.buffer buf) (lbaToByte cmd.nrLbas)
  let f := f.setBuffer buf b
  if allocated < lbaToByte cmd.nrLbas then
    .ok { ns := f, cmd := cmd, ops := [], ret := none }
  else do
    defined (0 < f.sp.writeUnitSize)
    match f.checkWrite zid cmd.slba cmd.nrLbas with
    | (f, .success) => f.writeAdmitted clk cmd req.nsecsStart zid
    | (f, status) => .ok {
        ns := f, cmd := cmd, ops := []
        ret := some (f.writeResult cmd status req.nsecsStart req.nsecsStart) }

/-! ### Writes into a random write area -/

/-- `zwra_buffer` is allocated only if `zrwa_buffer_size` is not zero. -/
def zwraExists : Except Fault Unit := defined (f.zp.zrwaBufferSize ≠ 0)

/-- The switch on the state of the zone in `__zns_write_zrwa`. -/
def openForZrwa (zid : ℕ) : Except Fault (ZnsFtl τ × NvmeStatus) :=
  match (f.zoneDescs zid).state with
  | .closed | .empty =>
    match f.acquireZoneResource .open with
    | (f, false) => .ok (f, .znsNoOpenZone)
    | (f, true) => do
      f.zwraExists
      let (b, allocated) := bufferAllocate (f.zwraBuffer zid) f.zp.zrwaSize
      nvmevAssert .znsWriteZrwa (allocated ≠ 0)
      .ok ((f.setBuffer (.zrwa zid) b).changeZoneState zid .openedImpl, .success)
  | .openedImpl | .openedExpl => .ok (f, .success)
  | .full => .ok (f, .znsErrFull)
  | .readOnly => .ok (f, .znsErrReadOnly)
  | .offline => .ok (f, .znsErrOffline)

/-- `zrwa_impl_start` for a zone with the write pointer `wp`. -/
def zrwaImplStart (wp : ℕ) : ℕ := u64 (wp + f.zp.lbasPerZrwa)

/-- `zrwa_impl_end` for a zone with the write pointer `wp`. -/
def zrwaImplEnd (wp : ℕ) : ℕ := u64 (wp + u32 (2 * f.zp.lbasPerZrwa) + 2 ^ 64 - 1)

/-- The checks of `__zns_write_zrwa`. -/
def checkZrwaWrite (zid slba nrLba : ℕ) : Except Fault (ZnsFtl τ × NvmeStatus) :=
  let wp := (f.zoneDescs zid).wp
  if ¬ f.unitOk nrLba then .ok (f, .znsInvalidWrite)
  else if ¬ f.checkBoundaryError slba nrLba then .ok (f, .znsErrBoundary)
  else if slba < wp ∨ f.zrwaImplEnd wp < u64 (slba + nrLba - 1) then .ok (f, .znsInvalidWrite)
  else f.openForZrwa zid

/-- `nr_lbas_flush` of a write up to `elba` into the window behind the write pointer `wp`. -/
def nrLbasFlush (zid wp elba : ℕ) : Except Fault ℕ :=
  if f.zrwaImplStart wp ≤ elba then do
    defined (0 < f.zp.lbasPerZrwafg)
    .ok (u64 (divRoundUp (elba - f.zrwaImplStart wp + 1) f.zp.lbasPerZrwafg * f.zp.lbasPerZrwafg))
  else if elba = f.zp.zoneToElba f.sp zid then .ok (u64 (elba + 2 ^ 64 - wp + 1))
  else .ok 0

/-- The loop of `__zns_write_zrwa` over `remaining` pages; a round takes a page at least. -/
def flushPages (stime zid : ℕ) : ℕ → ℕ → ℕ → FlashCursor τ → Except Fault (FlashCursor τ)
  | 0, _, _, c => .ok c
  | fuel + 1, lpn, remaining, c =>
    if remaining = 0 then .ok c
    else do
      let ppa ← f.zp.lpnToPpa f.sp lpn
      let pgOff := ppa.pg % f.sp.pgsPerOneshotpg
      let pgs := min remaining (f.sp.pgsPerOneshotpg - pgOff)
      let c :=
        if pgOff + pgs = f.sp.pgsPerOneshotpg then
          f.flush clk ppa stime (.zrwa zid) (f.sp.pgsPerOneshotpg * f.sp.pgsz) c
        else c
      flushPages stime zid fuel (lpn + pgs) (remaining - pgs) c

/-- The implicit flush: its blocks are charged to the buffer of the zone and the write pointer
moves; `none` where the buffer has no room. -/
def implicitFlush (zid nrLbas : ℕ) : Except Fault (Option (ZnsFtl τ)) :=
  if nrLbas = 0 then .ok (some f)
  else do
    f.zwraExists
    let (b, allocated) := bufferAllocate (f.zwraBuffer zid) (lbaToByte nrLbas)
    if u32 allocated = 0 then .ok none
    else .ok (some ((f.setBuffer (.zrwa zid) b).increaseWritePtr zid (u32 nrLbas)))

/-- `__zns_write_zrwa` behind the checks. -/
def writeZrwaAdmitted (cmd : NvmeRwCommand) (nsecsStart zid : ℕ) :
    Except Fault (IoOutcome (ZnsFtl τ)) := do
  let nrLba := cmd.nrLbas
  let prevWp := (f.zoneDescs zid).wp
  let nrLbasFlush ← f.nrLbasFlush zid prevWp (u64 (cmd.slba + nrLba - 1))
  match ← f.implicitFlush zid nrLbasFlush with
  | none => .ok { ns := f, cmd := cmd, ops := [], ret := none }
  | some f => do
    let (clock, nsecsXferCompleted) := clk.advanceWriteBuffer f.clock nsecsStart (lbaToByte nrLba)
    let remaining := nrLbasFlush / f.sp.secsPerPg
    let c ← f.flushPages clk nsecsXferCompleted zid remaining (Znsparams.lbaToLpn f.sp prevWp)
      remaining { clock := clock, nsecsLatest := nsecsXferCompleted, ops := [] }
    .ok {
      ns := { f with clock := c.clock }, cmd := cmd, ops := c.ops
      ret := some (f.writeResult cmd .success c.nsecsLatest nsecsXferCompleted) }

/-- `__zns_write_zrwa`. -/
def znsWriteZrwa (req : NvmevRequest) : Except Fault (IoOutcome (ZnsFtl τ)) := do
  let cmd := req.cmd
  let zid := f.zp.lbaToZone f.sp cmd.slba
  f.zoneExists zid
  defined (0 < f.sp.writeUnitSize)
  match ← f.checkZrwaWrite zid cmd.slba cmd.nrLbas with
  | (f, .success) => f.writeZrwaAdmitted clk cmd req.nsecsStart zid
  | (f, status) => .ok {
      ns := f, cmd := cmd, ops := []
      ret := some (f.writeResult cmd status req.nsecsStart req.nsecsStart) }

/-- `zns_write`; the zone is found by the page here and by the block in the two functions. -/
def znsWrite (req : NvmevRequest) : Except Fault (IoOutcome (ZnsFtl τ)) := do
  let zid := f.zp.lpnToZone f.sp (Znsparams.lbaToLpn f.sp req.cmd.slba)
  f.zoneExists zid
  if (f.zoneDescs zid).zrwav = false then f.znsWriteSeq clk req else f.znsWriteZrwa clk req

/-! ### Reads -/

/-- The loop of `zns_read` over the pages `lpn` to `elpn`; a round takes a page at least. -/
def readPages (stime elpn : ℕ) : ℕ → ℕ → FlashCursor τ → Except Fault (FlashCursor τ)
  | 0, _, c => .ok c
  | fuel + 1, lpn, c =>
    if elpn < lpn then .ok c
    else do
      defined (0 < f.sp.pgsPerFlashpg)
      let ppa ← f.zp.lpnToPpa f.sp lpn
      let pgOff := ppa.pg % f.sp.pgsPerFlashpg
      let pgs := min (elpn - lpn + 1) (f.sp.pgsPerFlashpg - pgOff)
      let (clock, nsecsCompleted) := clk.advanceNand c.clock {
        cmd := .read, xferSize := pgs * f.sp.pgsz, stime := stime, interleavePciDma := false
        ppa := ppa }
      readPages stime elpn fuel (lpn + pgs)
        { c with clock := clock, nsecsLatest := max nsecsCompleted c.nsecsLatest }

/-- `zns_read`. -/
def znsRead (req : NvmevRequest) : Except Fault (IoOutcome (ZnsFtl τ)) := do
  let cmd := req.cmd
  let nrLba := cmd.nrLbas
  let slpn := Znsparams.lbaToLpn f.sp cmd.slba
  let elpn := Znsparams.lbaToLpn f.sp (u64 (cmd.slba + nrLba - 1))
  let zid := f.zp.lpnToZone f.sp slpn
  f.zoneExists zid
  let status : NvmeStatus :=
    if (f.zoneDescs zid).state = .offline then .znsErrOffline
    else if ¬ f.checkBoundaryError cmd.slba nrLba then .znsErrBoundary
    else .success
  let stime := u64 (req.nsecsStart +
    if lbaToByte nrLba ≤ kb 4 then clk.fw4kbRdLat else clk.fwRdLat)
  let c ← f.readPages clk stime elpn (elpn + 1 - slpn) slpn
    { clock := f.clock, nsecsLatest := stime, ops := [] }
  let (clock, nsecsCompleted) := clk.advancePcie c.clock c.nsecsLatest (nrLba * f.sp.secsz)
  .ok {
    ns := { f with clock := clock }, cmd := cmd, ops := []
    ret := some { status := status.code, nsecsTarget := max nsecsCompleted c.nsecsLatest } }

end ZnsFtl

end NvmeVirt
