/-
# Zone management

`zns_mgmt_send.c`: closing, finishing, opening and resetting zones, taking them
offline, and the explicit flush of a random write area.  A command names one
zone or, with `select_all`, goes through all of them.
-/

import NvmeVirt.Zns.ReadWrite

namespace NvmeVirt

open Outcome

/-- `enum zone_send_action`, the actions `__zmgmt_send` knows. -/
inductive ZoneSendAction
  | closeZone | finishZone | openZone | resetZone | offlineZone | flushExplZrwa
  deriving DecidableEq, Repr

/-- The action of a number. -/
def ZoneSendAction.ofZsa : ℕ → Option ZoneSendAction
  | 1 => some .closeZone
  | 2 => some .finishZone
  | 3 => some .openZone
  | 4 => some .resetZone
  | 5 => some .offlineZone
  | 0x11 => some .flushExplZrwa
  | _ => none

/-- `zsa` of `struct nvme_zone_mgmt_send`. -/
def NvmeRwCommand.zsa (cmd : NvmeRwCommand) : ℕ := cmd.dsmgmt % 2 ^ 8

/-- `select_all` of `struct nvme_zone_mgmt_send`. -/
def NvmeRwCommand.selectAll (cmd : NvmeRwCommand) : Bool := cmd.dsmgmt / 2 ^ 8 % 2 = 1

/-- `zsaso` of `struct nvme_zone_mgmt_send`. -/
def NvmeRwCommand.zsaso (cmd : NvmeRwCommand) : Bool := cmd.dsmgmt / 2 ^ 9 % 2 = 1

/-- `RESET_LATENCY`. -/
def resetLatency : ℕ := 2000000

namespace ZnsFtl

variable {τ : Type} (clk : SsdClock τ) (f : ZnsFtl τ)

/-- `__zmgmt_send_close_zone`. -/
def zmgmtSendCloseZone (zid : ℕ) : ZnsFtl τ × NvmeStatus :=
  match (f.zoneDescs zid).state with
  | .openedImpl | .openedExpl =>
    ((f.changeZoneState zid .closed).releaseZoneResource .open, .success)
  | .closed => (f, .success)
  | _ => (f, .znsInvalidTransition)

/-- The case `ZONE_STATE_CLOSED` of the switches on an active zone: what it holds but its open
resource is released. -/
def releaseClosed (zid : ℕ) : ZnsFtl τ :=
  let f' := f.releaseZoneResource .active
  if (f.zoneDescs zid).zrwav then f'.releaseZoneResource .zrwa else f'

/-- The cases of these switches: a zone that is not active holds nothing. -/
def releaseActive (zid : ℕ) : ZnsFtl τ :=
  match (f.zoneDescs zid).state with
  | .openedImpl | .openedExpl => (f.releaseZoneResource .open).releaseClosed zid
  | .closed => f.releaseClosed zid
  | _ => f

/-- `__zmgmt_send_finish_zone`. -/
def zmgmtSendFinishZone (zid : ℕ) : ZnsFtl τ × NvmeStatus :=
  match (f.zoneDescs zid).state with
  | .openedImpl | .openedExpl | .closed => ((f.releaseActive zid).changeZoneState zid .full, .success)
  | .empty => (f.changeZoneState zid .full, .success)
  | .full => (f, .success)
  | .readOnly | .offline => (f, .znsInvalidTransition)

/-- The case `ZONE_STATE_CLOSED` of `__zmgmt_send_open_zone`, with the case behind it. -/
def openClosedExpl (zid : ℕ) : ZnsFtl τ × NvmeStatus :=
  match f.acquireZoneResource .open with
  | (f, false) => (f, .znsNoOpenZone)
  | (f, true) => (f.changeZoneState zid .openedExpl, .success)

/-- The random write area of a zone that is opened with one. -/
def takeZrwa (zid : ℕ) : ZnsFtl τ :=
  (f.acquireZoneResource .zrwa).1.setZone zid fun d => { d with zrwav := true }

/-- `__zmgmt_send_open_zone`. -/
def zmgmtSendOpenZone (zid : ℕ) (zrwa : Bool) : ZnsFtl τ × NvmeStatus :=
  match (f.zoneDescs zid).state with
  | .empty =>
    if f.isZoneResourceFull .active then (f, .znsNoActiveZone)
    else if f.isZoneResourceFull .open then (f, .znsNoOpenZone)
    else if zrwa ∧ f.isZoneResourceFull .zrwa then (f, .znsZrwaRsrcUnavail)
    else
      let f := if zrwa then f.takeZrwa zid else f
      (f.acquireZoneResource .active).1.openClosedExpl zid
  | .closed => f.openClosedExpl zid
  | .openedImpl => (f.changeZoneState zid .openedExpl, .success)
  | .openedExpl => (f, .success)
  | _ => (f, .znsInvalidTransition)

/-- `memset` of the storage of a zone. -/
def clearZone (zid : ℕ) : ZnsFtl τ :=
  let start := u64 (zid * f.zp.zoneSize)
  { f with storage := fun a => if start ≤ a ∧ a < start + f.zp.zoneSize then 0 else f.storage a }

/-- `buffer_refill` of the buffer of a random write area, if there are any. -/
def refillZwra (zid : ℕ) : ZnsFtl τ :=
  if f.zp.zrwaBufferSize ≠ 0 then
    f.setBuffer (.zrwa zid) { f.zwraBuffer zid with remaining := (f.zwraBuffer zid).size }
  else f

/-- `__reset_zone`. -/
def resetZone (zid : ℕ) : ZnsFtl τ :=
  let f := (f.clearZone zid).setZone zid fun d => { d with wp := d.zslba, zrwav := false }
  f.refillZwra zid

/-- `__zmgmt_send_reset_zone`. -/
def zmgmtSendResetZone (zid : ℕ) : ZnsFtl τ × NvmeStatus :=
  match (f.zoneDescs zid).state with
  | .openedImpl | .openedExpl | .closed | .full | .empty =>
    (((f.releaseActive zid).changeZoneState zid .empty).resetZone zid, .success)
  | .readOnly | .offline => (f, .znsInvalidTransition)

/-- `__zmgmt_send_offline_zone`. -/
def zmgmtSendOfflineZone (zid : ℕ) : ZnsFtl τ × NvmeStatus :=
  match (f.zoneDescs zid).state with
  | .readOnly => (f.changeZoneState zid .offline, .success)
  | .offline => (f, .success)
  | _ => (f, .znsInvalidTransition)

/-- `zrwa_end` of `__zmgmt_send_flush_explicit_zrwa`. -/
def zrwaEnd (zid : ℕ) : ℕ :=
  let d := f.zoneDescs zid
  min (u64 (d.wp + f.zp.lbasPerZrwa + 2 ^ 64 - 1))
    (u64 (f.zp.zoneToSlba f.sp zid + d.zoneCapacity + 2 ^ 64 - 1))

/-- The end of an explicit flush up to `slba`: a zone written to its end becomes full. -/
def flushTo (zid slba : ℕ) : ZnsFtl τ :=
  let wp := u64 (slba + 1)
  let f' := f.setZone zid fun d => { d with wp := wp }
  if wp = u64 (f.zp.zoneToSlba f.sp zid + (f.zoneDescs zid).zoneCapacity) then
    let f' := if (f.zoneDescs zid).state ≠ .closed then f'.releaseZoneResource .open else f'
    ((f'.releaseZoneResource .active).releaseZoneResource .zrwa).changeZoneState zid .full
  else f'

/-- `__zmgmt_send_flush_explicit_zrwa`. -/
def zmgmtSendFlushExplicitZrwa (slba : ℕ) : Except Fault (ZnsFtl τ × NvmeStatus) :=
  let zid := f.zp.lbaToZone f.sp slba
  let d := f.zoneDescs zid
  if d.zrwav = false then .ok (f, .znsInvalidZoneOperation)
  else if ¬ (d.wp ≤ slba ∧ slba ≤ f.zrwaEnd zid) then .ok (f, .znsInvalidZoneOperation)
  else do
    defined (0 < f.zp.lbasPerZrwafg)
    if u64 (slba + 2 ^ 64 - d.wp + 1) % f.zp.lbasPerZrwafg ≠ 0 then .ok (f, .invalidField)
    else
      match d.state with
      | .openedExpl | .openedImpl | .closed => .ok (f.flushTo zid slba, .success)
      | _ => .ok (f, .znsInvalidZoneOperation)

/-- The locals of the loop that spreads the latency of a reset over the dies. -/
structure ResetCursor (τ : Type) where
  clock : τ
  cmdStime : ℕ
  maxlat : ℕ

/-- The latency of a reset on the die of a page. -/
def resetDie (ppa : Ppa) (c : ResetCursor τ) : ResetCursor τ :=
  -- `max_cstime_vs_ioclock`
  let (clock, cmdStime) := if c.cmdStime = 0 then clk.ioclock c.clock else (c.clock, c.cmdStime)
  let avail := u64 (max (clk.nextLunAvailTime clock ppa) cmdStime + resetLatency)
  { clock := clk.setNextLunAvailTime clock ppa avail
    cmdStime := cmdStime
    maxlat := max (u64 (avail + 2 ^ 64 - cmdStime)) c.maxlat }

/-- The loop over the pages `lpn` to `elpn`; a round takes a page at least. -/
def resetDies (elpn zoneElpn : ℕ) : ℕ → ℕ → ResetCursor τ → Except Fault (ResetCursor τ)
  | 0, _, c => .ok c
  | fuel + 1, lpn, c =>
    if elpn < lpn then .ok c
    else do
      let ppa ← f.zp.lpnToPpa f.sp lpn
      let pgOff := ppa.pg % f.sp.pgsPerOneshotpg
      let pgs := min (elpn - lpn + 1) (f.sp.pgsPerOneshotpg - pgOff)
      let c :=
        if pgOff + pgs = f.sp.pgsPerOneshotpg ∨ lpn + pgs - 1 = zoneElpn then resetDie clk ppa c
        else c
      resetDies elpn zoneElpn fuel (lpn + pgs) c

/-- The case `ZSA_RESET_ZONE` of `__zmgmt_send` behind the reset: the latency, which is added to
`nsecs_target`. -/
def resetTimes (slba nrLba zid nsecsStart nsecsTarget : ℕ) : Except Fault (ZnsFtl τ × ℕ) := do
  let slpn := Znsparams.lbaToLpn f.sp slba
  let elpn := Znsparams.lbaToLpn f.sp (u64 (slba + nrLba - 1))
  let c ← f.resetDies clk elpn (f.zp.zoneToElpn f.sp zid) (elpn + 1 - slpn) slpn
    { clock := f.clock, cmdStime := nsecsStart, maxlat := 0 }
  .ok ({ f with clock := c.clock }, u64 (nsecsTarget + c.maxlat))

/-- The action itself in `__zmgmt_send`. -/
def zmgmtAction (slba : ℕ) (action : ZoneSendAction) (option : Bool) :
    Except Fault (ZnsFtl τ × NvmeStatus) :=
  let zid := f.zp.lbaToZone f.sp slba
  match action with
  | .closeZone => .ok (f.zmgmtSendCloseZone zid)
  | .finishZone => .ok (f.zmgmtSendFinishZone zid)
  | .openZone => .ok (f.zmgmtSendOpenZone zid option)
  | .resetZone => .ok (f.zmgmtSendResetZone zid)
  | .offlineZone => .ok (f.zmgmtSendOfflineZone zid)
  | .flushExplZrwa => f.zmgmtSendFlushExplicitZrwa slba

/-- `__zmgmt_send`, with `nsecs_target` before and behind it. -/
def zmgmtSendZone (slba : ℕ) (action : ZoneSendAction) (option : Bool) (req : NvmevRequest)
    (nsecsTarget : ℕ) : Except Fault (ZnsFtl τ × NvmeStatus × ℕ) := do
  let zid := f.zp.lbaToZone f.sp slba
  f.zoneExists zid
  let (f, status) ← f.zmgmtAction slba action option
  if action = .resetZone then do
    let (f, nsecsTarget) ← f.resetTimes clk slba req.cmd.nrLbas zid req.nsecsStart nsecsTarget
    .ok (f, status, nsecsTarget)
  else .ok (f, status, nsecsTarget)

/-- `zns_zmgmt_send` for a known action; with `select_all` the statuses are dropped. -/
def zmgmtSend (action : ZoneSendAction) (req : NvmevRequest) :
    Except Fault (ZnsFtl τ × NvmeStatus × ℕ) :=
  if req.cmd.selectAll then do
    let (f, nsecsTarget) ← forRange f.zp.nrZones (fun zid (s : ZnsFtl τ × ℕ) => do
      let (f, _, nsecsTarget) ← s.1.zmgmtSendZone clk (s.1.zp.zoneToSlba s.1.sp zid) action
        req.cmd.zsaso req s.2
      .ok (f, nsecsTarget)) (f, req.nsecsStart)
    .ok (f, .success, nsecsTarget)
  else f.zmgmtSendZone clk req.cmd.slba action req.cmd.zsaso req req.nsecsStart

/-- `zns_zmgmt_send`; the status of an unknown action is a variable without a value. -/
def znsZmgmtSend (req : NvmevRequest) : Except Fault (IoOutcome (ZnsFtl τ)) :=
  match ZoneSendAction.ofZsa req.cmd.zsa with
  | none => .error .undefined
  | some action => do
    let (f, status, nsecsTarget) ← f.zmgmtSend clk action req
    .ok {
      ns := f, cmd := req.cmd, ops := []
      ret := some { status := status.code, nsecsTarget := nsecsTarget } }

end ZnsFtl

end NvmeVirt
