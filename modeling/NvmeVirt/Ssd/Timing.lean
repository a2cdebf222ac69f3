/-
# The timing of NAND commands

`ssd_advance_nand` of `ssd.c` with the channels and the PCIe link it transfers
over.  Every die has a time from which it is available, and a command moves it:
a read senses first and transfers then, a write transfers first and programs
then.  The readings of the clock are numbered; `clock` says what they are.

Two fields have no counterpart in the driver and nothing reads them: `overflow`
records that a sum of times has left 64 bits, `events` what the commands did.
-/

import NvmeVirt.Ssd.CreditDelay
import NvmeVirt.Ssd.Nand

namespace NvmeVirt

open Outcome

/-- `MAX_CELL_TYPES`: `CELL_TYPE_LSB`, `CELL_TYPE_MSB` and `CELL_TYPE_CSB`. -/
def maxCellTypes : ℕ := 3

/-- `CELL_MODE_MLC`. -/
def cellModeMlc : ℕ := 2

/-- `CELL_MODE_TLC`. -/
def cellModeTlc : ℕ := 3

/-- The latencies of `struct ssdparams`, and what selects them. -/
structure NandLatencies where
  nchs : ℕ
  lunsPerCh : ℕ
  pgsPerFlashpg : ℕ
  cellMode : ℕ
  pg4kbRdLat : Fin maxCellTypes → ℕ
  pgRdLat : Fin maxCellTypes → ℕ
  pgWrLat : ℕ
  blkErLat : ℕ
  maxChXferSize : ℕ

/-- `get_cell`. -/
def NandLatencies.getCell (p : NandLatencies) (ppa : Ppa) : ℕ :=
  ppa.pg / p.pgsPerFlashpg % (p.cellMode + 1)

/-- The latency of a cell, from an array of `MAX_CELL_TYPES`. -/
def cellLatency (lat : Fin maxCellTypes → ℕ) (cell : ℕ) : Except Fault ℕ :=
  if h : cell < maxCellTypes then .ok (lat ⟨cell, h⟩) else .error .undefined

/-- The time a read senses. -/
def NandLatencies.readLatency (p : NandLatencies) (cmd : NandCmd) : Except Fault ℕ :=
  let cell := p.getCell cmd.ppa
  if cmd.xferSize = 4096 then cellLatency p.pg4kbRdLat cell else cellLatency p.pgRdLat cell

/-- The NAND latency of a command. -/
def NandLatencies.nandLatency (p : NandLatencies) (cmd : NandCmd) : Except Fault ℕ :=
  match cmd.cmd with
  | .read => p.readLatency cmd
  | .write => .ok p.pgWrLat
  | .erase => .ok p.blkErLat
  | .nop => .ok 0

/-- `struct nand_lun`. -/
structure NandLun where
  nextLunAvailTime : ℕ
  firstIo : Bool
  deriving DecidableEq, Repr

/-- What a command did: the die, its start time, when its NAND phase began and how long that takes,
when the die is free again, and the time returned. -/
structure NandEvent where
  ch : ℕ
  lun : ℕ
  cmdStime : ℕ
  nandStime : ℕ
  latency : ℕ
  endTime : ℕ
  completedTime : ℕ
  deriving DecidableEq, Repr

/-- The part of `struct ssd` that `ssd_advance_nand` reads and writes. -/
structure SsdTimes where
  perfModel : ℕ → ChannelModel
  pcie : ChannelModel
  lun : ℕ → ℕ → NandLun
  checking : Bool
  chDieCounter : ℕ
  chDieLatency : ℕ
  clockReads : ℕ
  overflow : Bool
  events : List NandEvent

/-- A call of `chmodel_request` returns a sum that has left 64 bits. -/
def ChannelModel.Overflows (ch : ChannelModel) (curTime requestTime length : ℕ) : Prop :=
  let offs := requestTimeOffs curTime requestTime
  ¬ (requestTime < curTime ∨ nrCreditEntries ≤ offs) ∧
    2 ^ 64 ≤ requestTime + (ch.advance curTime).latency length offs

instance (ch : ChannelModel) (curTime requestTime length : ℕ) :
    Decidable (ch.Overflows curTime requestTime length) := inferInstanceAs (Decidable (_ ∧ _))

/-- A `uint64_t` stored in an `int64_t`. -/
def toInt64 (n : ℕ) : ℤ := if n < 2 ^ 63 then n else (n : ℤ) - 2 ^ 64

namespace SsdTimes

variable (p : NandLatencies) (clock : ℕ → ℕ) (s : SsdTimes)

/-- An assignment to a die. -/
def setLun (ch lun : ℕ) (f : NandLun → NandLun) : SsdTimes :=
  { s with lun := Function.update s.lun ch (Function.update (s.lun ch) lun (f (s.lun ch lun))) }

/-- A reading of the clock. -/
def readClock : SsdTimes × ℕ := ({ s with clockReads := s.clockReads + 1 }, clock s.clockReads)

/-- A sum of times in 64 bits. -/
def addTime (a b : ℕ) : SsdTimes × ℕ :=
  ({ s with overflow := s.overflow || decide (2 ^ 64 ≤ a + b) }, u64 (a + b))

/-- `chmodel_request` on a channel. -/
def channelRequest (c requestTime length : ℕ) : Except Fault (SsdTimes × ℕ) := do
  let curTime := (s.readClock clock).2
  let s := (s.readClock clock).1
  let wraps := decide ((s.perfModel c).Overflows curTime requestTime length)
  let (ch, t) ← (s.perfModel c).chmodelRequest curTime requestTime length
  .ok ({ s with
    perfModel := Function.update s.perfModel c ch
    overflow := s.overflow || wraps }, t)

/-- `ssd_advance_pcie`. -/
def advancePcie (requestTime length : ℕ) : Except Fault (SsdTimes × ℕ) := do
  let curTime := (s.readClock clock).2
  let s := (s.readClock clock).1
  let wraps := decide (s.pcie.Overflows curTime requestTime length)
  let (pcie, t) ← s.pcie.chmodelRequest curTime requestTime length
  .ok ({ s with pcie := pcie, overflow := s.overflow || wraps }, t)

/-- The statistics of a read that is the first on its die: the delay, and the smallest one in
`arrive_time`. -/
def noteDelay (ch lun cmdStime nandStime : ℕ) (arriveTime : ℤ) : SsdTimes × ℤ :=
  if s.checking = true ∧ (s.lun ch lun).firstIo = false then
    let delay := u64 (nandStime + 2 ^ 64 - cmdStime)
    let s := if 0 < delay then
        { s with
          chDieCounter := u64 (s.chDieCounter + 1)
          chDieLatency := u64 (s.chDieLatency + delay) }
      else s
    let arriveTime :=
      if arriveTime < 0 ∨ delay < arriveTime.toNat then toInt64 delay else arriveTime
    (s.setLun ch lun fun l => { l with firstIo := true }, arriveTime)
  else (s, arriveTime)

/-- The transfer of a chunk over PCIe, where the two are interleaved. -/
def completeChunk (interleavePciDma : Bool) (chnlEtime xferSize : ℕ) :
    Except Fault (SsdTimes × ℕ) :=
  if interleavePciDma then s.advancePcie clock chnlEtime xferSize else .ok (s, chnlEtime)

/-- The loop of a read over the channel, with `chnl_stime` and `completed_time`.  Without a
positive chunk size it never ends. -/
def readTransfer (c : ℕ) (interleavePciDma : Bool) :
    ℕ → ℕ → ℕ → ℕ → SsdTimes → Except Fault (SsdTimes × ℕ × ℕ)
  | 0, remaining, chnlStime, completedTime, s =>
    if remaining = 0 then .ok (s, chnlStime, completedTime) else .error .undefined
  | fuel + 1, remaining, chnlStime, completedTime, s =>
    if remaining = 0 then .ok (s, chnlStime, completedTime)
    else do
      let xferSize := min remaining p.maxChXferSize
      let (s, chnlEtime) ← s.channelRequest clock c chnlStime xferSize
      let (s, completedTime) ← s.completeChunk clock interleavePciDma chnlEtime xferSize
      readTransfer c interleavePciDma fuel (remaining - xferSize) chnlEtime completedTime s

/-- `next_lun_avail_time` of the die, and the record of the command. -/
def release (e : NandEvent) : SsdTimes :=
  let s := s.setLun e.ch e.lun fun l => { l with nextLunAvailTime := e.endTime }
  { s with events := s.events ++ [e] }

/-- The case `NAND_READ`; `chnl_etime` is set by the loop only. -/
def advanceRead (cmd : NandCmd) (cmdStime : ℕ) (arriveTime : ℤ) :
    Except Fault (SsdTimes × ℤ × ℕ) := do
  let nandStime := max (s.lun cmd.ppa.ch cmd.ppa.lun).nextLunAvailTime cmdStime
  let noted := s.noteDelay cmd.ppa.ch cmd.ppa.lun cmdStime nandStime arriveTime
  let latency ← p.readLatency cmd
  let sensed := noted.1.addTime nandStime latency
  defined (0 < cmd.xferSize)
  let (s, chnlEtime, completedTime) ←
    readTransfer p clock cmd.ppa.ch cmd.interleavePciDma cmd.xferSize cmd.xferSize sensed.2 0
      sensed.1
  .ok (s.release {
    ch := cmd.ppa.ch, lun := cmd.ppa.lun, cmdStime := cmdStime, nandStime := nandStime
    latency := latency, endTime := chnlEtime, completedTime := completedTime }, noted.2,
    completedTime)

/-- The case `NAND_WRITE`. -/
def advanceWrite (cmd : NandCmd) (cmdStime : ℕ) : Except Fault (SsdTimes × ℕ) := do
  let chnlStime := max (s.lun cmd.ppa.ch cmd.ppa.lun).nextLunAvailTime cmdStime
  let (s, chnlEtime) ← s.channelRequest clock cmd.ppa.ch chnlStime cmd.xferSize
  let nandStime := chnlEtime
  let programmed := s.addTime nandStime p.pgWrLat
  let nandEtime := programmed.2
  .ok (programmed.1.release {
    ch := cmd.ppa.ch, lun := cmd.ppa.lun, cmdStime := cmdStime, nandStime := nandStime
    latency := p.pgWrLat, endTime := nandEtime, completedTime := nandEtime }, nandEtime)

/-- The cases `NAND_ERASE` and, without a latency, `NAND_NOP`. -/
def advanceBusy (cmd : NandCmd) (cmdStime latency : ℕ) : SsdTimes × ℕ :=
  let nandStime := max (s.lun cmd.ppa.ch cmd.ppa.lun).nextLunAvailTime cmdStime
  let done := s.addTime nandStime latency
  let nandEtime := done.2
  (done.1.release {
    ch := cmd.ppa.ch, lun := cmd.ppa.lun, cmdStime := cmdStime, nandStime := nandStime
    latency := latency, endTime := nandEtime, completedTime := nandEtime }, nandEtime)

/-- `cmd_stime`. -/
def startTime (cmd : NandCmd) : SsdTimes × ℕ :=
  if cmd.stime = 0 then s.readClock clock else (s, cmd.stime)

/-- The `switch` of `ssd_advance_nand`. -/
def advanceDie (cmd : NandCmd) (cmdStime : ℕ) (arriveTime : ℤ) :
    Except Fault (SsdTimes × ℤ × ℕ) :=
  match cmd.cmd with
  | .read => s.advanceRead p clock cmd cmdStime arriveTime
  | .write => do
    let (s, t) ← s.advanceWrite p clock cmd cmdStime
    .ok (s, arriveTime, t)
  | .erase =>
    let done := s.advanceBusy cmd cmdStime p.blkErLat
    .ok (done.1, arriveTime, done.2)
  | .nop =>
    let done := s.advanceBusy cmd cmdStime 0
    .ok (done.1, arriveTime, done.2)

/-- `ssd_advance_nand`: the new `arrive_time` of the command and the time it is completed. -/
def advanceNand (cmd : NandCmd) (arriveTime : ℤ) : Except Fault (SsdTimes × ℤ × ℕ) := do
  let start := s.startTime clock cmd
  let cmdStime := start.2
  if ¬ mappedPpa cmd.ppa then return (start.1, arriveTime, cmdStime)
  defined (cmd.ppa.ch < p.nchs ∧ cmd.ppa.lun < p.lunsPerCh ∧ 0 < p.pgsPerFlashpg)
  start.1.advanceDie p clock cmd cmdStime arriveTime

end SsdTimes

end NvmeVirt
