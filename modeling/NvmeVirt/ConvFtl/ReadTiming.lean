/-
# The times of a host read

`conv_read` of `conv_ftl.c` with the NAND reads it issues on the dies, and the
queueing statistic it adds to.  The instances of a namespace share PCIe and the
clock.  Within a command a die counts when it is first read from: `srd.arrive_time`
is to hold the smallest of these delays, `-1` as long as there is none.
-/

import NvmeVirt.ConvFtl.ReadCoverage
import NvmeVirt.Ssd.DieTimeline

namespace NvmeVirt

open Outcome

/-- The latencies of a host read.  A conventional namespace has one for each of its cells:
`load_conv_configs` sets `CELL_MODE_MLC`. -/
structure ReadLatencies extends NandLatencies where
  fw4kbRdLat : ℕ
  fwRdLat : ℕ
  cellMode_le : cellMode ≤ cellModeMlc

/-- The geometry of the namespace is the one of its dies. -/
def ConvNs.nand (ns : ConvNs) (lat : ReadLatencies) : NandLatencies :=
  { lat.toNandLatencies with
    nchs := ns.sp.nchs
    lunsPerCh := ns.sp.lunsPerCh
    pgsPerFlashpg := ns.sp.pgsPerFlashpg }

/-- The instances' dies and channels, what the instances share, and `queueing_wait`. -/
structure NsTimes where
  ssd : ℕ → SsdTimes
  pcie : ChannelModel
  clockReads : ℕ
  queueingWait : ℕ

namespace NsTimes

variable (p : NandLatencies) (clock : ℕ → ℕ) (t : NsTimes)

/-- The SSD of an instance, with what the instances share. -/
def lend (q : ℕ) : SsdTimes := { t.ssd q with pcie := t.pcie, clockReads := t.clockReads }

/-- The SSD of an instance is put back. -/
def put (q : ℕ) (s : SsdTimes) : NsTimes :=
  { t with ssd := Function.update t.ssd q s, pcie := s.pcie, clockReads := s.clockReads }

/-- The loops that clear `first_io`. -/
def resetFirstIo (nrParts : ℕ) : NsTimes :=
  { t with
    ssd := fun q =>
      if q < nrParts then
        { t.ssd q with
          lun := fun ch lun =>
            if ch < p.nchs ∧ lun < p.lunsPerCh then { (t.ssd q).lun ch lun with firstIo := false }
            else (t.ssd q).lun ch lun }
      else t.ssd q }

/-- `srd` for a NAND read. -/
def srd (stime : ℕ) (r : NandRead) : NandCmd where
  cmd := .read
  xferSize := r.xferSize
  stime := stime
  interleavePciDma := true
  ppa := r.ppa

/-- The NAND reads of a command, with `srd.arrive_time` and `nsecs_latest`. -/
def issueReads (stime : ℕ) : List NandRead → NsTimes → ℤ → ℕ → Except Fault (NsTimes × ℤ × ℕ)
  | [], t, arriveTime, nsecsLatest => .ok (t, arriveTime, nsecsLatest)
  | r :: rs, t, arriveTime, nsecsLatest => do
    let (s, arriveTime, nsecsCompleted) ←
      (t.lend r.part).advanceNand p clock (srd stime r) arriveTime
    issueReads stime rs (t.put r.part s) arriveTime (max nsecsCompleted nsecsLatest)

end NsTimes

/-- An `int64_t` added to a `uint64_t`. -/
def addInt64 (a : ℕ) (b : ℤ) : ℕ := ((a + b) % 2 ^ 64).toNat

namespace ConvNs

variable (ns : ConvNs) (lat : ReadLatencies) (clock : ℕ → ℕ)

/-- `srd.stime`. -/
def readStime (length nsecsStart : ℕ) : ℕ :=
  u64 (nsecsStart +
    if lbaToByte (length + 1) ≤ 4096 * ns.nrParts then lat.fw4kbRdLat else lat.fwRdLat)

/-- `conv_read` with its times: `none` where it returns false, else `ret->nsecs_target`. -/
def convReadTimed (t : NsTimes) (slba length nsecsStart : ℕ) :
    Except Fault (NsTimes × Option ℕ) := do
  let t := t.resetFirstIo (ns.nand lat) ns.nrParts
  match ← ns.convRead slba length with
  | none => .ok (t, none)
  | some reads => do
    let (t, arriveTime, nsecsLatest) ← NsTimes.issueReads (ns.nand lat) clock
      (ns.readStime lat length nsecsStart) reads t (-1) nsecsStart
    .ok ({ t with queueingWait := addInt64 t.queueingWait arriveTime }, some nsecsLatest)

end ConvNs

end NvmeVirt
