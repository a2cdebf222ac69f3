/-
# The simple FTL

`simple_proc_nvme_io_cmd`, `__schedule_io_units` and `__schedule_flush` of
`simple_ftl.c`: a namespace that accepts every command and takes the time of its
I/O units for it.  The clock is read twice there for one command; here the
second reading is the first one.
-/

import NvmeVirt.Io.Device

namespace NvmeVirt

open Outcome

/-- The fields of `struct nvmev_config` behind the I/O units. -/
structure IoUnitConfig where
  nrIoUnits : ℕ
  ioUnitShift : ℕ
  readDelay : ℕ
  readTime : ℕ
  readTrailing : ℕ
  writeDelay : ℕ
  writeTime : ℕ
  writeTrailing : ℕ
  deriving DecidableEq, Repr

/-- A namespace of the simple FTL: `io_unit_stat` and the two memories. -/
structure SimpleNs where
  ioUnitStat : ℕ → ℕ
  host : Mem
  storage : Mem

/-- `delay`, `latency` and `trailing` of `__schedule_io_units`. -/
def IoUnitConfig.times (cfg : IoUnitConfig) : NvmeOpcode → ℕ × ℕ × ℕ
  | .write => (cfg.writeDelay, cfg.writeTime, cfg.writeTrailing)
  | .read => (cfg.readDelay, cfg.readTime, cfg.readTrailing)
  | _ => (0, 0, 0)

/-- The loop of `__schedule_io_units`; a round takes a byte at least. -/
def scheduleRounds (cfg : IoUnitConfig) (latency trailing : ℕ) :
    ℕ → (ℕ → ℕ) → ℕ → ℕ → ℕ → ℕ → (ℕ → ℕ) × ℕ
  | 0, stat, latest, _, _, _ => (stat, latest)
  | fuel + 1, stat, latest, ioUnit, nrIoUnits, length =>
    let latest := latest + latency
    let stat := Function.update stat ioUnit (if 0 < nrIoUnits then latest + trailing else latest)
    let rest := length - min length (1 <<< cfg.ioUnitShift)
    let next := if cfg.nrIoUnits ≤ ioUnit + 1 then 0 else ioUnit + 1
    if 0 < rest then scheduleRounds cfg latency trailing fuel stat latest next (nrIoUnits - 1) rest
    else (stat, latest)

/-- `__schedule_io_units`: the new `io_unit_stat` and the time of completion. -/
def scheduleIoUnits (cfg : IoUnitConfig) (stat : ℕ → ℕ) (opcode : NvmeOpcode)
    (lba length nsecsStart : ℕ) : Except Fault ((ℕ → ℕ) × ℕ) := do
  defined (0 < cfg.nrIoUnits ∧ 9 ≤ cfg.ioUnitShift)
  let ioUnit := (lba >>> (cfg.ioUnitShift - 9)) % cfg.nrIoUnits
  let nrIoUnits := min cfg.nrIoUnits
    ((length + (1 <<< cfg.ioUnitShift) - 1) / (1 <<< cfg.ioUnitShift))
  let (delay, latency, trailing) := cfg.times opcode
  let latest := max nsecsStart (stat ioUnit) + delay
  .ok (scheduleRounds cfg latency trailing length stat latest ioUnit nrIoUnits length)

/-- `__schedule_flush`. -/
def scheduleFlush (cfg : IoUnitConfig) (stat : ℕ → ℕ) : ℕ :=
  (List.range cfg.nrIoUnits).foldl (fun latest i => max latest (stat i)) 0

/-- `simple_proc_nvme_io_cmd`. -/
def simpleProcNvmeIoCmd (cfg : IoUnitConfig) (ns : SimpleNs) (req : NvmevRequest) :
    Except Fault (IoOutcome SimpleNs) :=
  match req.cmd.opcode with
  | .write | .read => do
    let (stat, latest) ← scheduleIoUnits cfg ns.ioUnitStat req.cmd.opcode req.cmd.slba
      req.cmd.ioLength req.nsecsStart
    .ok {
      ns := { ns with ioUnitStat := stat }, cmd := req.cmd, ops := []
      ret := some { status := 0, nsecsTarget := latest } }
  | .flush => .ok {
      ns := ns, cmd := req.cmd, ops := []
      ret := some { status := 0, nsecsTarget := scheduleFlush cfg ns.ioUnitStat } }
  | _ => .ok {
      ns := ns, cmd := req.cmd, ops := []
      ret := some { status := 0, nsecsTarget := req.nsecsStart } }

/-- `__do_perform_io` on the memories of the namespace. -/
def SimpleNs.performIo (ns : SimpleNs) (cmd : NvmeRwCommand) : Except Fault SimpleNs := do
  let c ← NvmeVirt.doPerformIo cmd ns.host ns.storage
  .ok { ns with host := c.host, storage := c.storage }

/-- The simple FTL behind the namespace; it schedules no buffer release. -/
def simpleTarget (cfg : IoUnitConfig) : IoTarget SimpleNs where
  procIoCmd := simpleProcNvmeIoCmd cfg
  performIo := SimpleNs.performIo
  bufferRelease := fun ns _ _ => ns

/-- **The simple FTL accepts every command** and leaves it as it is. -/
theorem simpleTarget_accepts (cfg : IoUnitConfig) (hcfg : 0 < cfg.nrIoUnits ∧ 9 ≤ cfg.ioUnitShift)
    (ns : SimpleNs) (req : NvmevRequest) :
    ∃ ns' t, (simpleTarget cfg).procIoCmd ns req = .ok {
      ns := ns', cmd := req.cmd, ops := [], ret := some { status := 0, nsecsTarget := t } } := by
  show ∃ ns' t, simpleProcNvmeIoCmd cfg ns req = _
  have hunits : ∃ r, scheduleIoUnits cfg ns.ioUnitStat req.cmd.opcode req.cmd.slba
      req.cmd.ioLength req.nsecsStart = .ok r := by
    unfold scheduleIoUnits
    rw [defined_bind hcfg]
    exact ⟨_, rfl⟩
  obtain ⟨r, hr⟩ := hunits
  unfold simpleProcNvmeIoCmd
  split
  · rw [hr]
    exact ⟨_, _, rfl⟩
  · rw [hr]
    exact ⟨_, _, rfl⟩
  · exact ⟨_, _, rfl⟩
  · exact ⟨_, _, rfl⟩

end NvmeVirt
