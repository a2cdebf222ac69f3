/-
# A zoned namespace behind the dispatcher

`zns_flush` and `zns_proc_nvme_io_cmd` of `zns_ftl.c`: the FTL with the host
memory, as the dispatcher and the workers of `io.c` use it.  The clock is read
in `zns_flush` after the request was stamped; here that reading is the stamp.
-/

import NvmeVirt.Zns.MgmtRecv

namespace NvmeVirt

open Outcome

/-- A zoned namespace and the memory of the host. -/
structure ZnsNs (τ : Type) where
  ftl : ZnsFtl τ
  host : Mem

namespace ZnsNs

variable {τ : Type} (clk : SsdClock τ) (ns : ZnsNs τ)

/-- What the FTL leaves behind is left in the namespace. -/
def ofFtl (o : IoOutcome (ZnsFtl τ)) : IoOutcome (ZnsNs τ) :=
  { o with ns := { ns with ftl := o.ns } }

/-- `zns_flush`. -/
def znsFlush (req : NvmevRequest) : IoOutcome (ZnsFtl τ) :=
  let (clock, idle) := clk.nextIdleTime ns.ftl.clock
  { ns := { ns.ftl with clock := clock }, cmd := req.cmd, ops := []
    ret := some { status := NvmeStatus.success.code, nsecsTarget := max req.nsecsStart idle } }

/-- `zns_proc_nvme_io_cmd`; an unknown command keeps the result `__nvmev_proc_io` has set. -/
def znsProcNvmeIoCmd (req : NvmevRequest) : Except Fault (IoOutcome (ZnsNs τ)) :=
  match req.cmd.opcode with
  | .write | .zoneAppend => do
    let o ← ns.ftl.znsWrite clk req
    .ok (ns.ofFtl o)
  | .read => do
    let o ← ns.ftl.znsRead clk req
    .ok (ns.ofFtl o)
  | .flush => .ok (ns.ofFtl (ns.znsFlush clk req))
  | .zoneMgmtSend => do
    let o ← ns.ftl.znsZmgmtSend clk req
    .ok (ns.ofFtl o)
  | .zoneMgmtRecv => do
    let (f, host, ret) ← ns.ftl.znsZmgmtRecv ns.host req
    .ok { ns := { ftl := f, host := host }, cmd := req.cmd, ops := [], ret := some ret }
  | .other _ => .ok {
      ns := ns, cmd := req.cmd, ops := []
      ret := some { status := NvmeStatus.success.code, nsecsTarget := req.nsecsStart } }

/-- `__do_perform_io` on the storage of the namespace. -/
def performIo (cmd : NvmeRwCommand) : Except Fault (ZnsNs τ) := do
  let c ← doPerformIo cmd ns.host ns.ftl.storage
  .ok { ftl := { ns.ftl with storage := c.storage }, host := c.host }

/-- `buffer_release` on a write buffer of the namespace. -/
def bufferRelease (buf bytes : ℕ) : ZnsNs τ :=
  let b := ZnsBuffer.ofNat buf
  { ns with ftl := ns.ftl.setBuffer b (NvmeVirt.bufferRelease (ns.ftl.buffer b) bytes) }

end ZnsNs

/-- The zoned namespace behind the dispatcher. -/
def znsTarget {τ : Type} (clk : SsdClock τ) : IoTarget (ZnsNs τ) where
  procIoCmd := ZnsNs.znsProcNvmeIoCmd clk
  performIo := ZnsNs.performIo
  bufferRelease := ZnsNs.bufferRelease

end NvmeVirt
