/-
# The admin commands

`__nvmev_proc_admin_req` of `admin.c`, the handlers it dispatches to and
`nvmev_proc_admin_sq`, which takes the submission entries between two doorbell
values.  There is no central place where a completion is posted: each handler posts
its own.
-/

import NvmeVirt.Admin.Queue

namespace NvmeVirt

open Outcome

/-- `NVME_SC_INVALID_OPCODE`. -/
def nvmeScInvalidOpcode : ℕ := 1

/-- `prp >> PAGE_SHIFT`. -/
def prpPfn (prp : ℕ) : ℕ := prp / pageSize

namespace AdminDev

variable (d : AdminDev)

/-! ### Queue managements -/

/-- `__nvmev_admin_create_cq`. -/
def createCq (eid : ℕ) : Except AdminStop AdminDev := do
  let cmd ← d.sqEntry eid
  adminDefined (cmd.qid ≤ nrMaxIoQueue)
  let queueSize := cmd.qsize + 1
  let irqEnabled := cmd.flags.testBit 1
  let cq : AdminCq := {
    qid := cmd.qid
    irqEnabled := irqEnabled
    irqVector := if irqEnabled then cmd.irqVector else 0
    interruptReady := false
    physContig := cmd.flags.testBit 0
    queueSize := queueSize
    phase := true
    cqHead := 0
    cq := ⟨prpPfn cmd.prp1, divRoundUp (queueSize * 16) pageSize⟩ }
  makeCqEntry { d with
    cqes := Function.update d.cqes cmd.qid (some cq)
    dbs := Function.update d.dbs (cmd.qid * 2 + 1) 0
    oldDbs := Function.update d.oldDbs (cmd.qid * 2 + 1) 0 } eid 0

/-- `__nvmev_admin_delete_cq`. -/
def deleteCq (eid : ℕ) : Except AdminStop AdminDev := do
  let cmd ← d.sqEntry eid
  adminDefined (cmd.qid ≤ nrMaxIoQueue)
  makeCqEntry { d with cqes := Function.update d.cqes cmd.qid none } eid 0

/-- `__nvmev_admin_create_sq`. -/
def createSq (eid : ℕ) : Except AdminStop AdminDev := do
  let cmd ← d.sqEntry eid
  adminDefined (cmd.qid ≤ nrMaxIoQueue)
  let queueSize := cmd.qsize + 1
  let sq : AdminSq := {
    qid := cmd.qid
    cqid := cmd.cqid
    priority := cmd.flags &&& 0xFFFE
    physContig := cmd.flags.testBit 0
    queueSize := queueSize
    sq := ⟨prpPfn cmd.prp1, divRoundUp (queueSize * 64) pageSize⟩ }
  makeCqEntry { d with
    sqes := Function.update d.sqes cmd.qid (some sq)
    dbs := Function.update d.dbs (cmd.qid * 2) 0
    oldDbs := Function.update d.oldDbs (cmd.qid * 2) 0 } eid 0

/-- `__nvmev_admin_delete_sq`. -/
def deleteSq (eid : ℕ) : Except AdminStop AdminDev := do
  let cmd ← d.sqEntry eid
  adminDefined (cmd.qid ≤ nrMaxIoQueue)
  makeCqEntry { d with sqes := Function.update d.sqes cmd.qid none } eid 0

/-! ### Log pages -/

/-- What a handler returns at an address. -/
def putData (addr : ℕ) (data : AdminData) : AdminDev :=
  { d with data := Function.update d.data addr (some data) }

/-- `NVME_LOG_SMART`. -/
def nvmeLogSmart : ℕ := 2

/-- `NVME_LOG_CMD_EFFECTS`. -/
def nvmeLogCmdEffects : ℕ := 5

/-- `smart_log`. -/
def smartLog : NvmeSmartLog where
  criticalWarning := 0
  spareThresh := 20
  temperature := 0
  hostReads := 0
  hostWrites := 0
  numErrLogEntries := 0

/-- `effects_log`, by the numbers of the opcodes. -/
def effectsLog : NvmeEffectsLog where
  acs op := if op ∈ [0x02, 0x06, 0x09, 0x0a, 0x0c] then 1 else 0
  iocs op :=
    if ¬ d.supportsZns then 0
    else if op = 0x79 then 3
    else if op = 0x7a ∨ op = 0x7d then 1
    else 0

/-- `__nvmev_admin_get_log_page`; a log is copied from its object in the driver. -/
def getLogPage (eid : ℕ) : Except AdminStop AdminDev := do
  let cmd ← d.sqEntry eid
  if cmd.lid = nvmeLogSmart then do
    adminDefined (cmd.logLen ≤ 512)
    (d.putData cmd.prp1 (.smartLog smartLog cmd.logLen)).makeCqEntry eid 0
  else if cmd.lid = nvmeLogCmdEffects then do
    adminDefined (cmd.logLen ≤ 4096)
    (d.putData cmd.prp1 (.effectsLog d.effectsLog cmd.logLen)).makeCqEntry eid 0
  else
    (d.putData cmd.prp1 (.zeros cmd.logLen)).makeCqEntry eid 0

/-! ### Identify functions -/

/-- `ns[nsid - 1]`. -/
def namespaceAt (nsid : ℕ) : Except AdminStop AdminNs :=
  match nsid with
  | 0 => .error .undefined
  | n + 1 =>
    match d.ns[n]? with
    | none => .error .undefined
    | some ns => .ok ns

/-- `lbaf` of `__nvmev_admin_identify_namespace`. -/
def lbaFormats : List NvmeLbaf :=
  [⟨0, 9, 2⟩, ⟨8, 9, 2⟩, ⟨16, 9, 2⟩, ⟨0, 12, 0⟩, ⟨8, 12, 0⟩, ⟨64, 12, 0⟩, ⟨128, 12, 0⟩]

/-- `__nvmev_admin_identify_namespace`; `flbas` is 0 when the size is computed. -/
def identifyNamespace (eid : ℕ) : Except AdminStop AdminDev := do
  let cmd ← d.sqEntry eid
  let ns ← d.namespaceAt cmd.nsid
  let nsze := ns.size / 2 ^ 9
  (d.putData cmd.prp1 (.idNs {
    nsze := nsze, ncap := nsze, nuse := nsze, nlbaf := 6, flbas := 0, dps := 0
    lbaf := lbaFormats })).makeCqEntry eid 0

/-- `__nvmev_admin_identify_namespaces`. -/
def identifyNamespaces (eid : ℕ) : Except AdminStop AdminDev := do
  let cmd ← d.sqEntry eid
  let nsids := ((List.range d.ns.length).map (· + 1)).filter fun i => cmd.nsid < i
  (d.putData cmd.prp1 (.idNamespaces nsids)).makeCqEntry eid 0

/-- `__nvmev_admin_identify_namespace_desc`. -/
def identifyNamespaceDesc (eid : ℕ) : Except AdminStop AdminDev := do
  let cmd ← d.sqEntry eid
  let ns ← d.namespaceAt cmd.nsid
  (d.putData cmd.prp1 (.idNsDesc { nidt := 4, nidl := 1, nid0 := ns.csi.code })).makeCqEntry eid 0

/-- `__nvmev_admin_identify_zns_namespace`, with its `BUG_ON`. -/
def identifyZnsNamespace (eid : ℕ) : Except AdminStop AdminDev := do
  let cmd ← d.sqEntry eid
  let ns ← d.namespaceAt cmd.nsid
  match ns.csi with
  | .zns zp => (d.putData cmd.prp1 (.idZnsNs zp.identify)).makeCqEntry eid 0
  | _ => .error .bugOn

/-- `__nvmev_admin_identify_zns_ctrl`. -/
def identifyZnsCtrl (eid : ℕ) : Except AdminStop AdminDev := do
  let cmd ← d.sqEntry eid
  (d.putData cmd.prp1 (.idZnsCtrl 0)).makeCqEntry eid 0

/-- `__nvmev_admin_identify_ctrl`. -/
def identifyCtrl (eid : ℕ) : Except AdminStop AdminDev := do
  let cmd ← d.sqEntry eid
  let d := d.putData cmd.prp1 (.idCtrl {
    nn := d.ns.length, oncs := 0, acl := 3, vwc := 0, cntlid := d.cntlid, mic := 1 <<< 1
    sn := "CSL_Virt_SN_01", mn := "CSL_Virt_MN_01", fr := "CSL_002", mdts := d.mdts
    sqes := 0x66, cqes := 0x44 })
  makeCqEntry { d with cntlid := d.cntlid + 1 } eid 0

/-- `__nvmev_admin_identify`. -/
def identify (eid : ℕ) : Except AdminStop AdminDev := do
  let cmd ← d.sqEntry eid
  match cmd.cns with
  | 0x00 => d.identifyNamespace eid
  | 0x01 => d.identifyCtrl eid
  | 0x02 => d.identifyNamespaces eid
  | 0x03 => d.identifyNamespaceDesc eid
  | 0x05 => d.identifyZnsNamespace eid
  | 0x06 => d.identifyZnsCtrl eid
  | _ => d.makeCqEntry eid nvmeScInvalidOpcode

/-! ### Set/get features -/

/-- `NVME_FEAT_NUM_QUEUES`. -/
def nvmeFeatNumQueues : ℕ := 7

/-- The number of queues in a result, both counts zero-based. -/
def numQueuesResult : ℕ := u32 (u32Pred d.nrCq <<< 16) ||| u32Pred d.nrSq

/-- `__nvmev_admin_set_features`. -/
def setFeatures (eid : ℕ) : Except AdminStop AdminDev := do
  let cmd ← d.sqEntry eid
  if cmd.fid = nvmeFeatNumQueues then
    let d := { d with
      nrSq := min (cmd.dword11 % 2 ^ 16 + 1) nrMaxIoQueue
      nrCq := min (cmd.dword11 / 2 ^ 16 % 2 ^ 16 + 1) nrMaxIoQueue }
    d.makeCqEntryResults eid 0 d.numQueuesResult 0
  else d.makeCqEntryResults eid 0 0 0

/-- `__nvmev_admin_get_features`. -/
def getFeatures (eid : ℕ) : Except AdminStop AdminDev := do
  let cmd ← d.sqEntry eid
  d.makeCqEntryResults eid 0 (if cmd.fid = nvmeFeatNumQueues then d.numQueuesResult else 0) 0

/-! ### Dispatch -/

/-- `__nvmev_admin_async_event`. -/
def asyncEvent (eid : ℕ) : Except AdminStop AdminDev := d.makeCqEntry eid 0

/-- The `switch` of `__nvmev_proc_admin_req`; an identify falls through to the `break` of an
abort. -/
def dispatch (opcode : AdminOpcode) (eid : ℕ) : Except AdminStop AdminDev :=
  match opcode with
  | .deleteSq => d.deleteSq eid
  | .createSq => d.createSq eid
  | .getLogPage => d.getLogPage eid
  | .deleteCq => d.deleteCq eid
  | .createCq => d.createCq eid
  | .identify => d.identify eid
  | .abortCmd => .ok d
  | .setFeatures => d.setFeatures eid
  | .getFeatures => d.getFeatures eid
  | .asyncEvent => d.asyncEvent eid
  | _ => d.makeCqEntry eid nvmeScInvalidOpcode

/-- `__nvmev_proc_admin_req`. -/
def procAdminReq (entryId : ℕ) : Except AdminStop AdminDev := do
  let cmd ← d.sqEntry entryId
  dispatch { d with history.taken := d.history.taken ++ [entryId] } cmd.opcode entryId

/-- The loop of `nvmev_proc_admin_sq` over `n` entries. -/
def procEntries : ℕ → ℕ → AdminDev → Except AdminStop AdminDev
  | 0, _, d => .ok d
  | n + 1, curr, d => do
    let d ← d.procAdminReq curr
    let q ← d.queue
    procEntries n (Ring.succ q.sqDepth curr) d

/-- `nvmev_proc_admin_sq`. -/
def procAdminSq (newDb oldDb : ℕ) : Except AdminStop AdminDev := do
  let q ← d.queue
  procEntries (Ring.dist q.sqDepth oldDb newDb) oldDb d

end AdminDev

end NvmeVirt
