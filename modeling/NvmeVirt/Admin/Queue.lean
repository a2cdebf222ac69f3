/-
# The admin queue

`struct nvmev_admin_queue` of `nvmev.h` and `__make_cq_entry_results` of `admin.c`.
Both rings lie in host pages that `nvmev_proc_bars` looks up once; an entry behind
the pages looked up is out of bounds.

The pages a handler returns data in are apart from the two rings here.  `history`
records the slots taken and the completions posted; no step reads it.
-/

import NvmeVirt.Io.QueueDeletion
import NvmeVirt.Zns.Limits

namespace NvmeVirt

open Outcome

/-- How an admin handler stops without returning. -/
inductive AdminStop
  /-- A `BUG_ON` holds. -/
  | bugOn
  /-- C gives the step no meaning. -/
  | undefined
  deriving DecidableEq, Repr

/-- A step C defines only if `p`. -/
def adminDefined (p : Prop) [Decidable p] : Except AdminStop Unit :=
  if p then .ok () else .error .undefined

/-- `enum nvme_admin_opcode`, the values `__nvmev_proc_admin_req` names. -/
inductive AdminOpcode
  | deleteSq | createSq | getLogPage | deleteCq | createCq | identify | abortCmd | setFeatures
  | getFeatures | asyncEvent | activateFw | downloadFw | formatNvm | securitySend | securityRecv
  | other (code : ℕ)
  deriving DecidableEq, Repr

/-- `struct nvme_command` as an admin command, by the double words the handlers read. -/
structure NvmeAdminCommand where
  opcode : AdminOpcode
  commandId : ℕ
  nsid : ℕ
  prp1 : ℕ
  cdw10 : ℕ
  cdw11 : ℕ
  deriving DecidableEq, Repr

namespace NvmeAdminCommand

variable (cmd : NvmeAdminCommand)

/-- `cqid` of a create, `sqid` of a create and `qid` of a delete. -/
def qid : ℕ := cmd.cdw10 % 2 ^ 16

def qsize : ℕ := cmd.cdw10 / 2 ^ 16 % 2 ^ 16

/-- `cq_flags` and `sq_flags`. -/
def flags : ℕ := cmd.cdw11 % 2 ^ 16

def irqVector : ℕ := cmd.cdw11 / 2 ^ 16 % 2 ^ 16

/-- `cqid` of `struct nvme_create_sq`. -/
def cqid : ℕ := cmd.cdw11 / 2 ^ 16 % 2 ^ 16

def cns : ℕ := cmd.cdw10

def fid : ℕ := cmd.cdw10

def dword11 : ℕ := cmd.cdw11

def lid : ℕ := cmd.cdw10 % 2 ^ 8

def numdl : ℕ := cmd.cdw10 / 2 ^ 16 % 2 ^ 16

def numdu : ℕ := cmd.cdw11 % 2 ^ 16

/-- `len` of `__nvmev_admin_get_log_page`. -/
def logLen : ℕ := u32 ((cmd.numdu * 2 ^ 16 + cmd.numdl + 1) * 4)

end NvmeAdminCommand

/-- `sizeof(struct nvme_command)` goes this often into a page. -/
def nrSqePerPage : ℕ := 64

/-- `sizeof(struct nvme_completion)` goes this often into a page. -/
def nrCqePerPage : ℕ := 256

/-- An array of consecutive host pages, such as `nvme_sq` and `nvme_cq`. -/
structure QueuePages where
  firstPage : ℕ
  numPages : ℕ
  deriving DecidableEq, Repr

/-- `struct nvmev_admin_queue`. -/
structure AdminQueue where
  phase : Bool
  sqDepth : ℕ
  cqDepth : ℕ
  cqHead : ℕ
  nvmeSq : Option QueuePages
  nvmeCq : Option QueuePages
  deriving DecidableEq, Repr

/-- `struct nvmev_submission_queue` as an admin command creates it. -/
structure AdminSq where
  qid : ℕ
  cqid : ℕ
  priority : ℕ
  physContig : Bool
  queueSize : ℕ
  sq : QueuePages
  deriving DecidableEq, Repr

/-- `struct nvmev_completion_queue` as an admin command creates it. -/
structure AdminCq where
  qid : ℕ
  irqEnabled : Bool
  irqVector : ℕ
  interruptReady : Bool
  physContig : Bool
  queueSize : ℕ
  phase : Bool
  cqHead : ℕ
  cq : QueuePages
  deriving DecidableEq, Repr

/-- The command set of a namespace, with the parameters of a zoned one. -/
inductive Csi
  | nvm | kv
  | zns (zp : Znsparams)
  deriving DecidableEq, Repr

/-- The number of a command set. -/
def Csi.code : Csi → ℕ
  | .nvm => 0
  | .kv => 1
  | .zns _ => 2

/-- `struct nvmev_ns`, the fields the admin commands read. -/
structure AdminNs where
  size : ℕ
  csi : Csi
  deriving DecidableEq, Repr

/-- `struct nvme_smart_log`, the fields that are set. -/
structure NvmeSmartLog where
  criticalWarning : ℕ
  spareThresh : ℕ
  temperature : ℕ
  hostReads : ℕ
  hostWrites : ℕ
  numErrLogEntries : ℕ
  deriving DecidableEq, Repr

/-- `struct nvme_effects_log`. -/
structure NvmeEffectsLog where
  acs : ℕ → ℕ
  iocs : ℕ → ℕ

/-- `struct nvme_lbaf`. -/
structure NvmeLbaf where
  ms : ℕ
  ds : ℕ
  rp : ℕ
  deriving DecidableEq, Repr

/-- `struct nvme_id_ns`, the fields that are set. -/
structure NvmeIdNs where
  nsze : ℕ
  ncap : ℕ
  nuse : ℕ
  nlbaf : ℕ
  flbas : ℕ
  dps : ℕ
  lbaf : List NvmeLbaf
  deriving DecidableEq, Repr

/-- `struct nvme_id_ns_desc`, the fields that are set. -/
structure NvmeIdNsDesc where
  nidt : ℕ
  nidl : ℕ
  nid0 : ℕ
  deriving DecidableEq, Repr

/-- `struct nvme_id_ctrl`, the fields that are set. -/
structure NvmeIdCtrl where
  nn : ℕ
  oncs : ℕ
  acl : ℕ
  vwc : ℕ
  cntlid : ℕ
  mic : ℕ
  sn : String
  mn : String
  fr : String
  mdts : ℕ
  sqes : ℕ
  cqes : ℕ
  deriving DecidableEq, Repr

/-- What a handler writes to the pages of its command; a log is written up to a length, `zasl` is
one byte. -/
inductive AdminData
  | smartLog (log : NvmeSmartLog) (len : ℕ)
  | effectsLog (log : NvmeEffectsLog) (len : ℕ)
  | zeros (len : ℕ)
  | idNs (ns : NvmeIdNs)
  | idNamespaces (nsids : List ℕ)
  | idNsDesc (desc : NvmeIdNsDesc)
  | idZnsNs (ns : NvmeIdZnsNs)
  | idZnsCtrl (zasl : ℕ)
  | idCtrl (ctrl : NvmeIdCtrl)

/-- History variables: no step reads them. -/
structure AdminHistory where
  taken : List ℕ
  posted : List NvmeCompletion

/-- `struct nvmev_dev` as the admin path sees it, with the pages of the host: `sqPages` and `cqPages`
are the entries in a page, `data` is what a handler has written at an address. -/
structure AdminDev where
  adminQ : Option AdminQueue
  sqPages : ℕ → ℕ → NvmeAdminCommand
  cqPages : ℕ → ℕ → NvmeCompletion
  data : ℕ → Option AdminData
  sqes : ℕ → Option AdminSq
  cqes : ℕ → Option AdminCq
  dbs : ℕ → ℕ
  oldDbs : ℕ → ℕ
  nrSq : ℕ
  nrCq : ℕ
  ns : List AdminNs
  mdts : ℕ
  cntlid : ℕ
  supportsZns : Bool
  history : AdminHistory

/-- An entry of an array of pages. -/
def QueuePages.at (pages : Option QueuePages) (perPage entry : ℕ) : Except AdminStop (ℕ × ℕ) :=
  match pages with
  | none => .error .undefined
  | some r => do
    adminDefined (entry / perPage < r.numPages)
    .ok (r.firstPage + entry / perPage, entry % perPage)

/-- The queue behind an entry. -/
def AdminQueue.advance (q : AdminQueue) : AdminQueue :=
  let wraps := q.cqHead + 1 = q.cqDepth
  { q with
    cqHead := if wraps then 0 else q.cqHead + 1
    phase := if wraps then !q.phase else q.phase }

namespace AdminDev

variable (d : AdminDev)

/-- `nvmev_vdev->admin_q`, read through. -/
def queue : Except AdminStop AdminQueue :=
  match d.adminQ with
  | none => .error .undefined
  | some q => .ok q

/-- `sq_entry(entry_id)`. -/
def sqEntry (entryId : ℕ) : Except AdminStop NvmeAdminCommand := do
  let q ← d.queue
  let (page, i) ← QueuePages.at q.nvmeSq nrSqePerPage entryId
  .ok (d.sqPages page i)

/-- The entry `__make_cq_entry_results` fills in. -/
def cqe (q : AdminQueue) (cmd : NvmeAdminCommand) (eid ret result0 result1 : ℕ) :
    NvmeCompletion where
  result0 := result0
  result1 := result1
  sqHead := eid % 2 ^ 16
  sqId := 0
  commandId := cmd.commandId
  status := (q.phase.toNat ||| (ret <<< 1)) % 2 ^ 16

/-- `__make_cq_entry_results`. -/
def makeCqEntryResults (eid ret result0 result1 : ℕ) : Except AdminStop AdminDev := do
  let q ← d.queue
  let cmd ← d.sqEntry eid
  let (page, i) ← QueuePages.at q.nvmeCq nrCqePerPage q.cqHead
  let cqe := cqe q cmd eid ret result0 result1
  .ok { d with
    cqPages := Function.update d.cqPages page (Function.update (d.cqPages page) i cqe)
    adminQ := some q.advance
    history.posted := d.history.posted ++ [cqe] }

/-- `__make_cq_entry`. -/
def makeCqEntry (eid ret : ℕ) : Except AdminStop AdminDev := d.makeCqEntryResults eid ret 0 0

end AdminDev

end NvmeVirt
