/-
# The cleaner and the runs of a conventional namespace

`phfrag_cleaner` of `conv_ftl.c`, which rewrites one chunk of logical pages,
and the operations that change the FTL state of a conventional namespace: host
writes, cleaner calls and releases of the write buffer by the I/O workers.
-/

import NvmeVirt.ConvFtl.Write

namespace NvmeVirt

open Outcome

/-- `lba_chunk_t` without its list node. -/
structure LbaChunk where
  startLpn : ℕ
  endLpn : ℕ
  devideSize : ℕ
  idx : ℕ
  ch : ℤ
  lun : ℤ
  size : ℕ
  nextProcessLpn : ℕ
  counter : ℤ
  conti : ℤ
  deriving DecidableEq, Repr

/-- The arguments of `phfrag_cleaner` that stay fixed during a call.  `preempt` is the list
`preempt_list[idx * num_list + cur_chunk]`, `random i` the draw of the `i`-th round. -/
structure CleanRequest where
  startLpn : ℕ
  endLpn : ℕ
  degree : ℕ
  preempt : List LbaChunk
  idx : ℕ
  force : Bool
  noReturn : Bool
  random : ℕ → ℕ

/-- The first entry of the preempt list that waits for the die the write pointer is on. -/
def CleanRequest.preempted (a : CleanRequest) (wp : WritePointer) : Option ℕ :=
  if a.force ∨ a.preempt = [] ∨ a.noReturn then none
  else a.preempt.findIdx? fun prem => (wp.ch : ℤ) = prem.ch ∧ (wp.lun : ℤ) = prem.lun

namespace ConvFtl

variable (f : ConvFtl)

/-- One page of `phfrag_cleaner`, with the new `*con` and `*conti`. -/
def cleanPage (degree : ℕ) (con conti : ℤ) (random lpn : ℕ) :
    Except Fault (ConvFtl × ℤ × ℤ × Option RewritePointer) := do
  let (f, _) ← f.remapPage lpn
  let (f, con, conti, r) ← f.advanceWritePointerCleanver degree con conti false random
  let f ← f.consumeWriteCredit.checkAndRefillWriteCredit
  .ok (f, con, conti, r)

end ConvFtl

/-- One page write on an instance, with all that the host or the cleaner may choose. -/
inductive PageOp
  /-- A round of the loop of `conv_write`. -/
  | host (lpn : ℕ)
  /-- A round of the loop of `phfrag_cleaner`. -/
  | clean (degree : ℕ) (con conti : ℤ) (random lpn : ℕ)

namespace ConvFtl

variable (f : ConvFtl)

/-- One page write. -/
def pageOp : PageOp → Except Fault ConvFtl
  | .host lpn => do
    let (f, _) ← f.writePage lpn
    .ok f
  | .clean degree con conti random lpn => do
    let (f, _) ← f.cleanPage degree con conti random lpn
    .ok f

/-- The loop of `phfrag_cleaner` from its `i`-th round, with the returned pointer and the final
`*con` and `*conti`. -/
def phfragCleanerLoop (a : CleanRequest) (nrParts : ℕ) :
    ℕ → ℕ → ConvFtl → ℤ → ℤ → Except Fault (ConvFtl × Option RewritePointer × ℤ × ℤ)
  | 0, _, f, con, conti => .ok (f, none, con, conti)
  | fuel + 1, i, f, con, conti => do
    let lpn := a.startLpn + i * nrParts
    if a.endLpn < lpn then return (f, none, con, conti)
    match a.preempted f.wp with
    | some k =>
      let r := {
        ch := -1, lun := -1, startpoint := some lpn, preempt := some true
        preemptCounter := some k }
      return (f, some r, con, conti)
    | none => do
      let (f, con, conti, r) ← f.cleanPage a.degree con conti (a.random i) (lpn / nrParts)
      let next := lpn + nrParts
      match r with
      | some r =>
        let r := { r with startpoint := some next, preempt := some false }
        return (f, if a.endLpn < next then none else some r, con, conti)
      | none =>
        if (16 * f.ssd.sp.pgsPerOneshotpg : ℕ) ≤ con then
          let r := {
            ch := -1, lun := -1, startpoint := some next, preempt := some false
            preemptCounter := none }
          return (f, if a.endLpn < next then none else some r, con, conti)
        else phfragCleanerLoop a nrParts fuel (i + 1) f con conti

end ConvFtl

namespace ConvNs

variable (ns : ConvNs)

/-- `phfrag_cleaner`; a round moves on by `nr_parts` logical pages, so the number of pages in the
range bounds the rounds. -/
def phfragCleaner (a : CleanRequest) (con conti : ℤ) :
    Except Fault (ConvNs × Option RewritePointer × ℤ × ℤ) := do
  defined (0 < ns.nrParts ∧ a.idx < ns.nrParts)
  let (f, r, con, conti) ← ConvFtl.phfragCleanerLoop a ns.nrParts (a.endLpn + 1 - a.startLpn) 0
    (ns.ftls a.idx) con conti
  .ok ({ ns with ftls := Function.update ns.ftls a.idx f }, r, con, conti)

end ConvNs

/-- An operation on a conventional namespace. -/
inductive ConvOp
  /-- A write command. -/
  | write (slba length : ℕ)
  /-- A worker releases bytes of the write buffer. -/
  | release (size : ℕ)
  /-- A call of `phfrag_cleaner`. -/
  | clean (a : CleanRequest) (con conti : ℤ)

/-- One operation on a conventional namespace. -/
def ConvNs.exec (ns : ConvNs) : ConvOp → Except Fault ConvNs
  | .write slba length => do
    let (ns, _) ← ns.convWrite slba length
    .ok ns
  | .release size => .ok { ns with writeBuffer := bufferRelease ns.writeBuffer size }
  | .clean a con conti => do
    let (ns, _) ← ns.phfragCleaner a con conti
    .ok ns

end NvmeVirt
