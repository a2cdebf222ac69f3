/-
# Page states and garbage collection

`mark_page_invalid` to `do_gc` and `forground_gc` of `conv_ftl.c`, with the
write flow control that triggers them.  The NAND commands they issue only
advance times, and `clean_one_block` has no caller; both are left out.
-/

import NvmeVirt.ConvFtl.WritePointer

namespace NvmeVirt

open Outcome

/-- The page `i` places after `p`, as `ppa_copy.g.pg++` counts. -/
def Ppa.addPg (p : Ppa) (i : ℕ) : Ppa := { p with pg := (p.pg + i) % 2 ^ 16 }

/-- The line's part of `mark_page_invalid`. -/
def LineMgmt.invalidatePage (lm : LineMgmt) (spp : Ssdparams) (l : ℕ) : Except Fault LineMgmt := do
  let line := lm.lines l
  nvmevAssert .markPageInvalid (line.ipc < spp.pgsPerLine)
  let wasFullLine := line.vpc = spp.pgsPerLine
  if wasFullLine then nvmevAssert .markPageInvalid (line.ipc = 0)
  let line := { line with ipc := line.ipc + 1 }
  let lm := lm.setLine l line
  nvmevAssert .markPageInvalid (0 < line.vpc ∧ line.vpc ≤ spp.pgsPerLine)
  -- a queued line moves inside the queue, which also stores the new vpc
  let lm := if line.pos ≠ 0 then
      let (pq, lines) := lm.victimLinePq.pqueueChangePriority victimOps lm.lines (line.vpc - 1) l
      { lm with victimLinePq := pq, lines := lines }
    else lm.setLine l { line with vpc := line.vpc - 1 }
  if wasFullLine then do
    let lm := lm.listDelInit l
    defined (lm.victimLinePq.size < lm.victimLinePq.avail)
    let (pq, lines) := lm.victimLinePq.pqueueInsert victimOps lm.lines l
    .ok { lm with
      fullLineCnt := lm.fullLineCnt - 1
      victimLinePq := pq
      lines := lines
      victimLineCnt := lm.victimLineCnt + 1 }
  else .ok lm

/-- The line's part of `mark_page_valid`. -/
def LineMgmt.validatePage (lm : LineMgmt) (spp : Ssdparams) (l : ℕ) : Except Fault LineMgmt := do
  let line := lm.lines l
  nvmevAssert .markPageValid (line.vpc < spp.pgsPerLine)
  .ok (lm.setLine l { line with vpc := line.vpc + 1 })

/-- `select_victim_line`. -/
def LineMgmt.selectVictimLine (lm : LineMgmt) (spp : Ssdparams) (force : Bool) :
    Option (ℕ × LineMgmt) :=
  match lm.victimLinePq.pqueuePeek with
  | none => none
  | some l =>
    if force = false ∧ spp.pgsPerLine / 8 < (lm.lines l).vpc then none
    else
      let (_, pq, lines) := lm.victimLinePq.pqueuePop victimOps lm.lines
      let lm := { lm with victimLinePq := pq, lines := lines, victimLineCnt := lm.victimLineCnt - 1 }
      some (l, lm.setLine l { lm.lines l with pos := 0 })

/-- `mark_line_free`. -/
def LineMgmt.markLineFree (lm : LineMgmt) (l : ℕ) : LineMgmt :=
  { lm.setLine l { lm.lines l with ipc := 0, vpc := 0 } with
    freeLineList := lm.freeLineList ++ [l]
    freeLineCnt := lm.freeLineCnt + 1 }

namespace ConvFtl

variable (f : ConvFtl)

/-- `mark_page_invalid`. -/
def markPageInvalid (p : Ppa) : Except Fault ConvFtl := do
  let spp := f.ssd.sp
  f.accessPpa p
  nvmevAssert .markPageInvalid ((f.ssd.getPg p).status = .valid)
  let ssd := f.ssd.setPgStatus p .invalid
  let blk := ssd.getBlk p
  nvmevAssert .markPageInvalid (blk.ipc < spp.pgsPerBlk)
  nvmevAssert .markPageInvalid (0 < blk.vpc ∧ blk.vpc ≤ spp.pgsPerBlk)
  let ssd := ssd.setBlk p { blk with ipc := blk.ipc + 1, vpc := blk.vpc - 1 }
  let lm ← f.lm.invalidatePage spp p.blk
  .ok { f with ssd := ssd, lm := lm }

/-- `mark_page_valid`. -/
def markPageValid (p : Ppa) : Except Fault ConvFtl := do
  let spp := f.ssd.sp
  f.accessPpa p
  nvmevAssert .markPageValid ((f.ssd.getPg p).status = .free)
  let ssd := f.ssd.setPgStatus p .valid
  let blk := ssd.getBlk p
  nvmevAssert .markPageValid (blk.vpc < spp.pgsPerBlk)
  let ssd := ssd.setBlk p { blk with vpc := blk.vpc + 1 }
  let lm ← f.lm.validatePage spp p.blk
  .ok { f with ssd := ssd, lm := lm }

/-- `mark_block_free`. -/
def markBlockFree (p : Ppa) : Except Fault ConvFtl := do
  let spp := f.ssd.sp
  f.accessPpa p
  let blk := f.ssd.getBlk p
  let pg ← forRange spp.pgsPerBlk (fun i pg => do
    nvmevAssert .markBlockFree ((pg i).nsecs = spp.secsPerPg)
    .ok (Function.update pg i { pg i with status := .free })) blk.pg
  nvmevAssert .markBlockFree (blk.npgs = spp.pgsPerBlk)
  let blk := { blk with pg := pg, ipc := 0, vpc := 0, eraseCnt := blk.eraseCnt + 1 }
  .ok ({ f with ssd := f.ssd.setBlk p blk }.note (.erase p.blkAddr))

/-- `gc_write_page`. -/
def gcWritePage (oldPpa : Ppa) : Except Fault ConvFtl := do
  let lpn ← f.getRmapEnt oldPpa
  nvmevAssert .gcWritePage (lpn < f.ssd.sp.ttPgs)
  let newPpa ← f.getNewPage .gc
  let f := f.note (.handOut .gc lpn newPpa)
  let f ← f.setMaptblEnt lpn newPpa
  let f ← f.setRmapEnt lpn newPpa
  let f ← f.markPageValid newPpa
  f.advanceWritePointer .gc

/-- `clean_one_flashpg`. -/
def cleanOneFlashpg (p : Ppa) : Except Fault ConvFtl := do
  let n := f.ssd.sp.pgsPerFlashpg
  let cnt ← forRange n (fun i cnt => do
    f.accessPpa (p.addPg i)
    let status := (f.ssd.getPg (p.addPg i)).status
    nvmevAssert .cleanOneFlashpg (status ≠ .free)
    .ok (if status = .valid then cnt + 1 else cnt)) 0
  if cnt = 0 then return f
  forRange n (fun i f => do
    f.accessPpa (p.addPg i)
    if (f.ssd.getPg (p.addPg i)).status = .valid then f.gcWritePage (p.addPg i)
    else .ok f) f

/-- One round of the loops of `do_gc`: the flash page `flashpg` of a die of the
victim line, erased as well in the last round. -/
def gcDie (l flashpg ch lun : ℕ) : Except Fault ConvFtl := do
  let spp := f.ssd.sp
  let ppa := Ppa.ofFields ch lun 0 l (flashpg * spp.pgsPerFlashpg)
  let f ← f.cleanOneFlashpg ppa
  if flashpg = spp.flashpgsPerBlk - 1 then f.markBlockFree ppa else .ok f

/-- `do_gc`. -/
def doGc (force : Bool) : Except Fault (ConvFtl × ℤ) := do
  let spp := f.ssd.sp
  match f.lm.selectVictimLine spp force with
  | none => .ok (f, -1)
  | some (l, lm) => do
    let blk := (lm.lines l).id
    let f := { f with
      lm := lm
      wfc := { f.wfc with creditsToRefill := u32 (lm.lines l).ipc } }
    let f ← forRange spp.flashpgsPerBlk (fun flashpg f =>
      forRange spp.nchs (fun ch f =>
        forRange spp.lunsPerCh (fun lun f => f.gcDie blk flashpg ch lun) f) f) (f.note (.victim l))
    .ok ({ f with lm := f.lm.markLineFree (blk % 2 ^ 16) }, 0)

/-- `forground_gc`. -/
def forgroundGc : Except Fault ConvFtl := do
  if f.shouldGcHigh then
    let (f, _) ← f.doGc true
    return f
  return f

/-- `consume_write_credit`; the counter is unsigned and wraps below 0. -/
def consumeWriteCredit : ConvFtl :=
  let credits := f.wfc.writeCredits
  { f with wfc := { f.wfc with writeCredits := if credits = 0 then 2 ^ 32 - 1 else credits - 1 } }

/-- `check_and_refill_write_credit`. -/
def checkAndRefillWriteCredit : Except Fault ConvFtl := do
  if f.wfc.writeCredits = 0 then
    let f ← f.forgroundGc
    let credits := u32 (f.wfc.writeCredits + f.wfc.creditsToRefill)
    return { f with wfc := { f.wfc with writeCredits := credits } }
  return f

end ConvFtl

end NvmeVirt
