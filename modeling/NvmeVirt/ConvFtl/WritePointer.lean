/-
# Moving the write pointers

`advance_write_pointer` and `advance_write_pointer_cleanver` of `conv_ftl.c`.
The two walks over the dies, the two resets of the page counters and the three
ends of a used-up line are the same text in the source; here each is one
definition, told apart by the function whose asserts it holds.
-/

import NvmeVirt.ConvFtl.State

namespace NvmeVirt

open Outcome

/-- The next die: channels first, then dies of a channel, then around. -/
def Ssdparams.nextDie (spp : Ssdparams) (ch lun : ℕ) : ℕ × ℕ :=
  if ch + 1 = spp.nchs then
    if lun + 1 = spp.lunsPerCh then (0, 0) else (0, lun + 1)
  else (ch + 1, lun)

/-- The index of a die in `page_counter`. -/
def Ssdparams.dieIdx (spp : Ssdparams) (ch lun : ℕ) : ℕ := ch * spp.lunsPerCh + lun

/-- The `do … while` over the dies: the next die with a page left in the
current line, or `none` back at the die it started from.  The walk visits
`nchs * luns_per_ch` dies at most. -/
def walkDies (spp : Ssdparams) (cnt : ℕ → ℕ) (startCh startLun : ℕ) :
    ℕ → ℕ × ℕ → Except Fault (Option (ℕ × ℕ))
  | 0, _ => .ok none
  | fuel + 1, (ch, lun) => do
    checkAddr ch spp.nchs
    if ch + 1 = spp.nchs then checkAddr lun spp.lunsPerCh
    let die := spp.nextDie ch lun
    if cnt (spp.dieIdx die.1 die.2) < spp.pgsPerBlk then .ok (some die)
    else if die = (startCh, startLun) then .ok none
    else walkDies spp cnt startCh startLun fuel die

/-- The reset of the page counters of a used-up line. -/
def resetPageCounter (fn : Fn) (spp : Ssdparams) (cnt : ℕ → ℕ) : Except Fault (ℕ → ℕ) :=
  forRange spp.nchs (fun i cnt =>
    forRange spp.lunsPerCh (fun j cnt => do
      nvmevAssert fn (cnt (spp.dieIdx i j) = spp.pgsPerBlk)
      .ok (Function.update cnt (spp.dieIdx i j) 0)) cnt) cnt

/-- A used-up line goes to the full list or to the victim queue. -/
def LineMgmt.retireLine (lm : LineMgmt) (fn : Fn) (spp : Ssdparams) (l : ℕ) :
    Except Fault LineMgmt :=
  let line := lm.lines l
  if line.vpc = spp.pgsPerLine then do
    nvmevAssert fn (line.ipc = 0)
    .ok { lm with fullLineList := lm.fullLineList ++ [l], fullLineCnt := lm.fullLineCnt + 1 }
  else do
    nvmevAssert fn (line.vpc < spp.pgsPerLine)
    nvmevAssert fn (0 < line.ipc)
    defined (lm.victimLinePq.size < lm.victimLinePq.avail)
    let (pq, lines) := Pqueue.pqueueInsert victimOps lm.victimLinePq lm.lines l
    .ok { lm with victimLinePq := pq, lines := lines, victimLineCnt := lm.victimLineCnt + 1 }

/-- `get_next_free_line` where the caller reads through the result. -/
def LineMgmt.takeFreeLine (lm : LineMgmt) : Except Fault (ℕ × LineMgmt) :=
  match lm.getNextFreeLine with
  | none => .error .noFreeLine
  | some r => .ok r

namespace ConvFtl

variable (f : ConvFtl)

/-- The label `out`: `wpp->pg = page_counter[die]`. -/
def syncPg : ConvFtl :=
  { f with wp := { f.wp with pg := f.pageCounter (f.ssd.sp.dieIdx f.wp.ch f.wp.lun) } }

/-- The user write pointer leaves its die: to the next die with a page left, or
to a free line. -/
def leaveDie (fn : Fn) : Except Fault ConvFtl := do
  let spp := f.ssd.sp
  let found ← walkDies spp f.pageCounter f.wp.ch f.wp.lun (spp.nchs * spp.lunsPerCh)
    (f.wp.ch, f.wp.lun)
  match found with
  | some (ch, lun) => .ok { f with wp := { f.wp with ch := ch, lun := lun } }.syncPg
  | none => do
    let cnt ← resetPageCounter fn spp f.pageCounter
    let lm ← f.lm.retireLine fn spp f.wp.curline
    checkAddr f.wp.blk spp.blksPerPl
    let (l, lm) ← lm.takeFreeLine
    let blk := (lm.lines l).id
    checkAddr blk spp.blksPerPl
    nvmevAssert fn (cnt 0 = 0)
    .ok { f with
      pageCounter := cnt
      lm := lm
      wp := { f.wp with curline := l, blk := blk, ch := 0, lun := 0, pl := 0 } }.syncPg

/-- The branch of `advance_write_pointer` for `USER_IO`. -/
def advanceUser : Except Fault ConvFtl := do
  let spp := f.ssd.sp
  let idx := spp.dieIdx f.wp.ch f.wp.lun
  checkAddr (f.pageCounter idx) spp.pgsPerBlk
  let f := { f with pageCounter := Function.update f.pageCounter idx (f.pageCounter idx + 1) }
  if f.pageCounter idx % spp.pgsPerOneshotpg ≠ 0 then .ok f.syncPg
  else f.leaveDie .advanceWritePointer

/-- The branch of `advance_write_pointer` for `GC_IO`. -/
def advanceGc : Except Fault ConvFtl := do
  let spp := f.ssd.sp
  let wpp := f.gcWp
  checkAddr wpp.pg spp.pgsPerBlk
  let wpp := { wpp with pg := wpp.pg + 1 }
  if wpp.pg % spp.pgsPerOneshotpg ≠ 0 then return { f with gcWp := wpp }
  let wpp := { wpp with pg := wpp.pg - spp.pgsPerOneshotpg }
  checkAddr wpp.ch spp.nchs
  let wpp := { wpp with ch := wpp.ch + 1 }
  if wpp.ch ≠ spp.nchs then return { f with gcWp := wpp }
  let wpp := { wpp with ch := 0 }
  checkAddr wpp.lun spp.lunsPerCh
  let wpp := { wpp with lun := wpp.lun + 1 }
  if wpp.lun ≠ spp.lunsPerCh then return { f with gcWp := wpp }
  let wpp := { wpp with lun := 0, pg := wpp.pg + spp.pgsPerOneshotpg }
  if wpp.pg ≠ spp.pgsPerBlk then return { f with gcWp := wpp }
  let wpp := { wpp with pg := 0 }
  let lm ← f.lm.retireLine .advanceWritePointer spp wpp.curline
  checkAddr wpp.blk spp.blksPerPl
  let (l, lm) ← lm.takeFreeLine
  let wpp := { wpp with curline := l, blk := (lm.lines l).id }
  checkAddr wpp.blk spp.blksPerPl
  nvmevAssert .advanceWritePointer (wpp.pl = 0)
  return { f with lm := lm, gcWp := wpp }

/-- `advance_write_pointer`. -/
def advanceWritePointer : IoType → Except Fault ConvFtl
  | .user => f.advanceUser
  | .gc => f.advanceGc

end ConvFtl

/-- `struct rewrite_pointer`; a field the source leaves unset is `none`. -/
structure RewritePointer where
  ch : ℤ
  lun : ℤ
  startpoint : Option ℕ
  preempt : Option Bool
  preemptCounter : Option ℕ
  deriving DecidableEq, Repr

/-- What `advance_write_pointer_cleanver` decides at the end of a one-shot page:
whether to stay on the die, the new `*conti`, and whether the chunk gives up its
turn here. -/
structure CleanverTurn where
  stay : Bool
  conti : ℤ
  suspend : Bool
  deriving DecidableEq, Repr

/-- The decision of `advance_write_pointer_cleanver`.  `room` says that the die
has a page left, `random` is the result of `get_random_int`. -/
def cleanverTurn (spp : Ssdparams) (degree : ℕ) (counter conti : ℤ) (final room : Bool)
    (random : ℕ) : CleanverTurn :=
  let budget : ℤ := 16 * spp.pgsPerOneshotpg
  if final then ⟨false, conti, false⟩
  else if 0 ≤ conti then
    let conti := if conti + 1 ≥ spp.maxCon then -1 else conti + 1
    if counter ≥ budget then ⟨false, conti, true⟩
    else if room then ⟨true, conti, false⟩
    else ⟨false, conti - 1, false⟩
  else if random % 100 < degree then
    if counter ≥ budget then ⟨false, 0, true⟩
    else ⟨room, 0, false⟩
  else ⟨false, conti, false⟩

/-- `advance_write_pointer_cleanver`, with the new `*counter` and `*conti`. -/
def ConvFtl.advanceWritePointerCleanver (f : ConvFtl) (degree : ℕ) (counter conti : ℤ)
    (final : Bool) (random : ℕ) :
    Except Fault (ConvFtl × ℤ × ℤ × Option RewritePointer) := do
  let spp := f.ssd.sp
  let idx := spp.dieIdx f.wp.ch f.wp.lun
  checkAddr (f.pageCounter idx) spp.pgsPerBlk
  let counter := counter + 1
  let f := { f with pageCounter := Function.update f.pageCounter idx (f.pageCounter idx + 1) }
  if f.pageCounter idx % spp.pgsPerOneshotpg ≠ 0 then return (f.syncPg, counter, conti, none)
  let turn := cleanverTurn spp degree counter conti final
    (f.pageCounter idx < spp.pgsPerBlk) random
  if turn.stay then return (f.syncPg, counter, turn.conti, none)
  let r := if turn.suspend then
      some {
        ch := f.wp.ch
        lun := f.wp.lun
        startpoint := none
        preempt := none
        preemptCounter := none }
    else none
  let f ← f.leaveDie .advanceWritePointerCleanver
  return (f, counter, turn.conti, r)

end NvmeVirt
