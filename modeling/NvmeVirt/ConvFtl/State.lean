/-
# The state of one conventional FTL instance

`struct conv_ftl` and its parts (`conv_ftl.h`), the line lists and the small
accessors of `conv_ftl.c`, and `conv_init_ftl`.

A `struct line *` is the index of the line in `lm.lines`; `list_head` lists are
lists of such indices, and `list_del_init` takes a line off the list it is on.
`log` is a history variable: the model notes there every page handed out, every
victim picked and every block erased, newest first, and nothing reads it.
-/

import NvmeVirt.Ssd.Nand
import NvmeVirt.Pqueue.Basic

namespace NvmeVirt

/-- `USER_IO`, `GC_IO`. -/
inductive IoType
  | user | gc
  deriving DecidableEq, Repr

/-- `INVALID_LPN`. -/
def invalidLpn : ℕ := 2 ^ 64 - 1

/-- A `uint32_t` result. -/
def u32 (n : ℕ) : ℕ := n % 2 ^ 32

theorem u32_of_lt {n : ℕ} (h : n < 2 ^ 32) : u32 n = n := Nat.mod_eq_of_lt h

/-- `struct convparams`. -/
structure ConvParams where
  gcThresLines : ℕ
  gcThresLinesHigh : ℕ
  enableGcDelay : Bool
  pbaPcent : ℕ
  deriving DecidableEq, Repr

/-- `conv_init_params`; `pba_pcent` is `(int)((1.0 + 0.07) * 100)`. -/
def convInitParams : ConvParams where
  gcThresLines := 2
  gcThresLinesHigh := 2
  enableGcDelay := true
  pbaPcent := 107

/-- `struct line` without its list node. -/
structure Line where
  id : ℕ
  ipc : ℕ
  vpc : ℕ
  pos : ℕ
  deriving DecidableEq, Repr

/-- `struct write_pointer`. -/
structure WritePointer where
  curline : ℕ
  ch : ℕ
  lun : ℕ
  pg : ℕ
  blk : ℕ
  pl : ℕ
  deriving DecidableEq, Repr

/-- `struct line_mgmt`. -/
structure LineMgmt where
  lines : ℕ → Line
  freeLineList : List ℕ
  victimLinePq : Pqueue ℕ
  fullLineList : List ℕ
  ttLines : ℕ
  freeLineCnt : ℕ
  victimLineCnt : ℕ
  fullLineCnt : ℕ

/-- `struct write_flow_control`. -/
structure WriteFlowControl where
  writeCredits : ℕ
  creditsToRefill : ℕ
  deriving DecidableEq, Repr

/-- An entry of the history of an FTL instance. -/
inductive FlashEv
  /-- `get_new_page` handed out the page `p` for the logical page `lpn`. -/
  | handOut (io : IoType) (lpn : ℕ) (p : Ppa)
  /-- `do_gc` picked a line. -/
  | victim (line : ℕ)
  /-- `mark_block_free` erased a block. -/
  | erase (a : BlkAddr)
  deriving DecidableEq, Repr

/-- `struct conv_ftl`, with its history. -/
structure ConvFtl where
  ssd : Ssd
  cp : ConvParams
  maptbl : ℕ → Ppa
  rmap : ℕ → ℕ
  wp : WritePointer
  gcWp : WritePointer
  lm : LineMgmt
  wfc : WriteFlowControl
  pageCounter : ℕ → ℕ
  log : List FlashEv

/-- `victim_line_cmp_pri` and the accessors of `struct line` given to the queue. -/
def victimOps : PqueueOps (ℕ → Line) ℕ where
  cmppri next curr := curr < next
  getpri lines l := (lines l).vpc
  setpri lines l pri := Function.update lines l { lines l with vpc := pri }
  getpos lines l := (lines l).pos
  setpos lines l pos := Function.update lines l { lines l with pos := pos }

/-- `check_addr`. -/
def checkAddr (a max : ℕ) : Except Fault Unit := nvmevAssert .checkAddr (a < max)

namespace LineMgmt

/-- `list_del_init(&line->entry)`. -/
def listDelInit (lm : LineMgmt) (l : ℕ) : LineMgmt :=
  { lm with freeLineList := lm.freeLineList.erase l, fullLineList := lm.fullLineList.erase l }

/-- A store to `lines[l]`. -/
def setLine (lm : LineMgmt) (l : ℕ) (line : Line) : LineMgmt :=
  { lm with lines := Function.update lm.lines l line }

/-- `get_next_free_line`. -/
def getNextFreeLine (lm : LineMgmt) : Option (ℕ × LineMgmt) :=
  match lm.freeLineList with
  | [] => none
  | l :: _ => some (l, { lm.listDelInit l with freeLineCnt := lm.freeLineCnt - 1 })

end LineMgmt

/-- `init_lines`. -/
def initLines (spp : Ssdparams) : Except Fault LineMgmt := do
  let ttLines := spp.blksPerPl
  nvmevAssert .initLines (ttLines = spp.ttLines)
  .ok {
    lines := fun i => { id := i, ipc := 0, vpc := 0, pos := 0 }
    freeLineList := List.range ttLines
    victimLinePq := Pqueue.pqueueInit spp.ttLines
    fullLineList := []
    ttLines := ttLines
    freeLineCnt := ttLines
    victimLineCnt := 0
    fullLineCnt := 0 }

/-- `prepare_write_pointer`: the write pointer starts on a free line. -/
def prepareWritePointer (lm : LineMgmt) : Except Fault (WritePointer × LineMgmt) :=
  match lm.getNextFreeLine with
  | none => .error (.bug .prepareWritePointer)
  | some (l, lm) =>
    .ok ({ curline := l, ch := 0, lun := 0, pg := 0, blk := (lm.lines l).id, pl := 0 }, lm)

/-- `conv_init_ftl`, with the `page_counter` array `conv_init_namespace`
allocates next.  `init_maptbl` and `init_rmap` count up to `tt_pgs` in an `int`. -/
def convInitFtl (cpp : ConvParams) (ssd : Ssd) : Except Fault ConvFtl := do
  defined (ssd.sp.ttPgs < 2 ^ 31)
  let lm ← initLines ssd.sp
  let (wp, lm) ← prepareWritePointer lm
  let (gcWp, lm) ← prepareWritePointer lm
  .ok {
    ssd := ssd
    cp := cpp
    maptbl := fun _ => unmappedPpa
    rmap := fun _ => invalidLpn
    wp := wp
    gcWp := gcWp
    lm := lm
    wfc := { writeCredits := u32 ssd.sp.pgsPerLine, creditsToRefill := u32 ssd.sp.pgsPerLine }
    pageCounter := fun _ => 0
    log := [] }

namespace ConvFtl

variable (f : ConvFtl)

/-- `__get_wp`. -/
def getWp : IoType → WritePointer
  | .user => f.wp
  | .gc => f.gcWp

/-- `get_pg` or `get_blk` at `p`; outside the geometry they read outside the arrays. -/
def accessPpa (p : Ppa) : Except Fault Unit := defined (f.ssd.sp.validPpa p)

/-- Note an event in the history. -/
def note (e : FlashEv) : ConvFtl := { f with log := e :: f.log }

/-- `should_gc_high`. -/
def shouldGcHigh : Prop := f.lm.freeLineCnt ≤ f.cp.gcThresLinesHigh

instance : Decidable f.shouldGcHigh := inferInstanceAs (Decidable (_ ≤ _))

/-- `last_pg_in_wordline`. -/
def lastPgInWordline (p : Ppa) : Prop :=
  p.pg % f.ssd.sp.pgsPerOneshotpg = f.ssd.sp.pgsPerOneshotpg - 1

instance (p : Ppa) : Decidable (f.lastPgInWordline p) := inferInstanceAs (Decidable (_ = _))

/-- `get_maptbl_ent`; past `tt_pgs` it reads outside the table. -/
def getMaptblEnt (lpn : ℕ) : Except Fault Ppa := do
  defined (lpn < f.ssd.sp.ttPgs)
  .ok (f.maptbl lpn)

/-- `set_maptbl_ent`. -/
def setMaptblEnt (lpn : ℕ) (p : Ppa) : Except Fault ConvFtl := do
  nvmevAssert .setMaptblEnt (lpn < f.ssd.sp.ttPgs)
  .ok { f with maptbl := Function.update f.maptbl lpn p }

/-- `ppa2pgidx`. -/
def ppa2pgidx (p : Ppa) : Except Fault ℕ := do
  nvmevAssert .ppa2pgidx (f.ssd.sp.pgidx p < f.ssd.sp.ttPgs)
  .ok (f.ssd.sp.pgidx p)

/-- `get_rmap_ent`. -/
def getRmapEnt (p : Ppa) : Except Fault ℕ := do
  let pgidx ← f.ppa2pgidx p
  .ok (f.rmap pgidx)

/-- `set_rmap_ent`. -/
def setRmapEnt (lpn : ℕ) (p : Ppa) : Except Fault ConvFtl := do
  let pgidx ← f.ppa2pgidx p
  .ok { f with rmap := Function.update f.rmap pgidx lpn }

/-- `get_new_page`. -/
def getNewPage (io : IoType) : Except Fault Ppa := do
  let wp := f.getWp io
  let ppa := Ppa.ofFields wp.ch wp.lun wp.pl wp.blk wp.pg
  nvmevAssert .getNewPage (ppa.pl = 0)
  .ok ppa

end ConvFtl

end NvmeVirt
