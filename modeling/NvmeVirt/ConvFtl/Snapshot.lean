/-
# Snapshots of a conventional device

`save_device` and `load_device` of `save_load.c`.  For each instance the file has
its blocks and pages, the write pointers, the two tables, the page counters, the
lines, the victim queue and the two lists of lines, each field a section of its
own, and then a record of 4 KiB for each entry of the reverse table that names a
logical page.  A pointer to a line is saved as the id of the line.

`lineAddr` is where the lines are in memory, `fresh` what newly allocated memory
and unset local variables hold.  `posRoom` is what the compiler makes of the stack
frame of `load_device`: the number of bytes from the `int pos` on in which no other
object lies.  The history of an instance is not in the file; it comes with it as
`logs`.
-/

import NvmeVirt.Io.Sections
import NvmeVirt.ConvFtl.Read
import NvmeVirt.ConvFtl.Cleaner

namespace NvmeVirt

open LittleEndian Loader

/-! ### Structures in memory -/

/-- The number of a page status. -/
def PgStatus.code : PgStatus → ℕ
  | .free => 0
  | .invalid => 1
  | .valid => 2

/-- The page status of a number. -/
def PgStatus.ofCode : ℕ → Option PgStatus
  | 0 => some .free
  | 1 => some .invalid
  | 2 => some .valid
  | _ => none

/-- A `struct ppa` in memory: the bit fields from the lowest on. -/
def Ppa.bytes (p : Ppa) : List UInt8 :=
  leBytes 2 p.pg ++ (leBytes 2 p.blk ++ (leBytes 1 p.pl ++ (leBytes 1 p.lun ++
    (leBytes 1 p.ch ++ leBytes 1 p.rsv))))

/-- A `struct ppa` read from memory. -/
def Ppa.ofBytes (bs : List UInt8) : Ppa where
  pg := leNat (bs.take 2)
  blk := leNat ((bs.drop 2).take 2)
  pl := leNat ((bs.drop 4).take 1)
  lun := leNat ((bs.drop 5).take 1)
  ch := leNat ((bs.drop 6).take 1)
  rsv := leNat ((bs.drop 7).take 1)

/-- A `struct write_pointer` in memory, its padding zero. -/
def WritePointer.bytes (lineAddr : ℕ → ℕ) (wp : WritePointer) : List UInt8 :=
  leBytes 8 (lineAddr wp.curline) ++ (leBytes 4 wp.ch ++ (leBytes 4 wp.lun ++ (leBytes 4 wp.pg ++
    (leBytes 4 wp.blk ++ (leBytes 4 wp.pl ++ leBytes 4 0)))))

/-- A `struct write_pointer` read from memory, its pointer replaced. -/
def WritePointer.ofBytes (curline : ℕ) (bs : List UInt8) : WritePointer where
  curline := curline
  ch := leNat ((bs.drop 8).take 4)
  lun := leNat ((bs.drop 12).take 4)
  pg := leNat ((bs.drop 16).take 4)
  blk := leNat ((bs.drop 20).take 4)
  pl := leNat ((bs.drop 24).take 4)

/-- A conventional namespace and the storage behind it.  `removed` is set while the tables of the
instances are freed. -/
structure ConvDevice where
  ns : ConvNs
  storageSize : ℕ
  storage : Mem
  removed : Bool

/-! ### Saving -/

/-- `ssd_write_pg`, section by section. -/
def ssdWritePg (pg : NandPage) : List (List UInt8) :=
  [leBytes 4 pg.nsecs, leBytes 4 pg.status.code, words 4 pg.nsecs fun i => pg.sec.getD i 0]

/-- `ssd_write_blk`. -/
def ssdWriteBlk (blk : NandBlock) : List (List UInt8) :=
  [leBytes 4 blk.npgs, leBytes 4 blk.ipc, leBytes 4 blk.vpc, leBytes 4 blk.eraseCnt,
    leBytes 4 blk.wp] ++ (List.range blk.npgs).flatMap fun i => ssdWritePg (blk.pg i)

/-- `ssd_write_pl`. -/
def ssdWritePl (spp : Ssdparams) (pl : ℕ → NandBlock) : List (List UInt8) :=
  (List.range spp.blksPerPl).flatMap fun i => ssdWriteBlk (pl i)

/-- `ssd_write_lun`. -/
def ssdWriteLun (spp : Ssdparams) (lun : ℕ → ℕ → NandBlock) : List (List UInt8) :=
  (List.range spp.plsPerLun).flatMap fun i => ssdWritePl spp (lun i)

/-- `ssd_write_ch`. -/
def ssdWriteCh (spp : Ssdparams) (ch : ℕ → ℕ → ℕ → NandBlock) : List (List UInt8) :=
  (List.range spp.lunsPerCh).flatMap fun i => ssdWriteLun spp (ch i)

/-- The nested arrays of the blocks. -/
def Ssd.ch (ssd : Ssd) (ch lun pl blk : ℕ) : NandBlock := ssd.blk ⟨ch, lun, pl, blk⟩

/-- `ssd_write_ch` of all channels. -/
def ssdWriteChs (ssd : Ssd) : List (List UInt8) :=
  (List.range ssd.sp.nchs).flatMap fun i => ssdWriteCh ssd.sp (ssd.ch i)

/-- The sections of one line. -/
def lineSections (line : Line) : List (List UInt8) :=
  [leBytes 4 line.id, leBytes 4 line.ipc, leBytes 4 line.vpc, leBytes 8 line.pos]

/-- The sections of the lines, the victim queue and the two lists. -/
def LineMgmt.sections (lm : LineMgmt) : List (List UInt8) :=
  [leBytes 4 lm.ttLines, leBytes 4 lm.freeLineCnt, leBytes 4 lm.victimLineCnt,
    leBytes 4 lm.fullLineCnt] ++
  ((List.range lm.ttLines).flatMap (fun i => lineSections (lm.lines i)) ++
  ([leBytes 8 lm.victimLinePq.size, leBytes 8 lm.victimLinePq.avail,
    leBytes 8 lm.victimLinePq.step] ++
  ((List.range lm.victimLineCnt).map (fun i =>
    leBytes 4 (lm.lines (lm.victimLinePq.d (i + 1))).id) ++
  (lm.freeLineList.map (fun l => leBytes 4 (lm.lines l).id) ++
  lm.fullLineList.map (fun l => leBytes 4 (lm.lines l).id)))))

namespace ConvFtl

variable (f : ConvFtl)

/-- The sections of an instance before its records. -/
def sections (lineAddr : ℕ → ℕ) : List (List UInt8) :=
  ssdWriteChs f.ssd ++
  ([f.wp.bytes lineAddr, leBytes 4 (f.lm.lines f.wp.curline).id, f.gcWp.bytes lineAddr,
    leBytes 4 (f.lm.lines f.gcWp.curline).id,
    (List.range f.ssd.sp.ttPgs).flatMap fun i => (f.maptbl i).bytes,
    words 8 f.ssd.sp.ttPgs f.rmap,
    words 8 (f.ssd.sp.nchs * f.ssd.sp.lunsPerCh) f.pageCounter] ++
  f.lm.sections)

/-- The logical pages the records are of, in order. -/
def recordLpns : List ℕ :=
  ((List.range f.ssd.sp.ttPgs).filter fun i => f.rmap i ≠ invalidLpn).map f.rmap

end ConvFtl

/-- Where the storage has page `lpn` of instance `q`. -/
def recordAddr (nrParts q lpn : ℕ) : ℕ := u64 (((lpn * nrParts + q) * 8) <<< 9)

/-- `cur < PAGE_SIZE`, an `int` compared with an `unsigned long`. -/
def inPage (cur : ℤ) : Prop := cur % 2 ^ 64 < pageSize

instance (cur : ℤ) : Decidable (inPage cur) := inferInstanceAs (Decidable (_ < _))

/-- The records of the logical pages `lpns`. -/
def saveRecords (calls : FileCalls) (fuel nrParts q : ℕ) :
    List ℕ → Copying → Copying × LoopEnd
  | [], s => (s, .done)
  | lpn :: lpns, s =>
    match copyLoop inPage false (copyOut calls (recordAddr nrParts q lpn) pageSize) fuel 0 s with
    | (s, .done) => saveRecords calls fuel nrParts q lpns s
    | r => r

namespace ConvDevice

variable (calls : FileCalls) (fuel : ℕ) (lineAddr : ℕ → ℕ) (d : ConvDevice)

/-- The part of the file instance `q` writes. -/
def savePart (q : ℕ) (s : Copying) : Copying × LoopEnd :=
  saveRecords calls fuel d.ns.nrParts q (d.ns.ftls q).recordLpns
    { s with file := s.file.writeSections calls ((d.ns.ftls q).sections lineAddr) }

/-- The instances one after the other. -/
def saveParts : List ℕ → Copying → Copying × LoopEnd
  | [], s => (s, .done)
  | q :: qs, s =>
    match d.savePart calls fuel lineAddr q s with
    | (s, .done) => saveParts qs s
    | r => r

/-- **`save_device`** on the result of `filp_open`. -/
def saveDevice : Except ℤ Unit → OpenFile × CallEnd
  | .error _ => ({ bytes := [] }, .returns (-1))
  | .ok () =>
    match d.saveParts calls fuel lineAddr (List.range d.ns.nrParts)
      { file := { bytes := [] }, mem := d.storage } with
    | (s, .done) => (s.file, .returns 0)
    | (s, _) => (s.file, .running)

end ConvDevice

/-! ### Loading -/

section

variable (calls : FileCalls) (fuel : ℕ) (fresh : ℕ → UInt8) (posRoom : ℕ)

/-- Newly allocated memory. -/
def freshBytes (n : ℕ) : List UInt8 := (List.range n).map fresh

/-- `ssd_read_pg`. -/
def ssdReadPg (pg : NandPage) : Loader NandPage := do
  let nsecs ← number calls 4 pg.nsecs
  let code ← number calls 4 pg.status.code
  let status ← found (PgStatus.ofCode code)
  within (nsecs < 2 ^ 31)
  let sec ← readInto calls (freshBytes fresh (4 * nsecs))
  return { sec := (List.range nsecs).map (wordAt 4 sec), nsecs := nsecs, status := status }

/-- `ssd_read_blk`; the block has `room` pages. -/
def ssdReadBlk (room : ℕ) (blk : NandBlock) : Loader NandBlock := do
  let npgs ← number calls 4 blk.npgs
  let ipc ← number calls 4 blk.ipc
  let vpc ← number calls 4 blk.vpc
  let eraseCnt ← number calls 4 blk.eraseCnt
  let wp ← number calls 4 blk.wp
  within (npgs ≤ room)
  let pg ← array npgs (fun i pg => ssdReadPg calls fresh (pg i)) blk.pg
  return { pg := pg, npgs := npgs, ipc := ipc, vpc := vpc, eraseCnt := eraseCnt, wp := wp }

/-- `ssd_read_pl`. -/
def ssdReadPl (spp : Ssdparams) (pl : ℕ → NandBlock) : Loader (ℕ → NandBlock) :=
  array spp.blksPerPl (fun i pl => ssdReadBlk calls fresh spp.pgsPerBlk (pl i)) pl

/-- `ssd_read_lun`. -/
def ssdReadLun (spp : Ssdparams) (lun : ℕ → ℕ → NandBlock) : Loader (ℕ → ℕ → NandBlock) :=
  array spp.plsPerLun (fun i lun => ssdReadPl calls fresh spp (lun i)) lun

/-- `ssd_read_ch`. -/
def ssdReadCh (spp : Ssdparams) (ch : ℕ → ℕ → ℕ → NandBlock) :
    Loader (ℕ → ℕ → ℕ → NandBlock) :=
  array spp.lunsPerCh (fun i ch => ssdReadLun calls fresh spp (ch i)) ch

/-- `ssd_read_ch` of all channels. -/
def ssdReadChs (ssd : Ssd) : Loader Ssd := do
  let ch ← array ssd.sp.nchs (fun i ch => ssdReadCh calls fresh ssd.sp (ch i)) ssd.ch
  return { ssd with blk := fun a => ch a.ch a.lun a.pl a.blk }

/-- One line: its fields are read into local variables, which keep what a read leaves out.  `pos`
is an `int`, and eight bytes are read into it. -/
def loadLine (locals : Line) : Loader Line := do
  let id ← number calls 4 locals.id
  let ipc ← number calls 4 locals.ipc
  let vpc ← number calls 4 locals.vpc
  let pos ← numberOnStack calls posRoom 8 locals.pos
  return { id := id, ipc := ipc, vpc := vpc, pos := (asInt pos % 2 ^ 64).toNat }

/-- The first line with an id. -/
def lineOf (lines : ℕ → Line) (ttLines id : ℕ) : Option ℕ :=
  (List.range ttLines).find? fun w => (lines w).id = id

/-- The local variables before the first line. -/
def freshLine : Line where
  id := wordAt 4 (freshBytes fresh 4) 0
  ipc := wordAt 4 (freshBytes fresh 4) 0
  vpc := wordAt 4 (freshBytes fresh 4) 0
  pos := wordAt 4 (freshBytes fresh 4) 0

/-- The lines with the ids of an array of `n` words. -/
def linesOf (lines : ℕ → Line) (ttLines n : ℕ) (ids : List UInt8) : List ℕ :=
  (List.range n).filterMap fun i => lineOf lines ttLines (wordAt 4 ids i)

/-- The heap of the victim queue from the ids of its `n` lines. -/
def loadVictims (lines : ℕ → Line) (ttLines n : ℕ) (ids : List UInt8) (pq : Pqueue ℕ) : Pqueue ℕ :=
  (List.range n).foldl (fun pq i =>
    match lineOf lines ttLines (wordAt 4 ids i) with
    | some w => pq.pqueueChangeData (i + 1) w
    | none => pq) pq

/-- The lines, the victim queue and the two lists; the queue has room for `room` lines. -/
def loadLines (room : ℕ) (lm : LineMgmt) : Loader LineMgmt := do
  let ttLines ← number calls 4 lm.ttLines
  let freeLineCnt ← number calls 4 lm.freeLineCnt
  let victimLineCnt ← number calls 4 lm.victimLineCnt
  let fullLineCnt ← number calls 4 lm.fullLineCnt
  let lines ← array ttLines (fun i lines =>
    loadLine calls posRoom (if i = 0 then freshLine fresh else lines (i - 1))) lm.lines
  let pq : Pqueue ℕ := Pqueue.pqueueInit room
  let size ← number calls 8 pq.size
  let avail ← number calls 8 pq.avail
  let step ← number calls 8 pq.step
  within (victimLineCnt ≤ room ∧ freeLineCnt ≤ ttLines ∧ fullLineCnt ≤ ttLines)
  let array ← readInto calls (List.replicate (4 * victimLineCnt) 0)
  let freeLineId ← readInto calls (List.replicate (4 * freeLineCnt) 0)
  let fullLineId ← readInto calls (List.replicate (4 * fullLineCnt) 0)
  return {
    lines := lines
    freeLineList := linesOf lines ttLines freeLineCnt freeLineId
    victimLinePq := loadVictims lines ttLines victimLineCnt array
      { pq with size := size, avail := avail, step := step }
    fullLineList := linesOf lines ttLines fullLineCnt fullLineId
    ttLines := ttLines
    freeLineCnt := freeLineCnt
    victimLineCnt := victimLineCnt
    fullLineCnt := fullLineCnt }

/-- The records of the logical pages `lpns`. -/
def loadRecords (nrParts q : ℕ) : List ℕ → Loader Unit
  | [] => return ()
  | lpn :: lpns => do
    fun s =>
      match copyLoop inPage false (copyIn calls lpn (recordAddr nrParts q lpn) pageSize) fuel 0 s with
      | (s, .done) => .ok ((), s)
      | _ => .error .running
    loadRecords nrParts q lpns

/-- The part of the file of instance `q`; the history comes with it.  A write pointer whose line is
not found would keep the address that was saved. -/
def loadPart (lineAddr : ℕ → ℕ) (nrParts : ℕ) (logs : ℕ → List FlashEv) (q : ℕ) (f : ConvFtl) :
    Loader ConvFtl := do
  let ssd ← ssdReadChs calls fresh f.ssd
  let wp ← readInto calls (f.wp.bytes lineAddr)
  let wpId ← readInto calls (freshBytes fresh 4)
  let gcWp ← readInto calls (f.gcWp.bytes lineAddr)
  let gcWpId ← readInto calls (freshBytes fresh 4)
  let maptbl ← readInto calls (freshBytes fresh (8 * f.ssd.sp.ttPgs))
  let rmap ← readInto calls (freshBytes fresh (8 * f.ssd.sp.ttPgs))
  let pageCounter ← readInto calls
    (words 8 (f.ssd.sp.nchs * f.ssd.sp.lunsPerCh) f.pageCounter)
  let lm ← loadLines calls fresh posRoom f.ssd.sp.ttLines f.lm
  let curline ← found (lineOf lm.lines lm.ttLines (wordAt 4 wpId 0))
  let gcCurline ← found (lineOf lm.lines lm.ttLines (wordAt 4 gcWpId 0))
  let f : ConvFtl := {
    f with
    ssd := ssd
    maptbl := fun i =>
      if i < f.ssd.sp.ttPgs then Ppa.ofBytes ((maptbl.drop (8 * i)).take 8) else f.maptbl i
    rmap := fun i => if i < f.ssd.sp.ttPgs then wordAt 8 rmap i else f.rmap i
    wp := WritePointer.ofBytes curline wp
    gcWp := WritePointer.ofBytes gcCurline gcWp
    lm := lm
    pageCounter := fun i =>
      if i < f.ssd.sp.nchs * f.ssd.sp.lunsPerCh then wordAt 8 pageCounter i else f.pageCounter i
    log := logs q }
  loadRecords calls fuel nrParts q f.recordLpns
  return f

end

namespace ConvDevice

variable (calls : FileCalls) (fuel : ℕ) (fresh : ℕ → UInt8) (posRoom : ℕ) (lineAddr : ℕ → ℕ)
  (logs : ℕ → List FlashEv) (d : ConvDevice)

/-- `memset_io` of the storage and `conv_remove_ftl` of every instance. -/
def removeItems : ConvDevice :=
  { d with storage := fun a => if a < d.storageSize then 0 else d.storage a, removed := true }

/-- **`load_device`** on the result of `filp_open`.  `conv_remove_ftl` frees the tables before the
file is opened; tables that are freed already it frees a second time. -/
def loadDevice (file : Except ℤ (List UInt8)) : Except LoadStop (ConvDevice × ℤ) :=
  if d.removed then .error .undefined
  else match file with
    | .error _ => .ok (d.removeItems, -1)
    | .ok bytes => do
      let (ftls, s) ← array d.ns.nrParts (fun q ftls =>
        loadPart calls fuel fresh posRoom lineAddr d.ns.nrParts logs q (ftls q)) d.ns.ftls
        { file := { bytes := bytes }, mem := d.removeItems.storage }
      .ok ({ d.removeItems with ns.ftls := ftls, storage := s.mem, removed := false }, 0)

end ConvDevice

end NvmeVirt
