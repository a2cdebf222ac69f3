/-
# The invariant of an FTL instance

The history decides how far each block is written; the page states, the
counters of blocks and lines, the homes of the lines and the write pointers all
agree with it (`Sound`), and the mapping table and the reverse table are inverse
to each other on the live pages (`MapOk`).  `front d l` is the number of pages
of the block of line `l` on die `d` that are written; `vs` is the line a running
collection holds, `stale` the pages it has already copied.
-/

import NvmeVirt.ConvFtl.Lines
import NvmeVirt.ConvFtl.Write
import NvmeVirt.Ssd.Blocks
import NvmeVirt.Lib.Inverse

namespace NvmeVirt

open Outcome Inverse

/-! ### The history -/

/-- The pages of a block handed out since its last erase, oldest first. -/
def handedOut (a : BlkAddr) : List FlashEv → List ℕ
  | [] => []
  | .handOut _ _ p :: log =>
    if p.blkAddr = a then handedOut a log ++ [p.pg] else handedOut a log
  | .erase b :: log => if b = a then [] else handedOut a log
  | .victim _ :: log => handedOut a log

/-- The pages a write pointer handed out, newest first. -/
def handOuts (io : IoType) : List FlashEv → List Ppa
  | [] => []
  | .handOut io' _ p :: log => if io' = io then p :: handOuts io log else handOuts io log
  | _ :: log => handOuts io log

/-- Every block is handed out page by page in increasing order, and erased only when all its pages
have been handed out. -/
def HistoryOk (spp : Ssdparams) : List FlashEv → Prop
  | [] => True
  | .handOut _ _ p :: log =>
    handedOut p.blkAddr log = List.range p.pg ∧ p.pg < spp.pgsPerBlk ∧ HistoryOk spp log
  | .erase a :: log => handedOut a log = List.range spp.pgsPerBlk ∧ HistoryOk spp log
  | .victim _ :: log => HistoryOk spp log

/-- After a page that does not complete a one-shot page comes the next page of the block. -/
def Follows (spp : Ssdparams) (new old : Ppa) : Prop :=
  (old.pg + 1) % spp.pgsPerOneshotpg ≠ 0 → new = { old with pg := old.pg + 1 }

/-! ### Blocks and lines -/

/-- Every block is written as far as `front` says, which is what the history says. -/
def NandOk (ssd : Ssd) (log : List FlashEv) (front : ℕ × ℕ → ℕ → ℕ) : Prop :=
  ∀ d ∈ ssd.sp.dies, ∀ l, l < ssd.sp.blksPerPl →
    BlockOk ssd.sp (ssd.blk (blockAt d l)) (front d l) ∧
      handedOut (blockAt d l) log = List.range (front d l)

/-- The counters of a line are the sums over its blocks, except for the lines in `vs`. -/
def LineStats (ssd : Ssd) (lines : ℕ → Line) (vs : List ℕ) : Prop :=
  ∀ l, l < ssd.sp.blksPerPl → l ∉ vs →
    (lines l).vpc = ∑ d ∈ ssd.sp.dies, (ssd.blk (blockAt d l)).vpc ∧
      (lines l).ipc = ∑ d ∈ ssd.sp.dies, (ssd.blk (blockAt d l)).ipc

/-- How far the collection's line is written on each die: whole rows of one-shot pages, one die
after the other. -/
def gcFront (spp : Ssdparams) (wp : WritePointer) (d : ℕ × ℕ) : ℕ :=
  let row := wp.pg / spp.pgsPerOneshotpg * spp.pgsPerOneshotpg
  if d.2 < wp.lun ∨ d.2 = wp.lun ∧ d.1 < wp.ch then row + spp.pgsPerOneshotpg
  else if d = (wp.ch, wp.lun) then wp.pg
  else row

/-- The page counters by die. -/
def userFront (spp : Ssdparams) (pageCounter : ℕ → ℕ) (d : ℕ × ℕ) : ℕ :=
  pageCounter (spp.dieIdx d.1 d.2)

/-- A write pointer stands on a page of its line, which is written on each die as far as `cnt`
says. -/
structure WpOk (spp : Ssdparams) (wp : WritePointer) (cnt : ℕ × ℕ → ℕ)
    (front : ℕ × ℕ → ℕ → ℕ) : Prop where
  blk : wp.blk = wp.curline
  pl : wp.pl = 0
  die : (wp.ch, wp.lun) ∈ spp.dies
  front : ∀ d ∈ spp.dies, front d wp.curline = cnt d
  pg : wp.pg = cnt (wp.ch, wp.lun)
  room : 0 < spp.pgsPerBlk → wp.pg < spp.pgsPerBlk

/-- The page under a write pointer. -/
def WritePointer.page (wp : WritePointer) : Ppa := pageAt (wp.ch, wp.lun) wp.curline wp.pg

namespace ConvFtl

/-- How far the line of a write pointer is written on each die, by the driver's own bookkeeping. -/
def written (f : ConvFtl) : IoType → ℕ × ℕ → ℕ
  | .user => userFront f.ssd.sp f.pageCounter
  | .gc => gcFront f.ssd.sp f.gcWp

/-- **Pages, blocks, lines and write pointers agree with the history.** -/
structure Sound (f : ConvFtl) (vs : List ℕ) (front : ℕ × ℕ → ℕ → ℕ) : Prop where
  geom : f.ssd.sp.Geometry
  homed : f.lm.Homed f.ssd.sp.blksPerPl (f.wp.curline :: f.gcWp.curline :: vs)
  nand : NandOk f.ssd f.log front
  stats : LineStats f.ssd f.lm.lines vs
  ptr : ∀ io, WpOk f.ssd.sp (f.getWp io) (f.written io) front
  free : ∀ l ∈ f.lm.freeLineList, ∀ d ∈ f.ssd.sp.dies, front d l = 0
  closed : ∀ l, f.lm.Closed l → ∀ d ∈ f.ssd.sp.dies, front d l = f.ssd.sp.pgsPerBlk
  history : HistoryOk f.ssd.sp f.log
  run : ∀ io, ((f.getWp io).page :: handOuts io f.log).IsChain (Follows f.ssd.sp)

/-- The mapping table; the marker `UNMAPPED_PPA` is no entry. -/
def table (f : ConvFtl) (lpn : ℕ) : Option Ppa :=
  if mappedPpa (f.maptbl lpn) then some (f.maptbl lpn) else none

/-- A page of the geometry that holds the only copy of a logical page. -/
def Live (f : ConvFtl) (stale : Finset Ppa) (p : Ppa) : Prop :=
  f.ssd.sp.validPpa p ∧ p.rsv = 0 ∧ (f.ssd.getPg p).status = .valid ∧ p ∉ stale

/-- **The table `m` and the reverse table are inverse to each other.** -/
def MapOk (f : ConvFtl) (m : ℕ → Option Ppa) (stale : Finset Ppa) : Prop :=
  IsInverse (· < f.ssd.sp.ttPgs) m (fun p => f.rmap (f.ssd.sp.pgidx p)) (f.Live stale)

/-- Every logical page written is mapped. -/
def WrittenMapped (f : ConvFtl) : Prop :=
  ∀ io lpn p, FlashEv.handOut io lpn p ∈ f.log → lpn < f.ssd.sp.ttPgs ∧ (f.table lpn).isSome

/-- **No reverse entry is stale:** the logical page it names is mapped to that page. -/
def ReverseCurrent (f : ConvFtl) : Prop :=
  ∀ i, i < f.ssd.sp.ttPgs → f.rmap i ≠ invalidLpn →
    f.rmap i < f.ssd.sp.ttPgs ∧ mappedPpa (f.maptbl (f.rmap i)) ∧
      f.ssd.sp.pgidx (f.maptbl (f.rmap i)) = i

/-- The reverse table names only mapped logical pages. -/
def RmapNames (f : ConvFtl) : Prop :=
  ∀ i, i < f.ssd.sp.ttPgs → f.rmap i ≠ invalidLpn →
    f.rmap i < f.ssd.sp.ttPgs ∧ (f.table (f.rmap i)).isSome

/-- The pages collections have copied so far. -/
def gcCopies (f : ConvFtl) : ℕ := (handOuts .gc f.log).length

/-- **The invariant between two page writes.** -/
structure Inv (f : ConvFtl) : Prop where
  sound : ∃ front, f.Sound [] front
  map : f.MapOk f.table ∅
  written : f.WrittenMapped

end ConvFtl

end NvmeVirt
