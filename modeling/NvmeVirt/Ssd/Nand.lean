/-
# NAND pages, blocks and physical page addresses

`struct ppa`, `struct nand_page`, `struct nand_block` and the accessors of
`ssd.h`; `ssd_init` and its helpers in `ssd.c`.

The nested arrays `ssd->ch[..].lun[..].pl[..].blk[..]` are one map keyed by the
block's address, and `blk->pg[..]` is a map keyed by the page number; only the
keys inside the geometry are memory the driver owns.
-/

import NvmeVirt.Ssd.Params

namespace NvmeVirt

/-- `struct ppa`: the bit fields `pg:16`, `blk:16`, `pl:8`, `lun:8`, `ch:8` and
`rsv:8` of one 64-bit word. -/
structure Ppa where
  pg : ℕ
  blk : ℕ
  pl : ℕ
  lun : ℕ
  ch : ℕ
  rsv : ℕ
  deriving DecidableEq, Repr

/-- `UNMAPPED_PPA`, all 64 bits set. -/
def unmappedPpa : Ppa := ⟨2 ^ 16 - 1, 2 ^ 16 - 1, 2 ^ 8 - 1, 2 ^ 8 - 1, 2 ^ 8 - 1, 2 ^ 8 - 1⟩

/-- `ppa.ppa = 0` followed by stores to the bit fields, each truncated to its
width. -/
def Ppa.ofFields (ch lun pl blk pg : ℕ) : Ppa :=
  ⟨pg % 2 ^ 16, blk % 2 ^ 16, pl % 2 ^ 8, lun % 2 ^ 8, ch % 2 ^ 8, 0⟩

/-- `mapped_ppa`. -/
def mappedPpa (p : Ppa) : Prop := p ≠ unmappedPpa

instance (p : Ppa) : Decidable (mappedPpa p) := inferInstanceAs (Decidable (_ ≠ _))

/-- `NAND_READ`, `NAND_WRITE`, `NAND_ERASE`, `NAND_NOP`. -/
inductive NandOp
  | read | write | erase | nop
  deriving DecidableEq, Repr

/-- `struct nand_cmd`. -/
structure NandCmd where
  cmd : NandOp
  xferSize : ℕ
  stime : ℕ
  interleavePciDma : Bool
  ppa : Ppa
  deriving DecidableEq, Repr

/-- The place of a block: channel, die, plane, block. -/
structure BlkAddr where
  ch : ℕ
  lun : ℕ
  pl : ℕ
  blk : ℕ
  deriving DecidableEq, Repr

/-- The block of a page address. -/
def Ppa.blkAddr (p : Ppa) : BlkAddr := ⟨p.ch, p.lun, p.pl, p.blk⟩

/-- The index `ppa2pgidx` computes. -/
def Ssdparams.pgidx (spp : Ssdparams) (p : Ppa) : ℕ :=
  p.ch * spp.pgsPerCh + p.lun * spp.pgsPerLun + p.pl * spp.pgsPerPl + p.blk * spp.pgsPerBlk + p.pg

/-- `valid_ppa`. -/
def Ssdparams.validPpa (spp : Ssdparams) (p : Ppa) : Prop :=
  p.ch < spp.nchs ∧ p.lun < spp.lunsPerCh ∧ p.pl < spp.plsPerLun ∧ p.blk < spp.blksPerPl ∧
    p.pg < spp.pgsPerBlk

instance (spp : Ssdparams) (p : Ppa) : Decidable (spp.validPpa p) :=
  inferInstanceAs (Decidable (_ ∧ _))

/-- `PG_FREE`, `PG_INVALID`, `PG_VALID`. -/
inductive PgStatus
  | free | invalid | valid
  deriving DecidableEq, Repr

/-- `struct nand_page`; `sec` lists the sector statuses, all `SEC_FREE = 0`. -/
structure NandPage where
  sec : List ℕ
  nsecs : ℕ
  status : PgStatus
  deriving DecidableEq, Repr

/-- `struct nand_block`. -/
structure NandBlock where
  pg : ℕ → NandPage
  npgs : ℕ
  ipc : ℕ
  vpc : ℕ
  eraseCnt : ℕ
  wp : ℕ

/-- `struct ssd`, the part the mapping uses. -/
structure Ssd where
  sp : Ssdparams
  blk : BlkAddr → NandBlock

/-- `ssd_init_nand_page`. -/
def ssdInitNandPage (spp : Ssdparams) : NandPage where
  sec := List.replicate spp.secsPerPg 0
  nsecs := spp.secsPerPg
  status := .free

/-- `ssd_init_nand_blk`. -/
def ssdInitNandBlk (spp : Ssdparams) : NandBlock where
  pg := fun _ => ssdInitNandPage spp
  npgs := spp.pgsPerBlk
  ipc := 0
  vpc := 0
  eraseCnt := 0
  wp := 0

/-- `ssd_init`. -/
def ssdInit (spp : Ssdparams) : Ssd where
  sp := spp
  blk := fun _ => ssdInitNandBlk spp

namespace Ssd

/-- `get_blk`. -/
def getBlk (ssd : Ssd) (p : Ppa) : NandBlock := ssd.blk p.blkAddr

/-- `get_pg`. -/
def getPg (ssd : Ssd) (p : Ppa) : NandPage := (ssd.getBlk p).pg p.pg

/-- A store to the block at `p`. -/
def setBlk (ssd : Ssd) (p : Ppa) (b : NandBlock) : Ssd :=
  { ssd with blk := Function.update ssd.blk p.blkAddr b }

/-- `pg->status = st`. -/
def setPgStatus (ssd : Ssd) (p : Ppa) (st : PgStatus) : Ssd :=
  let b := ssd.getBlk p
  ssd.setBlk p { b with pg := Function.update b.pg p.pg { b.pg p.pg with status := st } }

end Ssd

end NvmeVirt
