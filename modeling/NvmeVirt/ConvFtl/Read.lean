/-
# Host reads

`conv_read` of `conv_ftl.c`: which NAND reads a read command issues.  The pages
of one instance are visited in order and neighbours in one flash page are read
together.  The times the reads take belong to the timing model and are left out.
-/

import NvmeVirt.ConvFtl.Write

namespace NvmeVirt

open Outcome

/-- A NAND read: the instance it goes to, `srd.ppa` and `srd.xfer_size`. -/
structure NandRead where
  part : ℕ
  ppa : Ppa
  xferSize : ℕ
  deriving DecidableEq, Repr

/-- `is_same_flash_page`; `blk_in_ssd` is the address without the page and the reserved bits. -/
def isSameFlashPage (spp : Ssdparams) (ppa1 ppa2 : Ppa) : Prop :=
  ppa1.blkAddr = ppa2.blkAddr ∧ ppa1.pg / spp.pgsPerFlashpg = ppa2.pg / spp.pgsPerFlashpg

instance (spp : Ssdparams) (ppa1 ppa2 : Ppa) : Decidable (isSameFlashPage spp ppa1 ppa2) :=
  inferInstanceAs (Decidable (_ ∧ _))

/-- The state of the inner loop of `conv_read`: `prev_ppa`, `xfer_size` and the reads issued. -/
structure ReadCursor where
  prevPpa : Ppa
  xferSize : ℕ
  reads : List NandRead
  deriving DecidableEq, Repr

/-- The read of the pages collected so far, if there are any. -/
def ReadCursor.issue (c : ReadCursor) (part : ℕ) : List NandRead :=
  if 0 < c.xferSize then c.reads ++ [{ part := part, ppa := c.prevPpa, xferSize := c.xferSize }]
  else c.reads

/-- One round of the inner loop of `conv_read` on the page `cur` of the instance `part`. -/
def ReadCursor.visit (spp : Ssdparams) (part : ℕ) (cur : Ppa) (c : ReadCursor) : ReadCursor :=
  if ¬ mappedPpa cur ∨ ¬ spp.validPpa cur then c
  else if mappedPpa c.prevPpa ∧ isSameFlashPage spp cur c.prevPpa then
    { c with xferSize := c.xferSize + spp.pgsz }
  else { prevPpa := cur, xferSize := spp.pgsz, reads := c.issue part }

namespace ConvNs

variable (ns : ConvNs)

/-- The rounds of the inner loop of `conv_read` for the pages `lpn, lpn + nr_parts, …` up to
`endLpn`, all of the instance `lpn % nr_parts`. -/
def readPart (startLpn endLpn : ℕ) (reads : List NandRead) : Except Fault (List NandRead) := do
  let q := startLpn % ns.nrParts
  let prevPpa ← (ns.ftls q).getMaptblEnt (startLpn / ns.nrParts)
  let c ← forRange ((endLpn - startLpn) / ns.nrParts + 1) (fun i (c : ReadCursor) => do
    let cur ← (ns.ftls q).getMaptblEnt ((startLpn + i * ns.nrParts) / ns.nrParts)
    .ok (c.visit (ns.ftls q).ssd.sp q cur)) { prevPpa := prevPpa, xferSize := 0, reads := reads }
  .ok (c.issue q)

/-- `conv_read`: `none` where it returns false, else the NAND reads it issues.  `length` is the
zero-based number of blocks. -/
def convRead (slba length : ℕ) : Except Fault (Option (List NandRead)) := do
  defined (0 < ns.nrParts)
  let startLpn := slba / ns.sp.secsPerPg
  let endLpn := ns.endLpn slba length
  if ¬ ns.inFtlRange slba length then return none
  let reads ← forRange (min ns.nrParts (endLpn + 1 - startLpn))
    (fun i reads => ns.readPart (startLpn + i) endLpn reads) []
  return some reads

end ConvNs

end NvmeVirt
