/-
# Host writes and the conventional namespace

`conv_write` and `conv_init_namespace` of `conv_ftl.c`, and the shared write
buffer of `ssd.c`.  A namespace stripes its logical pages over `nr_parts` FTL
instances: page `lpn` is page `lpn / nr_parts` of instance `lpn % nr_parts`.
-/

import NvmeVirt.ConvFtl.Gc

namespace NvmeVirt

open Outcome

/-- `struct buffer`. -/
structure Buffer where
  size : ℕ
  remaining : ℕ
  deriving DecidableEq, Repr

/-- `buffer_init`. -/
def bufferInit (size : ℕ) : Buffer := { size := size, remaining := size }

/-- `buffer_allocate`, with the number of bytes allocated. -/
def bufferAllocate (buf : Buffer) (size : ℕ) : Buffer × ℕ :=
  let size := if buf.remaining < size then 0 else size
  ({ buf with remaining := buf.remaining - size }, size)

/-- `buffer_release`; `remaining` is a `size_t`. -/
def bufferRelease (buf : Buffer) (size : ℕ) : Buffer :=
  { buf with remaining := u64 (buf.remaining + size) }

namespace ConvFtl

variable (f : ConvFtl)

/-- The old copy of a logical page that has been written before becomes invalid. -/
def invalidateOld (ppa : Ppa) : Except Fault ConvFtl :=
  if mappedPpa ppa then do
    let f ← f.markPageInvalid ppa
    f.setRmapEnt invalidLpn ppa
  else .ok f

/-- The part `conv_write` and `phfrag_cleaner` share: the logical page `lpn`
moves to the page the user write pointer stands on. -/
def remapPage (lpn : ℕ) : Except Fault (ConvFtl × Ppa) := do
  let ppa ← f.getMaptblEnt lpn
  let f ← f.invalidateOld ppa
  let ppa ← f.getNewPage .user
  let f := f.note (.handOut .user lpn ppa)
  let f ← f.setMaptblEnt lpn ppa
  let f ← f.setRmapEnt lpn ppa
  let f ← f.markPageValid ppa
  .ok (f, ppa)

/-- One round of the loop of `conv_write` on the instance of the page, with
whether the page completed a one-shot page. -/
def writePage (lpn : ℕ) : Except Fault (ConvFtl × Bool) := do
  let (f, ppa) ← f.remapPage lpn
  let f ← f.advanceWritePointer .user
  let last := decide (f.lastPgInWordline ppa)
  let f ← f.consumeWriteCredit.checkAndRefillWriteCredit
  .ok (f, last)

end ConvFtl

/-- A conventional `struct nvmev_ns`. -/
structure ConvNs where
  nrParts : ℕ
  size : ℕ
  ftls : ℕ → ConvFtl
  writeBuffer : Buffer

/-- `conv_init_namespace`; all instances share the write buffer of the first. -/
def convInitNamespace (size : ℕ) (cfg : FtlConfigs) : Except Fault ConvNs := do
  let spp ← ssdInitParams size cfg.ssdPartitions cfg
  let cpp := convInitParams
  let ftl ← convInitFtl cpp (ssdInit spp)
  .ok {
    nrParts := cfg.ssdPartitions
    size := u64 (size * 100) / cpp.pbaPcent
    ftls := fun _ => ftl
    writeBuffer := bufferInit spp.writeBufferSize }

/-- `LBA_TO_BYTE`. -/
def lbaToByte (lba : ℕ) : ℕ := lba <<< 9

namespace ConvNs

variable (ns : ConvNs)

/-- The geometry of the instances. -/
def sp : Ssdparams := (ns.ftls 0).ssd.sp

/-- The last logical page of a command; the end LBA is computed in 64 bits. -/
def endLpn (slba length : ℕ) : ℕ := u64 (slba + length) / ns.sp.secsPerPg

/-- The range check of `conv_write` and `conv_read`. -/
def inFtlRange (slba length : ℕ) : Prop := ns.endLpn slba length / ns.nrParts < ns.sp.ttPgs

instance (slba length : ℕ) : Decidable (ns.inFtlRange slba length) :=
  inferInstanceAs (Decidable (_ < _))

/-- One round of the loop of `conv_write`, with the sizes of the buffer releases
it schedules. -/
def writeLpn (lpn : ℕ) : Except Fault (ConvNs × List ℕ) := do
  let q := lpn % ns.nrParts
  let (f, last) ← (ns.ftls q).writePage (lpn / ns.nrParts)
  let releases := if last then [ns.sp.pgsPerOneshotpg * ns.sp.pgsz] else []
  .ok ({ ns with ftls := Function.update ns.ftls q f }, releases)

/-- `conv_write`: `none` where it returns false, else the sizes of the buffer
releases it schedules.  `length` is the zero-based number of blocks. -/
def convWrite (slba length : ℕ) : Except Fault (ConvNs × Option (List ℕ)) := do
  defined (0 < ns.nrParts)
  let bytes := lbaToByte (length + 1)
  let startLpn := slba / ns.sp.secsPerPg
  if ¬ ns.inFtlRange slba length then return (ns, none)
  let (buf, allocated) := bufferAllocate ns.writeBuffer bytes
  let ns := { ns with writeBuffer := buf }
  if allocated < bytes then return (ns, none)
  let (ns, releases) ← forRange (ns.endLpn slba length + 1 - startLpn) (fun i s => do
    let (ns, releases) ← s.1.writeLpn (startLpn + i)
    .ok (ns, s.2 ++ releases)) (ns, [])
  return (ns, some releases)

end ConvNs

end NvmeVirt
