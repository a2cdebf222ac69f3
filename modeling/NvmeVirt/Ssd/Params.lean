/-
# The geometry of the emulated SSD

`ssd_init_params` in `ssd.c` derives `struct ssdparams` from a capacity, a
number of partitions and `struct ftl_configs` (`ssd_config.h`);
`load_conv_configs` in `ssd_config.c` is the configuration the module ships for
a conventional namespace.

A driver function either returns or the kernel stops: `NVMEV_ASSERT(x)` is
`BUG_ON(!(x))`.  `Fault` names the ways to stop.  Where C leaves the result
undefined (a division by zero, an `int` that overflows, an access outside an
array) or converts a wide value to an `int` that cannot hold it, the model stops
with `undefined` as well, so a value that is returned is the mathematical one.
Latencies and bandwidths belong to the timing model and are left out here.
-/

import NvmeVirt.Lib.Outcome

namespace NvmeVirt

open Outcome

/-- The functions that hold an `NVMEV_ASSERT`. -/
inductive Fn
  | ssdInitParams | initLines | setMaptblEnt | ppa2pgidx | checkAddr | prepareWritePointer
  | advanceWritePointer | advanceWritePointerCleanver | getNewPage | markPageInvalid
  | markPageValid | markBlockFree | gcWritePage | cleanOneFlashpg | znsInitParams | znsWriteZrwa
  | chmodelRequest
  deriving DecidableEq, Repr

/-- How a driver function stops without returning. -/
inductive Fault
  /-- An `NVMEV_ASSERT` of the function fails. -/
  | bug (fn : Fn)
  /-- `get_next_free_line` returned `NULL` and the caller reads through it. -/
  | noFreeLine
  /-- An index past the arrays of the zones. -/
  | zoneIndex
  /-- C gives the step no meaning. -/
  | undefined
  deriving DecidableEq, Repr

/-- `NVMEV_ASSERT(p)` in `fn`. -/
def nvmevAssert (fn : Fn) (p : Prop) [Decidable p] : Except Fault Unit :=
  if p then .ok () else .error (.bug fn)

/-- A step C defines only if `p`. -/
def defined (p : Prop) [Decidable p] : Except Fault Unit :=
  if p then .ok () else .error .undefined

@[simp] theorem nvmevAssert_eq_ok {fn : Fn} {p : Prop} [Decidable p] {u : Unit} :
    nvmevAssert fn p = .ok u ↔ p := by
  unfold nvmevAssert; split_ifs with h <;> simp [h]

@[simp] theorem defined_eq_ok {p : Prop} [Decidable p] {u : Unit} : defined p = .ok u ↔ p := by
  unfold defined; split_ifs with h <;> simp [h]

/-- Behind a guard its condition holds. -/
theorem ends_defined {p : Prop} [Decidable p] : Ends (defined p) (fun _ => p) fun _ => True := by
  unfold defined
  split_ifs with h
  · exact h
  · trivial

/-- A guard stops the step exactly when its condition fails. -/
theorem ends_defined_or {p : Prop} [Decidable p] :
    Ends (defined p) (fun _ => p) fun _ => ¬ p := by
  unfold defined
  split_ifs with h
  · exact h
  · exact h

/-- Behind an assertion its condition holds. -/
theorem ends_nvmevAssert {fn : Fn} {p : Prop} [Decidable p] :
    Ends (nvmevAssert fn p) (fun _ => p) fun _ => True := by
  unfold nvmevAssert
  split_ifs with h
  · exact h
  · trivial

theorem defined_bind_of_not {α : Type} {p : Prop} [Decidable p] (h : ¬ p)
    (k : Unit → Except Fault α) : (defined p >>= k) = .error .undefined := by
  unfold defined
  rw [if_neg h]
  rfl

theorem nvmevAssert_bind {α : Type} {fn : Fn} {p : Prop} [Decidable p] (h : p)
    (k : Unit → Except Fault α) : (nvmevAssert fn p >>= k) = k () := by
  rw [nvmevAssert_eq_ok (u := ()).2 h]; rfl

theorem defined_bind {α : Type} {p : Prop} [Decidable p] (h : p) (k : Unit → Except Fault α) :
    (defined p >>= k) = k () := by
  rw [defined_eq_ok (u := ()).2 h]; rfl

/-- An `int` that has to hold `n`. -/
def toInt (n : ℕ) : Except Fault ℕ := if n < 2 ^ 31 then .ok n else .error .undefined

/-- A `uint64_t` or `unsigned long` result. -/
def u64 (n : ℕ) : ℕ := n % 2 ^ 64

/-- `DIV_ROUND_UP(n, d)` on `uint64_t` operands. -/
def divRoundUp (n d : ℕ) : ℕ := u64 (n + d - 1) / d

/-- `KB(k)`. -/
def kb (k : ℕ) : ℕ := k <<< 10

/-- The part of `struct ftl_configs` that fixes the geometry and the buffers. -/
structure FtlConfigs where
  maxCon : ℕ
  ssdPartitions : ℕ
  nandChannels : ℕ
  lunsPerNandCh : ℕ
  plnsPerLun : ℕ
  flashPageSize : ℕ
  oneshotPageSize : ℕ
  blksPerPln : ℕ
  blkSize : ℕ
  writeUnitSize : ℕ
  globalWbSize : ℕ
  writeEarlyCompletion : Bool
  deriving DecidableEq, Repr

/-- `load_conv_configs`; `max_con` is set by `NVMEV_NAMESPACE_INIT`. -/
def loadConvConfigs (maxCon : ℕ) : FtlConfigs where
  maxCon := maxCon
  ssdPartitions := 4
  nandChannels := 8
  lunsPerNandCh := 2
  plnsPerLun := 1
  flashPageSize := kb 32
  oneshotPageSize := kb 32 * 1
  blksPerPln := 8192
  blkSize := 0
  writeUnitSize := 512
  globalWbSize := 8 * 2 * (kb 32 * 1) * 2
  writeEarlyCompletion := true

/-- `struct ssdparams` without latencies and bandwidths. -/
structure Ssdparams where
  secsz : ℕ
  secsPerPg : ℕ
  pgsz : ℕ
  pgsPerFlashpg : ℕ
  flashpgsPerBlk : ℕ
  pgsPerOneshotpg : ℕ
  oneshotpgsPerBlk : ℕ
  pgsPerBlk : ℕ
  blksPerPl : ℕ
  plsPerLun : ℕ
  lunsPerCh : ℕ
  nchs : ℕ
  writeUnitSize : ℕ
  writeEarlyCompletion : Bool
  pgsPerPl : ℕ
  pgsPerLun : ℕ
  pgsPerCh : ℕ
  ttPgs : ℕ
  blksPerLun : ℕ
  pgsPerLine : ℕ
  blksPerLine : ℕ
  ttLines : ℕ
  ttLuns : ℕ
  writeBufferSize : ℕ
  maxCon : ℕ
  deriving DecidableEq, Repr

/-- The branch of `ssd_init_params` on `BLKS_PER_PLN`: the blocks of a plane and the size of a
block, one of them given and the other from the capacity of the partition. -/
def blkGeometry (capacity nchs : ℕ) (cfg : FtlConfigs) : Except Fault (ℕ × ℕ) :=
  if 0 < cfg.blksPerPln then do
    let dies ← toInt (cfg.blksPerPln * cfg.plnsPerLun * cfg.lunsPerNandCh * nchs)
    defined (0 < dies)
    .ok (cfg.blksPerPln, divRoundUp capacity dies)
  else do
    nvmevAssert .ssdInitParams (0 < cfg.blkSize)
    let dieSize := u64 (cfg.blkSize * cfg.plnsPerLun * cfg.lunsPerNandCh * nchs)
    defined (0 < dieSize)
    let blks ← toInt (divRoundUp capacity dieSize)
    .ok (blks, cfg.blkSize)

/-- `ssd_init_params`. -/
def ssdInitParams (capacity nparts : ℕ) (cfg : FtlConfigs) : Except Fault Ssdparams := do
  let secsz := 512
  let secsPerPg := 8
  let pgsz := secsz * secsPerPg
  -- partitioning SSD by dividing channel
  defined (0 < nparts)
  nvmevAssert .ssdInitParams (cfg.nandChannels % nparts = 0)
  let nchs := cfg.nandChannels / nparts
  let (blksPerPl, blkSize) ← blkGeometry (capacity / nparts) nchs cfg
  nvmevAssert .ssdInitParams
    (cfg.oneshotPageSize % pgsz = 0 ∧ cfg.flashPageSize % pgsz = 0)
  defined (0 < cfg.flashPageSize)
  nvmevAssert .ssdInitParams (cfg.oneshotPageSize % cfg.flashPageSize = 0)
  let pgsPerOneshotpg := cfg.oneshotPageSize / pgsz
  defined (0 < cfg.oneshotPageSize)
  let oneshotpgsPerBlk ← toInt (divRoundUp blkSize cfg.oneshotPageSize)
  let pgsPerFlashpg := cfg.flashPageSize / pgsz
  let flashpgsPerBlk ← toInt (cfg.oneshotPageSize / cfg.flashPageSize * oneshotpgsPerBlk)
  let pgsPerBlk ← toInt (pgsPerOneshotpg * oneshotpgsPerBlk)
  -- calculated values
  let pgsPerPl ← toInt (pgsPerBlk * blksPerPl)
  let pgsPerLun := u64 (pgsPerPl * cfg.plnsPerLun)
  let pgsPerCh := u64 (pgsPerLun * cfg.lunsPerNandCh)
  let ttPgs := u64 (pgsPerCh * nchs)
  let blksPerLun ← toInt (blksPerPl * cfg.plnsPerLun)
  let ttLuns ← toInt (cfg.lunsPerNandCh * nchs)
  let blksPerLine := ttLuns
  let pgsPerLine := u64 (blksPerLine * pgsPerBlk)
  .ok {
    secsz, secsPerPg, pgsz, pgsPerFlashpg, flashpgsPerBlk, pgsPerOneshotpg, oneshotpgsPerBlk,
    pgsPerBlk, blksPerPl, plsPerLun := cfg.plnsPerLun, lunsPerCh := cfg.lunsPerNandCh, nchs,
    writeUnitSize := cfg.writeUnitSize, writeEarlyCompletion := cfg.writeEarlyCompletion,
    pgsPerPl, pgsPerLun, pgsPerCh, ttPgs, blksPerLun, pgsPerLine, blksPerLine,
    ttLines := blksPerLun, ttLuns, writeBufferSize := cfg.globalWbSize, maxCon := cfg.maxCon }

end NvmeVirt
