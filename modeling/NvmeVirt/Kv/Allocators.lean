/-
# The allocators of value storage

`append_only.c` and `bitmap.c`.  The variables of both are static: they belong to
the module, not to a device, and `kv_init_namespace` resets those of the
allocator its device uses.

`bitmap_find_next_zero_area` is the kernel's; what the driver relies on comes
with it.
-/

import NvmeVirt.Ssd.Params

namespace NvmeVirt

/-- `bitmap_find_next_zero_area(map, size, start, 1, 0)` of the kernel: the first clear bit from
`start` on, or a value not below `size` when there is none. -/
structure ZeroAreaFinder where
  find : (ℕ → Bool) → ℕ → ℕ → ℕ
  clear : ∀ map size start, find map size start < size → map (find map size start) = false
  least : ∀ map size start i, start ≤ i → i < size → map i = false →
    find map size start ≤ i
  start_le : ∀ map size start, find map size start < size → start ≤ find map size start

namespace ZeroAreaFinder

/-- The bits from `i` on, at most `fuel` of them. -/
def scan (map : ℕ → Bool) (size : ℕ) : ℕ → ℕ → ℕ
  | 0, _ => size + 1
  | fuel + 1, i => if map i then scan map size fuel (i + 1) else i

theorem scan_spec {map : ℕ → Bool} {size fuel i : ℕ} (hi : i + fuel = size) :
    (scan map size fuel i < size → map (scan map size fuel i) = false ∧
      i ≤ scan map size fuel i) ∧
      ∀ j, i ≤ j → j < size → map j = false → scan map size fuel i ≤ j := by
  induction fuel generalizing i with
  | zero =>
    unfold scan
    exact ⟨fun h => by omega, fun j h1 h2 => by omega⟩
  | succ fuel ih =>
    obtain ⟨h1, h2⟩ := ih (i := i + 1) (by omega)
    unfold scan
    split_ifs with hbit
    · refine ⟨fun h => ⟨(h1 h).1, by have := (h1 h).2; omega⟩, fun j hij hj hmap => ?_⟩
      rcases hij.eq_or_lt with rfl | hlt
      · rw [hmap] at hbit
        cases hbit
      · exact h2 j hlt hj hmap
    · exact ⟨fun _ => ⟨by simpa using hbit, le_rfl⟩, fun j hij _ _ => hij⟩

/-- The function as the kernel has it: past the end, where no bit is clear, it returns `size + 1`. -/
def kernel : ZeroAreaFinder where
  find map size start := if start ≤ size then scan map size (size - start) start else size + 1
  clear map size start h := by
    split_ifs at h ⊢ with hle
    · exact ((scan_spec (by omega)).1 h).1
    · omega
  least map size start i h1 h2 hmap := by
    rw [if_pos (by omega)]
    exact (scan_spec (by omega)).2 i h1 h2 hmap
  start_le map size start h := by
    split_ifs at h ⊢ with hle
    · exact ((scan_spec (by omega)).1 h).2
    · omega

end ZeroAreaFinder

/-- The static variables of `append_only.c`. -/
structure AppendOnly where
  latest : ℕ
  devSize : ℕ
  totalWritten : ℕ
  deriving DecidableEq, Repr

namespace AppendOnly

/-- `append_only_allocator_init`. -/
def allocatorInit (size : ℕ) : AppendOnly where
  latest := 0
  devSize := size
  totalWritten := 0

variable (a : AppendOnly)

/-- `append_only_allocate`. -/
def allocate (length : ℕ) : AppendOnly × ℕ :=
  ({ a with
      latest := u64 (a.latest + length)
      totalWritten := u64 (a.totalWritten + length) }, a.latest)

end AppendOnly

/-- `SMALL_LENGTH`. -/
def smallLength : ℕ := 1024

/-- `LARGE_LENGTH`. -/
def largeLength : ℕ := 4096

/-- One size class of `bitmap.c`: its bits and where the next search starts. -/
structure BitmapClass where
  nbits : ℕ
  bits : ℕ → Bool
  lastPos : ℕ

namespace BitmapClass

/-- The class after `bitmap_zero`, which clears whole words; `last_pos` is not reset. -/
def zero (c : BitmapClass) (nbits : ℕ) : BitmapClass where
  nbits := nbits
  bits := fun i => if i < 64 * ((nbits + 63) / 64) then false else c.bits i
  lastPos := c.lastPos

/-- The branch of `bitmap_allocate` on one class, with the bit it takes; a bit behind the array of
`longs` words is not memory of the allocator. -/
def take (K : ZeroAreaFinder) (longs : ℕ) (c : BitmapClass) : Except Fault (BitmapClass × ℕ) := do
  let off := K.find c.bits c.nbits c.lastPos
  defined (off < 64 * longs)
  .ok ({ c with
    bits := Function.update c.bits off true
    lastPos := if c.nbits < off + 1 then 0 else off + 1 }, off)

end BitmapClass

/-- The static variables of `bitmap.c`. -/
structure Bitmap where
  small : BitmapClass
  large : BitmapClass
  devSize : ℕ
  totalWritten : ℕ

namespace Bitmap

variable (b : Bitmap)

/-- The words of `small_bitmap`. -/
def smallLongs : ℕ := 600000

/-- The words of `large_bitmap`. -/
def largeLongs : ℕ := 300000

/-- `bitmap_allocator_init`. -/
def allocatorInit (size : ℕ) : Except Fault Bitmap := do
  let smallNbits := size / 2 / smallLength
  let largeNbits := size / 2 / largeLength
  defined (smallNbits ≤ 64 * smallLongs ∧ largeNbits ≤ 64 * largeLongs)
  .ok { b with devSize := size, small := b.small.zero smallNbits, large := b.large.zero largeNbits }

/-- `bitmap_allocate`. -/
def allocate (K : ZeroAreaFinder) (length : ℕ) : Except Fault (Bitmap × ℕ) := do
  let b := { b with totalWritten := u64 (b.totalWritten + length) }
  if smallLength < length then do
    let (large, off) ← b.large.take K largeLongs
    .ok ({ b with large := large }, u64 (b.devSize / 2 + off * largeLength))
  else do
    let (small, off) ← b.small.take K smallLongs
    .ok ({ b with small := small }, u64 (off * smallLength))

end Bitmap

/-- `ALLOCATOR_TYPE`. -/
inductive AllocatorType
  | bitmap | appendOnly
  deriving DecidableEq, Repr

/-- The variables of both allocators. -/
structure Allocators where
  appendOnly : AppendOnly
  bitmap : Bitmap

namespace Allocators

/-- The variables when the module is loaded. -/
def loaded : Allocators where
  appendOnly := { latest := 0, devSize := 0, totalWritten := 0 }
  bitmap := {
    small := { nbits := 0, bits := fun _ => false, lastPos := 0 }
    large := { nbits := 0, bits := fun _ => false, lastPos := 0 }
    devSize := 0, totalWritten := 0 }

variable (a : Allocators)

/-- `allocator_ops.init`. -/
def init (size : ℕ) : AllocatorType → Except Fault Allocators
  | .bitmap => do
    let b ← a.bitmap.allocatorInit size
    .ok { a with bitmap := b }
  | .appendOnly => .ok { a with appendOnly := AppendOnly.allocatorInit size }

/-- `allocator_ops.allocate`. -/
def allocate (K : ZeroAreaFinder) (length : ℕ) :
    AllocatorType → Except Fault (Allocators × ℕ)
  | .bitmap => do
    let (b, offset) ← a.bitmap.allocate K length
    .ok ({ a with bitmap := b }, offset)
  | .appendOnly =>
    let (p, offset) := a.appendOnly.allocate length
    .ok ({ a with appendOnly := p }, offset)

end Allocators

end NvmeVirt
