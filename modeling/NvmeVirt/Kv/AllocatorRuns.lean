/-
# Runs of the value allocators

KV devices are created at any time, each with one of the two allocators, and ask for
space in any order.  The history of a device is the regions it has got, and whether
some of them date from before the last reset of its allocator: the variables of an
allocator are static, and creating a device resets them for all.

Neither allocator ever returns `-1`, so a request it has no room for gets a region
behind the end of the device.
-/

import NvmeVirt.Kv.Commands

namespace NvmeVirt

open Outcome

/-- A region of the storage: its offset and its length. -/
structure ValueRegion where
  offset : ℕ
  length : ℕ
  deriving DecidableEq, Repr

/-- The regions have no byte in common. -/
def ValueRegion.Apart (r s : ValueRegion) : Prop :=
  r.offset + r.length ≤ s.offset ∨ s.offset + s.length ≤ r.offset

instance (r s : ValueRegion) : Decidable (r.Apart s) := inferInstanceAs (Decidable (_ ∨ _))

/-- A KV device as its allocator sees it, with its history. -/
structure AllocClient where
  type : AllocatorType
  size : ℕ
  regions : List ValueRegion
  stale : Bool
  deriving DecidableEq, Repr

/-- The allocators of the module with the devices created so far. -/
structure AllocRun where
  allocators : Allocators
  clients : List AllocClient

/-- What happens to the allocators. -/
inductive AllocOp
  /-- `kv_init_namespace` of one more device. -/
  | create (type : AllocatorType) (size : ℕ)
  /-- A request of the `i`-th device. -/
  | allocate (i length : ℕ)
  deriving DecidableEq, Repr

namespace AllocRun

/-- The module after loading. -/
def loaded : AllocRun := { allocators := Allocators.loaded, clients := [] }

/-- Regions got before a reset of the allocator of the device. -/
def markStale (type : AllocatorType) (c : AllocClient) : AllocClient :=
  { c with stale := c.stale || (c.type = type && !c.regions.isEmpty) }

/-- The device gets the region an allocation returned, unless that is `-1`. -/
def give (c : AllocClient) (offset length : ℕ) : AllocClient :=
  if offset = 2 ^ 64 - 1 then c
  else { c with regions := { offset := offset, length := length } :: c.regions }

/-- One step; a request names a device there is. -/
def exec (K : ZeroAreaFinder) (s : AllocRun) : AllocOp → Except Fault AllocRun
  | .create type size => do
    let a ← s.allocators.init size type
    .ok {
      allocators := a
      clients := s.clients.map (markStale type) ++
        [{ type := type, size := size, regions := [], stale := false }] }
  | .allocate i length =>
    match s.clients[i]? with
    | none => .ok s
    | some c => do
      let (a, offset) ← s.allocators.allocate K length c.type
      .ok { allocators := a, clients := s.clients.set i (give c offset length) }

/-- **What the allocators owe a device:** its regions lie inside it and apart from each other. -/
def RegionsOk (s : AllocRun) : Prop :=
  ∀ c ∈ s.clients, (∀ r ∈ c.regions, r.offset + r.length ≤ c.size) ∧
    c.regions.Pairwise ValueRegion.Apart

instance (s : AllocRun) : Decidable s.RegionsOk := inferInstanceAs (Decidable (∀ _ ∈ _, _))

end AllocRun

/-- A search from the cursor finds a clear bit. -/
def BitmapClass.HasRoom (c : BitmapClass) : Prop :=
  ∃ j < c.nbits, c.lastPos ≤ j ∧ c.bits j = false

instance (c : BitmapClass) : Decidable c.HasRoom := inferInstanceAs (Decidable (∃ _ < _, _))

/-- The allocator has room for a request of a device of `size` bytes, and what it manages is not
larger than the device. -/
def Allocators.HasRoom (a : Allocators) (size length : ℕ) : AllocatorType → Prop
  | .appendOnly => a.appendOnly.latest + length ≤ size
  | .bitmap => a.bitmap.devSize ≤ size ∧
    if smallLength < length then a.bitmap.large.HasRoom else a.bitmap.small.HasRoom

instance (a : Allocators) (size length : ℕ) (type : AllocatorType) :
    Decidable (a.HasRoom size length type) := by
  cases type with
  | appendOnly => exact inferInstanceAs (Decidable (_ ≤ _))
  | bitmap => exact inferInstanceAs (Decidable (_ ∧ _))

namespace AllocRun

/-- **A request that meets no defect:** the allocator has not been reset since the device got its
first region, and it has room. -/
def CanServe (s : AllocRun) : AllocOp → Prop
  | .create _ _ => True
  | .allocate i length => ∀ c ∈ s.clients[i]?, c.stale = false ∧
    s.allocators.HasRoom c.size length c.type

instance (s : AllocRun) (op : AllocOp) : Decidable (s.CanServe op) := by
  cases op with
  | create type size => exact .isTrue trivial
  | allocate i length => exact inferInstanceAs (Decidable (∀ c ∈ s.clients[i]?, _))

/-- A size fits 64 bits, a request is not longer than `LARGE_LENGTH`. -/
def InDomain : AllocOp → Prop
  | .create _ size => size < 2 ^ 64
  | .allocate _ length => length ≤ largeLength

instance (op : AllocOp) : Decidable (InDomain op) := by
  cases op with
  | create type size => exact inferInstanceAs (Decidable (size < 2 ^ 64))
  | allocate i length => exact inferInstanceAs (Decidable (length ≤ largeLength))

end AllocRun

/-! ### What the variables say about the regions -/

/-- The two halves of the device in slots of the two sizes, with a bit for each slot. -/
structure Bitmap.Laid (b : Bitmap) : Prop where
  small : b.small.nbits = b.devSize / 2 / smallLength
  large : b.large.nbits = b.devSize / 2 / largeLength
  size : b.devSize < 2 ^ 64
  smallBits : b.small.nbits ≤ 64 * smallLongs
  largeBits : b.large.nbits ≤ 64 * largeLongs

/-- The region starts a slot that is taken. -/
def BitmapClass.Taken (c : BitmapClass) (base slot : ℕ) (r : ValueRegion) : Prop :=
  ∃ j < c.nbits, c.bits j = true ∧ r.offset = base + j * slot ∧ r.length ≤ slot

/-- The variables of the allocator keep a region from being given away again. -/
def Allocators.Covers (a : Allocators) (r : ValueRegion) : AllocatorType → Prop
  | .appendOnly => r.offset + r.length ≤ a.appendOnly.latest
  | .bitmap => a.bitmap.small.Taken 0 smallLength r ∨
      a.bitmap.large.Taken (a.bitmap.devSize / 2) largeLength r

section

variable {K : ZeroAreaFinder} {c c' : BitmapClass} {base slot off : ℕ} {r : ValueRegion}

/-- Setting a bit clears none. -/
theorem BitmapClass.set_keeps {bits : ℕ → Bool} {i j : ℕ} (h : bits j = true) :
    Function.update bits i true j = true := by
  rw [Function.update_apply]
  split_ifs
  · rfl
  · exact h

/-- A slot taken stays taken. -/
theorem BitmapClass.Taken.mono (h : c.Taken base slot r) (hn : c'.nbits = c.nbits)
    (hbits : ∀ j, c.bits j = true → c'.bits j = true) : c'.Taken base slot r := by
  obtain ⟨j, hj, hbit, hoff, hlen⟩ := h
  exact ⟨j, by rw [hn]; exact hj, hbits j hbit, hoff, hlen⟩

/-- Slots of one class are apart. -/
theorem ValueRegion.apart_of_slots {j k m n : ℕ} (hjk : j ≠ k) (hm : m ≤ slot) (hn : n ≤ slot) :
    ValueRegion.Apart ⟨base + j * slot, m⟩ ⟨base + k * slot, n⟩ := by
  unfold ValueRegion.Apart
  rcases Nat.lt_or_gt_of_ne hjk with h | h
  · have := Nat.mul_le_mul_right slot h
    rw [Nat.succ_mul] at this
    exact .inl (by simp only; omega)
  · have := Nat.mul_le_mul_right slot h
    rw [Nat.succ_mul] at this
    exact .inr (by simp only; omega)

/-- **With room, a class gives a slot that was not taken.** -/
theorem BitmapClass.ends_take {longs : ℕ} (hbits : c.nbits ≤ 64 * longs) (hroom : c.HasRoom) :
    Ends (c.take K longs) (fun out => out.1.nbits = c.nbits ∧ out.2 < c.nbits ∧
        c.bits out.2 = false ∧ out.1.bits = Function.update c.bits out.2 true)
      fun _ => False := by
  obtain ⟨j, hj, hle, hbit⟩ := hroom
  have hfind : K.find c.bits c.nbits c.lastPos < c.nbits :=
    (K.least c.bits c.nbits c.lastPos j hle hj hbit).trans_lt hj
  unfold take
  rw [defined_bind (hfind.trans_le hbits)]
  exact ⟨rfl, hfind, K.clear _ _ _ hfind, rfl⟩

/-- A slot that was not taken is apart from the regions in the slots of its class. -/
theorem BitmapClass.Taken.apart (h : c.Taken base slot r) {length : ℕ} (hoff : c.bits off = false)
    (hlen : length ≤ slot) : ValueRegion.Apart ⟨base + off * slot, length⟩ r := by
  obtain ⟨j, -, hbit, hr, hrlen⟩ := h
  have hne : off ≠ j := by
    rintro rfl
    rw [hoff] at hbit
    cases hbit
  have : ValueRegion.Apart ⟨base + off * slot, length⟩ ⟨base + j * slot, r.length⟩ :=
    ValueRegion.apart_of_slots hne hlen hrlen
  unfold ValueRegion.Apart at this ⊢
  rw [hr]
  exact this

/-- The region of a slot ends where the slots of its class end. -/
theorem BitmapClass.slot_le {size : ℕ} (hn : c.nbits = size / 2 / slot) (hoff : off < c.nbits) :
    off * slot + slot ≤ size / 2 := by
  have h1 : (off + 1) * slot ≤ c.nbits * slot := Nat.mul_le_mul_right slot hoff
  rw [hn, Nat.succ_mul] at h1
  exact h1.trans (Nat.div_mul_le_self _ _)

end

namespace Allocators

variable {K : ZeroAreaFinder} {a : Allocators} {length size : ℕ} {type : AllocatorType}

/-- What a request gets: a region inside the device, apart from all the allocator covers, and
covered from now on. -/
structure Served (a : Allocators) (size length : ℕ) (type : AllocatorType)
    (out : Allocators × ℕ) : Prop where
  laid : a.bitmap.Laid → out.1.bitmap.Laid
  keeps : ∀ r t, a.Covers r t → out.1.Covers r t
  covers : out.1.Covers ⟨out.2, length⟩ type
  apart : ∀ r, a.Covers r type → ValueRegion.Apart ⟨out.2, length⟩ r
  inside : out.2 + length ≤ size
  devSize : out.1.bitmap.devSize = a.bitmap.devSize

/-- The first part of a region is covered with it. -/
theorem Covers.mono {offset m n : ℕ} (h : a.Covers ⟨offset, n⟩ type) (hmn : m ≤ n) :
    a.Covers ⟨offset, m⟩ type := by
  cases type with
  | appendOnly => exact (Nat.add_le_add_left hmn offset).trans h
  | bitmap =>
    rcases h with ⟨j, hj, hbit, hoff, hn⟩ | ⟨j, hj, hbit, hoff, hn⟩
    · exact .inl ⟨j, hj, hbit, hoff, hmn.trans hn⟩
    · exact .inr ⟨j, hj, hbit, hoff, hmn.trans hn⟩

/-- Who gets a region gets its first part. -/
theorem Served.mono {out : Allocators × ℕ} {n : ℕ} (h : Served a size n type out)
    (hn : length ≤ n) : Served a size length type out where
  laid := h.laid
  keeps := h.keeps
  covers := h.covers.mono hn
  apart r hr := (h.apart r hr).imp (Nat.add_le_add_left hn _).trans id
  inside := (Nat.add_le_add_left hn _).trans h.inside
  devSize := h.devSize

/-- The append-only allocator on a request it has room for. -/
theorem served_appendOnly (hsize : size < 2 ^ 64) (hroom : a.appendOnly.latest + length ≤ size) :
    Ends (a.allocate K length .appendOnly) (Served a size length .appendOnly)
      fun _ => False := by
  have hlatest : u64 (a.appendOnly.latest + length) = a.appendOnly.latest + length :=
    Nat.mod_eq_of_lt (by omega)
  refine ⟨id, fun r t hr => ?_, hlatest.ge, fun r hr => .inr hr, hroom, rfl⟩
  cases t with
  | bitmap => exact hr
  | appendOnly =>
    have : r.offset + r.length ≤ a.appendOnly.latest := hr
    exact (this.trans (Nat.le_add_right _ _)).trans hlatest.ge

/-- The bitmap allocator on a request the small class has room for: it gets the slot. -/
theorem served_small (hlaid : a.bitmap.Laid) (hsize : a.bitmap.devSize ≤ size)
    (hlen : length ≤ smallLength) (hroom : a.bitmap.small.HasRoom) :
    Ends (a.allocate K length .bitmap) (Served a size smallLength .bitmap) fun _ => False := by
  unfold allocate Bitmap.allocate
  simp only [if_neg (not_lt.2 hlen)]
  refine Ends.bind (Ends.bind (BitmapClass.ends_take hlaid.smallBits hroom) fun out hout => ?_) fun out h => h
  obtain ⟨hn, hoff, hclear, hbits⟩ := hout
  have hslot := BitmapClass.slot_le hlaid.small hoff
  have hdev := hlaid.size
  have hu : u64 (out.2 * smallLength) = 0 + out.2 * smallLength := by
    rw [Nat.zero_add]
    exact Nat.mod_eq_of_lt (by omega)
  have hset : ∀ j, a.bitmap.small.bits j = true → out.1.bits j = true := fun j hj => by
    rw [hbits]
    exact BitmapClass.set_keeps hj
  refine ⟨fun _ => ⟨hn.trans hlaid.small, hlaid.large, hdev, hn.trans_le hlaid.smallBits,
    hlaid.largeBits⟩, fun r t hr => ?_, ?_,
    fun r hr => ?_, ?_, rfl⟩
  · cases t with
    | appendOnly => exact hr
    | bitmap => exact hr.imp (fun h => h.mono hn hset) id
  · exact .inl ⟨out.2, hn ▸ hoff, by rw [hbits, Function.update_self], hu, le_rfl⟩
  · simp only [hu]
    rcases hr with hr | ⟨j, -, -, hr, -⟩
    · exact hr.apart hclear le_rfl
    · refine .inl ?_
      simp only
      omega
  · simp only [hu]
    omega

/-- The bitmap allocator on a request the large class has room for: it gets the slot. -/
theorem served_large (hlaid : a.bitmap.Laid) (hsize : a.bitmap.devSize ≤ size)
    (hlt : smallLength < length) (hroom : a.bitmap.large.HasRoom) :
    Ends (a.allocate K length .bitmap) (Served a size largeLength .bitmap) fun _ => False := by
  unfold allocate Bitmap.allocate
  simp only [if_pos hlt]
  refine Ends.bind (Ends.bind (BitmapClass.ends_take hlaid.largeBits hroom) fun out hout => ?_) fun out h => h
  obtain ⟨hn, hoff, hclear, hbits⟩ := hout
  have hslot := BitmapClass.slot_le hlaid.large hoff
  have hdev := hlaid.size
  have hu : u64 (a.bitmap.devSize / 2 + out.2 * largeLength) =
      a.bitmap.devSize / 2 + out.2 * largeLength := Nat.mod_eq_of_lt (by omega)
  have hset : ∀ j, a.bitmap.large.bits j = true → out.1.bits j = true := fun j hj => by
    rw [hbits]
    exact BitmapClass.set_keeps hj
  refine ⟨fun _ => ⟨hlaid.small, hn.trans hlaid.large, hdev, hlaid.smallBits,
    hn.trans_le hlaid.largeBits⟩, fun r t hr => ?_, ?_,
    fun r hr => ?_, ?_, rfl⟩
  · cases t with
    | appendOnly => exact hr
    | bitmap => exact hr.imp id fun h => h.mono hn hset
  · exact .inr ⟨out.2, hn ▸ hoff, by rw [hbits, Function.update_self], hu, le_rfl⟩
  · simp only [hu]
    rcases hr with ⟨j, hj, -, hr, hrlen⟩ | hr
    · have := BitmapClass.slot_le hlaid.small hj
      refine .inr ?_
      simp only
      omega
    · exact hr.apart hclear le_rfl
  · simp only [hu]
    omega

end Allocators

/-- What an allocator sets apart for a request: the bytes of the request, or a slot. -/
def AllocatorType.reserve (length : ℕ) : AllocatorType → ℕ
  | .appendOnly => length
  | .bitmap => if smallLength < length then largeLength else smallLength

namespace Allocators

variable {K : ZeroAreaFinder} {a : Allocators} {length size : ℕ} {type : AllocatorType}

/-- A request of `LARGE_LENGTH` bytes or less fits what is set apart for it. -/
theorem le_reserve (hlen : length ≤ largeLength) (type : AllocatorType) :
    length ≤ type.reserve length := by
  cases type with
  | appendOnly => exact le_rfl
  | bitmap =>
    unfold AllocatorType.reserve
    dsimp only
    split_ifs
    · exact hlen
    · omega

/-- **A request that meets no defect is served:** what is set apart for it is its own. -/
theorem ends_allocate (hlaid : type = .bitmap → a.bitmap.Laid) (hsize : size < 2 ^ 64)
    (hroom : a.HasRoom size length type) :
    Ends (a.allocate K length type) (Served a size (type.reserve length) type)
      fun _ => False := by
  cases type with
  | appendOnly => exact served_appendOnly hsize hroom
  | bitmap =>
    obtain ⟨hdev, hroom⟩ := hroom
    unfold AllocatorType.reserve
    dsimp only
    by_cases hlt : smallLength < length
    · rw [if_pos hlt] at hroom ⊢
      exact served_large (hlaid rfl) hdev hlt hroom
    · rw [if_neg hlt] at hroom ⊢
      exact served_small (hlaid rfl) hdev (not_lt.1 hlt) hroom

end Allocators

/-! ### Runs -/

namespace AllocRun

variable {K : ZeroAreaFinder} {s : AllocRun}

/-- The invariant of a run: devices have what they are owed, and the allocators cover the regions
they have given since their last reset. -/
structure Inv (s : AllocRun) : Prop where
  laid : s.allocators.bitmap.Laid
  regions : s.RegionsOk
  sizes : ∀ c ∈ s.clients, c.size < 2 ^ 64
  covers : ∀ c ∈ s.clients, c.stale = false → ∀ r ∈ c.regions, s.allocators.Covers r c.type

theorem inv_loaded : loaded.Inv where
  laid := ⟨rfl, rfl, by decide, by decide, by decide⟩
  regions := by simp [RegionsOk, loaded]
  sizes := by simp [loaded]
  covers := by simp [loaded]

/-- A reset lays the bitmap out and leaves the other allocator alone. -/
theorem ends_init {a : Allocators} (h : a.bitmap.Laid) {type : AllocatorType} {size : ℕ}
    (hsize : size < 2 ^ 64) :
    Ends (a.init size type)
      (fun a' => a'.bitmap.Laid ∧ ∀ t, t ≠ type → ∀ r, a.Covers r t → a'.Covers r t)
      fun _ => True := by
  cases type with
  | appendOnly =>
    refine ⟨h, fun t ht r hr => ?_⟩
    cases t with
    | appendOnly => exact absurd rfl ht
    | bitmap => exact hr
  | bitmap =>
    refine Ends.bind (Q := fun b : Bitmap => b.Laid) (ends_defined.bind fun _ hbits => ?_)
      fun b hb => ⟨hb, fun t ht r hr => ?_⟩
    · exact ⟨rfl, rfl, hsize, hbits.1, hbits.2⟩
    · cases t with
      | appendOnly => exact hr
      | bitmap => exact absurd rfl ht

/-- One more device. -/
theorem Inv.create (h : s.Inv) {type : AllocatorType} {size : ℕ} (hsize : size < 2 ^ 64) :
    Ends (s.exec K (.create type size)) Inv fun _ => True := by
  refine (ends_init h.laid hsize).bind ?_
  rintro a ⟨hlaid, hkeep⟩
  simp only [ends_ok]
  have hmem : ∀ c ∈ s.clients.map (markStale type) ++
      [{ type := type, size := size, regions := [], stale := false }],
      c = { type := type, size := size, regions := [], stale := false } ∨
        ∃ c₀ ∈ s.clients, c = markStale type c₀ := fun c hc => by
    rcases List.mem_append.1 hc with hc | hc
    · obtain ⟨c₀, hc₀, rfl⟩ := List.mem_map.1 hc
      exact .inr ⟨c₀, hc₀, rfl⟩
    · exact .inl (List.mem_singleton.1 hc)
  refine ⟨hlaid, fun c hc => ?_, fun c hc => ?_, fun c hc hstale r hr => ?_⟩
  · rcases hmem c hc with rfl | ⟨c₀, hc₀, rfl⟩
    · simp
    · exact h.regions c₀ hc₀
  · rcases hmem c hc with rfl | ⟨c₀, hc₀, rfl⟩
    · exact hsize
    · exact h.sizes c₀ hc₀
  · rcases hmem c hc with rfl | ⟨c₀, hc₀, rfl⟩
    · cases hr
    · simp only [markStale, Bool.or_eq_false_iff, Bool.and_eq_false_iff, decide_eq_false_iff_not,
        Bool.not_eq_false'] at hstale
      obtain ⟨hold, htype | hnil⟩ := hstale
      · exact hkeep _ htype r (h.covers c₀ hc₀ hold r hr)
      · have hr : r ∈ c₀.regions := hr
        rw [List.isEmpty_iff.1 hnil] at hr
        cases hr

/-- One more request that meets no defect. -/
theorem Inv.allocate (h : s.Inv) {i length : ℕ} (hlen : length ≤ largeLength)
    (hserve : s.CanServe (.allocate i length)) :
    Ends (s.exec K (.allocate i length)) Inv fun _ => True := by
  cases hc : s.clients[i]? with
  | none =>
    simp only [exec, hc, ends_ok]
    exact h
  | some c =>
    simp only [exec, hc]
    have hmem : c ∈ s.clients := List.mem_of_getElem? hc
    obtain ⟨hstale, hroom⟩ := hserve c hc
    refine ((Allocators.ends_allocate (fun _ => h.laid) (h.sizes c hmem) hroom).mono
      (fun _ h => h) fun _ => False.elim).bind fun out hserved => ?_
    have hout := hserved.mono (Allocators.le_reserve hlen c.type)
    have hcases : ∀ c' ∈ s.clients.set i (give c out.2 length),
        c' ∈ s.clients ∨ c' = { c with regions := ⟨out.2, length⟩ :: c.regions } := fun c' hc' => by
      rcases List.mem_or_eq_of_mem_set hc' with hc' | rfl
      · exact .inl hc'
      · unfold give
        split_ifs
        · exact .inl hmem
        · exact .inr rfl
    refine ⟨hout.laid h.laid, fun c' hc' => ?_, fun c' hc' => ?_, fun c' hc' hstale' r hr => ?_⟩
    · rcases hcases c' hc' with hold | rfl
      · exact h.regions c' hold
      · obtain ⟨hin, hapart⟩ := h.regions c hmem
        refine ⟨fun r hr => ?_, List.pairwise_cons.2 ⟨fun r hr => ?_, hapart⟩⟩
        · rcases List.mem_cons.1 hr with rfl | hr
          · exact hout.inside
          · exact hin r hr
        · exact hout.apart r (h.covers c hmem hstale r hr)
    · rcases hcases c' hc' with hold | rfl
      · exact h.sizes c' hold
      · exact h.sizes c hmem
    · rcases hcases c' hc' with hold | rfl
      · exact hout.keeps r c'.type (h.covers c' hold hstale' r hr)
      · rcases List.mem_cons.1 hr with rfl | hr
        · exact hout.covers
        · exact hout.keeps r c.type (h.covers c hmem hstale r hr)

end AllocRun

/-- **When the allocators keep the regions of every device apart and inside it:** on every run whose
requests come with no reset since the first region of the device, with room left, and for a device
not smaller than the space managed. -/
theorem allocRun_regionsOk (K : ZeroAreaFinder) (ops : List AllocOp)
    (hdom : ∀ op ∈ ops, AllocRun.InDomain op)
    (hserve : Along (AllocRun.exec K) AllocRun.CanServe AllocRun.loaded ops) {s : AllocRun}
    (hrun : runList (AllocRun.exec K) AllocRun.loaded ops = .ok s) : s.RegionsOk := by
  have hinv := Ends.runList_along (I := AllocRun.Inv) (E := fun _ => True)
    (C := fun s op => s.CanServe op ∧ AllocRun.InDomain op)
    (fun s op h hc => by
      cases op with
      | create type size => exact h.create hc.2
      | allocate i length => exact h.allocate hc.2 hc.1)
    AllocRun.inv_loaded (hserve.and_forall hdom)
  exact (hinv.of_ok hrun).regions

/-- Two devices, one with each allocator, ask in turn. -/
theorem allocRun_regionsOk_two : ∃ s, runList (AllocRun.exec ZeroAreaFinder.kernel) AllocRun.loaded
      [.create .bitmap 65536, .create .appendOnly 8192, .allocate 0 1024, .allocate 1 4096,
        .allocate 0 4096, .allocate 0 8, .allocate 1 4096] = .ok s ∧
    s.clients.map (fun c => c.regions.map ValueRegion.offset) =
      [[1024, 32768, 0], [4096, 0]] ∧ s.RegionsOk := by
  have hcheck : (runList (AllocRun.exec ZeroAreaFinder.kernel) AllocRun.loaded
      [.create .bitmap 65536, .create .appendOnly 8192, .allocate 0 1024, .allocate 1 4096,
        .allocate 0 4096, .allocate 0 8, .allocate 1 4096]).toOption.any (fun s => decide (
      s.clients.map (fun c => c.regions.map ValueRegion.offset) = [[1024, 32768, 0], [4096, 0]] ∧
        Along (AllocRun.exec ZeroAreaFinder.kernel) AllocRun.CanServe AllocRun.loaded
          [.create .bitmap 65536, .create .appendOnly 8192, .allocate 0 1024, .allocate 1 4096,
            .allocate 0 4096, .allocate 0 8, .allocate 1 4096])) = true := by
    decide +kernel
  obtain ⟨s, hrun, hp⟩ := exists_ok_of_any hcheck
  obtain ⟨hoff, hserve⟩ := of_decide_eq_true hp
  exact ⟨s, hrun, hoff, allocRun_regionsOk ZeroAreaFinder.kernel _ (by decide) hserve hrun⟩

/-- **A full device and a second device:** a device of 8192 bytes gets a region behind its end from
either allocator, and one that has its first region gets it again once another device is created. -/
theorem allocate_not_regionsOk :
    (∃ s, runList (AllocRun.exec ZeroAreaFinder.kernel) AllocRun.loaded
        [.create .appendOnly 8192, .allocate 0 4096, .allocate 0 4096, .allocate 0 8] = .ok s ∧
      s.clients.map (fun c => c.regions.map ValueRegion.offset) = [[8192, 4096, 0]] ∧
      ¬ s.RegionsOk) ∧
    (∃ s, runList (AllocRun.exec ZeroAreaFinder.kernel) AllocRun.loaded
        [.create .bitmap 8192, .allocate 0 4096, .allocate 0 4096] = .ok s ∧
      s.clients.map (fun c => c.regions.map ValueRegion.offset) = [[12288, 4096]] ∧
      ¬ s.RegionsOk) ∧
    ∃ s, runList (AllocRun.exec ZeroAreaFinder.kernel) AllocRun.loaded
        [.create .appendOnly 8192, .allocate 0 8, .create .appendOnly 8192, .allocate 0 8] = .ok s ∧
      s.clients.map (fun c => c.regions.map ValueRegion.offset) = [[0, 0], []] ∧
      ¬ s.RegionsOk := by
  have h1 : (runList (AllocRun.exec ZeroAreaFinder.kernel) AllocRun.loaded
      [.create .appendOnly 8192, .allocate 0 4096, .allocate 0 4096,
        .allocate 0 8]).toOption.any (fun s => decide (
      s.clients.map (fun c => c.regions.map ValueRegion.offset) = [[8192, 4096, 0]] ∧
        ¬ s.RegionsOk)) = true := by
    decide +kernel
  have h2 : (runList (AllocRun.exec ZeroAreaFinder.kernel) AllocRun.loaded
      [.create .bitmap 8192, .allocate 0 4096, .allocate 0 4096]).toOption.any (fun s => decide (
      s.clients.map (fun c => c.regions.map ValueRegion.offset) = [[12288, 4096]] ∧
        ¬ s.RegionsOk)) = true := by
    decide +kernel
  have h3 : (runList (AllocRun.exec ZeroAreaFinder.kernel) AllocRun.loaded
      [.create .appendOnly 8192, .allocate 0 8, .create .appendOnly 8192,
        .allocate 0 8]).toOption.any (fun s => decide (
      s.clients.map (fun c => c.regions.map ValueRegion.offset) = [[0, 0], []] ∧
        ¬ s.RegionsOk)) = true := by
    decide +kernel
  obtain ⟨s₁, hrun₁, hp₁⟩ := exists_ok_of_any h1
  obtain ⟨s₂, hrun₂, hp₂⟩ := exists_ok_of_any h2
  obtain ⟨s₃, hrun₃, hp₃⟩ := exists_ok_of_any h3
  exact ⟨⟨s₁, hrun₁, of_decide_eq_true hp₁⟩, ⟨s₂, hrun₂, of_decide_eq_true hp₂⟩,
    ⟨s₃, hrun₃, of_decide_eq_true hp₃⟩⟩

end NvmeVirt
