/-
# The values of a KV device stay apart

Along a run of stores the history notes the value stored last under each key and, for
each entry, the key it was created for and the bytes the allocator set apart for it.
An update goes to the bytes of the entry whatever its length is, and the length
recorded follows it only below `SMALL_LENGTH`: as long as every update fits what was
set apart and gets its length recorded, values do not run into each other and a
retrieve returns the one stored last.
-/

import NvmeVirt.Kv.StoreSteps
import NvmeVirt.Kv.IndexRuns
import NvmeVirt.Kv.AllocatorRuns

namespace NvmeVirt

open Outcome

/-- The value a store command carries. -/
def KvOp.value (op : KvOp) : List UInt8 :=
  (op.cmd.readValue op.host op.cmd.valueLength).toOption.getD []

/-- A device with its history: the stores, newest first, and for each entry the key it was created
for and the bytes set apart then. -/
structure ValueRun where
  dev : KvDev
  stored : List (List UInt8 × List UInt8)
  owner : ℕ → List UInt8
  reserved : ℕ → ℕ

namespace ValueRun

/-- A device before its first store. -/
def start (d : KvDev) : ValueRun where
  dev := d
  stored := []
  owner := fun _ => []
  reserved := fun _ => 0

variable (s : ValueRun)

/-- The value stored last under a key. -/
def last (key : List UInt8) : Option (List UInt8) := s.stored.lookup key

/-- The history after one more store. -/
def note (key value : List UInt8) (d : KvDev) : ValueRun where
  dev := d
  stored := (key, value) :: s.stored
  owner := fun x => if s.dev.table.free x ∧ ¬ d.table.free x then key else s.owner x
  reserved := fun x => if s.dev.table.free x ∧ ¬ d.table.free x then
    s.dev.allocatorType.reserve value.length else s.reserved x

/-- One store. -/
def exec (K : ZeroAreaFinder) (s : ValueRun) (op : KvOp) : Except KvStop ValueRun := do
  let (d, _) ← s.dev.doPerformKvIo K op.cmd op.host
  .ok (s.note op.cmd.key op.value d)

/-- The bytes of an entry. -/
def region (x : ℕ) : ValueRegion where
  offset := (s.dev.table.entry x).memOffset.getD 0
  length := (s.dev.table.entry x).length

/-- **Values are isolated:** the regions of different keys have no byte in common, and a retrieve
with a large enough buffer returns the value stored last.  It stops only when its PRPs end. -/
structure Isolated (K : ZeroAreaFinder) (s : ValueRun) : Prop where
  apart : ∀ k k', k ≠ k' → s.last k ≠ none → s.last k' ≠ none → ∀ x x',
    s.dev.table.FoundAt k x → s.dev.table.FoundAt k' x' → (s.region x).Apart (s.region x')
  returned : ∀ k v, s.last k = some v → ∀ (cmd : KvCommand) (host : Mem),
    cmd.opcode = .retrieve → cmd.key = k → v.length ≤ cmd.valueLength →
      Ends (s.dev.doPerformKvIo K cmd host)
        (fun out => out.1 = s.dev ∧ out.2.status = 0 ∧ out.2.result = v.length ∧
          (out.2.addresses.Nodup → out.2.addresses.map out.2.host = v))
        fun e => e = .fault .undefined

/-- What a store writes has no byte in common with the region of another key. -/
def WritesApart (K : ZeroAreaFinder) (s : ValueRun) (op : KvOp) : Prop :=
  ∀ d r, s.dev.doPerformKvIo K op.cmd op.host = .ok (d, r) → ∀ t ∈ r.moved,
    ∀ k, k ≠ op.cmd.key → s.last k ≠ none → ∀ x, s.dev.table.FoundAt k x →
      ValueRegion.Apart ⟨t.offset, t.size⟩ (s.region x)

/-- **The condition on a store.**  One that creates an entry cuts no stored key off, and the
allocator has room for it in one piece.  One that finds an entry finds that of its key, and either
keeps the length recorded or fits what was set apart, with both lengths small. -/
def KeepsValues (op : KvOp) : Prop :=
  match s.dev.table.findSlot op.cmd.key with
  | .ok none =>
    (∀ p ∈ s.stored, s.dev.table.getHashSlot op.cmd.key ∉ (s.dev.table.path p.1).dropLast) ∧
      s.dev.allocators.HasRoom s.dev.storageSize op.cmd.valueLength s.dev.allocatorType ∧
      op.cmd.valueLength ≤ s.dev.allocatorType.reserve op.cmd.valueLength
  | .ok (some x) =>
    s.owner x = op.cmd.key ∧ (op.cmd.valueLength = (s.dev.table.entry x).length ∨
      op.cmd.valueLength ≤ smallLength ∧ (s.dev.table.entry x).length ≤ smallLength ∧
        op.cmd.valueLength ≤ s.reserved x)
  | .error _ => True

instance (op : KvOp) : Decidable (s.KeepsValues op) := by
  unfold KeepsValues
  split <;> infer_instance

/-- The invariant of a run. -/
structure Inv (s : ValueRun) : Prop where
  linked : s.dev.table.Linked
  size : s.dev.storageSize < 2 ^ 64
  laid : s.dev.allocatorType = .bitmap → s.dev.allocators.bitmap.Laid
  entries : ∀ x o, (s.dev.table.entry x).memOffset = some o →
    s.dev.allocators.Covers ⟨o, s.reserved x⟩ s.dev.allocatorType ∧
      o + s.reserved x ≤ s.dev.storageSize ∧ (s.dev.table.entry x).length ≤ s.reserved x
  apart : ∀ x y o p, x ≠ y → (s.dev.table.entry x).memOffset = some o →
    (s.dev.table.entry y).memOffset = some p →
      ValueRegion.Apart ⟨o, s.reserved x⟩ ⟨p, s.reserved y⟩
  found : ∀ k v, s.last k = some v → ∃ x o, s.dev.table.FoundAt k x ∧ s.owner x = k ∧
    (s.dev.table.entry x).memOffset = some o ∧ (s.dev.table.entry x).length = v.length ∧
      bytesAt s.dev.storage o v.length = v

variable {s} {K : ZeroAreaFinder} {d : KvDev} {key value : List UInt8} {offset x : ℕ}

/-- The bytes of an entry are part of what was set apart for it. -/
theorem apart_mono {a b m n m' n' : ℕ} (h : ValueRegion.Apart ⟨a, m⟩ ⟨b, n⟩) (hm : m' ≤ m)
    (hn : n' ≤ n) : ValueRegion.Apart ⟨a, m'⟩ ⟨b, n'⟩ := by
  unfold ValueRegion.Apart at h ⊢
  dsimp only at h ⊢
  omega

/-- **A run under the invariant keeps the values isolated.** -/
theorem Inv.isolated (h : s.Inv) : s.Isolated K where
  apart k k' hne hk hk' x x' hx hx' := by
    obtain ⟨v, hv⟩ := Option.ne_none_iff_exists'.1 hk
    obtain ⟨v', hv'⟩ := Option.ne_none_iff_exists'.1 hk'
    obtain ⟨y, o, hy, hown, ho, -, -⟩ := h.found k v hv
    obtain ⟨y', o', hy', hown', ho', -, -⟩ := h.found k' v' hv'
    obtain rfl := hx.unique hy
    obtain rfl := hx'.unique hy'
    have hxx : x ≠ x' := by
      rintro rfl
      exact hne (hown.symm.trans hown')
    have := apart_mono (h.apart x x' o o' hxx ho ho') (h.entries x o ho).2.2
      (h.entries x' o' ho').2.2
    unfold region
    rw [ho, ho']
    exact this
  returned k v hv cmd host hop hkey hlen := by
    obtain ⟨x, o, hx, -, ho, hv', hbytes⟩ := h.found k v hv
    obtain ⟨-, hin, hfit⟩ := h.entries x o ho
    have hret := KvDev.ends_retrieve (K := K) hop (hkey ▸ hx) ho h.size (by omega)
      (hv'.trans_le hlen) host
    rw [hv', hbytes] at hret
    exact hret

/-! ### One store -/

/-- Where an entry is created: a place of its own. -/
structure Placed (s : ValueRun) (d : KvDev) (offset n : ℕ) : Prop where
  laid : s.dev.allocatorType = .bitmap → d.allocators.bitmap.Laid
  keeps : ∀ r, s.dev.allocators.Covers r s.dev.allocatorType →
    d.allocators.Covers r s.dev.allocatorType
  covers : d.allocators.Covers ⟨offset, n⟩ s.dev.allocatorType
  apart : ∀ r, s.dev.allocators.Covers r s.dev.allocatorType → ValueRegion.Apart ⟨offset, n⟩ r
  inside : offset + n ≤ s.dev.storageSize

/-- With room the allocator gives such a place. -/
theorem Inv.placed (h : s.Inv) (hstep : KvDev.InsertStep K s.dev key value offset d)
    (hroom : s.dev.allocators.HasRoom s.dev.storageSize value.length s.dev.allocatorType) :
    s.Placed d offset (s.dev.allocatorType.reserve value.length) := by
  obtain ⟨o, halloc, hoffset⟩ := hstep.allocated
  have hserved := (Allocators.ends_allocate (K := K) h.laid h.size hroom).of_ok halloc
  have hsize := h.size
  have hin := hserved.inside
  by_cases hlast : o = 2 ^ 64 - 1
  · -- Only an empty value at the very end of the storage gets the offset that stands for none.
    rw [if_pos hlast] at hoffset
    subst hoffset
    simp only [hlast] at hin
    have hzero : s.dev.allocatorType.reserve value.length = 0 := by omega
    cases htype : s.dev.allocatorType with
    | bitmap =>
      rw [htype] at hzero
      unfold AllocatorType.reserve at hzero
      dsimp only at hzero
      split_ifs at hzero
      · exact absurd hzero (by decide)
      · exact absurd hzero (by decide)
    | appendOnly =>
      rw [htype] at hserved hzero
      rw [hzero]
      refine ⟨fun ht => ?_, fun r hr => ?_, ?_, fun r _ => .inl (Nat.zero_le _), Nat.zero_le _⟩
      · rw [htype] at ht
        cases ht
      · rw [htype] at hr ⊢
        exact hserved.keeps r _ hr
      · rw [htype]
        exact Nat.zero_le _
  · rw [if_neg hlast] at hoffset
    subst hoffset
    exact ⟨fun ht => hserved.laid (h.laid ht), fun r hr => hserved.keeps r _ hr, hserved.covers,
      hserved.apart, hin⟩

/-- **A store that creates an entry keeps the invariant.** -/
theorem Inv.insert (h : s.Inv) (hstep : KvDev.InsertStep K s.dev key value offset d)
    (hkey : key.length ≤ 18)
    (hcut : ∀ p ∈ s.stored, s.dev.table.getHashSlot key ∉ (s.dev.table.path p.1).dropLast)
    (hroom : s.dev.allocators.HasRoom s.dev.storageSize value.length s.dev.allocatorType)
    (hfit : value.length ≤ s.dev.allocatorType.reserve value.length) :
    (s.note key value d).Inv := by
  have hplaced := h.placed hstep hroom
  obtain ⟨x₀, hins⟩ := hstep.slot
  obtain ⟨hfree, -⟩ := KvTable.newSlot_spec h.linked hins.slot
  obtain ⟨hused, -⟩ := hins.new_next h.linked
  have hnew : ∀ x, ¬ s.dev.table.FoundAt key x := fun x hx => by
    have hx : s.dev.table.findSlot key = .ok (some x) := hx
    rw [hstep.missing] at hx
    cases hx
  have hown : ∀ x, (s.note key value d).owner x = if x = x₀ then key else s.owner x :=
    fun x => if_congr (hins.created_iff h.linked) rfl rfl
  have hres : ∀ x, (s.note key value d).reserved x =
      if x = x₀ then s.dev.allocatorType.reserve value.length else s.reserved x :=
    fun x => if_congr (hins.created_iff h.linked) rfl rfl
  -- An entry is the new one, or has its place as before.
  have hentry : ∀ x o, (d.table.entry x).memOffset = some o →
      x = x₀ ∧ o = offset ∧ (d.table.entry x).length = value.length ∨
        x ≠ x₀ ∧ (s.dev.table.entry x).memOffset = some o ∧
          (d.table.entry x).length = (s.dev.table.entry x).length := fun x o ho => by
    by_cases hx : x = x₀
    · subst hx
      rw [hins.new] at ho ⊢
      exact .inl ⟨rfl, (Option.some.inj ho).symm, rfl⟩
    · obtain ⟨-, h1, h2⟩ := hins.keep hx
      exact .inr ⟨hx, h1 ▸ ho, h2⟩
  have hapart : ∀ x o, (s.dev.table.entry x).memOffset = some o →
      ValueRegion.Apart ⟨offset, s.dev.allocatorType.reserve value.length⟩ ⟨o, s.reserved x⟩ :=
    fun x o ho => hplaced.apart _ (h.entries x o ho).1
  refine ⟨hins.linked h.linked hkey, hstep.size.trans_lt h.size, fun ht => ?_, fun x o ho => ?_,
    fun x y o p hxy ho hp => ?_, fun k v hv => ?_⟩
  · exact hplaced.laid (hstep.type.symm.trans ht)
  · rw [hres]
    show d.allocators.Covers _ d.allocatorType ∧ _ ≤ d.storageSize ∧ _
    rw [hstep.type, hstep.size]
    rcases hentry x o ho with ⟨hx, rfl, hlen⟩ | ⟨hx, ho', hlen⟩
    · rw [if_pos hx]
      exact ⟨hplaced.covers, hplaced.inside, hlen.trans_le hfit⟩
    · rw [if_neg hx]
      obtain ⟨h1, h2, h3⟩ := h.entries x o ho'
      exact ⟨hplaced.keeps _ h1, h2, hlen.trans_le h3⟩
  · rw [hres, hres]
    rcases hentry x o ho with ⟨hx, rfl, -⟩ | ⟨hx, ho', -⟩
    · rcases hentry y p hp with ⟨hy, -⟩ | ⟨hy, hp', -⟩
      · exact absurd (hx.trans hy.symm) hxy
      · rw [if_pos hx, if_neg hy]
        exact hapart y p hp'
    · rcases hentry y p hp with ⟨hy, rfl, -⟩ | ⟨hy, hp', -⟩
      · rw [if_neg hx, if_pos hy]
        exact (hapart x o ho').symm
      · rw [if_neg hx, if_neg hy]
        exact h.apart x y o p hxy ho' hp'
  · unfold last note at hv
    rw [List.lookup_cons] at hv
    by_cases hk : k = key
    · subst hk
      rw [beq_self_eq_true] at hv
      obtain rfl := Option.some.inj hv
      refine ⟨x₀, offset, hins.found_new h.linked hnew, ?_, ?_, ?_, ?_⟩
      · rw [hown, if_pos rfl]
      · show (d.table.entry x₀).memOffset = _
        rw [hins.new]
        rfl
      · show (d.table.entry x₀).length = _
        rw [hins.new]
        rfl
      · show bytesAt d.storage _ _ = _
        rw [hstep.storage]
        exact bytesAt_storeBytes _ _ _
    · rw [beq_eq_false_iff_ne.2 hk] at hv
      obtain ⟨x, o, hx, hxo, ho, hlen, hbytes⟩ := h.found k v hv
      obtain ⟨p, hp, hpk⟩ : ∃ p ∈ s.stored, p.1 = k := by
        obtain ⟨l₁, l₂, hl, -⟩ := List.lookup_eq_some_iff.1 hv
        exact ⟨(k, v), by rw [hl]; simp, rfl⟩
      have hxx : x ≠ x₀ := by
        rintro rfl
        exact (KvTable.search_found (KvTable.foundAt_iff.1 hx)).1 hfree
      obtain ⟨-, h1, h2⟩ := hins.keep hxx
      refine ⟨x, o, hins.found_keep h.linked hx (hpk ▸ hcut p hp), ?_, h1.trans ho, h2.trans hlen,
        ?_⟩
      · rw [hown, if_neg hxx]
        exact hxo
      · show bytesAt d.storage _ _ = _
        rw [hstep.storage, bytesAt_storeBytes_of_apart, hbytes]
        have := apart_mono (hapart x o ho) hfit (hlen ▸ (h.entries x o ho).2.2)
        exact this.symm

/-- **An update that fits keeps the invariant.** -/
theorem Inv.update (h : s.Inv) (hstep : KvDev.UpdateStep s.dev key value x offset d)
    (howner : s.owner x = key)
    (hfit : value.length = (s.dev.table.entry x).length ∨ value.length ≤ smallLength ∧
      (s.dev.table.entry x).length ≤ smallLength ∧ value.length ≤ s.reserved x) :
    (s.note key value d).Inv := by
  obtain ⟨hlinks, hlength⟩ : s.dev.table.SameLinks d.table ∧
      ∀ y, (d.table.entry y).length =
        if y = x then value.length else (s.dev.table.entry y).length := by
    rw [hstep.device]
    dsimp only
    split_ifs with hset
    · refine ⟨s.dev.table.sameLinks_setLength x _, fun y => ?_⟩
      split_ifs with hy
      · rw [hy, KvTable.set_entry_self]
      · rw [KvTable.set_entry_of_ne _ _ hy]
    · refine ⟨KvRun.sameLinks_refl _, fun y => ?_⟩
      split_ifs with hy
      · rcases hfit with heq | ⟨h1, h2, -⟩
        · rw [hy, heq]
        · rw [hy]
          by_contra hne
          exact hset ⟨fun he => hne he.symm, h1, h2⟩
      · rfl
  have hstorage : d.storage = storeBytes s.dev.storage offset value := by rw [hstep.device]
  have hnote : (s.note key value d).owner = s.owner ∧ (s.note key value d).reserved = s.reserved := by
    have hno : ∀ y, ¬ (s.dev.table.free y ∧ ¬ d.table.free y) := fun y hy =>
      hy.2 (hlinks.free_iff.2 hy.1)
    exact ⟨funext fun y => if_neg (hno y), funext fun y => if_neg (hno y)⟩
  have hreserved : value.length ≤ s.reserved x := by
    rcases hfit with heq | ⟨-, -, hle⟩
    · exact heq.trans_le (h.entries x offset hstep.start).2.2
    · exact hle
  have hfound : ∀ k y, d.table.FoundAt k y ↔ s.dev.table.FoundAt k y := fun k y => by
    unfold KvTable.FoundAt
    rw [hlinks.findSlot]
  have hrest : d.storageSize = s.dev.storageSize ∧ d.allocators = s.dev.allocators ∧
      d.allocatorType = s.dev.allocatorType := by
    rw [hstep.device]
    exact ⟨rfl, rfl, rfl⟩
  obtain ⟨hsize, halloc, htype⟩ := hrest
  refine ⟨hlinks.linked h.linked, hsize.trans_lt h.size, ?_, fun y o ho => ?_,
    fun y z o p hyz ho hp => ?_, fun k v hv => ?_⟩
  · show d.allocatorType = _ → d.allocators.bitmap.Laid
    rw [halloc, htype]
    exact h.laid
  · rw [hnote.2]
    show d.allocators.Covers _ d.allocatorType ∧ _ ≤ d.storageSize ∧ (d.table.entry y).length ≤ _
    rw [halloc, htype, hsize, hlength]
    obtain ⟨h1, h2, h3⟩ := h.entries y o ((hlinks.memOffset y).symm.trans ho)
    refine ⟨h1, h2, ?_⟩
    split_ifs with hy
    · rw [hy]
      exact hreserved
    · exact h3
  · rw [hnote.2]
    exact h.apart y z o p hyz ((hlinks.memOffset y).symm.trans ho)
      ((hlinks.memOffset z).symm.trans hp)
  · rw [hnote.1]
    unfold last note at hv
    rw [List.lookup_cons] at hv
    by_cases hk : k = key
    · subst hk
      rw [beq_self_eq_true] at hv
      obtain rfl := Option.some.inj hv
      refine ⟨x, offset, (hfound k x).2 hstep.found, howner, (hlinks.memOffset x).trans hstep.start,
        (hlength x).trans (if_pos rfl), ?_⟩
      show bytesAt d.storage _ _ = _
      rw [hstorage]
      exact bytesAt_storeBytes _ _ _
    · rw [beq_eq_false_iff_ne.2 hk] at hv
      obtain ⟨y, o, hy, hyo, ho, hlen, hbytes⟩ := h.found k v hv
      have hyx : y ≠ x := by
        rintro rfl
        exact hk (hyo.symm.trans howner)
      refine ⟨y, o, (hfound k y).2 hy, hyo, (hlinks.memOffset y).trans ho,
        ((hlength y).trans (if_neg hyx)).trans hlen, ?_⟩
      show bytesAt d.storage _ _ = _
      rw [hstorage, bytesAt_storeBytes_of_apart, hbytes]
      exact apart_mono (h.apart y x o offset hyx ho hstep.start)
        (hlen ▸ (h.entries y o ho).2.2) hreserved

/-- A store is one of the two steps, with the value it carries. -/
theorem Inv.store_cases (h : s.Inv) {op : KvOp} (hop : op.cmd.opcode = .store) {r : KvReply}
    (hd : s.dev.doPerformKvIo K op.cmd op.host = .ok (d, r)) :
    ∃ offset, op.value.length = op.cmd.valueLength ∧
      (∀ t ∈ r.moved, offset ≤ t.offset ∧ t.offset + t.size ≤ offset + op.value.length) ∧
      (KvDev.InsertStep K s.dev op.cmd.key op.value offset d ∨
        ∃ x, KvDev.UpdateStep s.dev op.cmd.key op.value x offset d) := by
  unfold KvDev.doPerformKvIo at hd
  simp only [hop] at hd
  obtain ⟨value, offset, hvalue, hlen, hmoved, hstep⟩ := KvDev.kvStore_ok h.linked hop h.size hd
  have hv : op.value = value := by
    unfold KvOp.value
    rw [hvalue]
    rfl
  rw [hv]
  exact ⟨offset, hlen, hmoved, hstep⟩

/-- **One store under the condition keeps the invariant.** -/
theorem Inv.exec (h : s.Inv) {op : KvOp} (hop : op.cmd.opcode = .store) (hwf : op.cmd.WellFormed)
    (hok : s.KeepsValues op) : Ends (s.exec K op) Inv fun _ => True := by
  refine (Ends.trivial _).with_eq.bind ?_
  rintro ⟨d, r⟩ ⟨-, hd⟩
  obtain ⟨offset, hlen, -, hstep | ⟨x, hstep⟩⟩ := h.store_cases hop hd
  · unfold KeepsValues at hok
    rw [hstep.missing, ← hlen] at hok
    exact h.insert hstep (hwf.key.2.trans (by decide)) hok.1 hok.2.1 hok.2.2
  · unfold KeepsValues at hok
    rw [show s.dev.table.findSlot op.cmd.key = .ok (some x) from hstep.found, ← hlen] at hok
    exact h.update hstep hok.1 hok.2

/-- **A store under the condition writes to no region of another key.** -/
theorem Inv.writesApart (h : s.Inv) {op : KvOp} (hop : op.cmd.opcode = .store)
    (hok : s.KeepsValues op) : s.WritesApart K op := by
  intro d r hd t ht k hk hlast y hy
  obtain ⟨v, hv⟩ := Option.ne_none_iff_exists'.1 hlast
  obtain ⟨y', o, hy', hyo, ho, -, -⟩ := h.found k v hv
  obtain rfl := hy.unique hy'
  obtain ⟨offset, hlen, hmoved, hstep⟩ := h.store_cases hop hd
  have hreg : s.region y = ⟨o, (s.dev.table.entry y).length⟩ := by
    unfold region
    rw [ho]
    rfl
  -- The value goes to a place apart from what is set apart for the other entry.
  have happart : ValueRegion.Apart ⟨offset, op.value.length⟩ ⟨o, s.reserved y⟩ := by
    unfold KeepsValues at hok
    rcases hstep with hstep | ⟨x, hstep⟩
    · rw [hstep.missing, ← hlen] at hok
      exact apart_mono ((h.placed hstep hok.2.1).apart _ (h.entries y o ho).1) hok.2.2 le_rfl
    · rw [show s.dev.table.findSlot op.cmd.key = .ok (some x) from hstep.found, ← hlen] at hok
      have hxy : x ≠ y := by
        rintro rfl
        exact hk (hyo.symm.trans hok.1)
      refine apart_mono (h.apart x y offset o hxy hstep.start ho) ?_ le_rfl
      rcases hok.2 with heq | ⟨-, -, hle⟩
      · exact heq.trans_le (h.entries x offset hstep.start).2.2
      · exact hle
  have hfit := (h.entries y o ho).2.2
  obtain ⟨h1, h2⟩ := hmoved t ht
  rw [hreg]
  unfold ValueRegion.Apart at happart ⊢
  dsimp only at happart ⊢
  omega

/-- Before the first store there is nothing to keep apart. -/
theorem inv_start {a a' : Allocators} {storageSize n : ℕ} {type : AllocatorType} {storage : Mem}
    (ha : a.init storageSize type = .ok a') (hn : 0 < n) (hn32 : n < 2 ^ 32)
    (hsize : storageSize < 2 ^ 64) :
    (start {
      table := KvTable.init n, allocatorType := type, allocators := a'
      storageSize := storageSize, storage := storage }).Inv where
  linked := KvTable.init_linked hn hn32
  size := hsize
  laid := by
    rintro rfl
    obtain ⟨b, hb, h⟩ := bind_eq_ok.1 ha
    obtain ⟨_, hbits, hb⟩ := bind_eq_ok.1 hb
    have hbits := defined_eq_ok.1 hbits
    cases h
    cases hb
    exact ⟨rfl, rfl, hsize, hbits.1, hbits.2⟩
  entries _ _ ho := absurd ho nofun
  apart _ _ _ _ _ ho := absurd ho nofun
  found _ _ hv := absurd hv nofun

end ValueRun

/-- **When values are isolated on a run of stores:** in every state reached from a fresh device, if
every store creates an entry that cuts no stored key off and that the allocator has room for, or
finds the entry of its key and keeps its length, or fits what was set apart for it with both lengths
small.  A store under the condition writes to no region of another key. -/
theorem valueRun_isolated (K : ZeroAreaFinder) (a : Allocators) (storageSize tableSize : ℕ)
    (type : AllocatorType) (storage : Mem) {d : KvDev}
    (hinit : kvInitNamespace a storageSize tableSize type storage = .ok d)
    (hsize : storageSize < 2 ^ 64) (hslots : 48 ≤ tableSize) (hslots32 : tableSize / 48 < 2 ^ 32)
    (ops : List KvOp) (hstore : ∀ op ∈ ops, op.cmd.opcode = .store ∧ op.cmd.WellFormed)
    (hok : Along (ValueRun.exec K) ValueRun.KeepsValues (ValueRun.start d) ops)
    {s : ValueRun}
    (hrun : runList (ValueRun.exec K) (ValueRun.start d) ops = .ok s) :
    s.Isolated K ∧ ∀ op : KvOp, op.cmd.opcode = .store → s.KeepsValues op → s.WritesApart K op := by
  obtain ⟨a', ha, hd⟩ := bind_eq_ok.1 hinit
  cases hd
  have hinv := Ends.runList_along (I := ValueRun.Inv) (E := fun _ => True)
    (fun s op h hc => h.exec (K := K) hc.2.1 hc.2.2 hc.1)
    (ValueRun.inv_start ha (by omega) hslots32 hsize) (hok.and_forall hstore)
  have hs := hinv.of_ok hrun
  exact ⟨hs.isolated, fun op hop hop' => hs.writesApart hop hop'⟩

/-- Two keys, and an update of the first one with a shorter value. -/
theorem valueRun_isolated_two : ∃ d s,
    kvInitNamespace Allocators.loaded 65536 (48 * 64) .appendOnly (fun _ => 0) = .ok d ∧
    runList (ValueRun.exec ZeroAreaFinder.kernel) (ValueRun.start d)
      [byteCommand .store 4 2, byteCommand .store 5 1, byteCommand .store 4 1] = .ok s ∧
    s.last [4] = some [0, 0, 0, 0] ∧ s.Isolated ZeroAreaFinder.kernel := by
  have hcheck : (kvInitNamespace Allocators.loaded 65536 (48 * 64) .appendOnly
      (fun _ => 0)).toOption.any (fun d =>
        (runList (ValueRun.exec ZeroAreaFinder.kernel) (ValueRun.start d)
          [byteCommand .store 4 2, byteCommand .store 5 1,
            byteCommand .store 4 1]).toOption.any fun s => decide (
          s.last [4] = some [0, 0, 0, 0] ∧ Along (ValueRun.exec ZeroAreaFinder.kernel)
            ValueRun.KeepsValues (ValueRun.start d) [byteCommand .store 4 2,
              byteCommand .store 5 1, byteCommand .store 4 1])) = true := by
    decide +kernel
  obtain ⟨d, hinit, h⟩ := exists_ok_of_any hcheck
  obtain ⟨s, hrun, hs⟩ := exists_ok_of_any h
  obtain ⟨hlast, hok⟩ := of_decide_eq_true hs
  exact ⟨d, s, hinit, hrun, hlast, (valueRun_isolated ZeroAreaFinder.kernel Allocators.loaded 65536
    (48 * 64) .appendOnly (fun _ => 0) hinit (by decide) (by decide) (by decide) _ (by decide) hok
    hrun).1⟩

/-- **An update that grows:** two keys get four bytes each, and the first one is updated with eight.
The update runs over the value of the second key. -/
theorem valueRun_not_isolated : ∃ d s x,
    kvInitNamespace Allocators.loaded 65536 (48 * 64) .appendOnly (fun _ => 0) = .ok d ∧
    runList (ValueRun.exec ZeroAreaFinder.kernel) (ValueRun.start d)
      [byteCommand .store 4 1, byteCommand .store 5 1,
        { byteCommand .store 4 2 with host := fun _ => 7 }] = .ok s ∧
    s.last [5] = some [0, 0, 0, 0] ∧ s.dev.table.FoundAt [5] x ∧
    bytesAt s.dev.storage (s.region x).offset 4 = [7, 7, 7, 7] ∧
    ¬ s.Isolated ZeroAreaFinder.kernel := by
  have hcheck : (kvInitNamespace Allocators.loaded 65536 (48 * 64) .appendOnly
      (fun _ => 0)).toOption.any (fun d =>
        (runList (ValueRun.exec ZeroAreaFinder.kernel) (ValueRun.start d)
          [byteCommand .store 4 1, byteCommand .store 5 1,
            { byteCommand .store 4 2 with host := fun _ => 7 }]).toOption.any fun s => decide (
          s.last [5] = some [0, 0, 0, 0] ∧ s.last [4] ≠ none ∧
            s.dev.table.FoundAt [4] (s.dev.table.getHashSlot [4]) ∧
            s.dev.table.FoundAt [5] (s.dev.table.getHashSlot [5]) ∧
            bytesAt s.dev.storage (s.region (s.dev.table.getHashSlot [5])).offset 4 = [7, 7, 7, 7] ∧
            ¬ (s.region (s.dev.table.getHashSlot [4])).Apart
              (s.region (s.dev.table.getHashSlot [5])))) = true := by
    decide +kernel
  obtain ⟨d, hinit, h⟩ := exists_ok_of_any hcheck
  obtain ⟨s, hrun, hs⟩ := exists_ok_of_any h
  obtain ⟨h5, h4, hx4, hx5, hbytes, hover⟩ := of_decide_eq_true hs
  exact ⟨d, s, _, hinit, hrun, h5, hx5, hbytes, fun hiso =>
    hover (hiso.apart [4] [5] (by decide) h4 (by rw [h5]; nofun) _ _ hx4 hx5)⟩

end NvmeVirt
