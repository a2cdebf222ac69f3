/-
# The mapping table of the KV device

`struct mapping_entry` and the hash table of `kv_ftl.c`: `hash_function`,
`find_next_slot`, `new_mapping_entry` and the walks of `get_mapping_entry`,
`update_mapping_entry` and `delete_mapping_entry`.

The table resolves collisions twice: a new entry whose slot is taken goes to the
next free slot of the table, and the slot it hashes to gets a link to it.  A walk
follows the links only.  An offset and a link of `-1` are `none`; slot numbers are
`unsigned int`, and the last of them reads as `-1`.
-/

import NvmeVirt.Ssd.Params

namespace NvmeVirt

open Outcome

/-- How a KV command stops without returning. -/
inductive KvStop
  /-- It does not leave a loop. -/
  | endless
  /-- A `BUG_ON` holds. -/
  | bugOn
  | fault (e : Fault)
  deriving DecidableEq, Repr

/-- A part of a command outside the mapping table. -/
def liftFault {α : Type} : Except Fault α → Except KvStop α
  | .ok a => .ok a
  | .error e => .error (.fault e)

/-- `struct mapping_entry`; `key` has 18 bytes. -/
structure MappingEntry where
  key : List UInt8
  memOffset : Option ℕ
  length : ℕ
  nextSlot : Option ℕ
  deriving DecidableEq, Repr

namespace MappingEntry

/-- `memset(&entry, -1, sizeof(entry))`. -/
def blank : MappingEntry where
  key := List.replicate 18 255
  memOffset := none
  length := 2 ^ 64 - 1
  nextSlot := none

/-- An entry after `kv_init_namespace`. -/
def fresh : MappingEntry where
  key := List.replicate 18 0
  memOffset := none
  length := 2 ^ 64 - 1
  nextSlot := none

variable (e : MappingEntry)

/-- `memcmp(key, entry.key, key_len) == 0`. -/
def holds (key : List UInt8) : Prop := e.key.take key.length = key

instance (key : List UInt8) : Decidable (e.holds key) := inferInstanceAs (Decidable (_ = _))

/-- The stores of `new_mapping_entry` to the entry; the rest of the key and the link stay. -/
def assign (key : List UInt8) (valOffset length : ℕ) : MappingEntry :=
  { e with
    key := key ++ e.key.drop key.length
    memOffset := some valOffset
    length := length }

end MappingEntry

/-- `hash_function` on the bytes of a key. -/
def hashFunction (key : List UInt8) : ℕ :=
  key.foldl (fun h p => (h * 16777619) % 2 ^ 32 ^^^ p.toNat) 2166136261

/-- `(unsigned int)-1`. -/
def noSlot : ℕ := 2 ^ 32 - 1

/-- `kv_mapping_table` with `hash_slots`. -/
structure KvTable where
  hashSlots : ℕ
  entry : ℕ → MappingEntry

namespace KvTable

variable (t : KvTable)

/-- The table `kv_init_namespace` leaves. -/
def init (hashSlots : ℕ) : KvTable where
  hashSlots := hashSlots
  entry := fun _ => MappingEntry.fresh

/-- A store to an entry. -/
def set (slot : ℕ) (e : MappingEntry) : KvTable := { t with entry := Function.update t.entry slot e }

@[simp] theorem set_hashSlots (slot : ℕ) (e : MappingEntry) :
    (t.set slot e).hashSlots = t.hashSlots := rfl

@[simp] theorem set_entry_self (slot : ℕ) (e : MappingEntry) : (t.set slot e).entry slot = e :=
  Function.update_self _ _ _

theorem set_entry_of_ne {slot x : ℕ} (e : MappingEntry) (h : x ≠ slot) :
    (t.set slot e).entry x = t.entry x :=
  Function.update_of_ne h _ _

/-- `get_hash_slot`. -/
def getHashSlot (key : List UInt8) : ℕ := hashFunction key % t.hashSlots

/-- `kv_mapping_table[slot].mem_offset == -1`. -/
def free (slot : ℕ) : Prop := (t.entry slot).memOffset = none

instance (slot : ℕ) : Decidable (t.free slot) := inferInstanceAs (Decidable (_ = none))

/-- `chain_mapping`, skipped for a previous slot of `-1`. -/
def chainMapping (prev slot : ℕ) : KvTable :=
  if prev = noSlot then t
  else t.set prev { t.entry prev with nextSlot := if slot = noSlot then none else some slot }

/-- The loop of `find_next_slot`; `none` when it runs on past every slot. -/
def findNextSlot : ℕ → ℕ → Option ℕ
  | 0, _ => none
  | fuel + 1, retSlot =>
    if t.free retSlot then some retSlot
    else
      let retSlot := (retSlot + 1) % 2 ^ 32
      findNextSlot fuel (if t.hashSlots ≤ retSlot then 0 else retSlot)

/-- `new_mapping_entry` and `new_mapping_entry_by_key` on the table, with the slot. -/
def newMappingEntry (key : List UInt8) (valLen valOffset : ℕ) : Except KvStop KvTable :=
  let slot := t.getHashSlot key
  if t.free slot then .ok (t.set slot ((t.entry slot).assign key valOffset valLen))
  else
    match t.findNextSlot t.hashSlots slot with
    | none => .error .endless
    | some s => .ok ((t.set s ((t.entry s).assign key valOffset valLen)).chainMapping slot s)

/-- The walk of `get_mapping_entry`, `get_mapping_entry_by_key`, `update_mapping_entry` and
`delete_mapping_entry` from a slot: the slot it finds the key in, `none` inside when the links end,
`none` when they do not. -/
def search (key : List UInt8) : ℕ → ℕ → Option (Option ℕ)
  | 0, _ => none
  | fuel + 1, slot =>
    if t.free slot then some none
    else if (t.entry slot).holds key then some (some slot)
    else
      match (t.entry slot).nextSlot with
      | none => some none
      | some next => search key fuel next

/-- The slot of a key; no walk without a cycle is longer than the table. -/
def findSlot (key : List UInt8) : Except KvStop (Option ℕ) :=
  match t.search key t.hashSlots (t.getHashSlot key) with
  | none => .error .endless
  | some found => .ok found

/-- `get_mapping_entry` and `get_mapping_entry_by_key`. -/
def getMappingEntry (key : List UInt8) : Except KvStop MappingEntry := do
  match ← t.findSlot key with
  | none => .ok MappingEntry.blank
  | some slot =>
    .ok { t.entry slot with key := key ++ MappingEntry.blank.key.drop key.length }

/-- `update_mapping_entry`. -/
def updateMappingEntry (key : List UInt8) (valLen : ℕ) : Except KvStop KvTable := do
  match ← t.findSlot key with
  | none => .ok t
  | some slot => .ok (t.set slot { t.entry slot with length := valLen })

/-- `delete_mapping_entry` on the table. -/
def deleteMappingEntry (key : List UInt8) : Except KvStop KvTable := do
  match ← t.findSlot key with
  | none => .ok t
  | some slot => .ok (t.set slot MappingEntry.blank)

end KvTable

end NvmeVirt
