/-
# The commands of the KV device

`__do_perform_kv_io` of `kv_ftl.c` for one command and `__do_perform_kv_batch`
with `__do_perform_kv_batched_io` for several stores in one payload, with
`kv_init_namespace`.

The loop that moves a value between the host pages of a command and the storage
has the text of the loop of `__do_perform_io`; `IoCursor.loop` is that loop.
-/

import NvmeVirt.Io.Perform
import NvmeVirt.Kv.Table
import NvmeVirt.Kv.Allocators

namespace NvmeVirt

open Outcome

/-- The opcodes the KV path tells apart. -/
inductive KvOpcode
  | store | retrieve | delete | exist
  | other (code : ℕ)
  deriving DecidableEq, Repr

/-- `struct nvme_kv_command`, the fields of the commands on one key; `keyLen` is zero-based and
`valueLen` counts words. -/
structure KvCommand where
  opcode : KvOpcode
  prp1 : ℕ
  prp2 : ℕ
  valueLen : ℕ
  keyLen : ℕ
  keyField : List UInt8
  deriving DecidableEq, Repr

namespace KvCommand

variable (cmd : KvCommand)

/-- The bytes of `key` the driver uses: `cmd_key_length` of them. -/
def key : List UInt8 := cmd.keyField.take (cmd.keyLen + 1)

/-- `cmd_value_length`, an `unsigned int`. -/
def valueLength : ℕ := (cmd.valueLen <<< 2) % 2 ^ 32

/-- The direction and the PRPs of the copy loop. -/
def copyCommand : NvmeRwCommand where
  opcode :=
    match cmd.opcode with
    | .store => .write
    | .retrieve => .read
    | _ => .other 0
  commandId := 0
  nsid := 1
  prp1 := cmd.prp1
  prp2 := cmd.prp2
  slba := 0
  length := 0
  control := 0

end KvCommand

/-- `KV_ERR_KEY_NOT_EXIST`. -/
def kvErrKeyNotExist : ℕ := 0x310

/-- A KV device: its `struct kv_ftl`, the allocators of the module and the storage, of
`config.storage_size` bytes. -/
structure KvDev where
  table : KvTable
  allocatorType : AllocatorType
  allocators : Allocators
  storageSize : ℕ
  storage : Mem

/-- What a command leaves besides the device: the host memory, `*status`, the result and the
copied ranges, newest first. -/
structure KvReply where
  host : Mem
  status : ℕ
  result : ℕ
  moved : List Transfer

namespace KvDev

variable (K : ZeroAreaFinder) (d : KvDev)

/-- The copy loop of `__do_perform_kv_io` at `offset` of the storage. -/
def copyValue (cmd : KvCommand) (host : Mem) (offset length : ℕ) : Except Fault IoCursor := do
  defined (length = 0 ∨ offset + length ≤ d.storageSize)
  IoCursor.loop cmd.copyCommand length {
    remaining := length, offset := offset, prpOffs := 0, prp2Offs := 0
    paddrList := none, host := host, storage := d.storage, moved := [] }

/-- `allocate_mem_offset` and `allocate_mem_offset_by_length`: where the allocator fails, 0. -/
def allocateMemOffset (length : ℕ) : Except Fault (KvDev × ℕ) := do
  let (a, offset) ← d.allocators.allocate K length d.allocatorType
  .ok ({ d with allocators := a }, if offset = 2 ^ 64 - 1 then 0 else offset)

/-- `new_mapping_entry` behind its `BUG_ON`. -/
def insertEntry (key : List UInt8) (length offset : ℕ) : Except KvStop KvDev := do
  if d.storageSize ≤ offset then .error .bugOn
  let t ← d.table.newMappingEntry key length offset
  .ok { d with table := t }

/-- `__do_perform_kv_io` on a store. -/
def kvStore (cmd : KvCommand) (host : Mem) : Except KvStop (KvDev × KvReply) := do
  let length := cmd.valueLength
  let entry ← d.table.getMappingEntry cmd.key
  match entry.memOffset with
  | none => do
    let (d, offset) ← liftFault (d.allocateMemOffset K length)
    let c ← liftFault (d.copyValue cmd host offset length)
    let d ← { d with storage := c.storage }.insertEntry cmd.key length offset
    .ok (d, { host := c.host, status := 0, result := 0, moved := c.moved })
  | some offset => do
    let c ← liftFault (d.copyValue cmd host offset length)
    let d := { d with storage := c.storage }
    let reply : KvReply := { host := c.host, status := 0, result := 0, moved := c.moved }
    if length ≠ entry.length ∧ length ≤ smallLength ∧ entry.length ≤ smallLength then do
      let t ← d.table.updateMappingEntry cmd.key length
      .ok ({ d with table := t }, reply)
    else .ok (d, reply)

/-- `__do_perform_kv_io`. -/
def doPerformKvIo (cmd : KvCommand) (host : Mem) : Except KvStop (KvDev × KvReply) := do
  let missing : KvReply := { host := host, status := kvErrKeyNotExist, result := 0, moved := [] }
  let done : KvReply := { host := host, status := 0, result := 0, moved := [] }
  match cmd.opcode with
  | .store => d.kvStore K cmd host
  | .retrieve => do
    let entry ← d.table.getMappingEntry cmd.key
    match entry.memOffset with
    | none => .ok (d, missing)
    | some offset => do
      let length := min entry.length cmd.valueLength
      let c ← liftFault (d.copyValue cmd host offset length)
      .ok (d, { host := c.host, status := 0, result := length, moved := c.moved })
  | .exist => do
    let entry ← d.table.getMappingEntry cmd.key
    .ok (d, if entry.memOffset = none then missing else done)
  | .delete => do
    let entry ← d.table.getMappingEntry cmd.key
    match entry.memOffset with
    | none => .ok (d, missing)
    | some _ => do
      let t ← d.table.deleteMappingEntry cmd.key
      .ok ({ d with table := t }, done)
  | .other _ => do
    let _ ← d.table.getMappingEntry cmd.key
    .ok (d, done)

end KvDev

/-- `kv_init_namespace` on a region of `storageSize` bytes with a mapping table of `tableSize`
bytes behind it; an entry takes 48 bytes. -/
def kvInitNamespace (a : Allocators) (storageSize tableSize : ℕ) (type : AllocatorType)
    (storage : Mem) : Except Fault KvDev := do
  let a ← a.init storageSize type
  .ok {
    table := KvTable.init (tableSize / 48)
    allocatorType := type
    allocators := a
    storageSize := storageSize
    storage := storage }

end NvmeVirt
