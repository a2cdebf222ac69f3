/-
# Iterators of the KV device

`kv_iter_open`, `kv_iter_close` and `kv_iter_read` of `kv_ftl.c` on the handle table of
`struct kv_ftl`.  `kv_init_namespace` clears the first 16 of its 17 words, and what the
last one held before stays in it.  The host memory of a reply is written by a copy of the
loop of `__do_perform_io`.
-/

import NvmeVirt.Lib.LittleEndian
import NvmeVirt.Kv.Values

namespace NvmeVirt

open Outcome LittleEndian

/-- `struct kv_iter_context`, the fields that are read; `buf` has 32768 bytes. -/
structure KvIterContext where
  iterPrefix : ℕ
  bitmask : ℕ
  buf : Mem
  currentPos : ℕ

/-- A word of `iter_handle`. -/
inductive IterHandle
  | null
  | context (handle : KvIterContext)
  /-- A word that was never set: it points nowhere. -/
  | stray (word : ℕ)

namespace IterHandle

/-- The handle is not in use. -/
def isNull : IterHandle → Bool
  | null => true
  | _ => false

/-- What a word of fresh memory is as a handle. -/
def ofWord (word : ℕ) : IterHandle := if word = 0 then null else stray word

end IterHandle

/-- `struct kv_ftl`, the fields the iterators read. -/
structure KvFtl where
  table : KvTable
  iterHandle : ℕ → IterHandle

/-- `struct nvme_kv_iter_req_command`, the fields of an open. -/
structure KvIterReqCommand where
  iterVal : ℕ
  iterBitmask : ℕ
  deriving DecidableEq, Repr

/-- The fields `kv_iter_read` reads of its command. -/
structure KvIterReadCommand where
  iterHandle : ℕ
  prp1 : ℕ
  prp2 : ℕ
  deriving DecidableEq, Repr

/-- The direction and the PRPs of the copy loop. -/
def KvIterReadCommand.copyCommand (cmd : KvIterReadCommand) : NvmeRwCommand where
  opcode := .read
  commandId := 0
  nsid := 1
  prp1 := cmd.prp1
  prp2 := cmd.prp2
  slba := 0
  length := 0
  control := 0

/-- What an iterator command answers with: what the function returns, and `*status`. -/
structure KvIterReply where
  result : ℕ
  status : ℕ
  deriving DecidableEq, Repr

/-- What a read answers with; `moved` is a history variable: the bytes the copy loop has written to
the host memory, with their addresses. -/
structure KvIterAnswer where
  reply : KvIterReply
  moved : List (ℕ × UInt8)

/-- The status of the reply that ends an iteration. -/
def kvIterEnd : ℕ := 0x393

/-- `keylen` of `kv_iter_read`. -/
def iterKeyLen : ℕ := 16

/-- What a reply may have. -/
def iterLimit : ℕ := 1024

/-- The words of `iter_handle`. -/
def nrIterHandles : ℕ := 17

/-- The first four bytes of the key of an entry match a prefix under a mask. -/
def MappingEntry.Matches (e : MappingEntry) (iterPrefix bitmask : ℕ) : Prop :=
  leNat (e.key.take 4) &&& bitmask = iterPrefix &&& bitmask

instance (e : MappingEntry) (iterPrefix bitmask : ℕ) : Decidable (e.Matches iterPrefix bitmask) :=
  inferInstanceAs (Decidable (_ = _))

/-- A slot in use whose key matches. -/
def KvTable.SlotMatches (t : KvTable) (iterPrefix bitmask pos : ℕ) : Prop :=
  ¬ t.free pos ∧ (t.entry pos).Matches iterPrefix bitmask

instance (t : KvTable) (iterPrefix bitmask pos : ℕ) :
    Decidable (t.SlotMatches iterPrefix bitmask pos) := inferInstanceAs (Decidable (_ ∧ _))

/-- The variables of the scan of `kv_iter_read`. -/
structure IterScan where
  buf : Mem
  bufOffset : ℕ
  nrKeys : ℕ
  pos : ℕ
  ended : Bool

namespace IterScan

/-- The scan finds a key: its length and its bytes go to the buffer. -/
def put (s : IterScan) (e : MappingEntry) : IterScan :=
  { s with
    buf := storeBytes (storeBytes s.buf s.bufOffset (leBytes 4 iterKeyLen)) (s.bufOffset + 4)
      (e.key.take iterKeyLen)
    bufOffset := s.bufOffset + 4 + (iterKeyLen + 3) / 4 * 4
    nrKeys := s.nrKeys + 1 }

/-- The loop of `kv_iter_read` over the slots; `pos` is an `int`. -/
def loop (t : KvTable) (handle : KvIterContext) : ℕ → IterScan → Except Fault IterScan
  | 0, s => .ok s
  | fuel + 1, s =>
    if s.pos < t.hashSlots then
      -- the reply is full: the slot is left for the next one
      if t.SlotMatches handle.iterPrefix handle.bitmask s.pos ∧
          iterLimit < s.bufOffset + 4 + iterKeyLen then .ok s
      else do
        let s := if t.SlotMatches handle.iterPrefix handle.bitmask s.pos then
          s.put (t.entry s.pos) else s
        defined (s.pos + 1 < 2 ^ 31)
        let s := { s with pos := s.pos + 1 }
        if s.pos = t.hashSlots then .ok { s with ended := true } else loop t handle fuel s
    else .ok s

end IterScan

namespace KvFtl

variable (f : KvFtl)

/-- What `kv_init_namespace` leaves of the handles in memory that held `words`. -/
def init (table : KvTable) (words : ℕ → ℕ) : KvFtl where
  table := table
  iterHandle := fun i => if i < 16 then .null else .ofWord (words i)

/-- The handle `kv_iter_open` takes. -/
def freeHandle : Option ℕ := (List.range' 1 16).find? fun i => (f.iterHandle i).isNull

/-- `kv_iter_open`; the new buffer holds `memory`. -/
def kvIterOpen (cmd : KvIterReqCommand) (memory : Mem) (status : ℕ) : KvFtl × KvIterReply :=
  match f.freeHandle with
  | none => (f, ⟨1, status⟩)
  | some iter =>
    ({ f with iterHandle := Function.update f.iterHandle iter (.context {
        iterPrefix := cmd.iterVal, bitmask := cmd.iterBitmask, buf := memory, currentPos := 0 }) },
      ⟨iter, 0⟩)

/-- `kv_iter_close`; a word that points nowhere cannot be freed. -/
def kvIterClose (iter : ℕ) : Except Fault (KvFtl × KvIterReply) := do
  defined (iter < nrIterHandles)
  match f.iterHandle iter with
  | .null => .ok (f, ⟨0, 0⟩)
  | .context _ =>
    .ok ({ f with iterHandle := Function.update f.iterHandle iter .null }, ⟨0, 0⟩)
  | .stray _ => .error .undefined

/-- The reply `kv_iter_read` puts together in the buffer of the handle. -/
def scan (handle : KvIterContext) : Except Fault IterScan := do
  let s ← IterScan.loop f.table handle f.table.hashSlots {
    buf := handle.buf, bufOffset := 4, nrKeys := 0, pos := handle.currentPos, ended := false }
  .ok { s with buf := storeBytes s.buf 0 (leBytes 4 s.nrKeys) }

/-- `kv_iter_read`, with the host memory. -/
def kvIterRead (cmd : KvIterReadCommand) (host : Mem) (status : ℕ) :
    Except Fault (KvFtl × Mem × KvIterAnswer) := do
  defined (cmd.iterHandle < nrIterHandles)
  match f.iterHandle cmd.iterHandle with
  | .null => .ok (f, host, ⟨⟨0, status⟩, []⟩)
  | .stray _ => .error .undefined
  | .context handle => do
    let s ← f.scan handle
    let c ← IoCursor.loop cmd.copyCommand s.bufOffset (IoCursor.start host s.buf 0 s.bufOffset)
    .ok ({ f with iterHandle := Function.update f.iterHandle cmd.iterHandle (.context {
        handle with buf := s.buf, currentPos := s.pos }) }, c.host, {
      reply := ⟨s.bufOffset, if s.ended then kvIterEnd else 0⟩
      moved := c.pairs.map fun p => (p.1, s.buf p.2) })

end KvFtl

end NvmeVirt
