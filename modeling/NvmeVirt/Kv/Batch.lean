/-
# Batches of the KV device

`__do_perform_kv_batch` of `kv_ftl.c` reads a payload into a buffer and takes it apart:
eight attributes at its start, then per sub-command a head, the key and the value, each
padded to 64 bytes.  `__do_perform_kv_batched_io` is a copy of the store of
`__do_perform_kv_io` whose call of `update_mapping_entry` is commented out.
-/

import NvmeVirt.Kv.Values

namespace NvmeVirt

open Outcome

/-- `struct nvme_kv_command` of a batch, the fields that are read; `rsvd4` is the number of
sub-commands. -/
structure KvBatchCommand where
  prp1 : ℕ
  prp2 : ℕ
  valueLen : ℕ
  rsvd4 : ℕ
  deriving DecidableEq, Repr

namespace KvBatchCommand

variable (cmd : KvBatchCommand)

/-- `cmd_value_length`. -/
def valueLength : ℕ := (cmd.valueLen <<< 2) % 2 ^ 32

/-- The direction and the PRPs of the copy loop, as the loop of `__do_perform_io` takes them. -/
def copyCommand : NvmeRwCommand where
  opcode := .write
  commandId := 0
  nsid := 1
  prp1 := cmd.prp1
  prp2 := cmd.prp2
  slba := 0
  length := 0
  control := 0

/-- `buffer` behind the copy loop, which overwrites all of it. -/
def readPayload (host : Mem) : Except Fault Mem := do
  let c ← IoCursor.loop cmd.copyCommand cmd.valueLength
    (IoCursor.start host (fun _ => 0) 0 cmd.valueLength)
  .ok c.storage

end KvBatchCommand

/-- `nvme_cmd_kv_store`. -/
def nvmeCmdKvStore : ℕ := 0x81

/-- `ALIGN_LEN`. -/
def alignLen : ℕ := 64

/-- `MAX_SUB_CMD`. -/
def maxSubCmd : ℕ := 8

/-- `sizeof(struct batch_cmd_head)`. -/
def batchCmdHead : ℕ := 512

/-- The 32-bit word at an address. -/
def readLe32 (m : Mem) (a : ℕ) : ℕ :=
  ∑ i ∈ Finset.range 4, (m (a + i)).toNat * 256 ^ i

/-- `struct sub_cmd_attribute`, the fields that are read. -/
structure SubCmdAttribute where
  opcode : ℕ
  keySize : ℕ
  valueSize : ℕ
  deriving DecidableEq, Repr

/-- `payload->batch_head.attr[i]`. -/
def subCmdAttribute (buffer : Mem) (i : ℕ) : SubCmdAttribute where
  opcode := (buffer (16 * i)).toNat
  keySize := (buffer (16 * i + 1)).toNat
  valueSize := readLe32 buffer (16 * i + 4)

/-- `((len - 1) / ALIGN_LEN + 1) * ALIGN_LEN`; the division of C rounds towards zero. -/
def padded (len : ℕ) : ℕ := ((len - 1) / alignLen + 1) * alignLen

namespace KvDev

variable (K : ZeroAreaFinder) (d : KvDev)

/-- The `memcpy` of a value into the storage. -/
def putValue (offset : ℕ) (value : List UInt8) : Except Fault KvDev := do
  defined (value.length = 0 ∨ offset + value.length ≤ d.storageSize)
  .ok { d with storage := storeBytes d.storage offset value }

/-- `__do_perform_kv_batched_io`. -/
def kvBatchedIo (opcode : ℕ) (key value : List UInt8) : Except KvStop KvDev := do
  let entry ← d.table.getMappingEntry key
  if opcode ≠ nvmeCmdKvStore then return d
  match entry.memOffset with
  | none => do
    let (d, offset) ← liftFault (d.allocateMemOffset K value.length)
    let d ← liftFault (d.putValue offset value)
    d.insertEntry key value.length offset
  | some offset => liftFault (d.putValue offset value)

/-- The loop of `__do_perform_kv_batch` over `n` sub-commands, from number `i` on.  The buffers of
the key and of the value have 20 and 4097 bytes. -/
def performSubs (buffer : Mem) (length : ℕ) : ℕ → ℕ → ℕ → KvDev → Except KvStop KvDev
  | 0, _, _, d => .ok d
  | n + 1, i, payloadOffset, d => do
    liftFault (defined (i < maxSubCmd))
    let attr := subCmdAttribute buffer i
    let keyAt := batchCmdHead + payloadOffset
    let valueAt := keyAt + padded attr.keySize
    liftFault (defined (attr.keySize ≤ 20 ∧ attr.valueSize ≤ 4097 ∧
      valueAt + attr.valueSize ≤ length))
    let d ← d.kvBatchedIo K attr.opcode (bytesAt buffer keyAt attr.keySize)
      (bytesAt buffer valueAt attr.valueSize)
    let subLen := padded attr.keySize + padded attr.valueSize + alignLen
    performSubs buffer length n (i + 1) (payloadOffset + subLen) d

/-- `__do_perform_kv_batch`. -/
def doPerformKvBatch (cmd : KvBatchCommand) (host : Mem) : Except KvStop KvDev := do
  let buffer ← liftFault (cmd.readPayload host)
  performSubs K buffer cmd.valueLength cmd.rsvd4 0 alignLen d

end KvDev

/-! ### Well-formed batches -/

/-- A store of a batch. -/
structure KvSub where
  key : List UInt8
  value : List UInt8
  deriving DecidableEq, Repr

namespace KvSub

/-- A key of up to 16 bytes, and a value of up to 4096 in whole words. -/
def WellFormed (s : KvSub) : Prop :=
  1 ≤ s.key.length ∧ s.key.length ≤ 16 ∧ s.value.length ≤ 4096 ∧ 4 ∣ s.value.length

instance (s : KvSub) : Decidable s.WellFormed := inferInstanceAs (Decidable (_ ∧ _))

end KvSub

/-- The buffer holds these stores as the sub-commands from number `i` on. -/
def EncodesFrom (buffer : Mem) (length : ℕ) : ℕ → ℕ → List KvSub → Prop
  | _, _, [] => True
  | i, payloadOffset, s :: subs =>
    let keyAt := batchCmdHead + payloadOffset
    let valueAt := keyAt + padded s.key.length
    i < maxSubCmd ∧ valueAt + s.value.length ≤ length ∧
      subCmdAttribute buffer i = ⟨nvmeCmdKvStore, s.key.length, s.value.length⟩ ∧
      bytesAt buffer keyAt s.key.length = s.key ∧
      bytesAt buffer valueAt s.value.length = s.value ∧
      EncodesFrom buffer length (i + 1)
        (payloadOffset + (padded s.key.length + padded s.value.length + alignLen)) subs

instance EncodesFrom.decidable (buffer : Mem) (length : ℕ) :
    ∀ i payloadOffset subs, Decidable (EncodesFrom buffer length i payloadOffset subs)
  | _, _, [] => .isTrue trivial
  | i, payloadOffset, s :: subs =>
    have := EncodesFrom.decidable buffer length (i + 1)
      (payloadOffset + (padded s.key.length + padded s.value.length + alignLen)) subs
    inferInstanceAs (Decidable (_ ∧ _ ∧ _ ∧ _ ∧ _ ∧ _))

/-- **A well-formed batch:** its payload holds these stores. -/
structure KvBatchCommand.Carries (cmd : KvBatchCommand) (host : Mem) (subs : List KvSub) :
    Prop where
  count : cmd.rsvd4 = subs.length
  wellFormed : ∀ s ∈ subs, s.WellFormed
  payload : ∃ buffer, cmd.readPayload host = .ok buffer ∧
    EncodesFrom buffer cmd.valueLength 0 alignLen subs

namespace KvDev

variable {K : ZeroAreaFinder} {d d' : KvDev} {buffer host : Mem} {subs : List KvSub}

/-- One store of a batch. -/
def batchStep (K : ZeroAreaFinder) (d : KvDev) (s : KvSub) : Except KvStop KvDev :=
  d.kvBatchedIo K nvmeCmdKvStore s.key s.value

/-- The loop over a payload executes the stores it holds. -/
theorem performSubs_eq {length i payloadOffset : ℕ} (hwf : ∀ s ∈ subs, s.WellFormed)
    (h : EncodesFrom buffer length i payloadOffset subs) :
    performSubs K buffer length subs.length i payloadOffset d = runList (batchStep K) d subs := by
  induction subs generalizing i payloadOffset d with
  | nil => rfl
  | cons s subs ih =>
    obtain ⟨hi, hlen, hattr, hkey, hvalue, hrest⟩ := h
    obtain ⟨-, hk, hv, -⟩ := hwf s List.mem_cons_self
    rw [List.length_cons, runList_cons]
    unfold performSubs
    dsimp only
    rw [hattr]
    dsimp only
    rw [hkey, hvalue, show defined (i < maxSubCmd) = .ok () from if_pos hi,
      show defined (s.key.length ≤ 20 ∧ s.value.length ≤ 4097 ∧
        batchCmdHead + payloadOffset + padded s.key.length + s.value.length ≤ length) = .ok () from
        if_pos ⟨by omega, by omega, hlen⟩]
    show KvDev.batchStep K d s >>= _ = KvDev.batchStep K d s >>= _
    refine congrArg _ (funext fun d => ih (fun s' hs' => hwf s' (List.mem_cons_of_mem _ hs')) hrest)

/-- **A batch executes the stores of its payload in order.** -/
theorem doPerformKvBatch_eq {cmd : KvBatchCommand} (h : cmd.Carries host subs) :
    d.doPerformKvBatch K cmd host = runList (batchStep K) d subs := by
  obtain ⟨buffer, hread, henc⟩ := h.payload
  unfold doPerformKvBatch
  rw [hread, h.count]
  exact performSubs_eq h.wellFormed henc

end KvDev

end NvmeVirt
