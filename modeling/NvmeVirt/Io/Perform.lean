/-
# Copying the data of a command

`struct nvme_rw_command` of `nvme.h` and `__do_perform_io` of `io.c`: the loop
that moves the data of a command between the host pages its PRPs name and the
storage of the namespace, one page or less in a round.

Host memory is a map from physical addresses to bytes, the storage a map from
offsets into the mapped region.  `moved` is a history variable: the ranges the
rounds have copied, newest first.
-/

import NvmeVirt.Ssd.Params

namespace NvmeVirt

open Outcome

/-- The opcodes the I/O path tells apart. -/
inductive NvmeOpcode
  | flush | write | read | zoneMgmtSend | zoneMgmtRecv | zoneAppend
  | other (code : ℕ)
  deriving DecidableEq, Repr

/-- `struct nvme_rw_command`, the fields the I/O path reads; `length` is zero-based.  The zone
management commands overlay it: `dsmgmt` is their `DW13`, `length` and `control` their `DW12`. -/
structure NvmeRwCommand where
  opcode : NvmeOpcode
  commandId : ℕ
  nsid : ℕ
  prp1 : ℕ
  prp2 : ℕ
  slba : ℕ
  length : ℕ
  control : ℕ
  dsmgmt : ℕ := 0
  deriving DecidableEq, Repr

/-- Bytes by address. -/
abbrev Mem := ℕ → UInt8

/-- `memcpy` of `n` bytes from `s` of the one memory to `d` of the other. -/
def memcpy (dst src : Mem) (d s n : ℕ) : Mem := fun a =>
  if d ≤ a ∧ a < d + n then src (s + (a - d)) else dst a

/-- The 64-bit word at an address. -/
def readLe64 (m : Mem) (a : ℕ) : ℕ :=
  ∑ i ∈ Finset.range 8, (m (a + i)).toNat * 256 ^ i

/-- `PAGE_SIZE`. -/
def pageSize : ℕ := 4096

/-- A copied range: host address, offset into the storage, bytes. -/
structure Transfer where
  paddr : ℕ
  offset : ℕ
  size : ℕ
  deriving DecidableEq, Repr

/-- The locals of `__do_perform_io` with the two memories. -/
structure IoCursor where
  remaining : ℕ
  offset : ℕ
  prpOffs : ℕ
  prp2Offs : ℕ
  paddrList : Option ℕ
  host : Mem
  storage : Mem
  moved : List Transfer

namespace IoCursor

/-- `paddr_list[prp2_offs++]`; one page of the list is mapped. -/
def nextEntry (c : IoCursor) : Except Fault (IoCursor × ℕ) :=
  match c.paddrList with
  | none => .error .undefined
  | some base => do
    defined (base % pageSize + 8 * (c.prp2Offs + 1) ≤ pageSize)
    .ok ({ c with prp2Offs := c.prp2Offs + 1 }, readLe64 c.host (base + 8 * c.prp2Offs))

/-- The host address of the round. -/
def nextPaddr (c : IoCursor) (cmd : NvmeRwCommand) : Except Fault (IoCursor × ℕ) :=
  let c := { c with prpOffs := c.prpOffs + 1 }
  if c.prpOffs = 1 then .ok (c, cmd.prp1)
  else if c.prpOffs = 2 then
    if pageSize < c.remaining then { c with paddrList := some cmd.prp2 }.nextEntry
    else .ok (c, cmd.prp2)
  else c.nextEntry

/-- The bytes of the round: up to the end of the host page. -/
def ioSize (c : IoCursor) (paddr : ℕ) : ℕ :=
  let ioSize := min c.remaining pageSize
  let memOffs := paddr % pageSize
  if pageSize < ioSize + memOffs then pageSize - memOffs else ioSize

/-- The copy of the round. -/
def copy (c : IoCursor) (cmd : NvmeRwCommand) (paddr n : ℕ) : IoCursor :=
  match cmd.opcode with
  | .write => { c with storage := memcpy c.storage c.host c.offset paddr n }
  | .zoneAppend => { c with storage := memcpy c.storage c.host c.offset paddr n }
  | .read => { c with host := memcpy c.host c.storage paddr c.offset n }
  | _ => c

/-- One round of the loop. -/
def round (c : IoCursor) (cmd : NvmeRwCommand) : Except Fault IoCursor := do
  let (c, paddr) ← c.nextPaddr cmd
  let n := c.ioSize paddr
  let c := c.copy cmd paddr n
  .ok { c with
    remaining := c.remaining - n
    offset := u64 (c.offset + n)
    moved := { paddr := paddr, offset := c.offset, size := n } :: c.moved }

/-- The loop; a round copies a byte at least, so the bytes left bound the rounds. -/
def loop (cmd : NvmeRwCommand) : ℕ → IoCursor → Except Fault IoCursor
  | 0, c => .ok c
  | fuel + 1, c =>
    if c.remaining = 0 then .ok c
    else do
      let c ← c.round cmd
      loop cmd fuel c

end IoCursor

/-- `offset` of `__do_perform_io`. -/
def NvmeRwCommand.ioOffset (cmd : NvmeRwCommand) : ℕ := u64 (cmd.slba <<< 9)

/-- `length` of `__do_perform_io`. -/
def NvmeRwCommand.ioLength (cmd : NvmeRwCommand) : ℕ := (cmd.length + 1) <<< 9

/-- `__do_perform_io`. -/
def doPerformIo (cmd : NvmeRwCommand) (host storage : Mem) : Except Fault IoCursor :=
  IoCursor.loop cmd cmd.ioLength {
    remaining := cmd.ioLength, offset := cmd.ioOffset, prpOffs := 0, prp2Offs := 0
    paddrList := none, host := host, storage := storage, moved := [] }

/-! ### What is touched -/

namespace IoCursor

variable {c c' : IoCursor} {cmd : NvmeRwCommand} {host storage : Mem} {a b : ℕ}

theorem ends_nextEntry (c : IoCursor) :
    Ends c.nextEntry (fun _ => True) fun e => e = .undefined := by
  unfold nextEntry
  cases c.paddrList with
  | none => exact rfl
  | some base =>
    refine Ends.bind (Q := fun _ => True) ?_ fun _ _ => trivial
    unfold defined
    split_ifs
    · trivial
    · exact rfl

/-- Only a walk off the PRP list stops the loop. -/
theorem ends_loop (cmd : NvmeRwCommand) (fuel : ℕ) (c : IoCursor) :
    Ends (IoCursor.loop cmd fuel c) (fun _ => True) fun e => e = .undefined := by
  induction fuel generalizing c with
  | zero => trivial
  | succ fuel ih =>
    unfold IoCursor.loop
    split_ifs
    · trivial
    · refine Ends.bind (Q := fun _ => True) ?_ fun c _ => ih c
      unfold IoCursor.round
      refine Ends.bind (Q := fun _ => True) ?_ fun _ _ => trivial
      unfold nextPaddr
      dsimp only
      split_ifs
      · trivial
      · exact ends_nextEntry _
      · trivial
      · exact ends_nextEntry _

/-- The cursor stands inside the range `[a, b)` of the storage: what is left ends at `b`, and what
has been copied lies in the range and is all that has changed of the storage. -/
structure Within (cmd : NvmeRwCommand) (storage : Mem) (a b : ℕ) (c : IoCursor) : Prop where
  start : a ≤ c.offset
  stop : c.offset + c.remaining = b
  moved : ∀ t ∈ c.moved, a ≤ t.offset ∧ t.offset + t.size ≤ b
  frame : ∀ x, x < a ∨ c.offset ≤ x → c.storage x = storage x

theorem nextPaddr_frame {p : ℕ} (h : c.nextPaddr cmd = .ok (c', p)) :
    c'.remaining = c.remaining ∧ c'.offset = c.offset ∧ c'.host = c.host ∧
      c'.storage = c.storage ∧ c'.moved = c.moved := by
  have hentry : ∀ e e' : IoCursor, ∀ p, e.nextEntry = .ok (e', p) →
      e'.remaining = e.remaining ∧ e'.offset = e.offset ∧ e'.host = e.host ∧
        e'.storage = e.storage ∧ e'.moved = e.moved := by
    intro e e' p he
    unfold nextEntry at he
    split at he
    · cases he
    · simp only [bind_eq_ok] at he
      obtain ⟨_, -, he⟩ := he
      cases he
      exact ⟨rfl, rfl, rfl, rfl, rfl⟩
  unfold nextPaddr at h
  dsimp only at h
  split_ifs at h
  · cases h
    exact ⟨rfl, rfl, rfl, rfl, rfl⟩
  · have := hentry _ _ _ h
    exact this
  · cases h
    exact ⟨rfl, rfl, rfl, rfl, rfl⟩
  · have := hentry _ _ _ h
    exact this

theorem ioSize_le (c : IoCursor) (p : ℕ) : c.ioSize p ≤ c.remaining := by
  unfold ioSize
  dsimp only
  split_ifs <;> omega

theorem ioSize_pos (c : IoCursor) (p : ℕ) (h : c.remaining ≠ 0) : 0 < c.ioSize p := by
  have hmod : p % pageSize < pageSize := Nat.mod_lt _ (by decide)
  have hp : 0 < pageSize := by decide
  unfold ioSize
  dsimp only
  split_ifs <;> omega

theorem copy_fields (c : IoCursor) (cmd : NvmeRwCommand) (p n : ℕ) :
    (c.copy cmd p n).remaining = c.remaining ∧ (c.copy cmd p n).offset = c.offset ∧
      (c.copy cmd p n).moved = c.moved ∧
      ∀ x, x < c.offset ∨ c.offset + n ≤ x → (c.copy cmd p n).storage x = c.storage x := by
  have hout : ∀ x, x < c.offset ∨ c.offset + n ≤ x →
      memcpy c.storage c.host c.offset p n x = c.storage x := fun x hx => if_neg (by omega)
  unfold copy
  split
  · exact ⟨rfl, rfl, rfl, hout⟩
  · exact ⟨rfl, rfl, rfl, hout⟩
  · exact ⟨rfl, rfl, rfl, fun _ _ => rfl⟩
  · exact ⟨rfl, rfl, rfl, fun _ _ => rfl⟩

/-- A round stays inside the range and copies something. -/
theorem Within.round (h : Within cmd storage a b c) (hb : b < 2 ^ 64) (hr : c.remaining ≠ 0)
    (hc : c.round cmd = .ok c') : Within cmd storage a b c' ∧ c'.remaining < c.remaining := by
  unfold IoCursor.round at hc
  simp only [bind_eq_ok] at hc
  obtain ⟨⟨c₁, p⟩, hp, hc⟩ := hc
  cases hc
  obtain ⟨h1, h2, -, h4, h5⟩ := nextPaddr_frame hp
  have hle := ioSize_le c₁ p
  have hpos := ioSize_pos c₁ p (by rw [h1]; exact hr)
  obtain ⟨k1, k2, k3, k4⟩ := copy_fields c₁ cmd p (c₁.ioSize p)
  obtain ⟨s1, s2, s3, s4⟩ := h
  have hmod : u64 ((c₁.copy cmd p (c₁.ioSize p)).offset + c₁.ioSize p)
      = c₁.offset + c₁.ioSize p := by
    rw [k2]
    exact Nat.mod_eq_of_lt (by omega)
  refine ⟨⟨?_, ?_, ?_, ?_⟩, ?_⟩ <;> dsimp only
  · rw [hmod]
    omega
  · rw [hmod, k1]
    omega
  · intro t ht
    rcases List.mem_cons.1 ht with rfl | ht
    · dsimp only
      rw [k2]
      omega
    · exact s3 t (by rwa [k3, h5] at ht)
  · intro x hx
    rw [hmod] at hx
    rw [k4 x (by omega), h4]
    exact s4 x (by omega)
  · omega

/-- **The loop stays inside the range** and, where it returns, has copied all of it. -/
theorem Within.loop (h : Within cmd storage a b c) (hb : b < 2 ^ 64) {fuel : ℕ}
    (hf : c.remaining ≤ fuel) (hc : IoCursor.loop cmd fuel c = .ok c') :
    Within cmd storage a b c' ∧ c'.remaining = 0 := by
  induction fuel generalizing c with
  | zero =>
    cases hc
    exact ⟨h, by omega⟩
  | succ fuel ih =>
    unfold IoCursor.loop at hc
    split_ifs at hc with h0
    · cases hc
      exact ⟨h, h0⟩
    · simp only [bind_eq_ok] at hc
      obtain ⟨c₁, hc₁, hc⟩ := hc
      obtain ⟨h₁, hlt⟩ := h.round hb h0 hc₁
      exact ih h₁ (by omega) hc

end IoCursor

/-- **`__do_perform_io` touches the blocks of the command only,** if their byte range does not
wrap around. -/
theorem doPerformIo_within {cmd : NvmeRwCommand} {host storage : Mem} {c : IoCursor}
    (hwrap : (cmd.slba + cmd.length + 1) * 512 < 2 ^ 64)
    (h : doPerformIo cmd host storage = .ok c) :
    (∀ t ∈ c.moved, cmd.slba * 512 ≤ t.offset ∧
      t.offset + t.size ≤ (cmd.slba + cmd.length + 1) * 512) ∧
    ∀ x, x < cmd.slba * 512 ∨ (cmd.slba + cmd.length + 1) * 512 ≤ x → c.storage x = storage x := by
  have hoff : cmd.ioOffset = cmd.slba * 512 := by
    unfold NvmeRwCommand.ioOffset u64
    rw [Nat.shiftLeft_eq]
    omega
  have hlen : cmd.ioLength = (cmd.length + 1) * 512 := Nat.shiftLeft_eq _ _
  unfold doPerformIo at h
  have hstart : IoCursor.Within cmd storage (cmd.slba * 512) ((cmd.slba + cmd.length + 1) * 512) {
      remaining := cmd.ioLength, offset := cmd.ioOffset, prpOffs := 0, prp2Offs := 0
      paddrList := none, host := host, storage := storage, moved := [] } :=
    ⟨hoff.ge, by dsimp only; rw [hoff, hlen]; ring, by simp, fun _ _ => rfl⟩
  obtain ⟨hw, h0⟩ := hstart.loop hwrap (Nat.le_refl cmd.ioLength) h
  refine ⟨hw.moved, fun x hx => hw.frame x ?_⟩
  have := hw.stop
  omega

/-- The command copies host memory to the storage. -/
def NvmeRwCommand.Writes (cmd : NvmeRwCommand) : Prop :=
  cmd.opcode = .write ∨ cmd.opcode = .zoneAppend

instance : DecidablePred NvmeRwCommand.Writes := fun _ => inferInstanceAs (Decidable (_ ∨ _))

namespace IoCursor

variable {c r : IoCursor} {cmd : NvmeRwCommand}

/-- Other commands leave the storage alone. -/
theorem loop_storage_of_not_writes (hw : ¬ cmd.Writes) {fuel : ℕ} (h : loop cmd fuel c = .ok r) :
    r.storage = c.storage := by
  have hcopy : ∀ (e : IoCursor) (p n : ℕ), (e.copy cmd p n).storage = e.storage := by
    intro e p n
    unfold copy
    split
    · exact absurd (.inl ‹_›) hw
    · exact absurd (.inr ‹_›) hw
    · rfl
    · rfl
  induction fuel generalizing c with
  | zero =>
    cases h
    rfl
  | succ fuel ih =>
    unfold loop at h
    by_cases h0 : c.remaining = 0
    · rw [if_pos h0] at h
      cases h
      rfl
    · rw [if_neg h0] at h
      obtain ⟨c₁, hc₁, h⟩ := bind_eq_ok.1 h
      obtain ⟨⟨c₂, p⟩, hp, hround⟩ := bind_eq_ok.1 hc₁
      obtain ⟨-, -, -, hstore, -⟩ := nextPaddr_frame hp
      rw [ih h]
      cases hround
      exact (hcopy _ _ _).trans hstore

end IoCursor

/-- **A command that is no write and no append** leaves the storage alone. -/
theorem doPerformIo_of_not_writes {cmd : NvmeRwCommand} {host storage : Mem} {c : IoCursor}
    (hw : ¬ cmd.Writes) (h : doPerformIo cmd host storage = .ok c) : c.storage = storage :=
  IoCursor.loop_storage_of_not_writes hw h

end NvmeVirt
