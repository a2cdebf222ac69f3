/-
# Kernel file calls

`kernel_read` and `kernel_write` as the snapshot code uses them.  A call moves
any part of what it is asked for, nothing at the end of the file, or fails; what
it returns is a parameter.  A section of a snapshot is moved by a single call
whose result is not looked at, the data of a page or zone by a loop over an
`int` cursor.
-/

import Mathlib.Data.List.GetD
import NvmeVirt.Io.Perform
import NvmeVirt.Lib.LittleEndian

namespace NvmeVirt

open LittleEndian

/-- A value in an `int`. -/
def asInt (n : ℤ) : ℤ := Int.bmod n (2 ^ 32)

/-- `MAX_RW_COUNT`. -/
def maxRwCount : ℕ := 0x7ffff000

/-- What the kernel file calls return: the `k`-th call of a section or of a copy loop that could
move `n` bytes returns the number of bytes it moves, or a negative error. -/
structure FileCalls where
  single : ℕ → ℕ → ℤ
  copy : ℕ → ℕ → ℤ
  single_le : ∀ k n, single k n ≤ n
  copy_le : ∀ k n, copy k n ≤ n

/-- **Calls that do not fail:** a section is moved fully, and a call in a copy loop moves at least
one byte if there is one. -/
structure FileCalls.Transfers (calls : FileCalls) : Prop where
  single : ∀ k n, calls.single k n = n
  copy : ∀ k n, 0 < n → 1 ≤ calls.copy k n
  copy_nonneg : ∀ k n, 0 ≤ calls.copy k n

/-- Calls that move what they are asked for. -/
def FileCalls.whole : FileCalls where
  single _ n := n
  copy _ n := n
  single_le _ _ := le_rfl
  copy_le _ _ := le_rfl

theorem FileCalls.whole_transfers : FileCalls.whole.Transfers :=
  ⟨fun _ _ => rfl, fun _ _ hn => Int.ofNat_le.2 hn, fun _ n => Int.natCast_nonneg n⟩

/-- A range of memory a copy loop has read a part of a file into, for the zone or page `owner`. -/
structure CopiedRange where
  owner : ℕ
  addr : ℤ
  size : ℕ
  deriving DecidableEq, Repr

/-- An open file: `bytes` is what has been written to it, or what is still to be read.  `cursors`
and `copied` are history variables: the values the copy cursors have taken and the ranges the copy
loops have written. -/
structure OpenFile where
  bytes : List UInt8
  singles : ℕ := 0
  copies : ℕ := 0
  cursors : List ℤ := []
  copied : List CopiedRange := []
  deriving DecidableEq, Repr

/-- The bytes of a range of memory; what lies below the memory is not known. -/
def readBytes (m : Mem) (addr : ℤ) (n : ℕ) : List UInt8 :=
  (List.range n).map fun i : ℕ => m (addr + i).toNat

/-- A byte string stored in memory. -/
def writeBytes (m : Mem) (addr : ℤ) (bs : List UInt8) : Mem := fun a =>
  if addr ≤ a ∧ a < addr + bs.length then bs.getD (a - addr).toNat 0 else m a

namespace OpenFile

variable (calls : FileCalls) (o : OpenFile)

/-- `kernel_write` of a section. -/
def kernelWrite (data : List UInt8) : OpenFile :=
  let ret := calls.single o.singles data.length
  { o with bytes := o.bytes ++ data.take ret.toNat, singles := o.singles + 1 }

/-- `kernel_read` of a section of `size` bytes: the bytes it reads and what it returns. -/
def kernelRead (size : ℕ) : OpenFile × List UInt8 × ℤ :=
  let ret := calls.single o.singles (min size o.bytes.length)
  ({ o with bytes := o.bytes.drop ret.toNat, singles := o.singles + 1 }, o.bytes.take ret.toNat,
    ret)

end OpenFile

/-- How a loop is left: its condition fails, an error is handed on, it still runs, or it does what
has no meaning. -/
inductive LoopEnd
  | done
  | failed (ret : ℤ)
  | running
  | undefined
  deriving DecidableEq, Repr

/-- How a call ends: it returns, or it does not within the rounds allowed to its loops, or it does
what has no meaning. -/
inductive CallEnd
  | returns (ret : ℤ)
  | running
  | undefined
  deriving DecidableEq, Repr

/-- A file and the memory it is copied to or from. -/
structure Copying where
  file : OpenFile
  mem : Mem

/-- A copy loop: while `goes cur`, a call is made and the cursor moves by what it returns.  If
`checked`, a negative result ends the loop. -/
def copyLoop (goes : ℤ → Prop) [DecidablePred goes] (checked : Bool)
    (call : ℤ → Copying → Copying × ℤ) : ℕ → ℤ → Copying → Copying × LoopEnd
  | 0, _, s => (s, .running)
  | fuel + 1, cur, s =>
    if ¬ goes cur then (s, .done)
    else
      let (s, ret) := call cur s
      if checked ∧ ret < 0 then (s, .failed ret)
      else
        let cur := asInt (cur + ret)
        copyLoop goes checked call fuel cur
          { s with file.cursors := s.file.cursors ++ [cur] }

/-- `kernel_write(file, src + cur, total - cur, &f_pos)`. -/
def copyOut (calls : FileCalls) (src total : ℕ) (cur : ℤ) (s : Copying) : Copying × ℤ :=
  let want := ((total - cur) % 2 ^ 64).toNat
  let ret := calls.copy s.file.copies (min want maxRwCount)
  ({ s with
      file.bytes := s.file.bytes ++ readBytes s.mem (src + cur) ret.toNat
      file.copies := s.file.copies + 1 }, ret)

/-- `kernel_read(file, dst + cur, total - cur, &f_pos)`. -/
def copyIn (calls : FileCalls) (owner dst total : ℕ) (cur : ℤ) (s : Copying) : Copying × ℤ :=
  let want := ((total - cur) % 2 ^ 64).toNat
  let ret := calls.copy s.file.copies (min (min want maxRwCount) s.file.bytes.length)
  let addr := dst + cur
  ({ file := { s.file with
        bytes := s.file.bytes.drop ret.toNat
        copies := s.file.copies + 1
        copied := s.file.copied ++ [{ owner := owner, addr := addr, size := ret.toNat }] }
     mem := writeBytes s.mem addr (s.file.bytes.take ret.toNat) }, ret)

/-! ### Values in an `int` -/

theorem asInt_of_lt {n : ℕ} (h : n < 2 ^ 31) : asInt n = n := by
  unfold asInt
  rw [Int.bmod_def]
  split_ifs <;> omega

/-- From 2^31 on a word is negative as an `int`. -/
theorem asInt_neg {n : ℕ} (h : 2 ^ 31 ≤ n) (h' : n < 2 ^ 32) : asInt n < 0 := by
  unfold asInt
  rw [Int.bmod_def]
  split_ifs <;> omega

/-! ### Byte strings in memory -/

section Bytes

variable (m : Mem) (a : ℤ) (n k : ℕ) (bs cs : List UInt8)

@[simp] theorem length_readBytes : (readBytes m a n).length = n := by
  rw [readBytes, List.length_map, List.length_range]

theorem readBytes_add : readBytes m a (n + k) = readBytes m a n ++ readBytes m (a + n) k := by
  unfold readBytes
  rw [List.range_add, List.map_append, List.map_map]
  congr 1
  refine List.map_congr_left fun i _ => ?_
  show m (a + (n + i : ℕ)).toNat = m (a + n + i).toNat
  congr 2
  push_cast
  ring

@[simp] theorem writeBytes_nil : writeBytes m a [] = m := by
  funext x
  refine if_neg ?_
  rw [List.length_nil]
  omega

theorem writeBytes_append :
    writeBytes (writeBytes m a bs) (a + bs.length) cs = writeBytes m a (bs ++ cs) := by
  funext x
  unfold writeBytes
  rw [List.length_append]
  by_cases h1 : a ≤ x ∧ x < a + bs.length
  · rw [if_neg (by omega), if_pos h1, if_pos (by push_cast; omega),
      List.getD_append _ _ _ _ (by omega)]
  · rw [if_neg h1]
    by_cases h2 : a + bs.length ≤ x ∧ x < a + bs.length + cs.length
    · rw [if_pos h2, if_pos (by push_cast; omega), List.getD_append_right _ _ _ _ (by omega)]
      congr 1
      omega
    · rw [if_neg h2, if_neg (by push_cast; omega)]

theorem getD_readBytes {i : ℕ} (h : i < n) : (readBytes m a n).getD i 0 = m (a + i).toNat := by
  unfold readBytes
  rw [List.getD_eq_getElem _ _ (by rwa [List.length_map, List.length_range]), List.getElem_map,
    List.getElem_range]

/-- What was read from a place is there again when it is written back. -/
theorem writeBytes_readBytes (src : Mem) {addr : ℕ} (x : ℕ) :
    writeBytes m addr (readBytes src addr n) x =
      if addr ≤ x ∧ x < addr + n then src x else m x := by
  unfold writeBytes
  rw [length_readBytes]
  by_cases h : addr ≤ x ∧ x < addr + n
  · rw [if_pos h, if_pos (by omega), getD_readBytes _ _ _ (by omega)]
    congr 1
    omega
  · rw [if_neg h, if_neg (by omega)]

end Bytes

/-! ### Calls that do not fail -/

namespace FileCalls.Transfers

variable {calls : FileCalls} (h : calls.Transfers) (o : OpenFile)
include h

theorem bytes_kernelWrite (data : List UInt8) :
    (o.kernelWrite calls data).bytes = o.bytes ++ data := by
  unfold OpenFile.kernelWrite
  dsimp only
  rw [h.single, Int.toNat_natCast, List.take_length]

/-- A section is read whole if the file has it. -/
theorem kernelRead_append {size : ℕ} {data rest : List UInt8} (hlen : data.length = size)
    (ho : o.bytes = data ++ rest) :
    ∃ o', o.kernelRead calls size = (o', data, (size : ℤ)) ∧ o'.bytes = rest := by
  unfold OpenFile.kernelRead
  have hmin : min size o.bytes.length = size := by
    rw [ho, List.length_append]
    omega
  dsimp only
  rw [hmin, h.single, Int.toNat_natCast, ho, LittleEndian.drop_append_of_length hlen,
    LittleEndian.take_append_of_length hlen]
  exact ⟨_, rfl, rfl⟩

/-- What a call in a copy loop that can move `n` bytes moves. -/
theorem exists_copy (k : ℕ) {n : ℕ} (hn : 0 < n) : ∃ r : ℕ, calls.copy k n = r ∧ 1 ≤ r ∧ r ≤ n := by
  have h1 := h.copy k n hn
  have h2 := calls.copy_le k n
  obtain ⟨r, hr⟩ := Int.eq_ofNat_of_zero_le (h.copy_nonneg k n)
  exact ⟨r, hr, by omega, by omega⟩

omit h in
/-- The bytes a call asks for while the cursor is in the data. -/
theorem want_eq {total cur : ℕ} (hcur : cur ≤ total) (htotal : total < 2 ^ 31) :
    (((total : ℤ) - cur) % 2 ^ 64).toNat = total - cur := by
  omega

omit h in
/-- A cursor compared with an `int`. -/
theorem asInt_goes {total : ℕ} (htotal : total < 2 ^ 31) (c : ℕ) (_ : c ≤ total) :
    (c : ℤ) < asInt total ↔ c < total := by
  rw [asInt_of_lt htotal]
  exact Nat.cast_lt

/-- **The loop that writes** the data of a zone or page ends with all of it in the file. -/
theorem copyOut_done (goes : ℤ → Prop) [DecidablePred goes] {total : ℕ} (htotal : total < 2 ^ 31)
    (hgoes : ∀ c : ℕ, c ≤ total → (goes c ↔ c < total)) (checked : Bool) (src fuel : ℕ) {cur : ℕ}
    (hcur : cur ≤ total) (hfuel : total - cur < fuel) (s : Copying) :
    ∃ s', copyLoop goes checked (copyOut calls src total) fuel cur s
        = (s', .done) ∧ s'.mem = s.mem ∧
      s'.file.bytes = s.file.bytes ++ readBytes s.mem (src + cur) (total - cur) := by
  induction fuel generalizing cur s with
  | zero => omega
  | succ fuel ih =>
    rw [copyLoop]
    by_cases hlt : cur < total
    · obtain ⟨r, hr, hr1, hrn⟩ := h.exists_copy s.file.copies (n := min (total - cur) maxRwCount)
        (by unfold maxRwCount; omega)
      obtain ⟨s₁, hcall, hmem₁, hbytes₁⟩ : ∃ s₁, copyOut calls src total cur s = (s₁, (r : ℤ)) ∧
          s₁.mem = s.mem ∧ s₁.file.bytes = s.file.bytes ++ readBytes s.mem (src + cur) r := by
        unfold copyOut
        dsimp only
        rw [want_eq hcur htotal, hr]
        exact ⟨_, rfl, rfl, rfl⟩
      rw [if_neg (not_not.2 ((hgoes cur hcur).2 hlt)), hcall]
      dsimp only
      rw [if_neg fun hc => absurd hc.2 (by omega), ← Nat.cast_add, asInt_of_lt (by omega)]
      have hcur' : cur + r ≤ total := by omega
      obtain ⟨s', hs', hmem, hbytes⟩ := ih hcur' (by omega)
        { s₁ with file.cursors := s₁.file.cursors ++ [((cur + r : ℕ) : ℤ)] }
      refine ⟨s', hs', hmem.trans hmem₁, ?_⟩
      rw [hbytes]
      dsimp only
      rw [hbytes₁, hmem₁, List.append_assoc,
        show total - cur = r + (total - (cur + r)) by omega, readBytes_add]
      push_cast
      rw [add_assoc]
    · rw [if_pos fun hc => hlt ((hgoes cur hcur).1 hc)]
      obtain rfl : cur = total := by omega
      exact ⟨s, rfl, rfl, by simp [readBytes]⟩

/-- **The loop that reads** the data of a zone or page ends with all of it in memory. -/
theorem copyIn_done (goes : ℤ → Prop) [DecidablePred goes] {total : ℕ} (htotal : total < 2 ^ 31)
    (hgoes : ∀ c : ℕ, c ≤ total → (goes c ↔ c < total)) (checked : Bool) (owner dst fuel : ℕ)
    {cur : ℕ} (hcur : cur ≤ total) (hfuel : total - cur < fuel) {data rest : List UInt8}
    (hdata : data.length = total - cur) (s : Copying) (hs : s.file.bytes = data ++ rest) :
    ∃ s', copyLoop goes checked (copyIn calls owner dst total) fuel cur s
        = (s', .done) ∧ s'.mem = writeBytes s.mem (dst + cur) data ∧ s'.file.bytes = rest := by
  induction fuel generalizing cur s data with
  | zero => omega
  | succ fuel ih =>
    rw [copyLoop]
    by_cases hlt : cur < total
    · obtain ⟨r, hr, hr1, hrn⟩ := h.exists_copy s.file.copies
        (n := min (min (total - cur) maxRwCount) s.file.bytes.length)
        (by rw [hs, List.length_append]; unfold maxRwCount; omega)
      have hrd : r ≤ data.length := by omega
      obtain ⟨s₁, hcall, hmem₁, hbytes₁⟩ : ∃ s₁,
          copyIn calls owner dst total cur s = (s₁, (r : ℤ)) ∧
          s₁.mem = writeBytes s.mem (dst + cur) (data.take r) ∧
          s₁.file.bytes = data.drop r ++ rest := by
        unfold copyIn
        dsimp only
        rw [want_eq hcur htotal, hr]
        refine ⟨_, rfl, ?_, ?_⟩
        · rw [Int.toNat_natCast, hs, List.take_append_of_le_length hrd]
        · dsimp only
          rw [Int.toNat_natCast, hs, List.drop_append_of_le_length hrd]
      rw [if_neg (not_not.2 ((hgoes cur hcur).2 hlt)), hcall]
      dsimp only
      rw [if_neg fun hc => absurd hc.2 (by omega), ← Nat.cast_add, asInt_of_lt (by omega)]
      have hcur' : cur + r ≤ total := by omega
      have hdata' : (data.drop r).length = total - (cur + r) := by
        rw [List.length_drop]
        omega
      obtain ⟨s', hs', hmem, hbytes⟩ := ih hcur' (by omega) hdata'
        { s₁ with file.cursors := s₁.file.cursors ++ [((cur + r : ℕ) : ℤ)] } hbytes₁
      refine ⟨s', hs', ?_, hbytes⟩
      have happ := writeBytes_append s.mem (dst + cur) (data.take r) (data.drop r)
      rw [List.length_take_of_le hrd, List.take_append_drop, add_assoc] at happ
      rw [hmem]
      dsimp only
      rw [hmem₁, Nat.cast_add]
      exact happ
    · rw [if_pos fun hc => hlt ((hgoes cur hcur).1 hc)]
      obtain rfl : cur = total := by omega
      obtain rfl := List.length_eq_zero_iff.1 (show data.length = 0 by omega)
      exact ⟨s, rfl, by rw [writeBytes_nil], by simpa using hs⟩

/-- **The whole data of a zone is written,** and none of it if its length is negative as an
`int`. -/
theorem copyOut_whole {total : ℕ} (htotal : total < 2 ^ 32) (src fuel : ℕ) (hfuel : total < fuel)
    (s : Copying) :
    ∃ s', copyLoop (fun c => c < asInt total) true (copyOut calls src total) fuel 0 s
        = (s', .done) ∧ s'.mem = s.mem ∧
      s'.file.bytes = s.file.bytes ++ readBytes s.mem src (asInt total).toNat := by
  rcases lt_or_ge total (2 ^ 31) with hlt | hge
  · obtain ⟨s', hs', hmem, hbytes⟩ :=
      h.copyOut_done (fun c => c < asInt total) hlt (asInt_goes hlt) true src fuel
        (Nat.zero_le total) (by omega) s
    refine ⟨s', hs', hmem, ?_⟩
    rw [asInt_of_lt hlt, Int.toNat_natCast, hbytes, Nat.cast_zero, add_zero, Nat.sub_zero]
  · have hneg := asInt_neg hge htotal
    obtain ⟨fuel, rfl⟩ := Nat.exists_eq_add_one_of_ne_zero (show fuel ≠ 0 by omega)
    refine ⟨s, ?_, rfl, ?_⟩
    · rw [copyLoop, if_pos (by omega)]
    · rw [Int.toNat_of_nonpos hneg.le]
      simp [readBytes]

/-- **The whole data of a zone is read,** and none of it if its length is negative as an `int`. -/
theorem copyIn_whole {total : ℕ} (htotal : total < 2 ^ 32) (owner dst fuel : ℕ)
    (hfuel : total < fuel) {data rest : List UInt8} (hdata : data.length = (asInt total).toNat)
    (s : Copying) (hs : s.file.bytes = data ++ rest) :
    ∃ s', copyLoop (fun c => c < asInt total) true (copyIn calls owner dst total) fuel 0 s
        = (s', .done) ∧ s'.mem = writeBytes s.mem dst data ∧ s'.file.bytes = rest := by
  rcases lt_or_ge total (2 ^ 31) with hlt | hge
  · rw [asInt_of_lt hlt, Int.toNat_natCast] at hdata
    obtain ⟨s', hs', hmem, hbytes⟩ :=
      h.copyIn_done (fun c => c < asInt total) hlt (asInt_goes hlt) true owner dst fuel
        (Nat.zero_le total) (by omega) hdata s hs
    refine ⟨s', hs', ?_, hbytes⟩
    rw [hmem, Nat.cast_zero, add_zero]
  · have hneg := asInt_neg hge htotal
    rw [Int.toNat_of_nonpos hneg.le] at hdata
    obtain ⟨fuel, rfl⟩ := Nat.exists_eq_add_one_of_ne_zero (show fuel ≠ 0 by omega)
    obtain rfl := List.length_eq_zero_iff.1 hdata
    refine ⟨s, ?_, by rw [writeBytes_nil], hs⟩
    rw [copyLoop, if_pos (by omega)]

end FileCalls.Transfers

end NvmeVirt
