/-
# The values of KV commands

The value of a store is the bytes its PRPs lead to in the host memory.  The PRPs are
followed in the same way whatever offset of the storage the value goes to, so the
copy loop of `__do_perform_kv_io` is a read of the value and a copy to the storage.
-/

import NvmeVirt.Io.Transfers
import NvmeVirt.Kv.Commands

namespace NvmeVirt

open Outcome

/-- Some bytes of a memory. -/
def bytesAt (m : Mem) (a n : ℕ) : List UInt8 := (List.range n).map fun i => m (a + i)

@[simp] theorem length_bytesAt (m : Mem) (a n : ℕ) : (bytesAt m a n).length = n := by
  simp [bytesAt]

/-- The memory with some bytes at an offset. -/
def storeBytes (m : Mem) (offset : ℕ) (value : List UInt8) : Mem := fun a =>
  if offset ≤ a ∧ a < offset + value.length then value.getD (a - offset) 0 else m a

/-- Outside the bytes nothing changes. -/
theorem storeBytes_of_out {m : Mem} {offset a : ℕ} {value : List UInt8}
    (h : a < offset ∨ offset + value.length ≤ a) : storeBytes m offset value a = m a :=
  if_neg (by omega)

/-- The bytes stored are there. -/
theorem bytesAt_storeBytes (m : Mem) (offset : ℕ) (value : List UInt8) :
    bytesAt (storeBytes m offset value) offset value.length = value := by
  refine List.ext_getElem (by simp) fun i hi hi' => ?_
  simp only [bytesAt, List.getElem_map, List.getElem_range]
  unfold storeBytes
  rw [if_pos (by omega), Nat.add_sub_cancel_left, List.getD_eq_getElem?_getD, List.getElem?_eq_getElem hi', Option.getD_some]

/-- Bytes apart from those stored stay. -/
theorem bytesAt_storeBytes_of_apart {m : Mem} {offset a n : ℕ} {value : List UInt8}
    (h : a + n ≤ offset ∨ offset + value.length ≤ a) :
    bytesAt (storeBytes m offset value) a n = bytesAt m a n := by
  refine List.map_congr_left fun i hi => storeBytes_of_out ?_
  have := List.mem_range.1 hi
  omega

/-- One byte first. -/
theorem storeBytes_cons (m : Mem) (offset : ℕ) (b : UInt8) (value : List UInt8) :
    storeBytes m offset (b :: value) =
      storeBytes (Function.update m offset b) (offset + 1) value := by
  funext a
  unfold storeBytes
  rw [List.length_cons, Function.update_apply]
  rcases Nat.lt_trichotomy a offset with h | rfl | h
  · rw [if_neg (by omega), if_neg (by omega), if_neg (by omega)]
  · rw [if_pos (by omega), if_neg (by omega), if_pos rfl, Nat.sub_self, List.getD_cons_zero]
  · rw [if_neg (Nat.ne_of_gt h)]
    obtain ⟨k, rfl⟩ := Nat.exists_eq_add_of_lt h
    rw [show offset + k + 1 - offset = k + 1 by omega,
      show offset + k + 1 - (offset + 1) = k by omega, List.getD_cons_succ]
    exact if_congr (by omega) rfl rfl

/-- Single bytes copied to consecutive offsets. -/
theorem byteCopy_eq_storeBytes {dst src : Mem} {ps : List (ℕ × ℕ)} {off n : ℕ}
    (h : ps.map Prod.snd = (List.range n).map (off + ·)) :
    byteCopy dst src (ps.map Prod.swap) = storeBytes dst off (ps.map fun p => src p.1) := by
  induction ps generalizing off n dst with
  | nil =>
    funext a
    exact (storeBytes_of_out (by simp only [List.map_nil, List.length_nil]; omega)).symm
  | cons p ps ih =>
    cases n with
    | zero => simp at h
    | succ n =>
      rw [List.range_succ_eq_map, List.map_cons, List.map_cons, List.map_map] at h
      obtain ⟨hoff, hrest⟩ := List.cons.inj h
      rw [List.map_cons, List.map_cons, storeBytes_cons]
      have hrest : ps.map Prod.snd = (List.range n).map (off + 1 + ·) := by
        rw [hrest]
        exact List.map_congr_left fun i _ => by simp only [Function.comp_apply]; omega
      rw [← ih hrest]
      show byteCopy (Function.update dst p.2 (src p.1)) src _ = _
      rw [hoff, Nat.add_zero]

/-! ### The copy loop of a store -/

namespace IoCursor

/-- Two cursors that follow the PRPs of one command with different storages. -/
structure Alike (c c' : IoCursor) : Prop where
  remaining : c'.remaining = c.remaining
  prpOffs : c'.prpOffs = c.prpOffs
  prp2Offs : c'.prp2Offs = c.prp2Offs
  paddrList : c'.paddrList = c.paddrList
  host : c'.host = c.host
  pairs : c'.pairs.map Prod.fst = c.pairs.map Prod.fst

variable {c c' : IoCursor} {cmd : NvmeRwCommand}

theorem Alike.nextEntry (h : Alike c c') :
    Agree (fun x y => Alike x.1 y.1 ∧ y.2 = x.2) c.nextEntry c'.nextEntry := by
  obtain ⟨h1, h2, h3, h4, h5, h6⟩ := h
  unfold IoCursor.nextEntry
  rw [h3, h4, h5]
  cases c.paddrList with
  | none => exact rfl
  | some base =>
    exact (Agree.of_eq rfl fun _ => trivial).bind (R := fun _ _ => True) fun _ _ _ =>
      ⟨⟨h1, h2, rfl, rfl, rfl, h6⟩, rfl⟩

/-- The next address does not depend on the storage. -/
theorem Alike.nextPaddr (h : Alike c c') :
    Agree (fun x y => Alike x.1 y.1 ∧ y.2 = x.2) (c.nextPaddr cmd) (c'.nextPaddr cmd) := by
  obtain ⟨h1, h2, h3, h4, h5, h6⟩ := h
  unfold IoCursor.nextPaddr
  simp only [h1, h2]
  split_ifs
  · exact ⟨⟨rfl, rfl, h3, h4, h5, h6⟩, rfl⟩
  · exact Alike.nextEntry ⟨rfl, rfl, h3, rfl, h5, h6⟩
  · exact ⟨⟨rfl, rfl, h3, h4, h5, h6⟩, rfl⟩
  · exact Alike.nextEntry ⟨rfl, rfl, h3, h4, h5, h6⟩

/-- A round that writes to the storage. -/
theorem Alike.round (hop : cmd.opcode = .write) (h : Alike c c') :
    Agree Alike (c.round cmd) (c'.round cmd) := by
  unfold IoCursor.round
  refine h.nextPaddr.bind ?_
  rintro ⟨x, p⟩ ⟨y, q⟩ ⟨⟨h1, h2, h3, h4, h5, h6⟩, hq⟩
  simp only at hq h1 h2 h3 h4 h5 h6 ⊢
  subst hq
  have hsize : y.ioSize q = x.ioSize q := by
    unfold ioSize
    rw [h1]
  unfold copy
  rw [hop]
  refine ⟨by simp only [h1, hsize], h2, h3, h4, h5, ?_⟩
  have hcons : ∀ (t : Transfer) (ts : List Transfer),
      ((t :: ts).reverse.flatMap Transfer.bytes).map Prod.fst =
        (ts.reverse.flatMap Transfer.bytes).map Prod.fst ++
          (List.range t.size).map (t.paddr + ·) := fun t ts => by
    simp [Transfer.bytes, Function.comp_def]
  refine (hcons _ y.moved).trans (Eq.trans ?_ (hcons _ x.moved).symm)
  exact congrArg₂ _ h6 (by simp only [hsize])

theorem Alike.loop (hop : cmd.opcode = .write) (fuel : ℕ) (h : Alike c c') :
    Agree Alike (IoCursor.loop cmd fuel c) (IoCursor.loop cmd fuel c') := by
  induction fuel generalizing c c' with
  | zero => exact h
  | succ fuel ih =>
    unfold IoCursor.loop
    rw [h.remaining]
    split_ifs
    · exact h
    · exact (h.round hop).bind fun _ _ h => ih h

end IoCursor

/-- The value of a store command: the bytes its PRPs lead to, in order. -/
def KvCommand.readValue (cmd : KvCommand) (host : Mem) (length : ℕ) :
    Except Fault (List UInt8) := do
  let c ← IoCursor.loop cmd.copyCommand length (IoCursor.start host (fun _ => 0) 0 length)
  .ok (bytesAt c.storage 0 length)

namespace KvDev

variable {d : KvDev} {cmd : KvCommand} {host : Mem} {offset length : ℕ}

/-- What the copy loop of a store leaves. -/
theorem loop_write {rw : NvmeRwCommand} (hop : rw.opcode = .write) {storage : Mem} {c : IoCursor}
    (hb : length = 0 ∨ offset + length ≤ 2 ^ 64)
    (h : IoCursor.loop rw length (IoCursor.start host storage offset length) = .ok c) :
    c.host = host ∧ c.storage = storeBytes storage offset (c.pairs.map fun p => host p.1) ∧
      c.pairs.length = length := by
  rcases Nat.eq_zero_or_pos length with rfl | hpos
  · cases h
    refine ⟨rfl, ?_, rfl⟩
    funext a
    exact (storeBytes_of_out (by simp [IoCursor.pairs, IoCursor.start]; omega)).symm
  · obtain ⟨hpairs, hcopied⟩ := IoCursor.loop_passed (by omega) (by omega) h
    obtain ⟨h1, h2⟩ := hcopied.write (.inl hop)
    refine ⟨h1, h2.trans (byteCopy_eq_storeBytes hpairs), ?_⟩
    simpa using congrArg List.length hpairs

/-- **The copy of a store:** its value goes to the offset. -/
theorem copyValue_store (hop : cmd.opcode = .store) (hsize : d.storageSize ≤ 2 ^ 64) (host : Mem)
    (offset length : ℕ) :
    Agree (fun c v => c.host = host ∧ v.length = length ∧
        c.storage = storeBytes d.storage offset v)
      (d.copyValue cmd host offset length)
      (do
        defined (length = 0 ∨ offset + length ≤ d.storageSize)
        cmd.readValue host length) := by
  have hwrite : cmd.copyCommand.opcode = .write := by
    unfold KvCommand.copyCommand
    rw [hop]
  unfold copyValue
  by_cases hin : length = 0 ∨ offset + length ≤ d.storageSize
  · rw [defined_bind hin, defined_bind hin]
    have halike : IoCursor.Alike (IoCursor.start host d.storage offset length)
        (IoCursor.start host (fun _ => 0) 0 length) := ⟨rfl, rfl, rfl, rfl, rfl, rfl⟩
    have hloop := halike.loop hwrite length
    unfold KvCommand.readValue
    revert hloop
    show Agree _ _ _ → Agree _ (IoCursor.loop _ _ (IoCursor.start host d.storage offset length)) _
    cases hx : IoCursor.loop cmd.copyCommand length
        (IoCursor.start host d.storage offset length) with
    | error e =>
      cases hy : IoCursor.loop cmd.copyCommand length
          (IoCursor.start host (fun _ => 0) 0 length) with
      | error e' => exact fun h => h
      | ok y => exact fun h => h.elim
    | ok x =>
      cases hy : IoCursor.loop cmd.copyCommand length
          (IoCursor.start host (fun _ => 0) 0 length) with
      | error e' => exact fun h => h.elim
      | ok y =>
        intro hxy
        have hlt : length = 0 ∨ offset + length ≤ 2 ^ 64 := by omega
        obtain ⟨h1, h2, hn⟩ := loop_write hwrite hlt hx
        have hlt₀ : length = 0 ∨ 0 + length ≤ 2 ^ 64 := by omega
        obtain ⟨-, h3, hm⟩ := loop_write hwrite hlt₀ hy
        have hsame : (y.pairs.map fun p => host p.1) = x.pairs.map fun p => host p.1 := by
          simpa only [List.map_map, Function.comp_def] using congrArg (List.map host) hxy.pairs
        have hvalue : bytesAt y.storage 0 length = x.pairs.map fun p => host p.1 := by
          have := bytesAt_storeBytes (fun _ => 0) 0 (y.pairs.map fun p => host p.1)
          rw [List.length_map, hm] at this
          rw [h3, this, hsame]
        refine ⟨h1, by simp, ?_⟩
        rw [hvalue]
        exact h2
  · rw [defined_bind_of_not hin, defined_bind_of_not hin]
    exact rfl

end KvDev

end NvmeVirt
