/-
# The bytes a copy loop pairs

What the loop of `__do_perform_io` does to the two memories, as the list of the
pairs of a host address and a storage offset it copies, in order.  Whatever the
PRPs say, the offsets of the pairs are the bytes of the range, one after the
other; a write leaves the host memory alone, a read the storage.
-/

import NvmeVirt.Io.Perform

namespace NvmeVirt

open Outcome

/-- Single bytes copied in order: `(d, s)` copies the byte at `s` to `d`. -/
def byteCopy (dst src : Mem) (ps : List (ℕ × ℕ)) : Mem :=
  ps.foldl (fun m p => Function.update m p.1 (src p.2)) dst

@[simp] theorem byteCopy_nil (dst src : Mem) : byteCopy dst src [] = dst := rfl

theorem byteCopy_append (dst src : Mem) (ps qs : List (ℕ × ℕ)) :
    byteCopy dst src (ps ++ qs) = byteCopy (byteCopy dst src ps) src qs :=
  List.foldl_append

/-- An address no pair copies to keeps its byte. -/
theorem byteCopy_of_notMem {dst src : Mem} {ps : List (ℕ × ℕ)} {a : ℕ}
    (h : a ∉ ps.map Prod.fst) : byteCopy dst src ps a = dst a := by
  induction ps generalizing dst with
  | nil => rfl
  | cons p ps ih =>
    rw [List.map_cons, List.mem_cons, not_or] at h
    exact (ih h.2).trans (Function.update_of_ne h.1 _ _)

/-- An address exactly one pair copies to gets the byte of that pair. -/
theorem byteCopy_of_nodup {dst src : Mem} {ps : List (ℕ × ℕ)} (h : (ps.map Prod.fst).Nodup)
    {p : ℕ × ℕ} (hp : p ∈ ps) : byteCopy dst src ps p.1 = src p.2 := by
  induction ps generalizing dst with
  | nil => cases hp
  | cons q ps ih =>
    rw [List.map_cons, List.nodup_cons] at h
    rcases List.mem_cons.1 hp with rfl | hp
    · exact (byteCopy_of_notMem h.1).trans (Function.update_self _ _ _)
    · exact ih h.2 hp

/-- One byte more. -/
theorem memcpy_succ (dst src : Mem) (d s n : ℕ) :
    memcpy dst src d s (n + 1) = Function.update (memcpy dst src d s n) (d + n) (src (s + n)) := by
  funext a
  rw [Function.update_apply]
  unfold memcpy
  split_ifs with h1 h2 h3 h4 h5
  · rw [h2, Nat.add_sub_cancel_left]
  · rfl
  · omega
  · omega
  · omega
  · rfl

/-- `memcpy` byte by byte. -/
theorem memcpy_eq_byteCopy (dst src : Mem) (d s n : ℕ) :
    memcpy dst src d s n = byteCopy dst src ((List.range n).map fun i => (d + i, s + i)) := by
  induction n with
  | zero =>
    funext a
    exact if_neg (by omega)
  | succ n ih =>
    rw [memcpy_succ, ih, List.range_succ, List.map_append, byteCopy_append]
    rfl

/-- The bytes of a transfer. -/
def Transfer.bytes (t : Transfer) : List (ℕ × ℕ) :=
  (List.range t.size).map fun i => (t.paddr + i, t.offset + i)

/-- The data goes to the storage. -/
def NvmeRwCommand.ToStorage (cmd : NvmeRwCommand) : Prop :=
  cmd.opcode = .write ∨ cmd.opcode = .zoneAppend

namespace IoCursor

/-- The pairs copied so far, oldest first. -/
def pairs (c : IoCursor) : List (ℕ × ℕ) := c.moved.reverse.flatMap Transfer.bytes

/-- The memories after the pairs have been copied. -/
structure Copied (cmd : NvmeRwCommand) (host storage : Mem) (ps : List (ℕ × ℕ))
    (host' storage' : Mem) : Prop where
  write : cmd.ToStorage → host' = host ∧ storage' = byteCopy storage host (ps.map Prod.swap)
  read : cmd.opcode = .read → storage' = storage ∧ host' = byteCopy host storage ps

variable {c c' : IoCursor} {cmd : NvmeRwCommand} {host storage : Mem} {off length : ℕ}

/-- A cursor that has moved on from `off`: the pairs are the bytes of the storage it has passed. -/
structure Passed (cmd : NvmeRwCommand) (host storage : Mem) (off length : ℕ) (c : IoCursor) :
    Prop where
  done : c.remaining ≤ length
  offset : c.offset = u64 (off + (length - c.remaining))
  pairs : c.pairs.map Prod.snd = (List.range (length - c.remaining)).map (off + ·)
  copied : Copied cmd host storage c.pairs c.host c.storage

/-- A round adds the bytes of its transfer. -/
theorem round_pairs (h : c.round cmd = .ok c') :
    ∃ c₁ p, c.nextPaddr cmd = .ok (c₁, p) ∧
      c'.pairs = c.pairs ++
        (List.range (c₁.ioSize p)).map (fun i => (p + i, c.offset + i)) ∧
      c'.remaining = c.remaining - c₁.ioSize p ∧ c'.offset = u64 (c.offset + c₁.ioSize p) ∧
      c'.prpOffs = c₁.prpOffs ∧ c'.prp2Offs = c₁.prp2Offs ∧ c'.paddrList = c₁.paddrList ∧
      (cmd.ToStorage → c'.host = c.host ∧
        c'.storage = memcpy c.storage c.host c.offset p (c₁.ioSize p)) ∧
      (cmd.opcode = .read → c'.storage = c.storage ∧
        c'.host = memcpy c.host c.storage p c.offset (c₁.ioSize p)) := by
  unfold round at h
  obtain ⟨⟨c₁, p⟩, hp, h⟩ := bind_eq_ok.1 h
  cases h
  obtain ⟨h1, h2, h3, h4, h5⟩ := nextPaddr_frame hp
  obtain ⟨k1, k2, k3, -⟩ := copy_fields c₁ cmd p (c₁.ioSize p)
  have hcopy : (c₁.copy cmd p (c₁.ioSize p)).prpOffs = c₁.prpOffs ∧
      (c₁.copy cmd p (c₁.ioSize p)).prp2Offs = c₁.prp2Offs ∧
      (c₁.copy cmd p (c₁.ioSize p)).paddrList = c₁.paddrList := by
    unfold copy
    split <;> exact ⟨rfl, rfl, rfl⟩
  refine ⟨c₁, p, hp, ?_, ?_, ?_, hcopy.1, hcopy.2.1, hcopy.2.2, ?_, ?_⟩
  · simp only [pairs, List.reverse_cons, List.flatMap_append, List.flatMap_cons, List.flatMap_nil,
      List.append_nil, k2, k3, h2, h5, Transfer.bytes]
  · rw [← h1, ← k1]
  · simp only [k2, h2]
  · rintro (hop | hop) <;>
    · unfold copy
      rw [hop]
      simp only [h2, h3, h4]
      exact ⟨trivial, trivial⟩
  · intro hop
    unfold copy
    rw [hop]
    simp only [h2, h3, h4]
    exact ⟨trivial, trivial⟩

/-- A round moves on. -/
theorem Passed.round (h : Passed cmd host storage off length c) (hb : off + length ≤ 2 ^ 64)
    (hr : c.remaining ≠ 0) (hc : c.round cmd = .ok c') :
    Passed cmd host storage off length c' := by
  obtain ⟨c₁, p, hp, hpairs, hrem, hoff, -, -, -, hwrite, hread⟩ := round_pairs hc
  have hle := ioSize_le c₁ p
  rw [(nextPaddr_frame hp).1] at hle
  have hdone := h.done
  have hoffset : c.offset = off + (length - c.remaining) :=
    h.offset.trans (Nat.mod_eq_of_lt (by omega))
  generalize c₁.ioSize p = n at hpairs hrem hoff hwrite hread hle
  have hlen : length - c'.remaining = length - c.remaining + n := by omega
  refine ⟨by omega, ?_, ?_, ⟨fun hop => ?_, fun hop => ?_⟩⟩
  · rw [hoff, hoffset, hlen, Nat.add_assoc]
  · rw [hpairs, hlen, List.range_add, List.map_append, List.map_append, h.pairs, hoffset]
    simp [Function.comp_def, Nat.add_assoc]
  · obtain ⟨h1, h2⟩ := hwrite hop
    obtain ⟨h3, h4⟩ := h.copied.write hop
    refine ⟨h1.trans h3, ?_⟩
    rw [h2, h4, hpairs, List.map_append, byteCopy_append, h3, memcpy_eq_byteCopy]
    simp [Function.comp_def]
  · obtain ⟨h1, h2⟩ := hread hop
    obtain ⟨h3, h4⟩ := h.copied.read hop
    refine ⟨h1.trans h3, ?_⟩
    rw [h2, h4, hpairs, byteCopy_append, h3, memcpy_eq_byteCopy]

/-- **What the loop has copied:** the bytes of the range, one after the other. -/
theorem Passed.loop (h : Passed cmd host storage off length c) (hb : off + length ≤ 2 ^ 64)
    {fuel : ℕ} (hf : c.remaining ≤ fuel) (hc : IoCursor.loop cmd fuel c = .ok c') :
    Passed cmd host storage off length c' ∧ c'.remaining = 0 := by
  induction fuel generalizing c with
  | zero =>
    cases hc
    exact ⟨h, by omega⟩
  | succ fuel ih =>
    unfold IoCursor.loop at hc
    split_ifs at hc with h0
    · cases hc
      exact ⟨h, h0⟩
    · obtain ⟨c₁, hc₁, hc⟩ := bind_eq_ok.1 hc
      have hpos : c₁.remaining < c.remaining := by
        obtain ⟨c₂, p, hp, -, hrem, -⟩ := round_pairs hc₁
        have hpos := ioSize_pos c₂ p (by rw [(nextPaddr_frame hp).1]; exact h0)
        omega
      exact ih (h.round hb h0 hc₁) (by omega) hc

/-- The cursor of a fresh loop. -/
def start (host storage : Mem) (off length : ℕ) : IoCursor where
  remaining := length
  offset := off
  prpOffs := 0
  prp2Offs := 0
  paddrList := none
  host := host
  storage := storage
  moved := []

theorem passed_start (cmd : NvmeRwCommand) (host storage : Mem) (hoff : off < 2 ^ 64) :
    Passed cmd host storage off length (start host storage off length) where
  done := le_rfl
  offset := by
    show off = u64 (off + (length - length))
    rw [Nat.sub_self, Nat.add_zero]
    exact (Nat.mod_eq_of_lt hoff).symm
  pairs := by simp [start, IoCursor.pairs]
  copied := ⟨fun _ => ⟨rfl, rfl⟩, fun _ => ⟨rfl, rfl⟩⟩

/-- **What a run of the loop copies:** the bytes of `[off, off + length)` of the storage in order,
paired with the host addresses of its transfers. -/
theorem loop_passed (hoff : off < 2 ^ 64) (hb : off + length ≤ 2 ^ 64)
    (hc : IoCursor.loop cmd length (start host storage off length) = .ok c') :
    c'.pairs.map Prod.snd = (List.range length).map (off + ·) ∧
      Copied cmd host storage c'.pairs c'.host c'.storage := by
  obtain ⟨h, h0⟩ := (passed_start cmd host storage hoff).loop hb
    (le_refl (start host storage off length).remaining) hc
  have hpairs := h.pairs
  rw [h0, Nat.sub_zero] at hpairs
  exact ⟨hpairs, h.copied⟩

/-! ### A transfer without a list -/

/-- A loop with nothing left. -/
theorem loop_done {fuel : ℕ} (h : c.remaining = 0) : IoCursor.loop cmd fuel c = .ok c := by
  cases fuel with
  | zero => rfl
  | succ fuel => exact if_pos h

/-- A round behind an address that is found. -/
theorem round_ok {c₁ : IoCursor} {p : ℕ} (h : c.nextPaddr cmd = .ok (c₁, p)) :
    ∃ c', c.round cmd = .ok c' ∧ c'.remaining = c.remaining - c₁.ioSize p ∧
      c'.prpOffs = c₁.prpOffs := by
  obtain ⟨c', hround⟩ : ∃ c', c.round cmd = .ok c' := by
    unfold round
    rw [h]
    exact ⟨_, rfl⟩
  obtain ⟨c₂, p₂, h₂, -, hrem, -, hprp, -⟩ := round_pairs hround
  rw [h] at h₂
  cases h₂
  exact ⟨c', hround, hrem, hprp⟩

/-- **A transfer of at most a page** needs no list of PRPs: it ends behind the first, or goes on
where the page of the second starts. -/
theorem loop_twoPages {n : ℕ} (hstart : c.prpOffs = 0) (hrem : c.remaining = n) (hn : n ≤ pageSize)
    (hprp2 : cmd.prp2 % pageSize = 0) : ∃ c', IoCursor.loop cmd n c = .ok c' := by
  cases n with
  | zero => exact ⟨c, rfl⟩
  | succ n =>
    have hfirst : c.nextPaddr cmd = .ok ({ c with prpOffs := c.prpOffs + 1 }, cmd.prp1) := by
      unfold nextPaddr
      rw [hstart]
      rfl
    obtain ⟨c₁, hc₁, hrem₁, hprp₁⟩ := round_ok hfirst
    have hne : c.remaining ≠ 0 := by omega
    have hpos := ioSize_pos { c with prpOffs := c.prpOffs + 1 } cmd.prp1 hne
    unfold loop
    rw [if_neg hne, hc₁, ok_bind]
    by_cases hdone : c₁.remaining = 0
    · exact ⟨c₁, loop_done hdone⟩
    · have hsecond : c₁.nextPaddr cmd = .ok ({ c₁ with prpOffs := c₁.prpOffs + 1 }, cmd.prp2) := by
        have hone : c₁.prpOffs = 1 := by
          rw [hprp₁, hstart]
        unfold nextPaddr
        dsimp only
        rw [hone, if_neg (by decide), if_pos rfl, if_neg (by omega)]
      obtain ⟨c₂, hc₂, hrem₂, -⟩ := round_ok hsecond
      have hall : ioSize { c₁ with prpOffs := c₁.prpOffs + 1 } cmd.prp2 = c₁.remaining := by
        unfold ioSize
        dsimp only
        rw [hprp2, Nat.add_zero, Nat.min_eq_left (by omega), if_neg (by omega)]
      obtain ⟨m, rfl⟩ : ∃ m, n = m + 1 := ⟨n - 1, by omega⟩
      unfold loop
      rw [if_neg hdone, hc₂, ok_bind]
      exact ⟨c₂, loop_done (by omega)⟩

end IoCursor

end NvmeVirt
