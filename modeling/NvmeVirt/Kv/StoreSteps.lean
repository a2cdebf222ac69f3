/-
# What a store and a retrieve do

A store gathers its value from the host pages and puts it where the entry of its key
points, or where the allocator says when there is none.  A retrieve copies the bytes
of the entry to the host pages, in order.
-/

import NvmeVirt.Kv.Values
import NvmeVirt.Kv.Index

namespace NvmeVirt

open Outcome

/-- The host addresses of the bytes a command has copied, in order. -/
def KvReply.addresses (r : KvReply) : List ℕ :=
  (r.moved.reverse.flatMap Transfer.bytes).map Prod.fst

/-- **The copy loop of a command runs off its PRPs** before the bytes of a value are moved. -/
def KvCommand.PrpsEnd (cmd : KvCommand) (host : Mem) : Prop :=
  ∃ storage offset length, length ≤ cmd.valueLength ∧
    IoCursor.loop cmd.copyCommand length (IoCursor.start host storage offset length) =
      .error .undefined

/-- The PRPs of a value of at most a page do not end, if the second starts a page. -/
theorem KvCommand.not_prpsEnd {cmd : KvCommand} (hlen : cmd.valueLength ≤ pageSize)
    (hprp2 : cmd.prp2 % pageSize = 0) (host : Mem) : ¬ cmd.PrpsEnd host := by
  rintro ⟨storage, offset, length, hle, hloop⟩
  obtain ⟨c, hc⟩ : ∃ c, IoCursor.loop cmd.copyCommand length
      (IoCursor.start host storage offset length) = .ok c :=
    IoCursor.loop_twoPages rfl rfl (hle.trans hlen) hprp2
  rw [hc] at hloop
  cases hloop

namespace KvDev

variable {K : ZeroAreaFinder} {d d' : KvDev} {cmd : KvCommand} {host : Mem} {r : KvReply}
  {offset length : ℕ}

/-- Where a store has written: inside the bytes of its value. -/
theorem copyValue_moved (hsize : d.storageSize < 2 ^ 64) {c : IoCursor}
    (h : d.copyValue cmd host offset length = .ok c) :
    ∀ t ∈ c.moved, offset ≤ t.offset ∧ t.offset + t.size ≤ offset + length := by
  obtain ⟨_, hin, h⟩ := bind_eq_ok.1 h
  rw [defined_eq_ok] at hin
  rcases Nat.eq_zero_or_pos length with rfl | hpos
  · cases h
    exact fun t ht => absurd ht List.not_mem_nil
  · have hstart : IoCursor.Within cmd.copyCommand d.storage offset (offset + length) {
        remaining := length, offset := offset, prpOffs := 0, prp2Offs := 0
        paddrList := none, host := host, storage := d.storage, moved := [] } :=
      ⟨le_rfl, rfl, by simp, fun _ _ => rfl⟩
    exact (hstart.loop (by omega) le_rfl h).1.moved

/-- The copy of a store that returns. -/
theorem copyValue_ok (hop : cmd.opcode = .store) (hsize : d.storageSize < 2 ^ 64) {c : IoCursor}
    (h : d.copyValue cmd host offset length = .ok c) :
    ∃ value, cmd.readValue host length = .ok value ∧ value.length = length ∧
      c.storage = storeBytes d.storage offset value := by
  have hagree := copyValue_store hop hsize.le host offset length
  obtain ⟨value, hvalue, -, hlen, hstorage⟩ := hagree.of_ok h
  obtain ⟨_, -, hvalue⟩ := bind_eq_ok.1 hvalue
  exact ⟨value, hvalue, hlen, hstorage⟩

theorem allocateMemOffset_ok (h : d.allocateMemOffset K length = .ok (d', offset)) :
    ∃ a o, d.allocators.allocate K length d.allocatorType = .ok (a, o) ∧
      d' = { d with allocators := a } ∧ offset = if o = 2 ^ 64 - 1 then 0 else o := by
  obtain ⟨⟨a, o⟩, ha, h⟩ := bind_eq_ok.1 h
  cases h
  exact ⟨a, o, ha, rfl, rfl⟩

/-- **A store that creates an entry.** -/
structure InsertStep (K : ZeroAreaFinder) (d : KvDev) (key value : List UInt8) (offset : ℕ)
    (d' : KvDev) : Prop where
  missing : d.table.findSlot key = .ok none
  slot : ∃ s, d.table.Inserted key value.length offset s d'.table
  allocated : ∃ o, d.allocators.allocate K value.length d.allocatorType = .ok (d'.allocators, o) ∧
    offset = if o = 2 ^ 64 - 1 then 0 else o
  storage : d'.storage = storeBytes d.storage offset value
  type : d'.allocatorType = d.allocatorType
  size : d'.storageSize = d.storageSize

/-- **A store to the entry found:** its length is set when it changes and both are small. -/
structure UpdateStep (d : KvDev) (key value : List UInt8) (x offset : ℕ) (d' : KvDev) :
    Prop where
  found : d.table.FoundAt key x
  start : (d.table.entry x).memOffset = some offset
  device : d' = { d with
    storage := storeBytes d.storage offset value
    table :=
      if value.length ≠ (d.table.entry x).length ∧ value.length ≤ smallLength ∧
          (d.table.entry x).length ≤ smallLength then
        d.table.set x { d.table.entry x with length := value.length }
      else d.table }

/-- **What a store does.** -/
theorem kvStore_ok (ht : d.table.Linked) (hop : cmd.opcode = .store)
    (hsize : d.storageSize < 2 ^ 64) (h : d.kvStore K cmd host = .ok (d', r)) :
    ∃ value offset, cmd.readValue host cmd.valueLength = .ok value ∧
      value.length = cmd.valueLength ∧
      (∀ t ∈ r.moved, offset ≤ t.offset ∧ t.offset + t.size ≤ offset + value.length) ∧
      (InsertStep K d cmd.key value offset d' ∨ ∃ x, UpdateStep d cmd.key value x offset d') := by
  obtain ⟨found, hfind, hsearch⟩ := ht.findSlot_ok cmd.key
  unfold kvStore KvTable.getMappingEntry at h
  simp only [hfind] at h
  cases found with
  | none =>
    simp only [ok_bind, MappingEntry.blank] at h
    obtain ⟨⟨d₁, offset⟩, halloc, h⟩ := bind_eq_ok.1 h
    obtain ⟨c, hc, h⟩ := bind_eq_ok.1 h
    obtain ⟨d₂, hins, h⟩ := bind_eq_ok.1 h
    cases h
    obtain ⟨a, o, ha, hd₁, hoffset⟩ := allocateMemOffset_ok (liftFault_eq_ok.1 halloc)
    subst hd₁
    have hc := liftFault_eq_ok.1 hc
    obtain ⟨value, hvalue, hlen, hstorage⟩ := copyValue_ok hop hsize hc
    have hmoved := copyValue_moved hsize hc
    rw [← hlen] at ha hins hmoved
    obtain ⟨hslot, -, hd'⟩ := insertEntry_inserted (by exact ht) hins
    refine ⟨value, offset, hvalue, hlen, hmoved, .inl ?_⟩
    rw [hd']
    exact ⟨hfind, hslot, ⟨o, ha, hoffset⟩, hstorage, rfl, rfl⟩
  | some x =>
    obtain ⟨offset, hoff⟩ := Option.ne_none_iff_exists'.1 (KvTable.search_found hsearch).1
    simp only [ok_bind, hoff] at h
    obtain ⟨c, hc, h⟩ := bind_eq_ok.1 h
    have hc := liftFault_eq_ok.1 hc
    obtain ⟨value, hvalue, hlen, hstorage⟩ := copyValue_ok hop hsize hc
    have hmoved := copyValue_moved hsize hc
    rw [← hlen] at hmoved h
    by_cases hset : value.length ≠ (d.table.entry x).length ∧ value.length ≤ smallLength ∧
        (d.table.entry x).length ≤ smallLength
    · rw [if_pos hset] at h
      unfold KvTable.updateMappingEntry at h
      simp only [hfind, ok_bind] at h
      cases h
      exact ⟨value, offset, hvalue, hlen, hmoved, .inr ⟨x, hfind, hoff, by
        rw [if_pos hset, hstorage]⟩⟩
    · rw [if_neg hset] at h
      cases h
      exact ⟨value, offset, hvalue, hlen, hmoved, .inr ⟨x, hfind, hoff, by
        rw [if_neg hset, hstorage]⟩⟩

/-- **A copy inside the storage** stops only where the PRPs of the command end. -/
theorem ends_copyValue (hin : offset + length ≤ d.storageSize) (hle : length ≤ cmd.valueLength)
    (host : Mem) :
    Ends (liftFault (d.copyValue cmd host offset length)) (fun _ => True)
      fun e => e = .fault .undefined ∧ cmd.PrpsEnd host := by
  unfold copyValue
  rw [defined_bind (.inr hin)]
  show Ends (liftFault (IoCursor.loop cmd.copyCommand length
    (IoCursor.start host d.storage offset length))) _ _
  have hends := IoCursor.ends_loop cmd.copyCommand length
    (IoCursor.start host d.storage offset length)
  cases hloop : IoCursor.loop cmd.copyCommand length
      (IoCursor.start host d.storage offset length) with
  | error e =>
    obtain rfl := hends.of_error hloop
    exact ⟨rfl, d.storage, offset, length, hle, hloop⟩
  | ok c => exact True.intro

/-- **The copy of a retrieve:** bytes of the storage go to the host pages, in order, and nothing
else of the host memory changes; it fails only when its PRP list runs out. -/
theorem ends_copyOut (hop : cmd.opcode = .retrieve) (hsize : d.storageSize < 2 ^ 64)
    (hin : offset + length ≤ d.storageSize) (hle : length ≤ cmd.valueLength) (host : Mem) :
    Ends (liftFault (d.copyValue cmd host offset length))
      (fun c => ((c.pairs.map Prod.fst).Nodup →
          (c.pairs.map Prod.fst).map c.host = bytesAt d.storage offset length) ∧
        ∀ a ∉ c.pairs.map Prod.fst, c.host a = host a)
      fun e => e = .fault .undefined ∧ cmd.PrpsEnd host := by
  have hread : cmd.copyCommand.opcode = .read := by
    unfold KvCommand.copyCommand
    rw [hop]
  refine (ends_copyValue hin hle host).with_eq.mono ?_ fun _ h => h
  rintro c ⟨-, hcopy⟩
  have hloop : IoCursor.loop cmd.copyCommand length
      (IoCursor.start host d.storage offset length) = .ok c := by
    unfold copyValue at hcopy
    rw [defined_bind (.inr hin)] at hcopy
    exact liftFault_eq_ok.1 hcopy
  rcases Nat.eq_zero_or_pos length with rfl | hpos
  · cases hloop
    exact ⟨fun _ => rfl, fun _ _ => rfl⟩
  · obtain ⟨hpairs, hcopied⟩ := IoCursor.loop_passed (by omega) (by omega) hloop
    obtain ⟨-, hhost⟩ := hcopied.read hread
    refine ⟨fun hnodup => ?_, fun a ha => ?_⟩
    · calc List.map c.host (c.pairs.map Prod.fst)
          = c.pairs.map fun p => d.storage p.2 := by
            rw [List.map_map]
            refine List.map_congr_left fun p hp => ?_
            rw [Function.comp_apply, hhost]
            exact byteCopy_of_nodup hnodup hp
        _ = (c.pairs.map Prod.snd).map d.storage := by rw [List.map_map]; rfl
        _ = bytesAt d.storage offset length := by rw [hpairs, List.map_map]; rfl
    · rw [hhost]
      exact byteCopy_of_notMem ha

/-- What `get_mapping_entry` returns for a key that is found. -/
theorem getMappingEntry_of_found {t : KvTable} {key : List UInt8} {x : ℕ}
    (h : t.FoundAt key x) : t.getMappingEntry key = .ok { t.entry x with
      key := key ++ MappingEntry.blank.key.drop key.length } := by
  unfold KvTable.getMappingEntry
  rw [show t.findSlot key = .ok (some x) from h]
  rfl

/-- **What a retrieve returns:** the bytes of the entry, in order, as many as the buffer takes. -/
theorem ends_retrieve_min (hop : cmd.opcode = .retrieve) {x : ℕ}
    (hfound : d.table.FoundAt cmd.key x) (hoff : (d.table.entry x).memOffset = some offset)
    (hsize : d.storageSize < 2 ^ 64) (hin : offset + (d.table.entry x).length ≤ d.storageSize)
    (host : Mem) :
    Ends (d.doPerformKvIo K cmd host)
      (fun out => out.1 = d ∧ out.2.status = 0 ∧
        out.2.result = min (d.table.entry x).length cmd.valueLength ∧
        (out.2.addresses.Nodup → out.2.addresses.map out.2.host =
          bytesAt d.storage offset (min (d.table.entry x).length cmd.valueLength)) ∧
        ∀ a ∉ out.2.addresses, out.2.host a = host a)
      fun e => e = .fault .undefined ∧ cmd.PrpsEnd host := by
  unfold doPerformKvIo
  simp only [hop, getMappingEntry_of_found hfound, ok_bind, hoff]
  have hmin : offset + min (d.table.entry x).length cmd.valueLength ≤ d.storageSize := by omega
  exact (ends_copyOut hop hsize hmin (Nat.min_le_right _ _) host).bind fun c hc =>
    ⟨rfl, rfl, rfl, hc⟩

/-- A retrieve with a large enough buffer. -/
theorem ends_retrieve (hop : cmd.opcode = .retrieve) {x : ℕ}
    (hfound : d.table.FoundAt cmd.key x) (hoff : (d.table.entry x).memOffset = some offset)
    (hsize : d.storageSize < 2 ^ 64) (hin : offset + (d.table.entry x).length ≤ d.storageSize)
    (hlen : (d.table.entry x).length ≤ cmd.valueLength) (host : Mem) :
    Ends (d.doPerformKvIo K cmd host)
      (fun out => out.1 = d ∧ out.2.status = 0 ∧ out.2.result = (d.table.entry x).length ∧
        (out.2.addresses.Nodup →
          out.2.addresses.map out.2.host = bytesAt d.storage offset (d.table.entry x).length))
      fun e => e = .fault .undefined := by
  have hret := ends_retrieve_min (K := K) hop hfound hoff hsize hin host
  rw [Nat.min_eq_left hlen] at hret
  exact hret.mono (fun _ h => ⟨h.1, h.2.1, h.2.2.1, h.2.2.2.1⟩) fun _ h => h.1

end KvDev

end NvmeVirt
