/-
# When a store comes to an end

`kv_store` of `kv_ftl.c` on a table that may be full.  `find_next_slot` goes round the
table without noting where it started and nothing counts the entries, so a new key needs
a free slot; a key the table holds needs none.
-/

import NvmeVirt.Kv.Chains
import NvmeVirt.Kv.IndexRuns

namespace NvmeVirt

open Outcome

namespace KvTable

variable {t : KvTable} {n : ℕ} {key : List UInt8}

/-- An operation that ends has found room. -/
theorem hasRoom_of_exec {op : TableOp} {t' : KvTable} (hn : 0 < t.hashSlots)
    (h : t.exec op = .ok t') : t.HasRoom op := by
  cases op with
  | insert hash key valLen valOffset =>
    by_contra hfull
    have hhome := homeOf_lt hn hash
    have hused : ¬ t.free (t.homeOf hash) := fun hfree => hfull ⟨_, hhome, hfree⟩
    have hstop : t.newMappingEntryAt (t.homeOf hash) key.bytes valLen valOffset
        = .error .endless := by
      unfold newMappingEntryAt
      rw [if_neg hused, findNextSlot_full hfull hhome]
    have hcontra := hstop.symm.trans h
    cases hcontra
  | update hash key valLen => exact True.intro
  | delete hash key => exact True.intro

/-- **Every table that is reached** has chains. -/
theorem Chained.reached (h : t.Chained) (hn : 0 < t.hashSlots) {ops : List TableOp} {t' : KvTable}
    (hrun : runList KvTable.exec t ops = .ok t') :
    t'.hashSlots = t.hashSlots ∧ t'.Chained := by
  have hstep : ∀ op ∈ ops, ∀ s : KvTable, s.hashSlots = t.hashSlots ∧ s.Chained →
      Ends (s.exec op) (fun s' => s'.hashSlots = t.hashSlots ∧ s'.Chained) fun _ => True := by
    rintro op - s ⟨hslots, hs⟩
    cases hr : s.exec op with
    | error e => exact True.intro
    | ok s' =>
      have hpos : 0 < s.hashSlots := hslots ▸ hn
      obtain ⟨s₁, hs₁, hslots₁, hchain⟩ := hs.exec hpos (hasRoom_of_exec hpos hr)
      rw [hr] at hs₁
      cases hs₁
      exact ⟨hslots₁.trans hslots, hchain⟩
  exact (Ends.runList hstep ⟨rfl, h⟩).of_ok hrun

/-- The walk for a key of a chained table. -/
theorem Chained.findSlot_ok (h : t.Chained) (hn : 0 < t.hashSlots) (key : List UInt8) :
    ∃ r, t.findSlot key = .ok r := by
  have hhome : t.getHashSlot key < t.hashSlots := Nat.mod_lt _ hn
  exact h.findSlotAt_ok hhome key

/-- What `get_mapping_entry` returns for a key that is not found. -/
theorem getMappingEntry_of_none (h : t.findSlot key = .ok none) :
    t.getMappingEntry key = .ok MappingEntry.blank := by
  unfold getMappingEntry
  rw [h]
  rfl

end KvTable

namespace KvDev

variable (K : ZeroAreaFinder) (d : KvDev) (cmd : KvCommand) (host : Mem)

/-- **A store behaves:** it comes to an end, and on a full table a new key is refused with an error
and nothing of the table changes. -/
structure StoreBehaves : Prop where
  ends : d.doPerformKvIo K cmd host ≠ .error .endless
  refused : ¬ d.table.HasFreeSlot → d.table.findSlot cmd.key = .ok none →
    ∃ d' r, d.doPerformKvIo K cmd host = .ok (d', r) ∧ r.status ≠ 0 ∧ d'.table = d.table

/-- What the table must offer: a free slot, or the key in one. -/
def StoreHasRoom : Prop := d.table.HasFreeSlot ∨ ∃ x, d.table.FoundAt cmd.key x

variable {K} {d} {cmd} {host}

/-- A part of a command outside the table comes to an end. -/
theorem liftFault_ends {α : Type} (x : Except Fault α) :
    Ends (liftFault x) (fun a => x = .ok a) fun e => e ≠ .endless := by
  cases x with
  | ok a => exact rfl
  | error e => exact KvStop.noConfusion

/-- **An insertion with room** comes to an end. -/
theorem insertEntry_ends (h : d.table.Chained) (hn : 0 < d.table.hashSlots)
    (hroom : d.table.HasFreeSlot) (key : List UInt8) (length offset : ℕ) :
    Ends (d.insertEntry key length offset) (fun _ => True) fun e => e ≠ .endless := by
  have hhome : d.table.getHashSlot key < d.table.reach := by
    refine lt_min (Nat.mod_lt _ hn) ((Nat.mod_le _ _).trans_lt ?_)
    exact KvTable.hashFunction_lt key
  obtain ⟨t', ht', -⟩ := h.newMappingEntryAt hhome hroom key length offset
  unfold insertEntry
  split_ifs with hbug
  · exact KvStop.noConfusion
  · rw [KvTable.newMappingEntry_eq, ht']
    exact True.intro

/-- **A store on a table with room** comes to an end. -/
theorem kvStore_ends (h : d.table.Chained) (hn : 0 < d.table.hashSlots)
    (hroom : d.StoreHasRoom cmd) :
    Ends (d.kvStore K cmd host) (fun _ => True) fun e => e ≠ .endless := by
  obtain ⟨r, hr⟩ := h.findSlot_ok hn cmd.key
  unfold kvStore
  cases r with
  | none =>
    have hfree : d.table.HasFreeSlot := hroom.resolve_right fun ⟨x, hx⟩ => by
      unfold KvTable.FoundAt at hx
      rw [hr] at hx
      cases hx
    rw [KvTable.getMappingEntry_of_none hr, ok_bind]
    refine (liftFault_ends _).bind ?_
    rintro ⟨d₁, offset⟩ halloc
    refine (liftFault_ends _).bind fun c _ => ?_
    have ht : d₁.table = d.table := by rw [allocateMemOffset_table halloc]
    refine (insertEntry_ends ?_ ?_ ?_ _ _ _).bind fun d₂ _ => True.intro
    · exact ht ▸ h
    · exact ht ▸ hn
    · exact ht ▸ hfree
  | some slot =>
    have hentry : d.table.getMappingEntry cmd.key = .ok { d.table.entry slot with
        key := cmd.key ++ MappingEntry.blank.key.drop cmd.key.length } := by
      unfold KvTable.getMappingEntry
      rw [hr]
      rfl
    rw [hentry, ok_bind]
    cases hoff : (d.table.entry slot).memOffset with
    | none =>
      obtain ⟨r', hr', hsearch⟩ : ∃ r', d.table.findSlot cmd.key = .ok r' ∧
          d.table.search cmd.key d.table.hashSlots (d.table.getHashSlot cmd.key) = some r' :=
        ⟨some slot, hr, KvTable.foundAt_iff.1 hr⟩
      rw [hr] at hr'
      cases hr'
      exact absurd hoff (KvTable.search_found hsearch).1
    | some offset =>
      refine (liftFault_ends _).bind fun c _ => ?_
      dsimp only
      split_ifs
      · have hhome : d.table.getHashSlot cmd.key < d.table.hashSlots := Nat.mod_lt _ hn
        obtain ⟨t', ht', -⟩ := h.updateMappingEntryAt hhome cmd.key cmd.valueLength
        rw [KvTable.updateMappingEntry_eq, ht']
        exact True.intro
      · exact True.intro

/-- **A new key on a full table** is not refused: the store does not return. -/
theorem kvStore_full (hn : 0 < d.table.hashSlots) (hfull : ¬ d.table.HasFreeSlot)
    (hnew : d.table.findSlot cmd.key = .ok none) :
    Ends (d.kvStore K cmd host) (fun _ => False) fun _ => True := by
  unfold kvStore
  rw [KvTable.getMappingEntry_of_none hnew, ok_bind]
  refine (liftFault_ends _).mono (fun _ ha => ha) (fun _ _ => True.intro) |>.bind ?_
  rintro ⟨d₁, offset⟩ halloc
  refine (liftFault_ends _).mono (fun _ hc => hc) (fun _ _ => True.intro) |>.bind fun c _ => ?_
  have ht : d₁.table = d.table := by rw [allocateMemOffset_table halloc]
  have hhome : d.table.getHashSlot cmd.key < d.table.reach := by
    refine lt_min (Nat.mod_lt _ hn) ((Nat.mod_le _ _).trans_lt ?_)
    exact KvTable.hashFunction_lt cmd.key
  have hstop : ∀ length offset,
      d.table.newMappingEntry cmd.key length offset = .error .endless := by
    intro length offset
    unfold KvTable.newMappingEntry
    dsimp only
    rw [if_neg fun hfree => hfull ⟨_, hhome, hfree⟩, KvTable.findNextSlot_full hfull hhome]
  unfold insertEntry
  split_ifs with hbug
  · exact True.intro
  · dsimp only
    rw [ht, hstop]
    exact True.intro

end KvDev

/-- **Exactly when a store behaves:** in every device over a table that insertions, updates and
deletions have made of a new one, a store comes to an end and refuses a new key on a full table if
and only if a slot is free or one holds the key. -/
theorem kvStore_behaves_iff (K : ZeroAreaFinder) (a : Allocators) (storageSize tableSize : ℕ)
    (type : AllocatorType) (storage : Mem) {d₀ d : KvDev}
    (hinit : kvInitNamespace a storageSize tableSize type storage = .ok d₀)
    (hslots : 48 ≤ tableSize) {ops : List KvTable.TableOp}
    (hrun : runList KvTable.exec d₀.table ops = .ok d.table) {cmd : KvCommand}
    (hop : cmd.opcode = .store) (host : Mem) :
    d.StoreBehaves K cmd host ↔ d.StoreHasRoom cmd := by
  obtain ⟨a', -, hd⟩ := bind_eq_ok.1 hinit
  cases hd
  have hpos : 0 < tableSize / 48 := Nat.div_pos hslots (by decide)
  obtain ⟨hsize, h⟩ := (KvTable.init_chained (tableSize / 48)).reached hpos hrun
  have hn : 0 < d.table.hashSlots := hsize ▸ hpos
  have hstore : d.doPerformKvIo K cmd host = d.kvStore K cmd host := by
    unfold KvDev.doPerformKvIo
    rw [hop]
  constructor
  · intro hb
    by_contra hroom
    obtain ⟨hfull, hnot⟩ := not_or.1 hroom
    obtain ⟨r, hr⟩ := h.findSlot_ok hn cmd.key
    cases r with
    | none =>
      obtain ⟨d', r, hok, -⟩ := hb.refused hfull hr
      exact (KvDev.kvStore_full hn hfull hr).of_ok (hstore ▸ hok)
    | some x => exact hnot ⟨x, hr⟩
  · intro hroom
    refine ⟨fun hendless => ?_, fun hfull hnew => ?_⟩
    · rw [hstore] at hendless
      exact (KvDev.kvStore_ends h hn hroom).of_error hendless rfl
    · rcases hroom with hfree | ⟨x, hx⟩
      · exact absurd hfree hfull
      · unfold KvTable.FoundAt at hx
        rw [hnew] at hx
        cases hx

/-- An insertion that fills a table of one slot. -/
def fillOneSlot : List KvTable.TableOp := [.insert 7 (byteKey 1) 4 0]

/-- The key that is in the full table may be stored again. -/
theorem kvStore_behaves_iff_full : ∃ d₀ d : KvDev,
    kvInitNamespace Allocators.loaded 65536 48 .appendOnly (fun _ => 0) = .ok d₀ ∧
    runList KvTable.exec d₀.table fillOneSlot = .ok d.table ∧
    (d.StoreBehaves ZeroAreaFinder.kernel (byteCommand .store 1 1).cmd (fun _ => 0) ↔
      d.StoreHasRoom (byteCommand .store 1 1).cmd) ∧
    d.StoreHasRoom (byteCommand .store 1 1).cmd := by
  have hcheck : (kvInitNamespace Allocators.loaded 65536 48 .appendOnly
      (fun _ => 0)).toOption.any (fun d₀ =>
        (runList KvTable.exec d₀.table fillOneSlot).toOption.any fun t => decide (
          t.FoundAt (byteCommand .store 1 1).cmd.key 0)) = true := by
    decide +kernel
  obtain ⟨d₀, hinit, hp⟩ := exists_ok_of_any hcheck
  obtain ⟨t, hrun, hp⟩ := exists_ok_of_any hp
  exact ⟨d₀, { d₀ with table := t }, hinit, hrun,
    kvStore_behaves_iff ZeroAreaFinder.kernel Allocators.loaded 65536 48 .appendOnly (fun _ => 0)
      hinit (by decide) (d := { d₀ with table := t }) hrun rfl (fun _ => 0),
    .inr ⟨0, of_decide_eq_true hp⟩⟩

/-- **A new key on a full table of one slot:** the search for a free slot takes as many steps as one
likes, and the store does not end. -/
theorem newKeyOnFullTable_not_behaves : ∃ d₀ d : KvDev,
    kvInitNamespace Allocators.loaded 65536 48 .appendOnly (fun _ => 0) = .ok d₀ ∧
    runList KvTable.exec d₀.table fillOneSlot = .ok d.table ∧
    (byteCommand .store 2 1).cmd.opcode = .store ∧
    (∀ steps, d.table.findNextSlot steps (d.table.getHashSlot [2]) = none) ∧
    ¬ d.StoreBehaves ZeroAreaFinder.kernel (byteCommand .store 2 1).cmd (fun _ => 0) := by
  have hcheck : (kvInitNamespace Allocators.loaded 65536 48 .appendOnly
      (fun _ => 0)).toOption.any (fun d₀ =>
        (runList KvTable.exec d₀.table fillOneSlot).toOption.any fun t => decide (
          ¬ t.HasFreeSlot ∧ 0 < t.hashSlots ∧ t.getHashSlot [2] < t.reach ∧
            t.findSlot [2] = .ok none)) = true := by
    decide +kernel
  obtain ⟨d₀, hinit, hp⟩ := exists_ok_of_any hcheck
  obtain ⟨t, hrun, hp⟩ := exists_ok_of_any hp
  obtain ⟨hfull, hpos, hhome, hnew⟩ := of_decide_eq_true hp
  refine ⟨d₀, { d₀ with table := t }, hinit, hrun, rfl,
    fun steps => KvTable.findNextSlot_full hfull hhome, fun h => ?_⟩
  obtain ⟨d', r, hok, -⟩ := h.refused hfull hnew
  have hstore : Ends (KvDev.kvStore ZeroAreaFinder.kernel { d₀ with table := t }
      (byteCommand .store 2 1).cmd fun _ => 0) (fun _ => False) fun _ => True :=
    KvDev.kvStore_full hpos hfull hnew
  exact hstore.of_ok hok

end NvmeVirt
