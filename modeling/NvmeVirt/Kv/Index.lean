/-
# The index of the KV device

Which keys `get_mapping_entry` finds after stores and deletes.  A walk follows the
links that `new_mapping_entry` and `delete_mapping_entry` edit: an insertion puts a
link over the one its home slot had, a deletion takes a slot with its link out, and
a slot holds a key when its bytes begin with it.
-/

import NvmeVirt.Kv.Walks
import NvmeVirt.Kv.Commands

namespace NvmeVirt

open Outcome

namespace KvTable

variable (t : KvTable)

/-- The slot `new_mapping_entry` takes for a key. -/
def newSlot (key : List UInt8) : Option ℕ :=
  if t.free (t.getHashSlot key) then some (t.getHashSlot key)
  else t.findNextSlot t.hashSlots (t.getHashSlot key)

variable {t} {t' : KvTable} {key k : List UInt8} {fuel slot s x y : ℕ}

/-- The slot `find_next_slot` returns is free. -/
theorem findNextSlot_spec (hn : slot < t.hashSlots)
    (h : t.findNextSlot fuel slot = some s) : t.free s ∧ s < t.hashSlots := by
  induction fuel generalizing slot with
  | zero => cases h
  | succ fuel ih =>
    unfold findNextSlot at h
    split_ifs at h with hfree
    · cases h
      exact ⟨hfree, hn⟩
    · refine ih ?_ h
      split_ifs <;> omega

theorem newSlot_spec (ht : t.Linked) (h : t.newSlot key = some s) :
    t.free s ∧ s < t.hashSlots := by
  unfold newSlot at h
  split_ifs at h with hfree
  · cases h
    exact ⟨hfree, ht.home_lt key⟩
  · exact findNextSlot_spec (ht.home_lt key) h

/-- **What an insertion does:** it fills a free slot and, when that is not the slot the key hashes
to, links it to that slot. -/
structure Inserted (t : KvTable) (key : List UInt8) (valLen valOffset s : ℕ) (t' : KvTable) :
    Prop where
  slot : t.newSlot key = some s
  hashSlots : t'.hashSlots = t.hashSlots
  new : t'.entry s = (t.entry s).assign key valOffset valLen
  home : t.getHashSlot key ≠ s → ¬ t.free (t.getHashSlot key) ∧
    t'.entry (t.getHashSlot key) = { t.entry (t.getHashSlot key) with nextSlot := some s }
  other : ∀ x, x ≠ s → x ≠ t.getHashSlot key → t'.entry x = t.entry x

theorem newMappingEntry_inserted (ht : t.Linked) {valLen valOffset : ℕ}
    (h : t.newMappingEntry key valLen valOffset = .ok t') :
    ∃ s, t.Inserted key valLen valOffset s t' := by
  unfold newMappingEntry at h
  by_cases hfree : t.free (t.getHashSlot key)
  · simp only [if_pos hfree] at h
    cases h
    refine ⟨t.getHashSlot key, if_pos hfree, rfl, Function.update_self _ _ _,
      fun h => absurd rfl h, fun x hx _ => Function.update_of_ne hx _ _⟩
  · simp only [if_neg hfree] at h
    cases hs : t.findNextSlot t.hashSlots (t.getHashSlot key) with
    | none => rw [hs] at h; cases h
    | some s =>
      rw [hs] at h
      cases h
      obtain ⟨hsfree, hslt⟩ := findNextSlot_spec (ht.home_lt key) hs
      have hne : s ≠ t.getHashSlot key := fun he => hfree (he ▸ hsfree)
      have hlt := ht.lt32
      have hhome : t.getHashSlot key ≠ noSlot := by
        have := ht.home_lt key
        unfold noSlot
        omega
      have hs' : s ≠ noSlot := by
        unfold noSlot
        omega
      unfold chainMapping
      rw [if_neg hhome, if_neg hs']
      refine ⟨s, (if_neg hfree).trans hs, rfl, ?_, fun _ => ⟨hfree, ?_⟩, fun x hx hxh => ?_⟩
      · show Function.update _ _ _ s = _
        rw [Function.update_of_ne hne]
        exact Function.update_self _ _ _
      · show Function.update _ _ _ _ = _
        rw [Function.update_self]
        show { (Function.update t.entry s _) (t.getHashSlot key) with nextSlot := some s } = _
        rw [Function.update_of_ne hne.symm]
      · show Function.update _ _ _ x = _
        rw [Function.update_of_ne hxh]
        exact Function.update_of_ne hx _ _

namespace Inserted

variable {valLen valOffset : ℕ}

theorem home_eq (h : t.Inserted key valLen valOffset s t') (k : List UInt8) :
    t'.getHashSlot k = t.getHashSlot k := by
  unfold getHashSlot
  rw [h.hashSlots]

/-- The new slot is in use and ends the links. -/
theorem new_next (ht : t.Linked) (h : t.Inserted key valLen valOffset s t') :
    ¬ t'.free s ∧ (t'.entry s).nextSlot = none := by
  obtain ⟨hfree, -⟩ := newSlot_spec ht h.slot
  unfold free
  rw [h.new]
  exact ⟨nofun, ht.free s hfree⟩

/-- Key and offset of an entry stay, the new one's apart. -/
theorem keep (h : t.Inserted key valLen valOffset s t') (hx : x ≠ s) :
    (t'.entry x).key = (t.entry x).key ∧ (t'.entry x).memOffset = (t.entry x).memOffset ∧
      (t'.entry x).length = (t.entry x).length := by
  by_cases hh : x = t.getHashSlot key
  · subst hh
    rw [(h.home hx).2]
    exact ⟨rfl, rfl, rfl⟩
  · rw [h.other x hx hh]
    exact ⟨rfl, rfl, rfl⟩

/-- Only the new slot comes into use. -/
theorem created_iff (ht : t.Linked) (h : t.Inserted key valLen valOffset s t') :
    t.free x ∧ ¬ t'.free x ↔ x = s := by
  constructor
  · rintro ⟨hfree, hused⟩
    by_contra hx
    refine hused ?_
    unfold free
    rw [(h.keep hx).2.1]
    exact hfree
  · rintro rfl
    exact ⟨(newSlot_spec ht h.slot).1, (h.new_next ht).1⟩

/-- A link after the insertion is an old one or leads to the new slot. -/
theorem next (h : t.Inserted key valLen valOffset s t') (hx : (t'.entry x).nextSlot = some y) :
    (t.entry x).nextSlot = some y ∨ x = t.getHashSlot key ∧ x ≠ s ∧ y = s := by
  by_cases hs : x = s
  · subst hs
    rw [h.new] at hx
    exact .inl hx
  · by_cases hh : x = t.getHashSlot key
    · subst hh
      rw [(h.home hs).2] at hx
      exact .inr ⟨rfl, hs, (Option.some.inj hx).symm⟩
    · rw [h.other x hs hh] at hx
      exact .inl hx

/-- **An insertion keeps the links in order.** -/
theorem linked (ht : t.Linked) (h : t.Inserted key valLen valOffset s t')
    (hlen : key.length ≤ 18) : t'.Linked where
  pos := h.hashSlots ▸ ht.pos
  lt32 := h.hashSlots ▸ ht.lt32
  free x hx := by
    obtain ⟨hused, -⟩ := h.new_next ht
    have hs : x ≠ s := fun he => hused (he ▸ hx)
    have hold : t.free x := (h.keep hs).2.1.symm.trans hx
    by_cases hh : x = t.getHashSlot key
    · exact absurd hold (hh ▸ (h.home (hh ▸ hs)).1)
    · rw [h.other x hs hh]
      exact ht.free x hold
  lt x y hxy := by
    rw [h.hashSlots]
    rcases h.next hxy with hold | ⟨-, -, rfl⟩
    · exact ht.lt x y hold
    · exact (newSlot_spec ht h.slot).2
  acyclic := by
    obtain ⟨rank, hrank⟩ := ht.acyclic
    have hlink : Links.Descends (fun x => (t'.entry x).nextSlot) _ :=
      Links.Descends.link hrank (h.new_next ht).2 fun x y hxy =>
        (h.next hxy).imp id fun hnew => hnew.2.2
    exact ⟨_, hlink⟩
  width x := by
    by_cases hs : x = s
    · rw [hs, h.new]
      simp only [MappingEntry.assign, List.length_append, List.length_drop, ht.width]
      omega
    · rw [(h.keep hs).1]
      exact ht.width x

/-- The key is found in its new slot. -/
theorem found_new (ht : t.Linked) (h : t.Inserted key valLen valOffset s t')
    (hnot : ∀ x, ¬ t.FoundAt key x) : t'.FoundAt key s := by
  have hholds : (t'.entry s).holds key := by
    rw [h.new]
    simp [MappingEntry.holds, MappingEntry.assign]
  obtain ⟨hused, -⟩ := h.new_next ht
  rw [foundAt_iff, h.home_eq]
  obtain ⟨n, hn⟩ : ∃ n, t'.hashSlots = n + 1 := ⟨t'.hashSlots - 1, by
    have := h.hashSlots ▸ ht.pos
    omega⟩
  rw [hn]
  unfold search
  by_cases hs : t.getHashSlot key = s
  · rw [hs, if_neg hused, if_pos hholds]
  · obtain ⟨hhome, hentry⟩ := h.home hs
    have hhome' : ¬ t'.free (t.getHashSlot key) := by
      unfold free
      rw [hentry]
      exact hhome
    have hnot' : ¬ (t'.entry (t.getHashSlot key)).holds key := by
      rw [hentry]
      intro (hh : (t.entry (t.getHashSlot key)).holds key)
      refine hnot (t.getHashSlot key) (foundAt_iff.2 ?_)
      obtain ⟨m, hm⟩ : ∃ m, t.hashSlots = m + 1 := ⟨t.hashSlots - 1, by have := ht.pos; omega⟩
      rw [hm]
      unfold search
      rw [if_neg hhome, if_pos hh]
    rw [if_neg hhome', if_neg hnot', hentry]
    have hn0 : n ≠ 0 := by
      rintro rfl
      have h1 := (newSlot_spec ht h.slot).2
      have h2 := ht.home_lt key
      rw [h.hashSlots] at hn
      omega
    obtain ⟨m, rfl⟩ := Nat.exists_eq_succ_of_ne_zero hn0
    simp only
    unfold search
    rw [if_neg hused, if_pos hholds]

/-- A key whose walk takes no link of the home slot stays found where it is. -/
theorem found_keep (ht : t.Linked) (h : t.Inserted key valLen valOffset s t') (hk : t.FoundAt k x)
    (hpath : t.getHashSlot key ∉ (t.path k).dropLast) : t'.FoundAt k x := by
  obtain ⟨hsfree, -⟩ := newSlot_spec ht h.slot
  rw [foundAt_iff] at hk ⊢
  have hxs : x ≠ s := fun he => (search_found hk).1 (he ▸ hsfree)
  obtain ⟨hkey, hoff, -⟩ := h.keep hxs
  rw [h.home_eq, h.hashSlots]
  refine (search_congr hk (fun y hy => h.other y ?_ ?_) hkey hoff).1
  · rintro rfl
    exact (mem_dropLast hy).1 hsfree
  · rintro rfl
    exact hpath hy

/-- A walk that comes to the new slot came to it before, or to the home slot. -/
theorem mem_path (h : t.Inserted key valLen valOffset s t')
    (hs : s ∈ t'.searchPath k fuel slot) :
    s ∈ t.searchPath k fuel slot ∨ t.getHashSlot key ∈ t.searchPath k fuel slot := by
  induction fuel generalizing slot with
  | zero => cases hs
  | succ fuel ih =>
    unfold searchPath at hs ⊢
    by_cases hss : slot = s
    · exact .inl (hss ▸ List.mem_cons_self)
    by_cases hsh : slot = t.getHashSlot key
    · exact .inr (hsh ▸ List.mem_cons_self)
    rcases List.mem_cons.1 hs with heq | hs
    · exact absurd heq.symm hss
    have hsame := h.other slot hss hsh
    have hfree : t'.free slot ↔ t.free slot := by unfold free; rw [hsame]
    rw [hsame] at hs
    simp only [hfree] at hs
    split_ifs at hs ⊢ with hend
    · cases hs
    · cases hnext : (t.entry slot).nextSlot with
      | none => rw [hnext] at hs; cases hs
      | some next =>
        rw [hnext] at hs
        exact (ih hs).imp (List.mem_cons_of_mem _) (List.mem_cons_of_mem _)

/-- **What is found after an insertion:** in the new slot only a key whose walk came to it or to the
home slot, and every other key where it was found before. -/
theorem found_cases (ht : t.Linked) (h : t.Inserted key valLen valOffset s t')
    (hk : t'.FoundAt k x) :
    x = s ∧ (t'.entry s).holds k ∧ (s ∈ t.path k ∨ t.getHashSlot key ∈ t.path k) ∨
      x ≠ s ∧ t.FoundAt k x := by
  rw [foundAt_iff] at hk
  rw [h.home_eq, h.hashSlots] at hk
  obtain ⟨hused, hholds, hmem⟩ := search_found hk
  by_cases hxs : x = s
  · subst hxs
    exact .inl ⟨rfl, hholds, h.mem_path hmem⟩
  · refine .inr ⟨hxs, foundAt_iff.2 ?_⟩
    obtain ⟨hkey, hoff, -⟩ := h.keep hxs
    -- Neither the new slot nor the home slot is passed: the links end behind both.
    have hs : s ∉ (t'.searchPath k t.hashSlots (t.getHashSlot k)).dropLast := fun hs => by
      obtain ⟨-, y, -, hy⟩ := mem_dropLast hs
      rw [(h.new_next ht).2] at hy
      cases hy
    have hs' : s ∉ t'.searchPath k t.hashSlots (t.getHashSlot k) := fun hmem' => by
      have hlast := getLast_searchPath hk
      have hsplit := List.dropLast_append_getLast? x hlast
      rw [← hsplit] at hmem'
      rcases List.mem_append.1 hmem' with h1 | h1
      · exact hs h1
      · exact hxs (List.mem_singleton.1 h1).symm
    refine (search_congr hk (fun y hy => ?_) hkey.symm hoff.symm).1
    have hys : y ≠ s := fun he => hs (he ▸ hy)
    refine (h.other y hys fun hyh => ?_).symm
    obtain ⟨-, z, hz, hyz⟩ := mem_dropLast hy
    rw [hyh, (h.home (hyh ▸ hys)).2] at hyz
    exact hs' (Option.some.inj hyz ▸ hz)

end Inserted

/-! ### Deletion -/

/-- A link after a deletion is an old one. -/
theorem next_of_delete (h : ((t.set x MappingEntry.blank).entry y).nextSlot = some s) :
    (t.entry y).nextSlot = some s := by
  by_cases hyx : y = x
  · rw [hyx, set_entry_self] at h
    cases h
  · rwa [t.set_entry_of_ne _ hyx] at h

/-- **A deletion keeps the links in order:** the slot is free and without a link, the rest is as
before. -/
theorem Linked.delete (ht : t.Linked) : (t.set x MappingEntry.blank).Linked where
  pos := ht.pos
  lt32 := ht.lt32
  free y hy := by
    by_cases hyx : y = x
    · rw [hyx, set_entry_self]
      rfl
    · unfold KvTable.free at hy
      rw [t.set_entry_of_ne _ hyx] at hy ⊢
      exact ht.free y hy
  lt y z hyz := ht.lt y z (next_of_delete hyz)
  acyclic := by
    obtain ⟨rank, hrank⟩ := ht.acyclic
    exact ⟨rank, fun y z hyz => hrank y z (next_of_delete hyz)⟩
  width y := by
    by_cases hyx : y = x
    · rw [hyx, set_entry_self]
      rfl
    · rw [t.set_entry_of_ne _ hyx]
      exact ht.width y

/-- Another key stays found when its walk does not pass the slot on the way. -/
theorem FoundAt.delete (hk : t.FoundAt k y) (hyx : y ≠ x) (hpath : x ∉ (t.path k).dropLast) :
    (t.set x MappingEntry.blank).FoundAt k y := by
  rw [foundAt_iff] at hk ⊢
  refine (search_congr hk (fun z hz => t.set_entry_of_ne _ ?_) ?_ ?_).1
  · rintro rfl
    exact hpath hz
  · rw [t.set_entry_of_ne _ hyx]
  · rw [t.set_entry_of_ne _ hyx]

/-- What is found after a deletion was found before, elsewhere. -/
theorem found_of_delete (hk : (t.set x MappingEntry.blank).FoundAt k y) :
    y ≠ x ∧ t.FoundAt k y := by
  have hfree : (t.set x MappingEntry.blank).free x := by
    unfold free
    rw [set_entry_self]
    rfl
  rw [foundAt_iff] at hk ⊢
  have hyx : y ≠ x := fun he => (search_found hk).1 (he ▸ hfree)
  refine ⟨hyx, (search_congr hk (fun z hz => (t.set_entry_of_ne _ ?_).symm) ?_ ?_).1⟩
  · rintro rfl
    exact (mem_dropLast hz).1 hfree
  · rw [t.set_entry_of_ne _ hyx]
  · rw [t.set_entry_of_ne _ hyx]

/-! ### The commands on the table -/

/-- **What `get_mapping_entry` returns.** -/
theorem Linked.getMappingEntry_ok (ht : t.Linked) (key : List UInt8) :
    ∃ e, t.getMappingEntry key = .ok e ∧
      ((∀ x, ¬ t.FoundAt key x) ∧ e.memOffset = none ∨
        ∃ x, t.FoundAt key x ∧ ¬ t.free x ∧ e.memOffset = (t.entry x).memOffset ∧
          e.length = (t.entry x).length) := by
  obtain ⟨r, hr, hsearch⟩ := ht.findSlot_ok key
  unfold getMappingEntry
  rw [hr]
  cases r with
  | none =>
    refine ⟨_, rfl, .inl ⟨fun x hx => ?_, rfl⟩⟩
    unfold FoundAt at hx
    rw [hr] at hx
    cases hx
  | some x => exact ⟨_, rfl, .inr ⟨x, hr, (search_found hsearch).1, rfl, rfl⟩⟩

theorem FoundAt.unique (hx : t.FoundAt key x) (hy : t.FoundAt key y) : x = y := by
  unfold FoundAt at hx hy
  rw [hx] at hy
  exact Option.some.inj (Except.ok.inj hy)

end KvTable

namespace KvDev

variable {K : ZeroAreaFinder} {d d' : KvDev} {cmd : KvCommand} {host : Mem} {r : KvReply}

/-- **What a command does to the table.** -/
inductive TableStep (t : KvTable) (cmd : KvCommand) (t' : KvTable) : Prop
  | insert (valOffset s : ℕ) (op : cmd.opcode = .store) (new : ∀ x, ¬ t.FoundAt cmd.key x)
      (table : t.Inserted cmd.key cmd.valueLength valOffset s t')
  | update (x : ℕ) (op : cmd.opcode = .store) (found : t.FoundAt cmd.key x)
      (table : t.SameLinks t')
  | delete (x : ℕ) (op : cmd.opcode = .delete) (found : t.FoundAt cmd.key x)
      (table : t' = t.set x MappingEntry.blank)
  | missing (op : cmd.opcode = .delete) (new : ∀ x, ¬ t.FoundAt cmd.key x) (table : t' = t)
  | look (store : cmd.opcode ≠ .store) (delete : cmd.opcode ≠ .delete) (table : t' = t)

theorem liftFault_eq_ok {α : Type} {x : Except Fault α} {a : α} :
    liftFault x = .ok a ↔ x = .ok a := by
  cases x with
  | ok b => simp [liftFault]
  | error e => simp [liftFault]

theorem insertEntry_inserted (ht : d.table.Linked) {key : List UInt8} {length offset : ℕ}
    (h : d.insertEntry key length offset = .ok d') :
    (∃ s, d.table.Inserted key length offset s d'.table) ∧ offset < d.storageSize ∧
      d' = { d with table := d'.table } := by
  unfold insertEntry at h
  split_ifs at h with hbug
  · cases h
  · obtain ⟨t', ht', h⟩ := bind_eq_ok.1 h
    cases h
    exact ⟨KvTable.newMappingEntry_inserted ht ht', by omega, rfl⟩

theorem allocateMemOffset_table {length offset : ℕ}
    (h : d.allocateMemOffset K length = .ok (d', offset)) :
    d' = { d with allocators := d'.allocators } := by
  unfold allocateMemOffset at h
  obtain ⟨⟨a, o⟩, -, h⟩ := bind_eq_ok.1 h
  cases h
  rfl

theorem kvStore_table (ht : d.table.Linked) (hop : cmd.opcode = .store)
    (h : d.kvStore K cmd host = .ok (d', r)) : TableStep d.table cmd d'.table := by
  obtain ⟨e, he, hcases⟩ := ht.getMappingEntry_ok cmd.key
  unfold kvStore at h
  rw [he, ok_bind] at h
  rcases hcases with ⟨hnew, hnone⟩ | ⟨x, hx, hused, hoff, -⟩
  · rw [hnone] at h
    obtain ⟨⟨d₁, offset⟩, halloc, h⟩ := bind_eq_ok.1 h
    obtain ⟨c, -, h⟩ := bind_eq_ok.1 h
    obtain ⟨d₂, hins, h⟩ := bind_eq_ok.1 h
    cases h
    have ht₁ : d₁.table = d.table := by
      rw [allocateMemOffset_table (liftFault_eq_ok.1 halloc)]
    obtain ⟨⟨s, hs⟩, -⟩ := insertEntry_inserted (by simpa only [ht₁] using ht) hins
    refine .insert offset s hop hnew ?_
    rw [ht₁] at hs
    exact hs
  · obtain ⟨offset, hsome⟩ := Option.ne_none_iff_exists'.1 hused
    rw [hoff, hsome] at h
    obtain ⟨c, -, h⟩ := bind_eq_ok.1 h
    dsimp only at h
    split_ifs at h with hlen
    · obtain ⟨t', ht', h⟩ := bind_eq_ok.1 h
      cases h
      refine .update x hop hx ?_
      unfold KvTable.updateMappingEntry at ht'
      rw [show d.table.findSlot cmd.key = .ok (some x) from hx] at ht'
      cases ht'
      exact d.table.sameLinks_setLength x _
    · cases h
      exact .update x hop hx ⟨rfl, fun _ => rfl, fun _ => rfl, fun _ => rfl⟩

theorem doPerformKvIo_table (ht : d.table.Linked)
    (h : d.doPerformKvIo K cmd host = .ok (d', r)) : TableStep d.table cmd d'.table := by
  obtain ⟨e, he, hcases⟩ := ht.getMappingEntry_ok cmd.key
  unfold doPerformKvIo at h
  cases hop : cmd.opcode with
  | store =>
    rw [hop] at h
    exact kvStore_table ht hop h
  | retrieve =>
    rw [hop] at h
    refine .look (by rw [hop]; nofun) (by rw [hop]; nofun) ?_
    simp only [he, ok_bind] at h
    cases hoff : e.memOffset with
    | none =>
      rw [hoff] at h
      cases h
      rfl
    | some offset =>
      rw [hoff] at h
      obtain ⟨c, -, h⟩ := bind_eq_ok.1 h
      cases h
      rfl
  | delete =>
    rw [hop] at h
    simp only [he, ok_bind] at h
    rcases hcases with ⟨hnew, hnone⟩ | ⟨x, hx, hused, hoff, -⟩
    · rw [hnone] at h
      cases h
      exact .missing hop hnew rfl
    · obtain ⟨offset, hsome⟩ := Option.ne_none_iff_exists'.1 hused
      rw [hoff, hsome] at h
      obtain ⟨t', ht', h⟩ := bind_eq_ok.1 h
      cases h
      refine .delete x hop hx ?_
      unfold KvTable.deleteMappingEntry at ht'
      rw [show d.table.findSlot cmd.key = .ok (some x) from hx] at ht'
      cases ht'
      rfl
  | exist =>
    rw [hop] at h
    simp only [he, ok_bind] at h
    cases h
    exact .look (by rw [hop]; nofun) (by rw [hop]; nofun) rfl
  | other code =>
    rw [hop] at h
    simp only [he, ok_bind] at h
    cases h
    exact .look (by rw [hop]; nofun) (by rw [hop]; nofun) rfl

end KvDev

end NvmeVirt
