/-
# The collision chains

`find_next_slot`, `new_mapping_entry`, `update_mapping_entry` and `delete_mapping_entry`
of `kv_ftl.c` with the hash value of the key left open.  An insertion links its slot to
the one the key hashes to, a deletion leaves the links to the freed slot behind, and the
slot is linked again when another key takes it.  No cycle comes of it: a slot that is
taken has no link of its own, so a new link always leads to an end.
-/

import NvmeVirt.Kv.Index

namespace NvmeVirt

open Outcome

/-- A key that fits into the `key` field of an entry. -/
structure KvKey where
  bytes : List UInt8
  fits : bytes.length ≤ 18

namespace KvTable

variable (t : KvTable)

/-- `new_mapping_entry` on the table for a key that hashes to the slot `home`. -/
def newMappingEntryAt (home : ℕ) (key : List UInt8) (valLen valOffset : ℕ) :
    Except KvStop KvTable :=
  if t.free home then .ok (t.set home ((t.entry home).assign key valOffset valLen))
  else
    match t.findNextSlot t.hashSlots home with
    | none => .error .endless
    | some s => .ok ((t.set s ((t.entry s).assign key valOffset valLen)).chainMapping home s)

/-- The walk for a key that hashes to the slot `home`. -/
def findSlotAt (home : ℕ) (key : List UInt8) : Except KvStop (Option ℕ) :=
  match t.search key t.hashSlots home with
  | none => .error .endless
  | some found => .ok found

/-- `update_mapping_entry` for a key that hashes to the slot `home`. -/
def updateMappingEntryAt (home : ℕ) (key : List UInt8) (valLen : ℕ) : Except KvStop KvTable := do
  match ← t.findSlotAt home key with
  | none => .ok t
  | some slot => .ok (t.set slot { t.entry slot with length := valLen })

/-- `delete_mapping_entry` on the table for a key that hashes to the slot `home`. -/
def deleteMappingEntryAt (home : ℕ) (key : List UInt8) : Except KvStop KvTable := do
  match ← t.findSlotAt home key with
  | none => .ok t
  | some slot => .ok (t.set slot MappingEntry.blank)

theorem newMappingEntry_eq (key : List UInt8) (valLen valOffset : ℕ) :
    t.newMappingEntry key valLen valOffset =
      t.newMappingEntryAt (t.getHashSlot key) key valLen valOffset := rfl

theorem updateMappingEntry_eq (key : List UInt8) (valLen : ℕ) :
    t.updateMappingEntry key valLen = t.updateMappingEntryAt (t.getHashSlot key) key valLen := rfl

/-- The links of the table. -/
def links (x : ℕ) : Option ℕ := (t.entry x).nextSlot

/-- The slots an `unsigned int` reaches. -/
def reach : ℕ := min t.hashSlots (2 ^ 32)

/-- A free slot is there for the next insertion. -/
def HasFreeSlot : Prop := ∃ s < t.reach, t.free s

instance : Decidable t.HasFreeSlot := inferInstanceAs (Decidable (∃ _ < _, _))

/-- **The chains of the table:** free slots have no link, links stay inside the table, and none
leads back. -/
structure Chained : Prop where
  free : ∀ x, t.free x → t.links x = none
  lt : ∀ x y, t.links x = some y → y < t.hashSlots
  descends : ∃ rank, Links.Descends t.links rank

/-- **What the loops rely on:** free slots have no link, following the links from any slot comes to
an end within as many steps as there are slots, and so does the walk for any key. -/
structure ChainsEnd : Prop where
  free : ∀ x < t.hashSlots, t.free x → t.links x = none
  follow : ∀ x < t.hashSlots, Links.follow t.links t.hashSlots x = none
  search : ∀ key, ∀ x < t.hashSlots, ∃ r, t.search key t.hashSlots x = some r

variable {t} {t' : KvTable} {key : List UInt8} {fuel slot home s x y : ℕ}

theorem init_chained (n : ℕ) : (init n).Chained where
  free _ _ := rfl
  lt _ _ h := absurd h (Option.some_ne_none _).symm
  descends := ⟨fun _ => 0, fun _ _ h => absurd h (Option.some_ne_none _).symm⟩

/-- **Chains end.** -/
theorem Chained.chainsEnd (h : t.Chained) : t.ChainsEnd := by
  obtain ⟨rank, hrank⟩ := h.descends
  have hfollow : ∀ x < t.hashSlots, Links.follow t.links t.hashSlots x = none := fun x hx =>
    follow_eq_none hrank h.lt hx
  exact ⟨fun x _ => h.free x, hfollow, fun key x hx => search_ends_of_follow (hfollow x hx)⟩

/-! ### The search for a free slot -/

/-- **`find_next_slot` finds a free slot** wherever in the table that is: the distance to it goes
down with every step. -/
theorem findNextSlot_isSome (hs : slot < t.reach) (hy : y < t.reach) (hfree : t.free y)
    (hfuel : (y + t.reach - slot) % t.reach < fuel) : ∃ s, t.findNextSlot fuel slot = some s := by
  induction fuel generalizing slot with
  | zero => exact absurd hfuel (Nat.not_lt_zero _)
  | succ fuel ih =>
    unfold findNextSlot
    by_cases hslot : t.free slot
    · exact ⟨slot, if_pos hslot⟩
    · rw [if_neg hslot]
      have hne : y ≠ slot := by
        rintro rfl
        exact hslot hfree
      dsimp only
      have hreach : t.reach = min t.hashSlots (2 ^ 32) := rfl
      refine ih ?_ ?_
      · split_ifs <;> omega
      · have hstep : (if t.hashSlots ≤ (slot + 1) % 2 ^ 32 then 0 else (slot + 1) % 2 ^ 32) =
            if slot + 1 = t.reach then 0 else slot + 1 := by
          split_ifs <;> omega
        rw [hstep]
        clear hstep ih hreach
        rcases Nat.lt_or_gt_of_ne hne with hlt | hgt
        · rw [Nat.mod_eq_of_lt (by omega)] at hfuel
          split_ifs with hlast
          · rw [Nat.sub_zero, Nat.add_mod_right, Nat.mod_eq_of_lt hy]
            omega
          · rw [Nat.mod_eq_of_lt (by omega)]
            omega
        · rw [Nat.mod_eq_sub_mod (by omega), Nat.mod_eq_of_lt (by omega)] at hfuel
          rw [if_neg (by omega), Nat.mod_eq_sub_mod (by omega), Nat.mod_eq_of_lt (by omega)]
          omega

/-- **On a full table `find_next_slot` runs on,** however many steps it takes. -/
theorem findNextSlot_full (hfull : ¬ t.HasFreeSlot) (hs : slot < t.reach) :
    t.findNextSlot fuel slot = none := by
  induction fuel generalizing slot with
  | zero => rfl
  | succ fuel ih =>
    unfold findNextSlot
    rw [if_neg fun hfree => hfull ⟨slot, hs, hfree⟩]
    refine ih ?_
    unfold reach at hs ⊢
    split_ifs <;> omega

/-! ### One operation -/

/-- An operation on the table; the hash value of the key may be any. -/
inductive TableOp
  | insert (hash : UInt32) (key : KvKey) (valLen valOffset : ℕ)
  | update (hash : UInt32) (key : KvKey) (valLen : ℕ)
  | delete (hash : UInt32) (key : KvKey)

/-- The slot of a hash value. -/
def homeOf (t : KvTable) (hash : UInt32) : ℕ := hash.toNat % t.hashSlots

/-- One operation. -/
def exec (t : KvTable) : TableOp → Except KvStop KvTable
  | .insert hash key valLen valOffset =>
    t.newMappingEntryAt (t.homeOf hash) key.bytes valLen valOffset
  | .update hash key valLen => t.updateMappingEntryAt (t.homeOf hash) key.bytes valLen
  | .delete hash key => t.deleteMappingEntryAt (t.homeOf hash) key.bytes

/-- An insertion finds a free slot. -/
def HasRoom (t : KvTable) : TableOp → Prop
  | .insert _ _ _ _ => t.HasFreeSlot
  | _ => True

instance (op : TableOp) : Decidable (t.HasRoom op) :=
  match op with
  | .insert _ _ _ _ => inferInstanceAs (Decidable t.HasFreeSlot)
  | .update _ _ _ => .isTrue trivial
  | .delete _ _ => .isTrue trivial

theorem homeOf_lt (hn : 0 < t.hashSlots) (hash : UInt32) : t.homeOf hash < t.reach := by
  refine lt_min (Nat.mod_lt _ hn) ?_
  exact (Nat.mod_le _ _).trans_lt hash.toNat_lt

/-- A hash value is an `unsigned int`. -/
theorem hashFunction_lt (key : List UInt8) : hashFunction key < 2 ^ 32 := by
  have hstep : ∀ (l : List UInt8) (h : ℕ), h < 2 ^ 32 →
      l.foldl (fun h p => (h * 16777619) % 2 ^ 32 ^^^ p.toNat) h < 2 ^ 32 := by
    intro l
    induction l with
    | nil => exact fun h hh => hh
    | cons p l ih =>
      intro h _
      refine ih _ (Nat.xor_lt_two_pow (Nat.mod_lt _ (by decide)) ?_)
      exact p.toNat_lt.trans (by decide)
  exact hstep key _ (by decide)

/-- A table whose links are old ones or lead to one end has chains. -/
theorem Chained.link (h : t.Chained) (hslots : t'.hashSlots = t.hashSlots)
    (hs : s < t.hashSlots) (hend : t'.links s = none) (hfree : ∀ x, t'.free x → t'.links x = none)
    (hlinks : ∀ x y, t'.links x = some y → t.links x = some y ∨ y = s) : t'.Chained where
  free := hfree
  lt x y hxy := by
    rw [hslots]
    rcases hlinks x y hxy with hold | rfl
    · exact h.lt x y hold
    · exact hs
  descends := by
    obtain ⟨rank, hrank⟩ := h.descends
    exact ⟨_, hrank.link hend hlinks⟩

/-- A table without new links has chains. -/
theorem Chained.of_links (h : t.Chained) (hslots : t'.hashSlots = t.hashSlots)
    (hfree : ∀ x, t'.free x → t'.links x = none)
    (hlinks : ∀ x y, t'.links x = some y → t.links x = some y) : t'.Chained where
  free := hfree
  lt x y hxy := hslots ▸ h.lt x y (hlinks x y hxy)
  descends := by
    obtain ⟨rank, hrank⟩ := h.descends
    exact ⟨rank, hrank.of_le hlinks⟩

/-- A stored entry. -/
theorem entry_set (t : KvTable) (slot : ℕ) (e : MappingEntry) (x : ℕ) :
    (t.set slot e).entry x = if x = slot then e else t.entry x := by
  split_ifs with hx
  · rw [hx, set_entry_self]
  · exact t.set_entry_of_ne e hx

/-- Filling a free slot changes no link. -/
theorem links_assign (t : KvTable) (s : ℕ) (key : List UInt8) (valLen valOffset x : ℕ) :
    (t.set s ((t.entry s).assign key valOffset valLen)).links x = t.links x := by
  unfold links
  rw [entry_set]
  split_ifs with hx
  · rw [hx]
    rfl
  · rfl

/-- Filling a slot frees none. -/
theorem free_of_assign {valLen valOffset : ℕ}
    (h : (t.set s ((t.entry s).assign key valOffset valLen)).free x) : x ≠ s ∧ t.free x := by
  unfold free at h ⊢
  rw [entry_set] at h
  split_ifs at h with hx
  · cases h
  · exact ⟨hx, h⟩

/-- The links behind `chain_mapping`. -/
theorem links_chainMapping (h : (t.chainMapping home s).links x = some y) :
    t.links x = some y ∨ x = home ∧ y = s := by
  unfold chainMapping at h
  by_cases hp : home = noSlot
  · rw [if_pos hp] at h
    exact .inl h
  · rw [if_neg hp] at h
    unfold links at h ⊢
    rw [entry_set] at h
    split_ifs at h with hx hs
    · exact .inr ⟨hx, (Option.some.inj h).symm⟩
    · exact .inl h

/-- **An insertion with room** ends and keeps the chains. -/
theorem Chained.newMappingEntryAt (h : t.Chained) (hhome : home < t.reach)
    (hroom : t.HasFreeSlot) (key : List UInt8) (valLen valOffset : ℕ) :
    ∃ t', t.newMappingEntryAt home key valLen valOffset = .ok t' ∧
      t'.hashSlots = t.hashSlots ∧ t'.Chained := by
  have hreach : t.reach ≤ t.hashSlots := min_le_left _ _
  unfold KvTable.newMappingEntryAt
  by_cases hfree : t.free home
  · rw [if_pos hfree]
    refine ⟨_, rfl, rfl, h.of_links rfl (fun x hx => ?_) fun x y hxy => ?_⟩
    · rw [links_assign]
      exact h.free x (free_of_assign hx).2
    · rwa [links_assign] at hxy
  · obtain ⟨y, hy, hyfree⟩ := hroom
    have hsteps : (y + t.reach - home) % t.reach < t.hashSlots :=
      (Nat.mod_lt _ (by omega)).trans_le hreach
    obtain ⟨s, hs⟩ := findNextSlot_isSome hhome hy hyfree hsteps
    obtain ⟨hsfree, hslt⟩ := findNextSlot_spec (hhome.trans_le hreach) hs
    rw [if_neg hfree, hs]
    have hne : s ≠ home := by
      rintro rfl
      exact hfree hsfree
    have hslots : ((t.set s ((t.entry s).assign key valOffset valLen)).chainMapping home s).hashSlots
        = t.hashSlots := by
      unfold chainMapping
      split_ifs <;> rfl
    have hlinks : ∀ x y, ((t.set s ((t.entry s).assign key valOffset valLen)).chainMapping
        home s).links x = some y → t.links x = some y ∨ x = home ∧ y = s := by
      intro x y hxy
      have := links_chainMapping hxy
      rwa [links_assign] at this
    refine ⟨_, rfl, hslots, h.link hslots hslt ?_ (fun x hx => ?_) fun x y hxy => ?_⟩
    · -- the new slot was free, so it has no link, and it is not the slot linked
      rw [Option.eq_none_iff_forall_ne_some]
      intro y hy
      rcases hlinks s y hy with hold | ⟨heq, -⟩
      · rw [h.free s hsfree] at hold
        cases hold
      · exact hne heq
    · unfold KvTable.free at hx
      rw [(chainMapping_entry _ _ _ x).2.1] at hx
      obtain ⟨-, hold⟩ := free_of_assign hx
      rw [Option.eq_none_iff_forall_ne_some]
      intro y hy
      rcases hlinks x y hy with hlink | ⟨rfl, -⟩
      · rw [h.free x hold] at hlink
        cases hlink
      · exact hfree hold
    · exact (hlinks x y hxy).imp id fun hnew => hnew.2

/-- A walk of a chained table ends in the table. -/
theorem Chained.findSlotAt_ok (h : t.Chained) (hhome : home < t.hashSlots) (key : List UInt8) :
    ∃ r, t.findSlotAt home key = .ok r := by
  obtain ⟨r, hr⟩ := h.chainsEnd.search key home hhome
  refine ⟨r, ?_⟩
  unfold findSlotAt
  rw [hr]

/-- **An update** ends and keeps the chains. -/
theorem Chained.updateMappingEntryAt (h : t.Chained) (hhome : home < t.hashSlots)
    (key : List UInt8) (valLen : ℕ) :
    ∃ t', t.updateMappingEntryAt home key valLen = .ok t' ∧
      t'.hashSlots = t.hashSlots ∧ t'.Chained := by
  obtain ⟨r, hr⟩ := h.findSlotAt_ok hhome key
  unfold KvTable.updateMappingEntryAt
  rw [hr, ok_bind]
  cases r with
  | none => exact ⟨t, rfl, rfl, h⟩
  | some slot =>
    have hsame := t.sameLinks_setLength slot valLen
    have hlinks : ∀ x, (t.set slot { t.entry slot with length := valLen }).links x = t.links x :=
      hsame.nextSlot
    refine ⟨_, rfl, rfl, h.of_links rfl (fun x hx => ?_) fun x y hxy => ?_⟩
    · rw [hlinks]
      exact h.free x (hsame.free_iff.1 hx)
    · rwa [hlinks] at hxy

/-- **A deletion** ends and keeps the chains. -/
theorem Chained.deleteMappingEntryAt (h : t.Chained) (hhome : home < t.hashSlots)
    (key : List UInt8) :
    ∃ t', t.deleteMappingEntryAt home key = .ok t' ∧
      t'.hashSlots = t.hashSlots ∧ t'.Chained := by
  obtain ⟨r, hr⟩ := h.findSlotAt_ok hhome key
  unfold KvTable.deleteMappingEntryAt
  rw [hr, ok_bind]
  cases r with
  | none => exact ⟨t, rfl, rfl, h⟩
  | some slot =>
    refine ⟨_, rfl, rfl, h.of_links rfl (fun x hx => ?_) fun x y hxy => next_of_delete hxy⟩
    unfold KvTable.free at hx
    unfold links
    rw [entry_set] at hx ⊢
    split_ifs at hx ⊢
    · rfl
    · exact h.free x hx

/-! ### Runs -/

/-- **One operation** keeps the chains. -/
theorem Chained.exec (h : t.Chained) (hn : 0 < t.hashSlots) {op : TableOp} (hroom : t.HasRoom op) :
    ∃ t', t.exec op = .ok t' ∧ t'.hashSlots = t.hashSlots ∧ t'.Chained := by
  have hhome := fun hash => homeOf_lt hn hash
  have hreach : t.reach ≤ t.hashSlots := min_le_left _ _
  cases op with
  | insert hash key valLen valOffset =>
    exact h.newMappingEntryAt (hhome hash) hroom key.bytes valLen valOffset
  | update hash key valLen =>
    exact h.updateMappingEntryAt ((hhome hash).trans_le hreach) key.bytes valLen
  | delete hash key => exact h.deleteMappingEntryAt ((hhome hash).trans_le hreach) key.bytes

/-- **Every run** of operations with room ends and keeps the chains. -/
theorem Chained.run (h : t.Chained) (hn : 0 < t.hashSlots) {ops : List TableOp}
    (hroom : Along KvTable.exec HasRoom t ops) :
    ∃ t', runList KvTable.exec t ops = .ok t' ∧ t'.hashSlots = t.hashSlots ∧ t'.Chained := by
  induction ops generalizing t with
  | nil => exact ⟨t, rfl, rfl, h⟩
  | cons op ops ih =>
    obtain ⟨t₁, hstep, hslots, h₁⟩ := h.exec hn hroom.1
    obtain ⟨t₂, hrun, hslots₂, h₂⟩ := ih h₁ (by rwa [hslots]) (hroom.2 t₁ hstep)
    exact ⟨t₂, bind_eq_ok.2 ⟨t₁, hstep, hrun⟩, hslots₂.trans hslots, h₂⟩

end KvTable

open KvTable in
/-- **The collision chains are acyclic:** from the table `kv_init_namespace` leaves every sequence of
insertions with a free slot left, of updates and of deletions, with any hash values, comes to an
end, and on the table it leaves free slots have no link and every walk along the links ends within
the number of slots. -/
theorem kvTable_chainsEnd (a : Allocators) (storageSize tableSize : ℕ) (type : AllocatorType)
    (storage : Mem) {d : KvDev}
    (hinit : kvInitNamespace a storageSize tableSize type storage = .ok d)
    (hslots : 48 ≤ tableSize) {ops : List TableOp}
    (hroom : Along KvTable.exec HasRoom d.table ops) :
    ∃ t, runList KvTable.exec d.table ops = .ok t ∧ t.hashSlots = tableSize / 48 ∧
      t.ChainsEnd := by
  obtain ⟨a', -, hd⟩ := bind_eq_ok.1 hinit
  cases hd
  have hpos : 0 < tableSize / 48 := Nat.div_pos hslots (by decide)
  obtain ⟨t, hrun, hsize, h⟩ := (init_chained (tableSize / 48)).run hpos hroom
  exact ⟨t, hrun, hsize, h.chainsEnd⟩

/-- Keys of one byte. -/
def byteKey (b : UInt8) : KvKey := ⟨[b], by simp⟩

/-- Three keys with one hash value in a table of three slots: the second is taken out and its slot
taken again, with the link to it still there. -/
def reusedSlot : List KvTable.TableOp :=
  [.insert 7 (byteKey 1) 4 0, .insert 7 (byteKey 2) 4 64, .delete 7 (byteKey 2),
    .insert 8 (byteKey 3) 4 128, .insert 7 (byteKey 4) 4 192]

/-- The table with the slot taken again. -/
theorem kvTable_chainsEnd_reused : ∃ d t,
    kvInitNamespace Allocators.loaded 65536 (48 * 3) .appendOnly (fun _ => 0) = .ok d ∧
    runList KvTable.exec d.table reusedSlot = .ok t ∧ t.hashSlots = 48 * 3 / 48 ∧
      t.ChainsEnd := by
  have hcheck : (kvInitNamespace Allocators.loaded 65536 (48 * 3) .appendOnly
      (fun _ => 0)).toOption.any (fun d => decide (
        Along KvTable.exec KvTable.HasRoom d.table reusedSlot)) = true := by
    decide +kernel
  obtain ⟨d, hinit, hp⟩ := exists_ok_of_any hcheck
  obtain ⟨t, hrun, hsize, h⟩ := kvTable_chainsEnd Allocators.loaded 65536 (48 * 3) .appendOnly
    (fun _ => 0) hinit (by decide) (of_decide_eq_true hp)
  exact ⟨d, t, hinit, hrun, hsize, h⟩

end NvmeVirt
