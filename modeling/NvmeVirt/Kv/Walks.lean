/-
# Walks over the mapping table

Where a walk goes depends on the entries it passes only: `searchPath` lists them.
A free slot has no link and a walk ends there; with links inside the table and
without a cycle every walk ends within as many steps as there are slots.
-/

import NvmeVirt.Lib.Links
import NvmeVirt.Kv.Table

namespace NvmeVirt

namespace KvTable

variable (t : KvTable)

/-- The slots the walk for a key passes, from a slot on. -/
def searchPath (key : List UInt8) : ℕ → ℕ → List ℕ
  | 0, _ => []
  | fuel + 1, slot =>
    slot :: if t.free slot ∨ (t.entry slot).holds key then []
      else
        match (t.entry slot).nextSlot with
        | none => []
        | some next => searchPath key fuel next

/-- The slots the walk for a key passes. -/
def path (key : List UInt8) : List ℕ := t.searchPath key t.hashSlots (t.getHashSlot key)

/-- The walk for a key ends on its slot. -/
def FoundAt (key : List UInt8) (slot : ℕ) : Prop := t.findSlot key = .ok (some slot)

instance (key : List UInt8) (slot : ℕ) : Decidable (t.FoundAt key slot) :=
  inferInstanceAs (Decidable (_ = _))

/-- **The links of the table:** every slot has a number, the links stay inside the table, free slots
have none, and no walk along them comes back to where it was. -/
structure Linked : Prop where
  pos : 0 < t.hashSlots
  lt32 : t.hashSlots < 2 ^ 32
  free : ∀ x, t.free x → (t.entry x).nextSlot = none
  lt : ∀ x y, (t.entry x).nextSlot = some y → y < t.hashSlots
  acyclic : ∃ rank : ℕ → ℕ, ∀ x y, (t.entry x).nextSlot = some y → rank y < rank x
  width : ∀ x, (t.entry x).key.length = 18

variable {t} {t' : KvTable} {key : List UInt8} {fuel slot x y : ℕ}

theorem init_linked {n : ℕ} (hn : 0 < n) (hn32 : n < 2 ^ 32) : (init n).Linked where
  pos := hn
  lt32 := hn32
  free _ _ := rfl
  lt _ _ h := absurd h nofun
  acyclic := ⟨fun _ => 0, fun _ _ h => absurd h nofun⟩
  width _ := rfl

theorem Linked.home_lt (h : t.Linked) (key : List UInt8) : t.getHashSlot key < t.hashSlots :=
  Nat.mod_lt _ h.pos

/-- A walk for a key ends where the links end. -/
theorem search_ends_of_follow
    (h : Links.follow (fun x => (t.entry x).nextSlot) fuel slot = none) :
    ∃ r, t.search key fuel slot = some r := by
  induction fuel generalizing slot with
  | zero => cases h
  | succ fuel ih =>
    unfold search
    split_ifs
    · exact ⟨none, rfl⟩
    · exact ⟨some slot, rfl⟩
    · cases hnext : (t.entry slot).nextSlot with
      | none => exact ⟨none, rfl⟩
      | some next =>
        have hstep : Links.follow (fun x => (t.entry x).nextSlot) (fuel + 1) slot =
            Links.follow (fun x => (t.entry x).nextSlot) fuel next :=
          Links.follow_succ_of_some hnext
        exact ih (hstep ▸ h)

/-- The links end within as many steps as there are slots. -/
theorem follow_eq_none {rank : ℕ → ℕ}
    (hd : Links.Descends (fun x => (t.entry x).nextSlot) rank)
    (hlt : ∀ x y, (t.entry x).nextSlot = some y → y < t.hashSlots) (hs : slot < t.hashSlots) :
    Links.follow (fun x => (t.entry x).nextSlot) t.hashSlots slot = none := by
  have hend := Links.follow_card_eq_none (S := Finset.range t.hashSlots) hd
    (fun x y hxy => Finset.mem_range.2 (hlt x y hxy)) (Finset.mem_range.2 hs)
  rwa [Finset.card_range] at hend

/-- **Every walk ends.** -/
theorem Linked.search_ends (h : t.Linked) (key : List UInt8) (hs : slot < t.hashSlots) :
    ∃ r, t.search key t.hashSlots slot = some r := by
  obtain ⟨rank, hrank⟩ := h.acyclic
  exact search_ends_of_follow (follow_eq_none hrank h.lt hs)

/-- The result of a walk. -/
theorem Linked.findSlot_ok (h : t.Linked) (key : List UInt8) :
    ∃ r, t.findSlot key = .ok r ∧ t.search key t.hashSlots (t.getHashSlot key) = some r := by
  obtain ⟨r, hr⟩ := h.search_ends key (h.home_lt key)
  refine ⟨r, ?_, hr⟩
  unfold findSlot
  rw [hr]

theorem foundAt_iff :
    t.FoundAt key x ↔ t.search key t.hashSlots (t.getHashSlot key) = some (some x) := by
  unfold FoundAt findSlot
  cases h : t.search key t.hashSlots (t.getHashSlot key) with
  | none => simp
  | some r => simp

/-! ### What a walk passes -/

/-- The slot a walk finds is in use and holds the key. -/
theorem search_found (h : t.search key fuel slot = some (some x)) :
    ¬ t.free x ∧ (t.entry x).holds key ∧ x ∈ t.searchPath key fuel slot := by
  induction fuel generalizing slot with
  | zero => cases h
  | succ fuel ih =>
    unfold search at h
    unfold searchPath
    split_ifs at h with hfree hholds
    · cases h
    · cases h
      exact ⟨hfree, hholds, List.mem_cons_self⟩
    · rw [if_neg (not_or.2 ⟨hfree, hholds⟩)]
      cases hnext : (t.entry slot).nextSlot with
      | none => rw [hnext] at h; cases h
      | some next =>
        rw [hnext] at h
        obtain ⟨h1, h2, h3⟩ := ih h
        exact ⟨h1, h2, List.mem_cons_of_mem _ h3⟩

/-- Before its end a walk passes slots in use, each with a link to a slot of the walk. -/
theorem mem_dropLast (hx : x ∈ (t.searchPath key fuel slot).dropLast) :
    ¬ t.free x ∧ ∃ y ∈ t.searchPath key fuel slot, (t.entry x).nextSlot = some y := by
  induction fuel generalizing slot with
  | zero => cases hx
  | succ fuel ih =>
    unfold searchPath at hx ⊢
    split_ifs at hx ⊢ with hend
    · cases hx
    · cases hnext : (t.entry slot).nextSlot with
      | none => rw [hnext] at hx; cases hx
      | some next =>
        rw [hnext] at hx
        simp only at hx ⊢
        cases fuel with
        | zero => simp [searchPath] at hx
        | succ fuel =>
          have hne : t.searchPath key (fuel + 1) next ≠ [] := by simp [searchPath]
          rw [List.dropLast_cons_of_ne_nil hne] at hx
          rcases List.mem_cons.1 hx with rfl | hx
          · refine ⟨fun hf => hend (.inl hf), next, ?_, hnext⟩
            simp [searchPath]
          · obtain ⟨h1, y, hy, h2⟩ := ih hx
            exact ⟨h1, y, List.mem_cons_of_mem _ hy, h2⟩

/-- The end of a walk that finds its key is the slot found. -/
theorem getLast_searchPath (h : t.search key fuel slot = some (some x)) :
    (t.searchPath key fuel slot).getLast? = some x := by
  induction fuel generalizing slot with
  | zero => cases h
  | succ fuel ih =>
    unfold search at h
    unfold searchPath
    split_ifs at h with hfree hholds
    · cases h
    · cases h
      rw [if_pos (.inr hholds)]
      rfl
    · rw [if_neg (not_or.2 ⟨hfree, hholds⟩)]
      cases hnext : (t.entry slot).nextSlot with
      | none => rw [hnext] at h; cases h
      | some next =>
        rw [hnext] at h
        rw [List.getLast?_cons, ih h]
        rfl

/-- **A walk depends on what it passes:** a table with the same entries before the end, and the same
key and offset at it, has the same walk. -/
theorem search_congr (h : t.search key fuel slot = some (some x))
    (hbefore : ∀ y ∈ (t.searchPath key fuel slot).dropLast, t'.entry y = t.entry y)
    (hkey : (t'.entry x).key = (t.entry x).key)
    (hoff : (t'.entry x).memOffset = (t.entry x).memOffset) :
    t'.search key fuel slot = some (some x) ∧
      t'.searchPath key fuel slot = t.searchPath key fuel slot := by
  induction fuel generalizing slot with
  | zero => cases h
  | succ fuel ih =>
    unfold search at h ⊢
    unfold searchPath at hbefore ⊢
    split_ifs at h with hfree hholds
    · cases h
    · cases h
      have hfree' : ¬ t'.free x := by unfold free; rw [hoff]; exact hfree
      have hholds' : (t'.entry x).holds key := by
        unfold MappingEntry.holds; rw [hkey]; exact hholds
      rw [if_neg hfree', if_pos hholds', if_pos (.inr hholds'), if_pos (.inr hholds)]
      exact ⟨rfl, rfl⟩
    · rw [if_neg (not_or.2 ⟨hfree, hholds⟩)] at hbefore ⊢
      cases hnext : (t.entry slot).nextSlot with
      | none => rw [hnext] at h; cases h
      | some next =>
        rw [hnext] at h hbefore
        simp only at h hbefore ⊢
        have hne : t.searchPath key fuel next ≠ [] := by
          intro hnil
          have := getLast_searchPath h
          rw [hnil] at this
          cases this
        rw [List.dropLast_cons_of_ne_nil hne] at hbefore
        have hsame := hbefore slot List.mem_cons_self
        obtain ⟨h1, h2⟩ := ih h fun y hy => hbefore y (List.mem_cons_of_mem _ hy)
        have hfree' : ¬ t'.free slot := by unfold free; rw [hsame]; exact hfree
        rw [hsame, if_neg hfree', if_neg hholds, if_neg (not_or.2 ⟨hfree', hholds⟩), hnext]
        exact ⟨h1, congrArg _ h2⟩

/-- The tables differ in the lengths only. -/
structure SameLinks (t t' : KvTable) : Prop where
  hashSlots : t'.hashSlots = t.hashSlots
  key : ∀ x, (t'.entry x).key = (t.entry x).key
  memOffset : ∀ x, (t'.entry x).memOffset = (t.entry x).memOffset
  nextSlot : ∀ x, (t'.entry x).nextSlot = (t.entry x).nextSlot

namespace SameLinks

theorem free_iff (h : SameLinks t t') : t'.free x ↔ t.free x := by
  unfold free
  rw [h.memOffset]

theorem holds_iff (h : SameLinks t t') : (t'.entry x).holds key ↔ (t.entry x).holds key := by
  unfold MappingEntry.holds
  rw [h.key]

/-- Lengths do not steer a walk. -/
theorem search (h : SameLinks t t') :
    t'.search key fuel slot = t.search key fuel slot := by
  induction fuel generalizing slot with
  | zero => rfl
  | succ fuel ih =>
    unfold KvTable.search
    simp only [h.free_iff, h.holds_iff, h.nextSlot, ih]

theorem home (h : SameLinks t t') : t'.getHashSlot key = t.getHashSlot key := by
  unfold getHashSlot
  rw [h.hashSlots]

theorem findSlot (h : SameLinks t t') : t'.findSlot key = t.findSlot key := by
  unfold KvTable.findSlot
  rw [h.hashSlots, h.home, h.search]

theorem linked (h : SameLinks t t') (ht : t.Linked) : t'.Linked where
  pos := h.hashSlots ▸ ht.pos
  lt32 := h.hashSlots ▸ ht.lt32
  free x hx := (h.nextSlot x).trans (ht.free x (h.free_iff.1 hx))
  lt x y hxy := by
    rw [h.hashSlots]
    exact ht.lt x y ((h.nextSlot x).symm.trans hxy)
  acyclic := by
    obtain ⟨rank, hrank⟩ := ht.acyclic
    exact ⟨rank, fun x y hxy => hrank x y ((h.nextSlot x).symm.trans hxy)⟩
  width x := (congrArg List.length (h.key x)).trans (ht.width x)

end SameLinks

/-- `chain_mapping` changes links only. -/
theorem chainMapping_entry (t : KvTable) (prev slot x : ℕ) :
    ((t.chainMapping prev slot).entry x).key = (t.entry x).key ∧
      ((t.chainMapping prev slot).entry x).memOffset = (t.entry x).memOffset ∧
      ((t.chainMapping prev slot).entry x).length = (t.entry x).length := by
  unfold chainMapping
  by_cases hprev : prev = noSlot
  · rw [if_pos hprev]
    exact ⟨rfl, rfl, rfl⟩
  · rw [if_neg hprev]
    by_cases hx : x = prev
    · rw [hx, set_entry_self]
      exact ⟨rfl, rfl, rfl⟩
    · rw [t.set_entry_of_ne _ hx]
      exact ⟨rfl, rfl, rfl⟩

/-- `update_mapping_entry` changes a length. -/
theorem sameLinks_setLength (t : KvTable) (x valLen : ℕ) :
    SameLinks t (t.set x { t.entry x with length := valLen }) := by
  have hentry : ∀ y, (t.set x { t.entry x with length := valLen }).entry y =
      if y = x then { t.entry x with length := valLen } else t.entry y := fun y => by
    split_ifs with h
    · rw [h, set_entry_self]
    · exact t.set_entry_of_ne _ h
  refine ⟨rfl, fun y => ?_, fun y => ?_, fun y => ?_⟩ <;>
  · rw [hentry]
    split_ifs with h
    · rw [h]
    · rfl

end KvTable

end NvmeVirt
