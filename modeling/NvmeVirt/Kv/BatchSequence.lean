/-
# A batch and the same stores one by one

`__do_perform_kv_batched_io` does what `__do_perform_kv_io` does on a store but for the
length of an entry: where the single command calls `update_mapping_entry`, the call of
the batch is commented out.  So the devices behind a batch and behind the single stores
differ in lengths only, and an entry has the same length in both when the last store
that would have set it had the recorded length.
-/

import NvmeVirt.Kv.Batch
import NvmeVirt.Kv.IndexRuns

namespace NvmeVirt

open Outcome

/-- The command is this store. -/
structure KvOp.Stores (op : KvOp) (s : KvSub) : Prop where
  opcode : op.cmd.opcode = .store
  key : op.cmd.key = s.key
  length : op.cmd.valueLength = s.value.length
  value : op.cmd.readValue op.host s.value.length = .ok s.value

namespace KvDev

/-- One store through `__do_perform_kv_io`. -/
def singleStep (K : ZeroAreaFinder) (d : KvDev) (op : KvOp) : Except KvStop KvDev := do
  let (d, _) ← d.doPerformKvIo K op.cmd op.host
  .ok d

/-- The store would set the length of the entry: it finds its key there, and both lengths are
small. -/
def Resizes (d : KvDev) (s : KvSub) (x : ℕ) : Prop :=
  d.table.FoundAt s.key x ∧ s.value.length ≤ smallLength ∧ (d.table.entry x).length ≤ smallLength

instance (d : KvDev) (s : KvSub) (x : ℕ) : Decidable (d.Resizes s x) :=
  inferInstanceAs (Decidable (_ ∧ _ ∧ _))

/-- Along a batch, the last store that would set the length of the entry has the length recorded
there; `off` says that the last one so far has not. -/
def LengthRestored (K : ZeroAreaFinder) (x : ℕ) : Prop → KvDev → List KvSub → Prop
  | off, _, [] => ¬ off
  | off, d, s :: subs => ∀ d', batchStep K d s = .ok d' →
    LengthRestored K x
      (if d.Resizes s x then s.value.length ≠ (d.table.entry x).length else off) d' subs

/-- **The condition on a batch:** it resizes no entry for good. -/
def LengthsRestored (K : ZeroAreaFinder) (d : KvDev) (subs : List KvSub) : Prop :=
  ∀ x, LengthRestored K x False d subs

/-- The store resizes no entry. -/
def KeepsLength (d : KvDev) (s : KvSub) : Prop :=
  match d.table.findSlot s.key with
  | .ok (some x) => d.Resizes s x → s.value.length = (d.table.entry x).length
  | _ => True

instance (d : KvDev) (s : KvSub) : Decidable (d.KeepsLength s) := by
  unfold KeepsLength
  split <;> infer_instance

variable {K : ZeroAreaFinder} {d d' : KvDev} {s : KvSub} {subs : List KvSub} {op : KvOp}

/-- A batch of stores none of which resizes an entry meets the condition. -/
theorem lengthsRestored_of_keepsLength (h : Along (batchStep K) KeepsLength d subs) :
    d.LengthsRestored K subs := by
  intro x
  induction subs generalizing d with
  | nil => exact not_false
  | cons s subs ih =>
    intro d' hd'
    have hoff : ¬ if d.Resizes s x then s.value.length ≠ (d.table.entry x).length else False := by
      split_ifs with hx
      · have hkeep := h.1
        unfold KeepsLength at hkeep
        rw [show d.table.findSlot s.key = .ok (some x) from hx.1] at hkeep
        exact not_not.2 (hkeep hx)
      · exact not_false
    rw [eq_false hoff]
    exact ih (h.2 d' hd')

/-! ### The single store on the value of a batch -/

/-- A store of a batch as the single command executes it. -/
def putStep (K : ZeroAreaFinder) (d : KvDev) (s : KvSub) : Except KvStop KvDev := do
  let entry ← d.table.getMappingEntry s.key
  match entry.memOffset with
  | none => do
    let (d, offset) ← liftFault (d.allocateMemOffset K s.value.length)
    let d ← liftFault (d.putValue offset s.value)
    d.insertEntry s.key s.value.length offset
  | some offset => do
    let d ← liftFault (d.putValue offset s.value)
    if s.value.length ≠ entry.length ∧ s.value.length ≤ smallLength ∧
        entry.length ≤ smallLength then do
      let t ← d.table.updateMappingEntry s.key s.value.length
      .ok { d with table := t }
    else .ok d

/-- The copy of a single store is the `memcpy` of the batch. -/
theorem agree_putValue (hop : op.Stores s) (hsize : d.storageSize ≤ 2 ^ 64) (offset : ℕ) :
    Agree (fun c e => { d with storage := c.storage } = e)
      (d.copyValue op.cmd op.host offset s.value.length) (d.putValue offset s.value) := by
  have h := copyValue_store hop.opcode hsize op.host offset s.value.length
  unfold putValue
  rw [hop.value] at h
  revert h
  cases d.copyValue op.cmd op.host offset s.value.length with
  | error e =>
    by_cases hin : s.value.length = 0 ∨ offset + s.value.length ≤ d.storageSize
    · rw [defined_bind hin, defined_bind hin]
      exact fun h => h.elim
    · rw [defined_bind_of_not hin, defined_bind_of_not hin]
      exact fun h => h
  | ok c =>
    by_cases hin : s.value.length = 0 ∨ offset + s.value.length ≤ d.storageSize
    · rw [defined_bind hin, defined_bind hin]
      rintro ⟨-, -, h⟩
      show { d with storage := c.storage } = { d with storage := _ }
      rw [h]
    · rw [defined_bind_of_not hin, defined_bind_of_not hin]
      exact fun h => h.elim

/-- Two parts of a command outside the table that end alike. -/
theorem agree_liftFault {α β : Type} {R : α → β → Prop} {x : Except Fault α} {y : Except Fault β}
    (h : Agree R x y) : Agree R (liftFault x) (liftFault y) := by
  cases x with
  | ok a =>
    cases y with
    | ok b => exact h
    | error e => exact h.elim
  | error e =>
    cases y with
    | ok b => exact h.elim
    | error e' => exact congrArg KvStop.fault h

theorem allocateMemOffset_storageSize {length : ℕ} {out : KvDev × ℕ}
    (h : liftFault (d.allocateMemOffset K length) = .ok out) :
    out.1.storageSize = d.storageSize := by
  rw [allocateMemOffset_table (liftFault_eq_ok.1 h)]

theorem agree_kvStore (hop : op.Stores s) (hsize : d.storageSize ≤ 2 ^ 64) :
    Agree (fun out e => out.1 = e) (d.kvStore K op.cmd op.host) (d.putStep K s) := by
  unfold kvStore putStep
  rw [hop.key, hop.length]
  refine (Agree.of_eq rfl fun _ => rfl).bind (R := Eq) ?_
  rintro entry _ rfl
  cases entry.memOffset with
  | none =>
    have halloc : Agree (fun a b => a = b ∧ a.1.storageSize ≤ 2 ^ 64)
        (liftFault (d.allocateMemOffset K s.value.length))
        (liftFault (d.allocateMemOffset K s.value.length)) := by
      cases hx : liftFault (d.allocateMemOffset K s.value.length) with
      | error e => exact rfl
      | ok out => exact ⟨rfl, (allocateMemOffset_storageSize hx).trans_le hsize⟩
    refine halloc.bind ?_
    rintro ⟨d₁, offset⟩ _ ⟨rfl, hsize₁⟩
    refine (agree_liftFault (agree_putValue hop hsize₁ offset)).bind ?_
    rintro c _ rfl
    dsimp only
    cases insertEntry { d₁ with storage := c.storage } s.key s.value.length offset with
    | error e => exact rfl
    | ok e => exact rfl
  | some offset =>
    refine (agree_liftFault (agree_putValue hop hsize offset)).bind ?_
    rintro c _ rfl
    dsimp only
    split_ifs
    · refine (Agree.of_eq rfl fun _ => rfl).bind (R := Eq) ?_
      rintro t _ rfl
      exact rfl
    · exact rfl

/-- **A single store command on the value of a batch.** -/
theorem singleStep_eq (hop : op.Stores s) (hsize : d.storageSize ≤ 2 ^ 64) :
    d.singleStep K op = d.putStep K s := by
  have h := agree_kvStore (K := K) hop hsize
  unfold singleStep doPerformKvIo
  simp only [hop.opcode]
  revert h
  cases d.kvStore K op.cmd op.host with
  | error e =>
    cases d.putStep K s with
    | error e' => exact congrArg Except.error
    | ok e' => exact fun h => h.elim
  | ok out =>
    cases d.putStep K s with
    | error e' => exact fun h => h.elim
    | ok e' => exact congrArg Except.ok

end KvDev

/-! ### Tables that differ in lengths -/

namespace KvTable

variable {t t' : KvTable} {key : List UInt8} {fuel slot s x : ℕ}

theorem findNextSlot_free (h : t.findNextSlot fuel slot = some s) : t.free s := by
  induction fuel generalizing slot with
  | zero => cases h
  | succ fuel ih =>
    unfold findNextSlot at h
    split_ifs at h with hfree
    · cases h
      exact hfree
    · exact ih h

namespace SameLinks

theorem findNextSlot (h : SameLinks t t') :
    t'.findNextSlot fuel slot = t.findNextSlot fuel slot := by
  induction fuel generalizing slot with
  | zero => rfl
  | succ fuel ih =>
    unfold KvTable.findNextSlot
    simp only [h.free_iff, h.hashSlots, ih]

/-- The same stores to an entry. -/
theorem set (h : SameLinks t t') {e e' : MappingEntry} (hkey : e'.key = e.key)
    (hoff : e'.memOffset = e.memOffset) (hnext : e'.nextSlot = e.nextSlot) :
    SameLinks (t.set slot e) (t'.set slot e') := by
  have hcases : ∀ y, (t.set slot e).entry y = e ∧ (t'.set slot e').entry y = e' ∨
      (t.set slot e).entry y = t.entry y ∧ (t'.set slot e').entry y = t'.entry y := fun y => by
    by_cases hy : y = slot
    · rw [hy]
      exact .inl ⟨set_entry_self _ _ _, set_entry_self _ _ _⟩
    · exact .inr ⟨t.set_entry_of_ne _ hy, t'.set_entry_of_ne _ hy⟩
  refine ⟨h.hashSlots, fun y => ?_, fun y => ?_, fun y => ?_⟩ <;>
    rcases hcases y with ⟨h1, h2⟩ | ⟨h1, h2⟩ <;> rw [h1, h2]
  · exact hkey
  · exact h.key y
  · exact hoff
  · exact h.memOffset y
  · exact hnext
  · exact h.nextSlot y

theorem chainMapping (h : SameLinks t t') (prev : ℕ) :
    SameLinks (t.chainMapping prev slot) (t'.chainMapping prev slot) := by
  unfold KvTable.chainMapping
  by_cases hprev : prev = noSlot
  · rw [if_pos hprev, if_pos hprev]
    exact h
  · rw [if_neg hprev, if_neg hprev]
    exact h.set (h.key prev) (h.memOffset prev) rfl

end SameLinks

/-- The same insertion into two tables: every length is the one before, or the entry was free and
its length is the same in both. -/
structure InsertedBoth (t t' u u' : KvTable) : Prop where
  links : u.SameLinks u'
  lengths : ∀ x, (u.entry x).length = (t.entry x).length ∧
      (u'.entry x).length = (t'.entry x).length ∨
    t.free x ∧ (u'.entry x).length = (u.entry x).length
  used : ∀ x, ¬ t.free x → ¬ u.free x

/-- The store to the new entry. -/
theorem insertedBoth_set (h : t.SameLinks t') (hs : t.free s) (valLen valOffset : ℕ) :
    InsertedBoth t t' (t.set s ((t.entry s).assign key valOffset valLen))
      (t'.set s ((t'.entry s).assign key valOffset valLen)) where
  links := h.set (by simp only [MappingEntry.assign, h.key]) rfl (h.nextSlot s)
  lengths x := by
    by_cases hx : x = s
    · rw [hx, set_entry_self, set_entry_self]
      exact .inr ⟨hs, rfl⟩
    · rw [t.set_entry_of_ne _ hx, t'.set_entry_of_ne _ hx]
      exact .inl ⟨rfl, rfl⟩
  used x hx := by
    have hne : x ≠ s := by
      rintro rfl
      exact hx hs
    unfold free
    rw [t.set_entry_of_ne _ hne]
    exact hx

/-- **An insertion does not look at lengths.** -/
theorem SameLinks.newMappingEntry (h : t.SameLinks t') (valLen valOffset : ℕ) :
    Agree (InsertedBoth t t') (t.newMappingEntry key valLen valOffset)
      (t'.newMappingEntry key valLen valOffset) := by
  unfold KvTable.newMappingEntry
  simp only [h.home, h.free_iff, h.hashSlots, h.findNextSlot]
  split_ifs with hfree
  · exact insertedBoth_set h hfree valLen valOffset
  · cases hs : t.findNextSlot t.hashSlots (t.getHashSlot key) with
    | none => exact rfl
    | some s =>
      obtain ⟨hlinks, hlengths, hused⟩ :=
        insertedBoth_set h (findNextSlot_free hs) valLen valOffset
      refine ⟨hlinks.chainMapping _, fun x => ?_, fun x hx => ?_⟩
      · rw [(chainMapping_entry _ _ _ x).2.2, (chainMapping_entry _ _ _ x).2.2]
        exact hlengths x
      · unfold free
        rw [(chainMapping_entry _ _ _ x).2.1]
        exact hused x hx

end KvTable

namespace KvDev

variable {K : ZeroAreaFinder} {d d' e e' : KvDev} {s : KvSub} {subs : List KvSub} {x : ℕ}

/-- The device behind a batch and the one behind the single stores: they differ in the lengths of
entries in use, and those are small in both. -/
structure LengthsApart (d d' : KvDev) : Prop where
  rest : d' = { d with table := d'.table }
  links : d.table.SameLinks d'.table
  small : ∀ x, (d'.table.entry x).length ≠ (d.table.entry x).length →
    ¬ d.table.free x ∧ (d.table.entry x).length ≤ smallLength ∧
      (d'.table.entry x).length ≤ smallLength

theorem LengthsApart.refl (d : KvDev) : d.LengthsApart d where
  rest := rfl
  links := ⟨rfl, fun _ => rfl, fun _ => rfl, fun _ => rfl⟩
  small _ h := absurd rfl h

/-- Nothing but the lengths can differ. -/
theorem LengthsApart.eq_iff (h : d.LengthsApart d') :
    d = d' ↔ ∀ x, ¬ (d'.table.entry x).length ≠ (d.table.entry x).length := by
  constructor
  · rintro rfl x hx
    exact hx rfl
  · intro hlen
    have htable : d'.table = d.table := by
      have hentry : d'.table.entry = d.table.entry := funext fun x => by
        have h1 := h.links.key x
        have h2 := h.links.memOffset x
        have h3 := h.links.nextSlot x
        have h4 := not_not.1 (hlen x)
        cases hx' : d'.table.entry x
        cases hx : d.table.entry x
        rw [hx', hx] at h1 h2 h3 h4
        simp only at h1 h2 h3 h4
        rw [h1, h2, h3, h4]
      have hslots := h.links.hashSlots
      cases ht' : d'.table
      cases ht : d.table
      rw [ht', ht] at hentry hslots
      simp only at hentry hslots
      rw [hentry, hslots]
    rw [h.rest, htable]

/-- One store on both devices: the lengths of an entry differ when they have, or by what the store
would have set. -/
structure StepApart (d d' : KvDev) (s : KvSub) (e e' : KvDev) : Prop where
  apart : e.LengthsApart e'
  differs : ∀ x, (e'.table.entry x).length ≠ (e.table.entry x).length ↔
    if d.Resizes s x then s.value.length ≠ (d.table.entry x).length
    else (d'.table.entry x).length ≠ (d.table.entry x).length

section

variable {t' : KvTable}

/-- The allocators do not look at the table. -/
theorem agree_allocateMemOffset (t' : KvTable) (length : ℕ) :
    Agree (fun a b => b = ({ a.1 with table := t' }, a.2) ∧ a.1.table = d.table)
      (liftFault (d.allocateMemOffset K length))
      (liftFault (allocateMemOffset K { d with table := t' } length)) := by
  refine agree_liftFault ?_
  unfold allocateMemOffset
  refine (Agree.of_eq rfl fun _ => rfl).bind (R := Eq) ?_
  rintro ⟨a, offset⟩ _ rfl
  exact ⟨rfl, rfl⟩

/-- Nor does the `memcpy` of a value. -/
theorem agree_putValue_table (t' : KvTable) (offset : ℕ) (value : List UInt8) :
    Agree (fun a b => b = { a with table := t' } ∧ a.table = d.table)
      (liftFault (d.putValue offset value))
      (liftFault (putValue { d with table := t' } offset value)) := by
  refine agree_liftFault ?_
  unfold putValue
  refine (Agree.of_eq rfl fun _ => rfl).bind (R := Eq) ?_
  rintro _ _ rfl
  exact ⟨rfl, rfl⟩

/-- The insertions of the two paths. -/
theorem LengthsApart.insertEntry (h : d.LengthsApart { d with table := t' }) (key : List UInt8)
    (length offset : ℕ) (hnot : ∀ x, ¬ d.Resizes s x) {a : KvDev} (ha : a.table = d.table) :
    Agree (StepApart d { d with table := t' } s) (a.insertEntry key length offset)
      (KvDev.insertEntry { a with table := t' } key length offset) := by
  unfold KvDev.insertEntry
  split_ifs with hbug
  · exact rfl
  · simp only [ha]
    refine (h.links.newMappingEntry length offset).bind fun u u' hu => ?_
    refine ⟨⟨rfl, hu.links, fun x hx => ?_⟩, fun x => ?_⟩
    · rcases hu.lengths x with ⟨h1, h2⟩ | ⟨-, h1⟩
      · rw [h1, h2] at hx ⊢
        obtain ⟨hused, hsmall⟩ := h.small x hx
        exact ⟨hu.used x hused, hsmall⟩
      · exact absurd h1 hx
    · rw [if_neg (hnot x)]
      rcases hu.lengths x with ⟨h1, h2⟩ | ⟨hfree, h1⟩
      · rw [h1, h2]
      · exact iff_of_false (not_not.2 h1) fun hx => (h.small x hx).1 hfree

/-- The lengths of an entry are small in both devices or in neither. -/
theorem LengthsApart.small_iff (h : d.LengthsApart d') (x : ℕ) :
    (d'.table.entry x).length ≤ smallLength ↔ (d.table.entry x).length ≤ smallLength := by
  by_cases hx : (d'.table.entry x).length = (d.table.entry x).length
  · rw [hx]
  · obtain ⟨-, h1, h2⟩ := h.small x hx
    exact iff_of_true h2 h1

/-- The single store sets the length of the entry found, the batch does not. -/
theorem LengthsApart.resize (h : d.LengthsApart { d with table := t' })
    (hfound : d.table.FoundAt s.key x) (hlen : s.value.length ≤ smallLength)
    (hold : (t'.entry x).length ≤ smallLength) (m : Mem) :
    StepApart d { d with table := t' } s { d with storage := m }
      { d with storage := m, table := t'.set x { t'.entry x with length := s.value.length } } := by
  have hset := t'.sameLinks_setLength x s.value.length
  have hold' := (h.small_iff x).1 hold
  have hused := (KvTable.search_found (KvTable.foundAt_iff.1 hfound)).1
  refine ⟨⟨rfl, ⟨?_, fun y => ?_, fun y => ?_, fun y => ?_⟩, fun y hy => ?_⟩, fun y => ?_⟩
  · exact hset.hashSlots.trans h.links.hashSlots
  · exact (hset.key y).trans (h.links.key y)
  · exact (hset.memOffset y).trans (h.links.memOffset y)
  · exact (hset.nextSlot y).trans (h.links.nextSlot y)
  · by_cases hyx : y = x
    · simp only [hyx, KvTable.set_entry_self]
      exact ⟨hused, hold', hlen⟩
    · simp only [t'.set_entry_of_ne _ hyx] at hy ⊢
      exact h.small y hy
  · by_cases hyx : y = x
    · rw [if_pos (hyx ▸ ⟨hfound, hlen, hold'⟩)]
      simp only [hyx, KvTable.set_entry_self]
    · rw [if_neg fun hy => hyx (hy.1.unique hfound)]
      simp only [t'.set_entry_of_ne _ hyx]

/-- Neither path sets a length. -/
theorem LengthsApart.keep (h : d.LengthsApart { d with table := t' })
    (hfound : d.table.FoundAt s.key x)
    (hkeep : ¬ (s.value.length ≠ (t'.entry x).length ∧ s.value.length ≤ smallLength ∧
      (t'.entry x).length ≤ smallLength)) (m : Mem) :
    StepApart d { d with table := t' } s { d with storage := m }
      { d with storage := m, table := t' } := by
  refine ⟨⟨rfl, h.links, h.small⟩, fun y => ?_⟩
  by_cases hy : d.Resizes s y
  · rw [if_pos hy]
    obtain ⟨hfound', hlen, hold⟩ := hy
    obtain rfl := hfound'.unique hfound
    have hold' := (h.small_iff y).2 hold
    have heq : s.value.length = (t'.entry y).length := by
      by_contra hne
      exact hkeep ⟨hne, hlen, hold'⟩
    rw [heq]
  · rw [if_neg hy]

end

/-- **One store on both devices.** -/
theorem LengthsApart.step (h : d.LengthsApart d') :
    Agree (StepApart d d' s) (d.batchStep K s) (d'.putStep K s) := by
  have hrest := h.rest
  generalize d'.table = t' at hrest
  subst hrest
  have hfind : t'.findSlot s.key = d.table.findSlot s.key := h.links.findSlot
  unfold batchStep kvBatchedIo putStep KvTable.getMappingEntry
  simp only [hfind, ne_eq, not_true, if_false]
  cases hfound : d.table.findSlot s.key with
  | error e => exact rfl
  | ok found =>
    cases found with
    | none =>
      have hnot : ∀ x, ¬ d.Resizes s x := fun x hx => by
        have hx : d.table.findSlot s.key = .ok (some x) := hx.1
        rw [hfound] at hx
        cases hx
      refine (agree_allocateMemOffset t' s.value.length).bind ?_
      rintro ⟨a, offset⟩ _ ⟨rfl, ha⟩
      refine (agree_putValue_table t' offset s.value).bind ?_
      rintro b _ ⟨rfl, hb⟩
      exact h.insertEntry s.key s.value.length offset hnot (hb.trans ha)
    | some x =>
      have hused := (KvTable.search_found (KvTable.foundAt_iff.1 hfound)).1
      obtain ⟨offset, hoff⟩ := Option.ne_none_iff_exists'.1 hused
      have hoff' : (t'.entry x).memOffset = some offset := (h.links.memOffset x).trans hoff
      simp only [ok_bind, hoff, hoff']
      unfold putValue
      by_cases hin : s.value.length = 0 ∨ offset + s.value.length ≤ d.storageSize
      · simp only [defined_bind hin]
        show Agree _ (.ok _) (if _ then _ else _)
        by_cases hset : s.value.length ≠ (t'.entry x).length ∧ s.value.length ≤ smallLength ∧
            (t'.entry x).length ≤ smallLength
        · rw [if_pos hset]
          unfold KvTable.updateMappingEntry
          simp only [hfind, hfound]
          exact h.resize hfound hset.2.1 hset.2.2 _
        · rw [if_neg hset]
          exact h.keep hfound hset _
      · simp only [defined_bind_of_not hin]
        exact rfl

/-- **A whole batch on both devices:** they end alike when every entry gets its length back. -/
theorem LengthsApart.run (h : d.LengthsApart d') :
    Agree Eq (runList (batchStep K) d subs) (runList (putStep K) d' subs) ↔
      ∀ x, LengthRestored K x ((d'.table.entry x).length ≠ (d.table.entry x).length) d subs := by
  induction subs generalizing d d' with
  | nil => exact h.eq_iff
  | cons s subs ih =>
    have hstep := h.step (K := K) (s := s)
    rw [runList_cons, runList_cons]
    unfold LengthRestored
    revert hstep
    cases hb : d.batchStep K s with
    | error e =>
      cases d'.putStep K s with
      | error e' => exact fun he => iff_of_true he fun x t ht => by cases ht
      | ok e' => exact fun he => he.elim
    | ok e =>
      cases d'.putStep K s with
      | error e' => exact fun he => he.elim
      | ok e' =>
        rintro ⟨hapart, hdiffers⟩
        refine (ih hapart).trans (forall_congr' fun x => ?_)
        rw [propext (hdiffers x)]
        exact ⟨fun hx t ht => by cases ht; exact hx, fun hx => hx e rfl⟩

theorem putValue_storageSize {offset : ℕ} {value : List UInt8}
    (h : liftFault (d.putValue offset value) = .ok e) : e.storageSize = d.storageSize := by
  obtain ⟨_, -, h⟩ := bind_eq_ok.1 (liftFault_eq_ok.1 h)
  cases h
  rfl

/-- A store keeps the size of the storage. -/
theorem putStep_storageSize (h : d.putStep K s = .ok e) : e.storageSize = d.storageSize := by
  unfold putStep at h
  obtain ⟨entry, -, h⟩ := bind_eq_ok.1 h
  cases hoff : entry.memOffset with
  | none =>
    rw [hoff] at h
    obtain ⟨a, ha, h⟩ := bind_eq_ok.1 h
    obtain ⟨b, hb, h⟩ := bind_eq_ok.1 h
    unfold insertEntry at h
    split_ifs at h
    · cases h
    · obtain ⟨t, -, h⟩ := bind_eq_ok.1 h
      cases h
      exact show b.storageSize = d.storageSize from (putValue_storageSize hb).trans (allocateMemOffset_storageSize ha)
  | some offset =>
    rw [hoff] at h
    obtain ⟨b, hb, h⟩ := bind_eq_ok.1 h
    split_ifs at h
    · obtain ⟨t, -, h⟩ := bind_eq_ok.1 h
      cases h
      exact show b.storageSize = d.storageSize from putValue_storageSize hb
    · cases h
      exact putValue_storageSize hb

/-- The single commands of a batch. -/
theorem runList_singleStep {ops : List KvOp} (hops : List.Forall₂ KvOp.Stores ops subs)
    (hsize : d.storageSize ≤ 2 ^ 64) :
    runList (singleStep K) d ops = runList (putStep K) d subs := by
  induction hops generalizing d with
  | nil => rfl
  | cons hop hops ih =>
    rw [runList_cons, runList_cons, singleStep_eq hop hsize]
    cases he : d.putStep K _ with
    | error e => rfl
    | ok e => exact ih ((putStep_storageSize he).trans_le hsize)

end KvDev

theorem ok_of_toOption {x : Except KvStop ℕ} {n : ℕ} (h : (x.toOption == some n) = true) :
    x = .ok n := by
  cases x with
  | error e => cases h
  | ok m => exact congrArg Except.ok (Option.some.inj (eq_of_beq h))

/-- **When a batch does what its stores do one by one:** exactly when it resizes no entry for good.
Both end in one device, or stop at the same store for the same reason. -/
theorem doPerformKvBatch_eq_singles_iff (K : ZeroAreaFinder) (d : KvDev)
    (hsize : d.storageSize ≤ 2 ^ 64) (cmd : KvBatchCommand) (host : Mem) (subs : List KvSub)
    (hcarries : cmd.Carries host subs) (ops : List KvOp)
    (hops : List.Forall₂ KvOp.Stores ops subs) :
    Agree Eq (d.doPerformKvBatch K cmd host) (runList (KvDev.singleStep K) d ops) ↔
      d.LengthsRestored K subs := by
  rw [KvDev.doPerformKvBatch_eq hcarries, KvDev.runList_singleStep hops hsize,
    (KvDev.LengthsApart.refl d).run]
  unfold KvDev.LengthsRestored
  simp only [ne_eq, not_true]

/-- The payload of a batch of one store: key 4, and a value of four bytes 7. -/
def onePayload : Mem := fun a =>
  if a = 0 then 0x81 else if a = 1 then 1 else if a = 4 then 4
  else if a = 576 then 4 else if 640 ≤ a ∧ a < 644 then 7 else 0

/-- The batch with that payload, of 704 bytes. -/
def oneBatch : KvBatchCommand where
  prp1 := 0
  prp2 := 0
  valueLen := 176
  rsvd4 := 1

/-- The store of that batch. -/
def oneSub : KvSub where
  key := [4]
  value := [7, 7, 7, 7]

/-- The single command for that store. -/
def oneOp : KvOp := { byteCommand .store 4 1 with host := fun _ => 7 }

theorem oneBatch_carries : oneBatch.Carries onePayload [oneSub] where
  count := rfl
  wellFormed := by decide
  payload := by
    have hcheck : (oneBatch.readPayload onePayload).toOption.any (fun buffer =>
        decide (EncodesFrom buffer oneBatch.valueLength 0 alignLen [oneSub])) = true := by
      decide +kernel
    obtain ⟨buffer, hread, henc⟩ := exists_ok_of_any hcheck
    exact ⟨buffer, hread, of_decide_eq_true henc⟩

theorem oneOp_stores : oneOp.Stores oneSub where
  opcode := rfl
  key := rfl
  length := rfl
  value := by
    have hcheck : (oneOp.cmd.readValue oneOp.host 4).toOption.any (fun value =>
        decide (value = oneSub.value)) = true := by
      decide +kernel
    obtain ⟨value, hread, hvalue⟩ := exists_ok_of_any hcheck
    rw [of_decide_eq_true hvalue] at hread
    exact hread

/-- The payload of a batch of two stores: four bytes 7 for key 4, and four bytes 9 for key 68. -/
def twoPayload : Mem := fun a =>
  if a = 0 ∨ a = 16 then 0x81 else if a = 1 ∨ a = 17 then 1 else if a = 4 ∨ a = 20 then 4
  else if a = 576 then 4 else if 640 ≤ a ∧ a < 644 then 7
  else if a = 768 then 68 else if 832 ≤ a ∧ a < 836 then 9 else 0

/-- The batch with that payload, of 896 bytes. -/
def twoBatch : KvBatchCommand where
  prp1 := 0
  prp2 := 0
  valueLen := 224
  rsvd4 := 2

/-- The second store of that batch. -/
def otherSub : KvSub where
  key := [68]
  value := [9, 9, 9, 9]

/-- The single command for that store. -/
def otherOp : KvOp := { byteCommand .store 68 1 with host := fun _ => 9 }

theorem twoBatch_carries : twoBatch.Carries twoPayload [oneSub, otherSub] where
  count := rfl
  wellFormed := by decide
  payload := by
    have hcheck : (twoBatch.readPayload twoPayload).toOption.any (fun buffer =>
        decide (EncodesFrom buffer twoBatch.valueLength 0 alignLen [oneSub, otherSub])) = true := by
      decide +kernel
    obtain ⟨buffer, hread, henc⟩ := exists_ok_of_any hcheck
    exact ⟨buffer, hread, of_decide_eq_true henc⟩

theorem otherOp_stores : otherOp.Stores otherSub where
  opcode := rfl
  key := rfl
  length := rfl
  value := by
    have hcheck : (otherOp.cmd.readValue otherOp.host 4).toOption.any (fun value =>
        decide (value = otherSub.value)) = true := by
      decide +kernel
    obtain ⟨value, hread, hvalue⟩ := exists_ok_of_any hcheck
    rw [of_decide_eq_true hvalue] at hread
    exact hread

/-- A key that has four bytes gets four others, and another key of its slot is inserted. -/
theorem doPerformKvBatch_eq_singles_two : ∃ d₀ d d',
    kvInitNamespace Allocators.loaded 65536 (48 * 64) .appendOnly (fun _ => 0) = .ok d₀ ∧
    d₀.singleStep ZeroAreaFinder.kernel (byteCommand .store 4 1) = .ok d ∧
    d.doPerformKvBatch ZeroAreaFinder.kernel twoBatch twoPayload = .ok d' ∧
    runList (KvDev.singleStep ZeroAreaFinder.kernel) d [oneOp, otherOp] = .ok d' := by
  have hcheck : (kvInitNamespace Allocators.loaded 65536 (48 * 64) .appendOnly
      (fun _ => 0)).toOption.any (fun d₀ =>
        (d₀.singleStep ZeroAreaFinder.kernel (byteCommand .store 4 1)).toOption.any fun d =>
          decide (d.storageSize ≤ 2 ^ 64 ∧
            Along (KvDev.batchStep ZeroAreaFinder.kernel) KvDev.KeepsLength d [oneSub, otherSub]) &&
          (d.doPerformKvBatch ZeroAreaFinder.kernel twoBatch twoPayload).toOption.any
            fun _ => true) = true := by
    decide +kernel
  obtain ⟨d₀, hinit, h⟩ := exists_ok_of_any hcheck
  obtain ⟨d, hstore, h⟩ := exists_ok_of_any h
  obtain ⟨hstart, h⟩ := Bool.and_eq_true_iff.1 h
  obtain ⟨hsize, hkeeps⟩ := of_decide_eq_true hstart
  obtain ⟨d', hbatch, -⟩ := exists_ok_of_any h
  have hagree := (doPerformKvBatch_eq_singles_iff ZeroAreaFinder.kernel d hsize twoBatch twoPayload
    [oneSub, otherSub] twoBatch_carries [oneOp, otherOp]
      (.cons oneOp_stores (.cons otherOp_stores .nil))).2
        (KvDev.lengthsRestored_of_keepsLength hkeeps)
  obtain ⟨d₂, hsingles, rfl⟩ := hagree.of_ok hbatch
  exact ⟨d₀, d, d', hinit, hstore, hbatch, hsingles⟩

/-- **A batch that resizes:** the key has a value of eight bytes, and the batch stores four.  The
single store sets the length to 4, the batch leaves it at 8. -/
theorem doPerformKvBatch_not_singles : ∃ d₀ d d₁ d₂,
    kvInitNamespace Allocators.loaded 65536 (48 * 64) .appendOnly (fun _ => 0) = .ok d₀ ∧
    d₀.singleStep ZeroAreaFinder.kernel (byteCommand .store 4 2) = .ok d ∧
    oneBatch.Carries onePayload [oneSub] ∧ oneOp.Stores oneSub ∧
    d.doPerformKvBatch ZeroAreaFinder.kernel oneBatch onePayload = .ok d₁ ∧
    runList (KvDev.singleStep ZeroAreaFinder.kernel) d [oneOp] = .ok d₂ ∧
    (d₁.table.getMappingEntry [4]).map MappingEntry.length = .ok 8 ∧
    (d₂.table.getMappingEntry [4]).map MappingEntry.length = .ok 4 := by
  have hcheck : (kvInitNamespace Allocators.loaded 65536 (48 * 64) .appendOnly
      (fun _ => 0)).toOption.any (fun d₀ =>
        (d₀.singleStep ZeroAreaFinder.kernel (byteCommand .store 4 2)).toOption.any fun d =>
          (d.doPerformKvBatch ZeroAreaFinder.kernel oneBatch onePayload).toOption.any fun d₁ =>
            (runList (KvDev.singleStep ZeroAreaFinder.kernel) d [oneOp]).toOption.any fun d₂ =>
              ((d₁.table.getMappingEntry [4]).map MappingEntry.length).toOption == some 8 &&
                ((d₂.table.getMappingEntry [4]).map MappingEntry.length).toOption == some 4) =
      true := by
    decide +kernel
  obtain ⟨d₀, hinit, h⟩ := exists_ok_of_any hcheck
  obtain ⟨d, hstore, h⟩ := exists_ok_of_any h
  obtain ⟨d₁, hbatch, h⟩ := exists_ok_of_any h
  obtain ⟨d₂, hsingle, h⟩ := exists_ok_of_any h
  obtain ⟨h1, h2⟩ := Bool.and_eq_true_iff.1 h
  exact ⟨d₀, d, d₁, d₂, hinit, hstore, oneBatch_carries, oneOp_stores, hbatch, hsingle,
    ok_of_toOption h1, ok_of_toOption h2⟩

end NvmeVirt
