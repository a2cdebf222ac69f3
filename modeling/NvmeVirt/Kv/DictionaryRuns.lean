/-
# A KV device answers as a dictionary

A session of `kv_store`, `kv_delete`, `kv_retrieve` and `kv_exist` commands on a fresh
device.  The history notes the values stored and not deleted since, and for each entry
the key it was created for and the bytes the allocator set apart.

As long as every insertion and deletion keeps the paths of the stored keys, a new value
gets a slot and room of its own, and an update fits what was set apart and gets its
length recorded, each reply is what a dictionary answers.  A deletion does not give the
bytes of its value back to the allocator: what was set apart stays set apart.
-/

import NvmeVirt.Kv.Isolation
import NvmeVirt.Kv.StoreEnds
import NvmeVirt.Lib.Dictionary

namespace NvmeVirt

open Outcome

/-- The first of some bytes. -/
theorem bytesAt_min (m : Mem) (a n k : ℕ) : bytesAt m a (min n k) = (bytesAt m a n).take k := by
  unfold bytesAt
  rw [← List.map_take, List.take_range, Nat.min_comm]

namespace KvOp

variable (op : KvOp)

/-- The request of a command on one key. -/
def request : DictRequest (List UInt8) (List UInt8) :=
  match op.cmd.opcode with
  | .store => .store op.cmd.key op.value
  | .delete => .delete op.cmd.key
  | .retrieve => .retrieve op.cmd.key
  | _ => .exist op.cmd.key

/-- **A reply gives an answer:** by its status, its result and the host memory.  A value is cut to
the length of the buffer, and is found at the addresses the PRPs lead to when these are distinct. -/
def Gives (r : KvReply) : DictAnswer (List UInt8) → Prop
  | .done => r.status = 0 ∧ r.result = 0 ∧ r.host = op.host
  | .missing => r.status = kvErrKeyNotExist ∧ r.result = 0 ∧ r.host = op.host
  | .value v => r.status = 0 ∧ r.result = min v.length op.cmd.valueLength ∧
    (r.addresses.Nodup → r.addresses.map r.host = v.take op.cmd.valueLength) ∧
      ∀ a ∉ r.addresses, r.host a = op.host a

end KvOp

/-! ### The commands -/

namespace KvTable

variable {t : KvTable} {x y offset : ℕ}

/-- A deletion brings no slot into use. -/
theorem free_of_blank (h : t.free y) : (t.set x MappingEntry.blank).free y := by
  unfold free
  by_cases hy : y = x
  · rw [hy, set_entry_self]
    rfl
  · rw [t.set_entry_of_ne _ hy]
    exact h

/-- An entry with an offset behind a deletion is another one, as it was. -/
theorem entry_of_blank (h : ((t.set x MappingEntry.blank).entry y).memOffset = some offset) :
    y ≠ x ∧ (t.set x MappingEntry.blank).entry y = t.entry y := by
  have hy : y ≠ x := by
    rintro rfl
    rw [set_entry_self] at h
    cases h
  exact ⟨hy, t.set_entry_of_ne _ hy⟩

end KvTable

namespace KvDev

variable {K : ZeroAreaFinder} {d : KvDev} {cmd : KvCommand} {host : Mem} {offset length x : ℕ}

/-- A command that finds no entry. -/
theorem doPerformKvIo_missing (hnew : d.table.findSlot cmd.key = .ok none)
    (hop : cmd.opcode = .delete ∨ cmd.opcode = .retrieve ∨ cmd.opcode = .exist) :
    d.doPerformKvIo K cmd host =
      .ok (d, { host := host, status := kvErrKeyNotExist, result := 0, moved := [] }) := by
  have hentry := KvTable.getMappingEntry_of_none hnew
  unfold doPerformKvIo
  rcases hop with hop | hop | hop <;> simp [hop, hentry, MappingEntry.blank]

/-- A deletion that finds its entry. -/
theorem doPerformKvIo_delete (hop : cmd.opcode = .delete) (hx : d.table.FoundAt cmd.key x)
    (hoff : (d.table.entry x).memOffset = some offset) :
    d.doPerformKvIo K cmd host = .ok ({ d with table := d.table.set x MappingEntry.blank },
      { host := host, status := 0, result := 0, moved := [] }) := by
  have hdelete : d.table.deleteMappingEntry cmd.key = .ok (d.table.set x MappingEntry.blank) := by
    unfold KvTable.deleteMappingEntry
    rw [show d.table.findSlot cmd.key = .ok (some x) from hx]
    rfl
  unfold doPerformKvIo
  simp [hop, getMappingEntry_of_found hx, hoff, hdelete]

/-- An exist command that finds its entry. -/
theorem doPerformKvIo_exist (hop : cmd.opcode = .exist) (hx : d.table.FoundAt cmd.key x)
    (hoff : (d.table.entry x).memOffset = some offset) :
    d.doPerformKvIo K cmd host =
      .ok (d, { host := host, status := 0, result := 0, moved := [] }) := by
  unfold doPerformKvIo
  simp [hop, getMappingEntry_of_found hx, hoff]

/-- The copy of a store leaves the host memory alone. -/
theorem ends_copyIn (hop : cmd.opcode = .store) (hsize : d.storageSize < 2 ^ 64)
    (hin : offset + length ≤ d.storageSize) (hle : length ≤ cmd.valueLength) (host : Mem) :
    Ends (liftFault (d.copyValue cmd host offset length)) (fun c => c.host = host)
      fun e => e = .fault .undefined ∧ cmd.PrpsEnd host := by
  refine (ends_copyValue hin hle host).with_eq.mono ?_ fun _ h => h
  rintro c ⟨-, hc⟩
  obtain ⟨_, -, hhost, -⟩ :=
    (copyValue_store hop hsize.le host offset length).of_ok (liftFault_eq_ok.1 hc)
  exact hhost

/-- An insertion with a slot and inside the storage. -/
theorem ends_insertEntry {key : List UInt8} (hin : offset < d.storageSize)
    (hslot : (d.table.newSlot key).isSome) :
    Ends (d.insertEntry key length offset) (fun _ => True) fun _ => False := by
  unfold insertEntry KvTable.newMappingEntry
  rw [if_neg (not_le.2 hin)]
  unfold KvTable.newSlot at hslot
  dsimp only
  split_ifs at hslot ⊢
  · exact True.intro
  · obtain ⟨y, hy⟩ := Option.isSome_iff_exists.1 hslot
    rw [hy]
    exact True.intro

/-- **A store with a slot and room** stops only when its PRPs end. -/
theorem ends_kvStore (ht : d.table.Linked) (hop : cmd.opcode = .store)
    (hsize : d.storageSize < 2 ^ 64)
    (hnew : d.table.findSlot cmd.key = .ok none → (d.table.newSlot cmd.key).isSome ∧
      ∃ d' offset, d.allocateMemOffset K cmd.valueLength = .ok (d', offset) ∧
        offset < d.storageSize ∧ offset + cmd.valueLength ≤ d.storageSize)
    (hold : ∀ x offset, d.table.FoundAt cmd.key x → (d.table.entry x).memOffset = some offset →
      offset + cmd.valueLength ≤ d.storageSize) (host : Mem) :
    Ends (d.doPerformKvIo K cmd host)
      (fun out => out.2.status = 0 ∧ out.2.result = 0 ∧ out.2.host = host)
      fun e => e = .fault .undefined ∧ cmd.PrpsEnd host := by
  obtain ⟨found, hfind, hsearch⟩ := ht.findSlot_ok cmd.key
  unfold doPerformKvIo kvStore
  simp only [hop]
  cases found with
  | none =>
    obtain ⟨hslot, d₁, offset, halloc, hlt, hin⟩ := hnew hfind
    have hsame := allocateMemOffset_table halloc
    have htable := congrArg KvDev.table hsame
    have hstorage := congrArg KvDev.storageSize hsame
    dsimp only at htable hstorage
    rw [KvTable.getMappingEntry_of_none hfind, ok_bind]
    rw [show liftFault (d.allocateMemOffset K cmd.valueLength) = .ok (d₁, offset) from
      liftFault_eq_ok.2 halloc, ok_bind]
    refine (ends_copyIn hop (hstorage.trans_lt hsize) (hin.trans_eq hstorage.symm) le_rfl
      host).bind fun c hc => ?_
    refine ((ends_insertEntry ?_ ?_).mono (fun _ h => h) fun _ h => h.elim).bind fun _ _ => ?_
    · exact hlt.trans_eq hstorage.symm
    · exact htable ▸ hslot
    · exact ⟨rfl, rfl, hc⟩
  | some y =>
    obtain ⟨offset, hoff⟩ := Option.ne_none_iff_exists'.1 (KvTable.search_found hsearch).1
    rw [getMappingEntry_of_found (show d.table.FoundAt cmd.key y from hfind), ok_bind]
    simp only [hoff]
    refine (ends_copyIn hop hsize (hold y offset hfind hoff) le_rfl host).bind fun c hc => ?_
    split_ifs
    · unfold KvTable.updateMappingEntry
      rw [hfind]
      exact ⟨rfl, rfl, hc⟩
    · exact ⟨rfl, rfl, hc⟩

end KvDev

/-! ### The history -/

/-- A device with its history: the values stored and not deleted since, newest first, and for each
entry the key it was created for and the bytes set apart then. -/
structure DictRun where
  dev : KvDev
  values : List (List UInt8 × List UInt8)
  owner : ℕ → List UInt8
  reserved : ℕ → ℕ

namespace DictRun

/-- A device before its first command. -/
def start (d : KvDev) : DictRun where
  dev := d
  values := []
  owner := fun _ => []
  reserved := fun _ => 0

variable (s : DictRun)

/-- The history of the keys. -/
def toKvRun : KvRun where
  dev := s.dev
  live := s.values.map Prod.fst
  created := s.owner

/-- The history of the values. -/
def toValueRun : ValueRun where
  dev := s.dev
  stored := s.values
  owner := s.owner
  reserved := s.reserved

/-- The dictionary of the values stored and not deleted since. -/
def dict : Dictionary (List UInt8) (List UInt8) := .ofList s.values

/-- The history after one more command. -/
def note (op : KvOp) (d : KvDev) : DictRun where
  dev := d
  values :=
    match op.cmd.opcode with
    | .store => (op.cmd.key, op.value) :: s.values
    | .delete => s.values.filter fun p => p.1 ≠ op.cmd.key
    | _ => s.values
  owner := fun x => if s.dev.table.free x ∧ ¬ d.table.free x then op.cmd.key else s.owner x
  reserved := fun x => if s.dev.table.free x ∧ ¬ d.table.free x then
    s.dev.allocatorType.reserve op.value.length else s.reserved x

/-- One command, with its reply. -/
def step (K : ZeroAreaFinder) (s : DictRun) (op : KvOp) : Except KvStop (DictRun × KvReply) := do
  let (d, r) ← s.dev.doPerformKvIo K op.cmd op.host
  .ok (s.note op d, r)

/-- **Space for a store:** a new key gets a slot and, in one piece, bytes of the storage for its
value; an update keeps the length recorded, or fits what was set apart with both lengths small. -/
def HasSpace (op : KvOp) : Prop :=
  match s.dev.table.findSlot op.cmd.key with
  | .ok none =>
    (s.dev.table.newSlot op.cmd.key).isSome ∧
      s.dev.allocators.HasRoom s.dev.storageSize op.cmd.valueLength s.dev.allocatorType ∧
      0 < s.dev.allocatorType.reserve op.cmd.valueLength ∧
      op.cmd.valueLength ≤ s.dev.allocatorType.reserve op.cmd.valueLength
  | .ok (some x) =>
    op.cmd.valueLength = (s.dev.table.entry x).length ∨
      op.cmd.valueLength ≤ smallLength ∧ (s.dev.table.entry x).length ≤ smallLength ∧
        op.cmd.valueLength ≤ s.reserved x
  | .error _ => True

instance (op : KvOp) : Decidable (s.HasSpace op) := by
  unfold HasSpace
  split <;> infer_instance

/-- The condition on a command. -/
def Keeps (op : KvOp) : Prop :=
  s.toKvRun.KeepsPaths op ∧ (op.cmd.opcode = .store → s.HasSpace op)

instance (op : KvOp) : Decidable (s.Keeps op) := inferInstanceAs (Decidable (_ ∧ _))

/-- The invariant of a session: the index is right, and every value is where its entry points, in
bytes of its own. -/
structure Inv (s : DictRun) : Prop where
  index : s.toKvRun.Inv
  values : s.toValueRun.Inv

variable {s} {K : ZeroAreaFinder} {op : KvOp} {d : KvDev} {k v : List UInt8}

/-- A key without a value is not found. -/
theorem Inv.missing (h : s.Inv) (hk : ValidKey k) (hnone : s.dict k = none) :
    s.dev.table.findSlot k = .ok none := by
  obtain ⟨found, hfind, -⟩ := h.values.linked.findSlot_ok k
  cases found with
  | none => exact hfind
  | some x =>
    have hlive : k ∈ s.values.map Prod.fst := (h.index.found k hk).1 ⟨x, hfind⟩
    exact absurd hlive (Dictionary.ofList_eq_none.1 hnone)

/-- A value is in the entry of its key. -/
theorem Inv.holding (h : s.Inv) (hv : s.dict k = some v) :
    ∃ x o, s.dev.table.FoundAt k x ∧ (s.dev.table.entry x).memOffset = some o ∧
      (s.dev.table.entry x).length = v.length ∧ o + v.length ≤ s.dev.storageSize ∧
      bytesAt s.dev.storage o v.length = v := by
  obtain ⟨x, o, hx, -, ho, hlen, hbytes⟩ := h.values.found k v hv
  obtain ⟨-, hin, hfit⟩ := h.values.entries x o ho
  exact ⟨x, o, hx, ho, hlen, (Nat.add_le_add_left (hlen ▸ hfit) o).trans hin, hbytes⟩

/-- The history of the keys keeps up. -/
theorem toKvRun_note (s : DictRun) (op : KvOp) (d : KvDev) :
    (s.note op d).toKvRun = s.toKvRun.note op.cmd d := by
  unfold toKvRun note KvRun.note KvRun.liveAfter
  cases op.cmd.opcode <;> simp [List.filter_map, Function.comp_def]

/-- The dictionary keeps up. -/
theorem dict_note (s : DictRun) (hwf : op.cmd.WellFormed) (d : KvDev) :
    (s.note op d).dict = s.dict.after op.request := by
  unfold dict note KvOp.request
  rcases hwf.1 with hop | hop | hop | hop <;> rw [hop]
  · exact Dictionary.ofList_cons _ _ _
  · exact Dictionary.ofList_filter _ _
  · rfl
  · rfl

/-! ### One command -/

/-- A command that leaves the device alone. -/
theorem Inv.same (h : s.Inv) (hvalues : (s.note op s.dev).values = s.values) :
    (s.note op s.dev).Inv := by
  have hno : ∀ x, ¬ (s.dev.table.free x ∧ ¬ s.dev.table.free x) := fun x hx => hx.2 hx.1
  have hsame : s.note op s.dev = s := by
    rcases s with ⟨dev, values, owner, reserved⟩
    simp only [note] at hvalues hno ⊢
    rw [hvalues]
    simp only [hno, if_false]
  rw [hsame]
  exact h

/-- A store meets the condition of the values. -/
theorem Inv.keepsValues (h : s.Inv) (hop : op.cmd.opcode = .store) (hwf : op.cmd.WellFormed)
    (hok : s.Keeps op) : s.toValueRun.KeepsValues op := by
  rcases hok with ⟨hpaths, hspace⟩
  have hspace := hspace hop
  unfold KvRun.KeepsPaths at hpaths
  rw [hop] at hpaths
  unfold HasSpace at hspace
  unfold ValueRun.KeepsValues
  cases hfind : s.dev.table.findSlot op.cmd.key with
  | error e =>
    simp only [toValueRun, hfind]
  | ok found =>
    rw [hfind] at hspace
    simp only [toValueRun, hfind]
    cases found with
    | none =>
      obtain ⟨hslot, hroom, -, hfit⟩ := hspace
      obtain ⟨x, hx⟩ := Option.isSome_iff_exists.1 hslot
      refine ⟨fun p hp => ?_, hroom, hfit⟩
      exact (hpaths hfind x hx).1 p.1 (List.mem_map_of_mem hp)
    | some x => exact ⟨h.index.own _ hwf.key x hfind, hspace⟩

/-- **A new value** gets a slot and bytes inside the storage. -/
theorem Inv.newValue (h : s.Inv) (hspace : s.HasSpace op)
    (hfind : s.dev.table.findSlot op.cmd.key = .ok none) :
    (s.dev.table.newSlot op.cmd.key).isSome ∧ ∃ d' offset,
      s.dev.allocateMemOffset K op.cmd.valueLength = .ok (d', offset) ∧
        offset < s.dev.storageSize ∧ offset + op.cmd.valueLength ≤ s.dev.storageSize := by
  unfold HasSpace at hspace
  rw [hfind] at hspace
  obtain ⟨hslot, hroom, hpos, hfit⟩ := hspace
  obtain ⟨out, halloc, hserved⟩ :=
    (Allocators.ends_allocate (K := K) h.values.laid h.values.size hroom).exists_ok
  have hin : out.2 + s.dev.allocatorType.reserve op.cmd.valueLength ≤ s.dev.storageSize :=
    hserved.inside
  have hsize : s.dev.storageSize < 2 ^ 64 := h.values.size
  refine ⟨hslot, { s.dev with allocators := out.1 }, out.2, ?_, by omega, by omega⟩
  refine bind_eq_ok.2 ⟨out, halloc, ?_⟩
  dsimp only
  rw [if_neg (by omega)]

/-- **An update** stays inside the storage. -/
theorem Inv.oldValue (h : s.Inv) (hspace : s.HasSpace op) {x o : ℕ}
    (hx : s.dev.table.FoundAt op.cmd.key x) (ho : (s.dev.table.entry x).memOffset = some o) :
    o + op.cmd.valueLength ≤ s.dev.storageSize := by
  unfold HasSpace at hspace
  rw [show s.dev.table.findSlot op.cmd.key = .ok (some x) from hx] at hspace
  obtain ⟨-, hin, hlength⟩ := h.values.entries x o ho
  have hfit : op.cmd.valueLength ≤ s.reserved x := by
    rcases hspace with heq | ⟨-, -, hle⟩
    · exact heq.trans_le hlength
    · exact hle
  exact (Nat.add_le_add_left hfit o).trans hin

/-- **Answered:** the command keeps the invariant, and its reply is the answer of the dictionary.  It
stops only when its PRPs end. -/
def Answered (K : ZeroAreaFinder) (s : DictRun) (op : KvOp) : Prop :=
  Ends (s.dev.doPerformKvIo K op.cmd op.host)
    (fun out => (s.note op out.1).Inv ∧ op.Gives out.2 (s.dict.answer op.request))
    fun e => e = .fault .undefined ∧ op.cmd.PrpsEnd op.host

/-- **A store** succeeds. -/
theorem Inv.store (h : s.Inv) (hop : op.cmd.opcode = .store) (hwf : op.cmd.WellFormed)
    (hok : s.Keeps op) : s.Answered K op := by
  refine (KvDev.ends_kvStore h.values.linked hop h.values.size (h.newValue (hok.2 hop))
    (fun x o hx ho => h.oldValue (hok.2 hop) hx ho) op.host).with_eq.mono ?_ fun _ he => he
  rintro ⟨d, r⟩ ⟨hreply, hd⟩
  have hindex : (s.toKvRun.note op.cmd d).Inv :=
    (h.index.exec (K := K) hwf hok.1).of_ok (bind_eq_ok.2 ⟨(d, r), hd, rfl⟩)
  have hvalues : (s.toValueRun.note op.cmd.key op.value d).Inv :=
    (h.values.exec (K := K) hop hwf (h.keepsValues hop hwf hok)).of_ok
      (bind_eq_ok.2 ⟨(d, r), hd, rfl⟩)
  have hnote : (s.note op d).toValueRun = s.toValueRun.note op.cmd.key op.value d := by
    unfold toValueRun note ValueRun.note
    rw [hop]
  have hrequest : op.request = .store op.cmd.key op.value := by
    unfold KvOp.request
    rw [hop]
  constructor
  · constructor
    · rw [toKvRun_note]
      exact hindex
    · rw [hnote]
      exact hvalues
  · rw [hrequest]
    exact hreply

/-- **A deletion** of a key with a value keeps the values of the others. -/
theorem Inv.deleted (h : s.Inv) (hop : op.cmd.opcode = .delete) (hwf : op.cmd.WellFormed)
    (hok : s.Keeps op) {x : ℕ} (hx : s.dev.table.FoundAt op.cmd.key x)
    (hd : d = { s.dev with table := s.dev.table.set x MappingEntry.blank }) :
    (s.note op d).toValueRun.Inv := by
  have hcut : s.dev.table.DeleteOk (s.values.map Prod.fst) op.cmd.key := by
    have hpaths := hok.1
    unfold KvRun.KeepsPaths at hpaths
    rw [hop] at hpaths
    exact hpaths
  have hown : s.owner x = op.cmd.key := h.index.own _ hwf.key x hx
  have htable : d.table = s.dev.table.set x MappingEntry.blank := by rw [hd]
  have hno : ∀ y, ¬ (s.dev.table.free y ∧ ¬ d.table.free y) := by
    rintro y ⟨hfree, hused⟩
    rw [htable] at hused
    exact hused (KvTable.free_of_blank hfree)
  have howner : (s.note op d).owner = s.owner := funext fun y => if_neg (hno y)
  have hreserved : (s.note op d).reserved = s.reserved := funext fun y => if_neg (hno y)
  have hentry : ∀ y o, (d.table.entry y).memOffset = some o →
      d.table.entry y = s.dev.table.entry y := by
    intro y o ho
    rw [htable] at ho ⊢
    exact (KvTable.entry_of_blank ho).2
  constructor
  · show d.table.Linked
    rw [htable]
    exact h.values.linked.delete
  · subst hd
    exact h.values.size
  · subst hd
    exact h.values.laid
  · intro y o ho
    have hold : d.table.entry y = s.dev.table.entry y := hentry y o ho
    have hfit := h.values.entries y o (hold ▸ ho)
    simp only [toValueRun, hreserved]
    subst hd
    exact ⟨hfit.1, hfit.2.1, (congrArg MappingEntry.length hold).trans_le hfit.2.2⟩
  · intro y z o p hyz ho hp
    simp only [toValueRun, hreserved]
    exact h.values.apart y z o p hyz (hentry y o ho ▸ ho) (hentry z p hp ▸ hp)
  · intro k v hv
    have hlast : s.dict.after op.request k = some v := by
      rw [← dict_note s hwf d]
      exact hv
    unfold KvOp.request at hlast
    simp only [hop, Dictionary.after, Function.update_apply] at hlast
    by_cases hk : k = op.cmd.key
    · rw [if_pos hk] at hlast
      cases hlast
    · rw [if_neg hk] at hlast
      obtain ⟨y, o, hy, hyown, ho, hlen, hbytes⟩ := h.values.found k v hlast
      have hyx : y ≠ x := by
        rintro rfl
        exact hk (hyown.symm.trans hown)
      have hlive : k ∈ s.values.map Prod.fst := by
        by_contra hnot
        have hnone : s.dict k = none := Dictionary.ofList_eq_none.2 hnot
        rw [hnone] at hlast
        cases hlast
      have hsame : d.table.entry y = s.dev.table.entry y := by
        rw [htable]
        exact KvTable.set_entry_of_ne _ _ hyx
      refine ⟨y, o, ?_, ?_, ?_, ?_, ?_⟩
      · show d.table.FoundAt k y
        rw [htable]
        exact hy.delete hyx fun hin => hcut k hlive hk x hin hx
      · simp only [toValueRun, howner]
        exact hyown
      · exact (congrArg MappingEntry.memOffset hsame).trans ho
      · exact (congrArg MappingEntry.length hsame).trans hlen
      · subst hd
        exact hbytes

/-- **A key without a value** is missing, and nothing changes. -/
theorem Inv.answered_missing (h : s.Inv) (hwf : op.cmd.WellFormed)
    (hv : s.dict op.cmd.key = none)
    (hop : op.cmd.opcode = .delete ∨ op.cmd.opcode = .retrieve ∨ op.cmd.opcode = .exist) :
    s.Answered K op := by
  have hanswer : s.dict.answer op.request = .missing := by
    unfold KvOp.request Dictionary.answer
    rcases hop with hop | hop | hop <;> simp [hop, hv]
  have hvalues : (s.note op s.dev).values = s.values := by
    unfold note
    rcases hop with hop | hop | hop
    · -- The list has no value to take away.
      simp only [hop]
      refine List.filter_eq_self.2 fun p hp => decide_eq_true ?_
      rintro hkey
      exact Dictionary.ofList_eq_none.1 hv (hkey ▸ List.mem_map_of_mem hp)
    · simp only [hop]
    · simp only [hop]
  unfold Answered
  rw [KvDev.doPerformKvIo_missing (h.missing hwf.key hv) hop, hanswer]
  exact ⟨h.same hvalues, rfl, rfl, rfl⟩

/-- **A deletion** of a value. -/
theorem Inv.answered_delete (h : s.Inv) (hop : op.cmd.opcode = .delete)
    (hwf : op.cmd.WellFormed) (hok : s.Keeps op) (hv : s.dict op.cmd.key = some v) :
    s.Answered K op := by
  have hanswer : s.dict.answer op.request = .done := by
    unfold KvOp.request Dictionary.answer
    simp [hop, hv]
  obtain ⟨x, o, hx, ho, -⟩ := h.holding hv
  have hd : s.dev.doPerformKvIo K op.cmd op.host = .ok (_, _) :=
    KvDev.doPerformKvIo_delete hop hx ho
  have hindex : (s.toKvRun.note op.cmd { s.dev with
      table := s.dev.table.set x MappingEntry.blank }).Inv :=
    (h.index.exec (K := K) hwf hok.1).of_ok (bind_eq_ok.2 ⟨_, hd, rfl⟩)
  unfold Answered
  rw [hd, hanswer]
  refine ⟨⟨?_, h.deleted hop hwf hok hx rfl⟩, rfl, rfl, rfl⟩
  rw [toKvRun_note]
  exact hindex

/-- **A retrieve** of a value. -/
theorem Inv.answered_retrieve (h : s.Inv) (hop : op.cmd.opcode = .retrieve)
    (hv : s.dict op.cmd.key = some v) : s.Answered K op := by
  have hanswer : s.dict.answer op.request = .value v := by
    unfold KvOp.request Dictionary.answer
    simp [hop, hv]
  obtain ⟨x, o, hx, ho, hlen, hin, hbytes⟩ := h.holding hv
  have hret := KvDev.ends_retrieve_min (K := K) hop hx ho h.values.size (hlen ▸ hin) op.host
  rw [hlen, bytesAt_min] at hret
  unfold Answered
  rw [hanswer]
  refine hret.mono ?_ fun _ he => he
  rintro ⟨d, r⟩ ⟨rfl, hstatus, hresult, hmap, hrest⟩
  have hsame : (s.note op s.dev).Inv := h.same (by simp only [note, hop])
  refine ⟨hsame, hstatus, hresult, fun hnodup => ?_, hrest⟩
  rw [hmap hnodup]
  exact congrArg (List.take op.cmd.valueLength) hbytes

/-- **An exist command** on a value. -/
theorem Inv.answered_exist (h : s.Inv) (hop : op.cmd.opcode = .exist)
    (hv : s.dict op.cmd.key = some v) : s.Answered K op := by
  have hanswer : s.dict.answer op.request = .done := by
    unfold KvOp.request Dictionary.answer
    simp [hop, hv]
  obtain ⟨x, o, hx, ho, -⟩ := h.holding hv
  have hsame : (s.note op s.dev).Inv := h.same (by simp only [note, hop])
  unfold Answered
  rw [KvDev.doPerformKvIo_exist hop hx ho, hanswer]
  exact ⟨hsame, rfl, rfl, rfl⟩

/-- **Every command under the condition** is answered. -/
theorem Inv.answered (h : s.Inv) (hwf : op.cmd.WellFormed) (hok : s.Keeps op) :
    s.Answered K op := by
  rcases hwf.1 with hstore | hother
  · exact h.store hstore hwf hok
  · cases hv : s.dict op.cmd.key with
    | none => exact h.answered_missing hwf hv hother
    | some v =>
      rcases hother with hop | hop | hop
      · exact h.answered_delete hop hwf hok hv
      · exact h.answered_retrieve hop hv
      · exact h.answered_exist hop hv

/-- **One command** answers as the dictionary and leaves the next one. -/
theorem Inv.step (h : s.Inv) (hwf : op.cmd.WellFormed) (hok : s.Keeps op) :
    Ends (s.step K op) (fun out => out.1.Inv ∧ out.1.dict = s.dict.after op.request ∧
      op.Gives out.2 (s.dict.answer op.request))
      fun e => e = .fault .undefined ∧ op.cmd.PrpsEnd op.host := by
  have hcmd : s.Answered K op := h.answered hwf hok
  unfold DictRun.step
  refine hcmd.bind ?_
  rintro ⟨d, r⟩ ⟨hinv, hgives⟩
  exact ⟨hinv, dict_note s hwf d, hgives⟩

end DictRun

/-- **A KV device answers as a dictionary:** in every session on a fresh device whose insertions and
deletions keep the paths of the stored keys and whose stores have space, each reply gives the answer
of a dictionary that starts empty.  A session stops only where the PRPs of one of its commands end
before the bytes of the value are moved. -/
theorem kvSession_refines_dictionary (K : ZeroAreaFinder) (a : Allocators)
    (storageSize tableSize : ℕ) (type : AllocatorType) (storage : Mem) {d : KvDev}
    (hinit : kvInitNamespace a storageSize tableSize type storage = .ok d)
    (hsize : storageSize < 2 ^ 64) (hslots : 48 ≤ tableSize) (hslots32 : tableSize / 48 < 2 ^ 32)
    (ops : List KvOp) (hwf : ∀ op ∈ ops, op.cmd.WellFormed)
    (hok : Along (quiet (DictRun.step K)) DictRun.Keeps (DictRun.start d) ops) :
    Ends (session (DictRun.step K) (DictRun.start d) ops) (fun out =>
      List.Forall₂ (fun p answer => p.1.Gives p.2 answer) (ops.zip out.2)
        (Dictionary.empty.answers (ops.map KvOp.request)) ∧ out.2.length = ops.length)
      fun e => e = .fault .undefined ∧ ∃ op ∈ ops, op.cmd.PrpsEnd op.host := by
  obtain ⟨a', ha, hd⟩ := bind_eq_ok.1 hinit
  cases hd
  have hindex := KvRun.inv_init (d := {
    table := KvTable.init (tableSize / 48), allocatorType := type, allocators := a'
    storageSize := storageSize, storage := storage }) (by omega) hslots32 rfl
  have hstart : DictRun.Inv (DictRun.start _) :=
    ⟨hindex, ValueRun.inv_start ha (by omega) hslots32 hsize⟩
  have hwf' : ∀ op ∈ ops, op.cmd.WellFormed ∧ op ∈ ops := fun op hop => ⟨hwf op hop, hop⟩
  have hsession := Ends.session (E := fun e => e = .fault .undefined ∧ ∃ op ∈ ops,
    op.cmd.PrpsEnd op.host) (fun s op h hc => (h.step (K := K) hc.2.1 hc.1).mono (fun _ h => h)
      fun e he => ⟨he.1, op, hc.2.2, he.2⟩) hstart (hok.and_forall hwf')
  exact hsession.mono (fun _ h => h.2) fun _ h => h

/-- A store, a collision, a shorter update, a deletion and what is found then. -/
def twoKeySession : List KvOp := [
  byteCommand .store 4 2, byteCommand .store 68 1,
  { byteCommand .store 4 1 with host := fun _ => 7 }, byteCommand .retrieve 4 2,
  byteCommand .delete 68 0, byteCommand .exist 68 0, byteCommand .exist 4 0]

/-- The retrieve finds the four bytes of the update, and the deleted key is missing. -/
theorem kvSession_refines_dictionary_twoKeys : ∃ d out,
    kvInitNamespace Allocators.loaded 65536 (48 * 64) .appendOnly (fun _ => 0) = .ok d ∧
    session (DictRun.step ZeroAreaFinder.kernel) (DictRun.start d) twoKeySession = .ok out ∧
    List.Forall₂ (fun p answer => KvOp.Gives p.1 p.2 answer) (twoKeySession.zip out.2)
      [.done, .done, .done, .value [7, 7, 7, 7], .done, .missing, .done] := by
  have hcheck : (kvInitNamespace Allocators.loaded 65536 (48 * 64) .appendOnly
      (fun _ => 0)).toOption.any (fun d => decide (
        Along (quiet (DictRun.step ZeroAreaFinder.kernel)) DictRun.Keeps (DictRun.start d)
          twoKeySession)) = true := by
    decide +kernel
  have hshort : ∀ op ∈ twoKeySession, op.cmd.WellFormed ∧ op.cmd.valueLength ≤ pageSize ∧
      op.cmd.prp2 % pageSize = 0 := by
    decide
  obtain ⟨d, hinit, hp⟩ := exists_ok_of_any hcheck
  have hsession := kvSession_refines_dictionary ZeroAreaFinder.kernel Allocators.loaded 65536
    (48 * 64) .appendOnly (fun _ => 0) hinit (by decide) (by decide) (by decide) twoKeySession
    (fun op hop => (hshort op hop).1) (of_decide_eq_true hp)
  -- Every value is in one page, so no walk over PRPs ends.
  obtain ⟨out, hrun, hanswers⟩ := (hsession.mono (fun _ h => h) fun e he => by
    obtain ⟨-, op, hop, hend⟩ := he
    exact KvCommand.not_prpsEnd (hshort op hop).2.1 (hshort op hop).2.2 op.host hend).exists_ok
  have hdict : Dictionary.empty.answers (twoKeySession.map KvOp.request) =
      [.done, .done, .done, .value [7, 7, 7, 7], .done, .missing, .done] := by
    decide +kernel
  rw [hdict] at hanswers
  exact ⟨d, out, hinit, hrun, hanswers.1⟩

end NvmeVirt
