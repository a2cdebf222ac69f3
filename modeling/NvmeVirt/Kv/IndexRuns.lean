/-
# Runs of KV commands and their index

Along a run of `kv_store`, `kv_delete`, `kv_retrieve` and `kv_exist` commands the
history notes the keys stored and not deleted since, and the key each entry was
created for.  `get_mapping_entry` is right about every key as long as no insertion
puts a link over one that a stored key is found through, no deletion takes out a
slot another stored key is found through, and no other key the new entry holds too
is led to it.
-/

import NvmeVirt.Kv.Index

namespace NvmeVirt

open Outcome

/-- A key of 1 to 16 bytes. -/
def ValidKey (k : List UInt8) : Prop := 1 ≤ k.length ∧ k.length ≤ 16

/-- A command and the host memory it meets. -/
structure KvOp where
  cmd : KvCommand
  host : Mem

/-- A store, delete, retrieve or exist command with a key of 1 to 16 bytes. -/
def KvCommand.WellFormed (cmd : KvCommand) : Prop :=
  (cmd.opcode = .store ∨ cmd.opcode = .delete ∨ cmd.opcode = .retrieve ∨ cmd.opcode = .exist) ∧
    cmd.keyField.length = 16 ∧ cmd.keyLen < 16

instance (cmd : KvCommand) : Decidable cmd.WellFormed := inferInstanceAs (Decidable (_ ∧ _ ∧ _))

theorem KvCommand.WellFormed.key {cmd : KvCommand} (h : cmd.WellFormed) : ValidKey cmd.key := by
  obtain ⟨-, hlen, hkey⟩ := h
  unfold ValidKey KvCommand.key
  rw [List.length_take, hlen]
  omega

/-- A device with its history: the keys stored and not deleted since, and the key each entry was
created for. -/
structure KvRun where
  dev : KvDev
  live : List (List UInt8)
  created : ℕ → List UInt8

namespace KvRun

/-- The keys stored and not deleted since, after one more command. -/
def liveAfter (live : List (List UInt8)) (cmd : KvCommand) : List (List UInt8) :=
  match cmd.opcode with
  | .store => cmd.key :: live
  | .delete => live.filter fun k => k ≠ cmd.key
  | _ => live

/-- The history after one more command: the command has created the entries that were free. -/
def note (s : KvRun) (cmd : KvCommand) (d : KvDev) : KvRun where
  dev := d
  live := liveAfter s.live cmd
  created := fun x =>
    if s.dev.table.free x ∧ ¬ d.table.free x then cmd.key else s.created x

/-- One command. -/
def exec (K : ZeroAreaFinder) (s : KvRun) (op : KvOp) : Except KvStop KvRun := do
  let (d, _) ← s.dev.doPerformKvIo K op.cmd op.host
  .ok (s.note op.cmd d)

/-- **The index is right:** `get_mapping_entry` finds exactly the keys stored and not deleted since,
each in the entry created for it. -/
structure IndexOk (s : KvRun) : Prop where
  found : ∀ k, ValidKey k →
    ∃ e, s.dev.table.getMappingEntry k = .ok e ∧ (e.memOffset ≠ none ↔ k ∈ s.live)
  own : ∀ k, ValidKey k → ∀ x, s.dev.table.FoundAt k x → s.created x = k

end KvRun

namespace KvTable

variable (t : KvTable)

/-- **An insertion that cuts nothing off and answers for no other key:** no stored key is found
through the link of the home slot; and no other key that the bytes of the new entry begin with, and
that is not stored, is led to the home slot or the new one. -/
def InsertOk (live : List (List UInt8)) (key : List UInt8) : Prop :=
  t.findSlot key = .ok none → ∀ s ∈ t.newSlot key,
    (∀ k ∈ live, t.getHashSlot key ∉ (t.path k).dropLast) ∧
    ∀ n ∈ List.range 17, 1 ≤ n → n ≠ key.length →
      (key ++ (t.entry s).key.drop key.length).take n ∉ live →
        s ∉ t.path ((key ++ (t.entry s).key.drop key.length).take n) ∧
          t.getHashSlot key ∉ t.path ((key ++ (t.entry s).key.drop key.length).take n)

instance (live : List (List UInt8)) (key : List UInt8) : Decidable (t.InsertOk live key) :=
  inferInstanceAs (Decidable (_ → _))

/-- **A deletion that cuts nothing off:** no other stored key is found through the slot. -/
def DeleteOk (live : List (List UInt8)) (key : List UInt8) : Prop :=
  ∀ k ∈ live, k ≠ key → ∀ x ∈ (t.path k).dropLast, ¬ t.FoundAt key x

instance (live : List (List UInt8)) (key : List UInt8) : Decidable (t.DeleteOk live key) :=
  inferInstanceAs (Decidable (∀ _ ∈ _, _))

end KvTable

namespace KvRun

/-- The condition on a command. -/
def KeepsPaths (s : KvRun) (op : KvOp) : Prop :=
  match op.cmd.opcode with
  | .store => s.dev.table.InsertOk s.live op.cmd.key
  | .delete => s.dev.table.DeleteOk s.live op.cmd.key
  | _ => True

instance (s : KvRun) (op : KvOp) : Decidable (s.KeepsPaths op) := by
  unfold KeepsPaths
  split <;> infer_instance

/-- The invariant of a run: the links are in order, and the walks find the stored keys. -/
structure Inv (s : KvRun) : Prop where
  linked : s.dev.table.Linked
  found : ∀ k, ValidKey k → ((∃ x, s.dev.table.FoundAt k x) ↔ k ∈ s.live)
  own : ∀ k, ValidKey k → ∀ x, s.dev.table.FoundAt k x → s.created x = k

theorem Inv.indexOk {s : KvRun} (h : s.Inv) : s.IndexOk where
  found k hk := by
    obtain ⟨e, he, hcases⟩ := h.linked.getMappingEntry_ok k
    refine ⟨e, he, ?_⟩
    rw [← h.found k hk]
    rcases hcases with ⟨hnot, hnone⟩ | ⟨x, hx, hused, hoff, -⟩
    · exact ⟨fun hne => absurd hnone hne, fun ⟨x, hx⟩ => absurd hx (hnot x)⟩
    · exact ⟨fun _ => ⟨x, hx⟩, fun _ => by rw [hoff]; exact hused⟩
  own := h.own

variable {K : ZeroAreaFinder} {s : KvRun} {cmd : KvCommand} {d : KvDev}

/-- On a fresh table nothing is stored and nothing is found. -/
theorem inv_init {n : ℕ} (hn : 0 < n) (hn32 : n < 2 ^ 32) (hd : d.table = KvTable.init n) :
    Inv { dev := d, live := [], created := fun _ => [] } := by
  have hnot : ∀ k x, ¬ d.table.FoundAt k x := by
    rintro k x hx
    rw [hd] at hx
    exact (KvTable.search_found (KvTable.foundAt_iff.1 hx)).1 rfl
  refine ⟨by rw [hd]; exact KvTable.init_linked hn hn32, fun k _ => ?_, fun k _ x hx => ?_⟩
  · simp [hnot]
  · exact absurd hx (hnot k x)

/-- An insertion under the condition. -/
theorem Inv.insert (h : s.Inv) (hwf : cmd.WellFormed) (hop : cmd.opcode = .store)
    (hok : s.dev.table.InsertOk s.live cmd.key) {valOffset x₀ : ℕ}
    (hnew : ∀ x, ¬ s.dev.table.FoundAt cmd.key x)
    (hins : s.dev.table.Inserted cmd.key cmd.valueLength valOffset x₀ d.table) :
    (s.note cmd d).Inv := by
  have hkey := hwf.key
  obtain ⟨hsfree, -⟩ := KvTable.newSlot_spec h.linked hins.slot
  obtain ⟨hused, -⟩ := hins.new_next h.linked
  have hnone : s.dev.table.findSlot cmd.key = .ok none := by
    obtain ⟨r, hr, -⟩ := h.linked.findSlot_ok cmd.key
    cases r with
    | none => exact hr
    | some x => exact absurd hr (hnew x)
  obtain ⟨hcut, hlead⟩ := hok hnone x₀ hins.slot
  have hlive : (s.note cmd d).live = cmd.key :: s.live := by
    simp only [note, liveAfter, hop]
  have hcreated : ∀ x, (s.note cmd d).created x = if x = x₀ then cmd.key else s.created x :=
    fun x => if_congr (hins.created_iff h.linked) rfl rfl
  have hfound : d.table.FoundAt cmd.key x₀ := hins.found_new h.linked hnew
  -- Every stored key is found where it was.
  have hkeep : ∀ k, ValidKey k → ∀ x, s.dev.table.FoundAt k x → d.table.FoundAt k x :=
    fun k hk x hx => hins.found_keep h.linked hx (hcut k ((h.found k hk).1 ⟨x, hx⟩))
  -- Only the new key is found in the new slot.
  have honly : ∀ k, ValidKey k → d.table.FoundAt k x₀ → k = cmd.key := by
    intro k hk hx
    by_contra hne
    have hnot : k ∉ s.live := fun hmem => by
      obtain ⟨x, hx'⟩ := (h.found k hk).2 hmem
      have hxx : x = x₀ := (hkeep k hk x hx').unique hx
      exact (KvTable.search_found (KvTable.foundAt_iff.1 hx')).1 (hxx ▸ hsfree)
    rcases hins.found_cases h.linked hx with ⟨-, hholds, hpath⟩ | ⟨hxx, -⟩
    · rw [hins.new] at hholds
      have hpre : k = (cmd.key ++ (s.dev.table.entry x₀).key.drop cmd.key.length).take k.length :=
        hholds.symm
      have hlen : k.length ≠ cmd.key.length := fun hl => hne (by
        rw [hpre, hl, List.take_left])
      have := hlead k.length (List.mem_range.2 (by have := hk.2; omega)) hk.1 hlen
        (by rwa [← hpre])
      rw [← hpre] at this
      rcases hpath with hp | hp
      · exact this.1 hp
      · exact this.2 hp
    · exact hxx rfl
  refine ⟨hins.linked h.linked (hkey.2.trans (by decide)), fun k hk => ?_, fun k hk x hx => ?_⟩
  · rw [hlive, List.mem_cons]
    constructor
    · rintro ⟨x, hx⟩
      rcases hins.found_cases h.linked hx with ⟨rfl, -⟩ | ⟨-, hold⟩
      · exact .inl (honly k hk hx)
      · exact .inr ((h.found k hk).1 ⟨x, hold⟩)
    · rintro (rfl | hmem)
      · exact ⟨x₀, hfound⟩
      · obtain ⟨x, hx⟩ := (h.found k hk).2 hmem
        exact ⟨x, hkeep k hk x hx⟩
  · rw [hcreated]
    split_ifs with hxx
    · exact (honly k hk (hxx ▸ hx)).symm
    · rcases hins.found_cases h.linked hx with ⟨rfl, -⟩ | ⟨-, hold⟩
      · exact absurd rfl hxx
      · exact h.own k hk x hold

/-- A deletion under the condition. -/
theorem Inv.delete (h : s.Inv) (hwf : cmd.WellFormed) (hop : cmd.opcode = .delete)
    (hok : s.dev.table.DeleteOk s.live cmd.key) {x₀ : ℕ}
    (hfound : s.dev.table.FoundAt cmd.key x₀)
    (htable : d.table = s.dev.table.set x₀ MappingEntry.blank) : (s.note cmd d).Inv := by
  have hkey := hwf.key
  have hlive : ∀ k, k ∈ (s.note cmd d).live ↔ k ∈ s.live ∧ k ≠ cmd.key := fun k => by
    simp [note, liveAfter, hop]
  have hcreated : ∀ x, (s.note cmd d).created x = s.created x := fun x => by
    simp only [note]
    refine if_neg fun hh => hh.2 ?_
    rw [htable]
    unfold KvTable.free
    by_cases hx : x = x₀
    · rw [hx, KvTable.set_entry_self]
      rfl
    · rw [KvTable.set_entry_of_ne _ _ hx]
      exact hh.1
  have hown := h.own cmd.key hkey x₀ hfound
  refine ⟨by simp only [note, htable]; exact h.linked.delete, fun k hk => ?_, fun k hk x hx => ?_⟩
  · rw [hlive]
    simp only [note, htable]
    constructor
    · rintro ⟨x, hx⟩
      obtain ⟨hne, hold⟩ := KvTable.found_of_delete hx
      refine ⟨(h.found k hk).1 ⟨x, hold⟩, ?_⟩
      rintro rfl
      exact hne (hold.unique hfound)
    · rintro ⟨hmem, hne⟩
      obtain ⟨x, hx⟩ := (h.found k hk).2 hmem
      refine ⟨x, hx.delete ?_ fun hin => hok k hmem hne x₀ hin hfound⟩
      rintro rfl
      exact hne ((h.own k hk x hx).symm.trans hown)
  · rw [hcreated]
    simp only [note, htable] at hx
    exact h.own k hk x (KvTable.found_of_delete hx).2

/-- A command that leaves the links alone. -/
theorem Inv.same (h : s.Inv) (hlinks : s.dev.table.SameLinks d.table)
    (hlive : ∀ k, ValidKey k → (k ∈ (s.note cmd d).live ↔ k ∈ s.live)) : (s.note cmd d).Inv := by
  have hfound : ∀ k x, d.table.FoundAt k x ↔ s.dev.table.FoundAt k x := fun k x => by
    unfold KvTable.FoundAt
    rw [hlinks.findSlot]
  have hcreated : ∀ x, (s.note cmd d).created x = s.created x := fun x => by
    simp only [note]
    exact if_neg fun hh => hh.2 (hlinks.free_iff.2 hh.1)
  refine ⟨hlinks.linked h.linked, fun k hk => ?_, fun k hk x hx => ?_⟩
  · rw [hlive k hk, ← h.found k hk]
    exact exists_congr fun x => hfound k x
  · rw [hcreated]
    exact h.own k hk x ((hfound k x).1 hx)

theorem sameLinks_refl (t : KvTable) : t.SameLinks t := ⟨rfl, fun _ => rfl, fun _ => rfl, fun _ => rfl⟩

/-- **One command under the condition keeps the index right.** -/
theorem Inv.exec (h : s.Inv) {op : KvOp} (hwf : op.cmd.WellFormed) (hok : s.KeepsPaths op) :
    Ends (s.exec K op) Inv fun _ => True := by
  refine (Ends.trivial _).with_eq.bind ?_
  rintro ⟨d, r⟩ ⟨-, hd⟩
  simp only [ends_ok]
  have hkey := hwf.key
  cases KvDev.doPerformKvIo_table h.linked hd with
  | insert valOffset x₀ hop hnew hins =>
    unfold KeepsPaths at hok
    rw [hop] at hok
    exact h.insert hwf hop hok hnew hins
  | update x hop hx hlinks =>
    refine h.same hlinks fun k _ => ?_
    have hmem := (h.found _ hkey).1 ⟨x, hx⟩
    simp only [note, liveAfter, hop, List.mem_cons, or_iff_right_iff_imp]
    rintro rfl
    exact hmem
  | delete x hop hx htable =>
    unfold KeepsPaths at hok
    rw [hop] at hok
    exact h.delete hwf hop hok hx htable
  | missing hop hnew htable =>
    refine h.same (htable ▸ sameLinks_refl _) fun k _ => ?_
    have hnot : op.cmd.key ∉ s.live := fun hmem => by
      obtain ⟨x, hx⟩ := (h.found _ hkey).2 hmem
      exact hnew x hx
    simp only [note, liveAfter, hop, List.mem_filter, decide_eq_true_eq, and_iff_left_iff_imp]
    rintro hmem rfl
    exact hnot hmem
  | look hstore hdelete htable =>
    refine h.same (htable ▸ sameLinks_refl _) fun k _ => ?_
    unfold note liveAfter
    cases hop : op.cmd.opcode <;> first | exact absurd hop hstore | exact absurd hop hdelete | rfl

end KvRun

/-- **When the index is right on a run:** in every state reached from a fresh device, if every
insertion and deletion of the run keeps the paths of the stored keys.  A slot number is an
`unsigned int` other than `-1`. -/
theorem kvRun_indexOk (K : ZeroAreaFinder) (a : Allocators) (storageSize tableSize : ℕ)
    (type : AllocatorType) (storage : Mem) {d : KvDev}
    (hinit : kvInitNamespace a storageSize tableSize type storage = .ok d)
    (hslots : 48 ≤ tableSize) (hslots32 : tableSize / 48 < 2 ^ 32) (ops : List KvOp)
    (hwf : ∀ op ∈ ops, op.cmd.WellFormed)
    (hok : Along (KvRun.exec K) KvRun.KeepsPaths { dev := d, live := [], created := fun _ => [] }
      ops) {s : KvRun}
    (hrun : runList (KvRun.exec K) { dev := d, live := [], created := fun _ => [] } ops = .ok s) :
    s.IndexOk := by
  obtain ⟨a', -, hd⟩ := bind_eq_ok.1 hinit
  cases hd
  have hstart := KvRun.inv_init (d := {
    table := KvTable.init (tableSize / 48), allocatorType := type, allocators := a'
    storageSize := storageSize, storage := storage }) (by omega) hslots32 rfl
  have hinv := Ends.runList_along (I := KvRun.Inv) (E := fun _ => True)
    (fun s op h hc => h.exec (K := K) hc.2 hc.1) hstart (hok.and_forall hwf)
  exact (hinv.of_ok hrun).indexOk

/-- A command on a key of one byte with a value of `words` words at host address 0. -/
def byteCommand (opcode : KvOpcode) (b : UInt8) (words : ℕ) : KvOp where
  cmd := {
    opcode := opcode, prp1 := 0, prp2 := 0, valueLen := words, keyLen := 0
    keyField := b :: List.replicate 15 0 }
  host := fun _ => 0

/-- Two keys with one home slot among 64 are stored, the second one is deleted. -/
theorem kvRun_indexOk_two : ∃ d s,
    kvInitNamespace Allocators.loaded 65536 (48 * 64) .appendOnly (fun _ => 0) = .ok d ∧
    runList (KvRun.exec ZeroAreaFinder.kernel) { dev := d, live := [], created := fun _ => [] }
      [byteCommand .store 4 1, byteCommand .store 68 1, byteCommand .delete 68 0] = .ok s ∧
    s.live = [[4]] ∧ s.IndexOk := by
  have hcheck : (kvInitNamespace Allocators.loaded 65536 (48 * 64) .appendOnly
      (fun _ => 0)).toOption.any (fun d =>
        (runList (KvRun.exec ZeroAreaFinder.kernel)
          { dev := d, live := [], created := fun _ => [] } [byteCommand .store 4 1,
            byteCommand .store 68 1, byteCommand .delete 68 0]).toOption.any fun s => decide (
          s.live = [[4]] ∧ Along (KvRun.exec ZeroAreaFinder.kernel) KvRun.KeepsPaths
            { dev := d, live := [], created := fun _ => [] } [byteCommand .store 4 1,
              byteCommand .store 68 1, byteCommand .delete 68 0])) = true := by
    decide +kernel
  obtain ⟨d, hinit, hp⟩ := exists_ok_of_any hcheck
  obtain ⟨s, hrun, hp⟩ := exists_ok_of_any hp
  obtain ⟨hlive, hok⟩ := of_decide_eq_true hp
  exact ⟨d, s, hinit, hrun, hlive, kvRun_indexOk ZeroAreaFinder.kernel Allocators.loaded 65536
    (48 * 64) .appendOnly (fun _ => 0) hinit (by decide) (by decide) _ (by decide) hok hrun⟩

/-- **Three keys with one home slot:** the link to the third is put over the link to the second,
which `get_mapping_entry` does not find any more. -/
theorem threeKeys_not_indexOk : ∃ d s,
    kvInitNamespace Allocators.loaded 65536 (48 * 4) .appendOnly (fun _ => 0) = .ok d ∧
    runList (KvRun.exec ZeroAreaFinder.kernel) { dev := d, live := [], created := fun _ => [] }
      [byteCommand .store 4 1, byteCommand .store 8 1, byteCommand .store 12 1] = .ok s ∧
    [8] ∈ s.live ∧ s.dev.table.findSlot [8] = .ok none ∧ ¬ s.IndexOk := by
  have hcheck : (kvInitNamespace Allocators.loaded 65536 (48 * 4) .appendOnly
      (fun _ => 0)).toOption.any (fun d =>
        (runList (KvRun.exec ZeroAreaFinder.kernel)
          { dev := d, live := [], created := fun _ => [] } [byteCommand .store 4 1,
            byteCommand .store 8 1, byteCommand .store 12 1]).toOption.any fun s => decide (
          [8] ∈ s.live ∧ s.dev.table.findSlot [8] = .ok none)) = true := by
    decide +kernel
  obtain ⟨d, hinit, hp⟩ := exists_ok_of_any hcheck
  obtain ⟨s, hrun, hp⟩ := exists_ok_of_any hp
  obtain ⟨hlive, hnone⟩ := of_decide_eq_true hp
  refine ⟨d, s, hinit, hrun, hlive, hnone, fun h => ?_⟩
  obtain ⟨e, he, hfound⟩ := h.found [8] ⟨by decide, by decide⟩
  unfold KvTable.getMappingEntry at he
  rw [hnone] at he
  cases he
  exact hfound.2 hlive rfl

end NvmeVirt
