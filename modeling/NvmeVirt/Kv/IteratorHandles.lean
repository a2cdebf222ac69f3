/-
# The handles of iterators

Runs of `kv_iter_open` and `kv_iter_close` of `kv_ftl.c` from the handle table that
`kv_init_namespace` leaves.  Open looks at the words 1 to 16, initialisation clears the
words 0 to 15, close takes any byte for a handle; and an open that finds no free word
returns 1, as one does that takes the first.
-/

import NvmeVirt.Kv.Iterators

namespace NvmeVirt

open Outcome

/-- An open, with what the new buffer holds, or a close. -/
inductive IterOp
  | opened (cmd : KvIterReqCommand) (memory : Mem)
  | closed (iter : UInt8)

/-- The device with its history: the handles opened and not closed since. -/
structure IterRun where
  ftl : KvFtl
  opened : Finset ℕ

namespace IterRun

/-- After `kv_init_namespace` on memory that held `words`. -/
def start (table : KvTable) (words : ℕ → ℕ) : IterRun where
  ftl := KvFtl.init table words
  opened := ∅

variable (s : IterRun)

/-- What an open returns; `*status` is 0 before a command runs. -/
def openReply (cmd : KvIterReqCommand) (memory : Mem) : KvIterReply :=
  (s.ftl.kvIterOpen cmd memory 0).2

/-- One command. -/
def exec : IterOp → Except Fault IterRun
  | .opened cmd memory =>
    .ok { ftl := (s.ftl.kvIterOpen cmd memory 0).1
          opened := if s.ftl.freeHandle.isSome then
            insert (s.openReply cmd memory).result s.opened else s.opened }
  | .closed iter => do
    let r ← s.ftl.kvIterClose iter.toNat
    .ok { ftl := r.1, opened := s.opened.erase iter.toNat }

/-- **The handles in use are those opened and not closed.** -/
def Exact : Prop :=
  ∀ i, i ∈ s.opened ↔ i < nrIterHandles ∧ (s.ftl.iterHandle i).isNull = false

/-- The reply says that a handle is open. -/
def Success (r : KvIterReply) : Prop := r.status = 0 ∧ 1 ≤ r.result ∧ r.result ≤ 16

/-- **A command is right:** an open gives a handle not in use as long as there is one, and else does
not reply like a success; a close frees nothing but the handle if it is open. -/
def Answers : IterOp → Prop
  | .opened cmd memory =>
    (s.opened.card < 16 → Success (s.openReply cmd memory) ∧
      (s.openReply cmd memory).result ∉ s.opened) ∧
    (16 ≤ s.opened.card → ¬ Success (s.openReply cmd memory))
  | .closed iter => Ends (s.ftl.kvIterClose iter.toNat)
      (fun r => iter.toNat ∉ s.opened → r.1 = s.ftl) fun _ => False

/-- A command is right and leaves the handles opened and not closed in use. -/
def Right (op : IterOp) : Prop := s.Answers op ∧ Ends (s.exec op) Exact fun _ => False

/-- **The condition on a command:** an open comes with fewer than 16 handles in use, and a close has
the number of a word. -/
def Within : IterOp → Prop
  | .opened _ _ => s.opened.card < 16
  | .closed iter => iter.toNat < nrIterHandles

instance (op : IterOp) : Decidable (s.Within op) :=
  match op with
  | .opened _ _ => inferInstanceAs (Decidable (_ < _))
  | .closed _ => inferInstanceAs (Decidable (_ < _))

/-- The invariant of a run: the handles in use are exact, each points to a context, and word 0 is
not among them. -/
structure Inv : Prop where
  exact_ : s.Exact
  context : ∀ i < nrIterHandles, ∀ word, s.ftl.iterHandle i ≠ .stray word
  zero : s.ftl.iterHandle 0 = .null

variable {s} {op : IterOp}

/-- Word 16 is the one that is not cleared. -/
theorem start_exact_iff {table : KvTable} {words : ℕ → ℕ} :
    (start table words).Exact ↔ words 16 = 0 := by
  have hcell : ∀ i, (start table words).ftl.iterHandle i =
      if i < 16 then .null else .ofWord (words i) := fun i => rfl
  constructor
  · intro h
    by_contra hword
    have hstray : (start table words).ftl.iterHandle 16 = .stray (words 16) := by
      rw [hcell, if_neg (by decide)]
      exact if_neg hword
    have hin := (h 16).2 ⟨by decide, congrArg IterHandle.isNull hstray⟩
    exact absurd hin (Finset.notMem_empty 16)
  · intro hword i
    refine iff_of_false (Finset.notMem_empty i) ?_
    rintro ⟨hi, hused⟩
    rw [hcell] at hused
    split_ifs at hused with hlt
    · cases hused
    · have hlast : i = 16 := by
        unfold nrIterHandles at hi
        omega
      rw [hlast, IterHandle.ofWord, if_pos hword] at hused
      cases hused

/-- A cleared table has the invariant. -/
theorem inv_start {table : KvTable} {words : ℕ → ℕ} (h : words 16 = 0) :
    (start table words).Inv where
  exact_ := start_exact_iff.2 h
  context i hi word hstray := by
    have hcell : (start table words).ftl.iterHandle i =
        if i < 16 then .null else .ofWord (words i) := rfl
    rw [hcell] at hstray
    split_ifs at hstray with hlt
    have hlast : i = 16 := by
      unfold nrIterHandles at hi
      omega
    rw [hlast, IterHandle.ofWord, if_pos h] at hstray
    cases hstray
  zero := rfl

/-- The handles in use are among 1 to 16. -/
theorem Inv.subset (h : s.Inv) : s.opened ⊆ Finset.Icc 1 16 := by
  intro i hi
  obtain ⟨hlt, hused⟩ := (h.exact_ i).1 hi
  refine Finset.mem_Icc.2 ⟨Nat.one_le_iff_ne_zero.2 ?_, Nat.le_of_lt_succ hlt⟩
  rintro rfl
  rw [h.zero] at hused
  cases hused

/-- **The search of `kv_iter_open`** finds a handle not in use, or all 16 are. -/
theorem Inv.freeHandle_cases (h : s.Inv) :
    (∃ i, s.ftl.freeHandle = some i ∧ 1 ≤ i ∧ i ≤ 16 ∧ i ∉ s.opened ∧ s.opened.card < 16) ∨
      s.ftl.freeHandle = none ∧ 16 ≤ s.opened.card := by
  unfold KvFtl.freeHandle
  cases hfind : (List.range' 1 16).find? fun i => (s.ftl.iterHandle i).isNull with
  | some i =>
    have hnull := List.find?_some hfind
    obtain ⟨hlow, hhigh⟩ := List.mem_range'_1.1 (List.mem_of_find?_eq_some hfind)
    have hout : i ∉ s.opened := fun hin => by
      obtain ⟨-, hused⟩ := (h.exact_ i).1 hin
      rw [hnull] at hused
      cases hused
    refine .inl ⟨i, rfl, hlow, by omega, hout, ?_⟩
    have hsub : s.opened ⊂ Finset.Icc 1 16 :=
      Finset.ssubset_iff_of_subset h.subset |>.2 ⟨i, Finset.mem_Icc.2 ⟨hlow, by omega⟩, hout⟩
    exact (Finset.card_lt_card hsub).trans_eq (Nat.card_Icc 1 16)
  | none =>
    refine .inr ⟨rfl, ?_⟩
    have hall : Finset.Icc 1 16 ⊆ s.opened := by
      intro i hi
      obtain ⟨hlow, hhigh⟩ := Finset.mem_Icc.1 hi
      refine (h.exact_ i).2 ⟨Nat.lt_succ_of_le hhigh, ?_⟩
      have hused := List.find?_eq_none.1 hfind i (List.mem_range'_1.2 ⟨hlow, by omega⟩)
      exact Bool.eq_false_iff.2 hused
    exact (Nat.card_Icc 1 16).symm.trans_le (Finset.card_le_card hall)

/-- A handle set or cleared, and noted. -/
theorem Inv.update (h : s.Inv) {i : ℕ} (hi : 1 ≤ i) (hlt : i < nrIterHandles) {w : IterHandle}
    (hw : ∀ word, w ≠ .stray word) {opened : Finset ℕ}
    (hopened : ∀ j, j ∈ opened ↔ if j = i then w.isNull = false else j ∈ s.opened) :
    Inv { ftl := { s.ftl with iterHandle := Function.update s.ftl.iterHandle i w }
          opened := opened } where
  exact_ j := by
    show j ∈ opened ↔ j < nrIterHandles ∧ (Function.update s.ftl.iterHandle i w j).isNull = false
    rw [hopened, Function.update_apply]
    split_ifs with hj
    · subst hj
      exact (and_iff_right hlt).symm
    · exact h.exact_ j
  context j hj word := by
    show Function.update s.ftl.iterHandle i w j ≠ _
    rw [Function.update_apply]
    split_ifs
    · exact hw word
    · exact h.context j hj word
  zero := by
    show Function.update s.ftl.iterHandle i w 0 = _
    rw [Function.update_of_ne (by omega)]
    exact h.zero

/-- **An open** with fewer than 16 handles in use takes one of the others. -/
theorem Inv.opened (h : s.Inv) (cmd : KvIterReqCommand) (memory : Mem)
    (hroom : s.opened.card < 16) :
    Success (s.openReply cmd memory) ∧ (s.openReply cmd memory).result ∉ s.opened ∧
      ∃ t, s.exec (.opened cmd memory) = .ok t ∧ t.Inv := by
  rcases h.freeHandle_cases with ⟨i, hfree, hlow, hhigh, hout, -⟩ | ⟨-, hfull⟩
  · unfold openReply exec openReply KvFtl.kvIterOpen
    rw [hfree]
    refine ⟨⟨rfl, hlow, hhigh⟩, hout, _, rfl, ?_⟩
    refine h.update hlow (Nat.lt_succ_of_le hhigh) (fun word => IterHandle.noConfusion) fun j => ?_
    rw [Option.isSome_some, if_pos rfl, Finset.mem_insert]
    split_ifs with hj
    · exact iff_of_true (.inl hj) rfl
    · exact or_iff_right hj
  · omega

/-- **A close** of a word frees the handle if it is open. -/
theorem Inv.closed (h : s.Inv) {iter : UInt8} (hlt : iter.toNat < nrIterHandles) :
    Ends (s.ftl.kvIterClose iter.toNat) (fun r => iter.toNat ∉ s.opened → r.1 = s.ftl)
      (fun _ => False) ∧
      ∃ t, s.exec (.closed iter) = .ok t ∧ t.Inv := by
  have hexec : s.exec (.closed iter) = (s.ftl.kvIterClose iter.toNat >>= fun r =>
    .ok { ftl := r.1, opened := s.opened.erase iter.toNat }) := rfl
  rw [hexec]
  cases hcell : s.ftl.iterHandle iter.toNat with
  | null =>
    have hclose : s.ftl.kvIterClose iter.toNat = .ok (s.ftl, ⟨0, 0⟩) := by
      unfold KvFtl.kvIterClose
      rw [defined_bind hlt, hcell]
    rw [hclose]
    have hout : iter.toNat ∉ s.opened := fun hin => by
      obtain ⟨-, hused⟩ := (h.exact_ _).1 hin
      rw [hcell] at hused
      cases hused
    refine ⟨fun _ => rfl, _, rfl, ?_⟩
    rw [Finset.erase_eq_of_notMem hout]
    exact h
  | context handle =>
    have hclose : s.ftl.kvIterClose iter.toNat = .ok ({ s.ftl with
        iterHandle := Function.update s.ftl.iterHandle iter.toNat .null }, ⟨0, 0⟩) := by
      unfold KvFtl.kvIterClose
      rw [defined_bind hlt, hcell]
    rw [hclose]
    have hin : iter.toNat ∈ s.opened := (h.exact_ _).2 ⟨hlt, by rw [hcell]; rfl⟩
    have hlow := (Finset.mem_Icc.1 (h.subset hin)).1
    refine ⟨fun hout => absurd hin hout, _, rfl, ?_⟩
    refine h.update hlow hlt (fun word => IterHandle.noConfusion) fun j => ?_
    rw [Finset.mem_erase]
    split_ifs with hj
    · exact iff_of_false (fun hne => hne.1 hj) Bool.noConfusion
    · exact and_iff_right hj
  | stray word => exact absurd hcell (h.context _ hlt word)

/-- **One command is right** exactly under its condition, and keeps the invariant. -/
theorem Inv.step (h : s.Inv) (op : IterOp) :
    (s.Right op ↔ s.Within op) ∧ (s.Within op → ∀ t, s.exec op = .ok t → t.Inv) := by
  cases op with
  | opened cmd memory =>
    refine ⟨⟨fun hright => ?_, fun hroom => ?_⟩, fun hroom t ht => ?_⟩
    · -- with all handles in use the reply is that of handle 1
      by_contra hfull
      have hcard : 16 ≤ s.opened.card := Nat.le_of_not_lt hfull
      rcases h.freeHandle_cases with ⟨-, -, -, -, -, hroom⟩ | ⟨hnone, -⟩
      · omega
      · refine hright.1.2 hcard ?_
        have hreply : s.openReply cmd memory = ⟨1, 0⟩ := by
          unfold openReply KvFtl.kvIterOpen
          rw [hnone]
        rw [hreply]
        exact ⟨rfl, le_rfl, by decide⟩
    · obtain ⟨hsuccess, hout, t, ht, hinv⟩ := h.opened cmd memory hroom
      refine ⟨⟨fun _ => ⟨hsuccess, hout⟩, fun hfull => absurd hroom (Nat.not_lt.2 hfull)⟩, ?_⟩
      rw [ht]
      exact hinv.exact_
    · obtain ⟨-, -, t', ht', hinv⟩ := h.opened cmd memory hroom
      rw [ht] at ht'
      cases ht'
      exact hinv
  | closed iter =>
    refine ⟨⟨fun hright => ?_, fun hlt => ?_⟩, fun hlt t ht => ?_⟩
    · by_contra hout
      have hstop : s.ftl.kvIterClose iter.toNat = .error .undefined :=
        defined_bind_of_not (show ¬ iter.toNat < nrIterHandles from hout) _
      have hends : Ends (s.ftl.kvIterClose iter.toNat) (fun r => iter.toNat ∉ s.opened → r.1 = s.ftl)
        fun _ => False := hright.1
      rw [hstop] at hends
      exact hends
    · obtain ⟨hends, t, ht, hinv⟩ := h.closed hlt
      refine ⟨hends, ?_⟩
      rw [ht]
      exact hinv.exact_
    · obtain ⟨-, t', ht', hinv⟩ := h.closed hlt
      rw [ht] at ht'
      cases ht'
      exact hinv

/-- **Along a run** from cleared memory the commands are right exactly under their conditions. -/
theorem along_right_iff {table : KvTable} {words : ℕ → ℕ} (hword : words 16 = 0)
    (ops : List IterOp) :
    Along IterRun.exec Right (start table words) ops ↔
      Along IterRun.exec Within (start table words) ops := by
  constructor
  · refine Along.of_invariant (fun s op hinv hright => ?_) (inv_start hword)
    have hin := (hinv.step op).1.1 hright
    exact ⟨hin, (hinv.step op).2 hin⟩
  · refine Along.of_invariant (fun s op hinv hin => ?_) (inv_start hword)
    exact ⟨(hinv.step op).1.2 hin, (hinv.step op).2 hin⟩

end IterRun

open IterRun in
/-- **Exactly which runs keep the handles right:** those from memory whose word for handle 16 was 0,
in which every open comes with fewer than 16 handles in use and every close has the number of a
word. -/
theorem kvIter_handlesRight_iff (table : KvTable) (words : ℕ → ℕ) (ops : List IterOp) :
    (start table words).Exact ∧ Along IterRun.exec Right (start table words) ops ↔
      words 16 = 0 ∧ Along IterRun.exec Within (start table words) ops := by
  rw [start_exact_iff]
  exact and_congr_right fun hword => along_right_iff hword ops

open IterRun in
/-- **Memory that is not zero, and one open too many:** handle 16 is in use before any is opened, and
from cleared memory the last of 17 opens replies like one that takes handle 1. -/
theorem seventeenOpens_not_right :
    ¬ (start (KvTable.init 1) fun _ => 1).Exact ∧
      ¬ Along IterRun.exec Right (start (KvTable.init 1) fun _ => 0)
        (List.replicate 17 (.opened ⟨0, 0⟩ fun _ => 0)) := by
  refine ⟨fun h => absurd (start_exact_iff.1 h) Nat.one_ne_zero, fun h => ?_⟩
  have hin := (along_right_iff rfl _).1 h
  revert hin
  decide +kernel

end NvmeVirt
