/-
# The cleaner of a whole device

`clean_ftl` of `main.c`: the mapped logical pages of a namespace are collected in
chunks, the namespace is thrown away and made anew, and the chunks are written to
it in turns.  There is a list of active chunks and a list of waiting chunks for
each number `cur_index * num_lists + cur_chunk`.  A round goes through one list
of active chunks until enough pages are written.  A chunk that gives up its turn
on a die waits for that die; a chunk that finds the write pointer on the die
another waits for lets that one go first.

The bound on the pages of a turn is read through `spp`, which still points into
the namespace that was thrown away: `limit` is whatever is found there in a
round.
-/

import Mathlib.Data.List.Sort
import NvmeVirt.ConvFtl.Chunks
import NvmeVirt.Lib.DoWhile

namespace NvmeVirt

open Outcome

/-- Why `clean_ftl` stops before its end. -/
inductive CleanStop
  /-- A function it calls stops. -/
  | fault (e : Fault)
  /-- `NVMEV_ASSERT(lpn->idx == cur_index)` fails. -/
  | assertIdx
  /-- `prem_lpn` is read, but no entry was found. -/
  | noEntry
  deriving DecidableEq, Repr

/-- What the loop over one list of active chunks works on: `active` are the chunks it has left in
the list so far, `waiting` is the list in `lists` of the same number. -/
structure TurnState where
  ns : ConvNs
  active : List LbaChunk
  waiting : List LbaChunk
  count : ℤ
  restart : Bool
  calls : ℕ

/-- The draws of `get_random_int`: those of the `k`-th call of `phfrag_cleaner` are `draws k`. -/
abbrev Draws := ℕ → ℕ → ℕ

namespace TurnState

variable (degree : ℕ) (draws : Draws) (curIndex : ℕ) (limit : ℤ)

/-- A call of `phfrag_cleaner` for a chunk; it writes `count` and the `conti` of the chunk.  The
fields of the pointer it returns are set. -/
def phfragCleaner (t : TurnState) (c : LbaChunk) (force : Bool) :
    Except CleanStop (TurnState × LbaChunk × Option (ℤ × ℤ × ℕ × Bool × Option ℕ)) := do
  let (ns, r, count, conti) ← (t.ns.phfragCleaner {
    startLpn := c.startLpn, endLpn := c.endLpn, degree := degree, preempt := t.waiting
    idx := c.idx, force := force, noReturn := force, random := draws t.calls } t.count
    c.conti).mapError .fault
  let t := { t with ns := ns, count := count, calls := t.calls + 1 }
  let c := { c with conti := conti }
  match r with
  | none => .ok (t, c, none)
  | some r =>
    match r.startpoint, r.preempt with
    | some start, some preempt => .ok (t, c, some (r.ch, r.lun, start, preempt, r.preemptCounter))
    | _, _ => .error (.fault .undefined)

/-- The entry of the waiting list with number `preempt_counter` goes first; it is not made to give
up its turn again.  What is left of it stays in the list if it waits for a die, and else goes to
the end of the active list. -/
def preemptWith (t : TurnState) (counter : Option ℕ) :
    Except CleanStop (TurnState × List LbaChunk) :=
  match counter.bind fun k => t.waiting[k]?.map fun prem => (k, prem) with
  | none => .error .noEntry
  | some (k, prem) =>
    if prem.idx ≠ curIndex then .error .assertIdx
    else do
      let (t, prem, r) ← t.phfragCleaner degree draws prem true
      match r with
      | none => .ok ({ t with waiting := t.waiting.eraseIdx k }, [])
      | some (ch, lun, start, _, _) =>
        let prem := { prem with startLpn := start, ch := ch, lun := lun }
        if ch = -1 ∨ lun = -1 then
          .ok ({ t with waiting := t.waiting.eraseIdx k }, [{ prem with conti := -1 }])
        else .ok ({ t with waiting := t.waiting.set k prem }, [])

/-- The loop over the active list, of which `todo` is left. -/
def visitAll : List LbaChunk → TurnState → Except CleanStop TurnState
  | [], t => .ok t
  | c :: todo, t =>
    if c.idx ≠ curIndex then .error .assertIdx
    else if limit ≤ t.count then .ok { t with active := t.active ++ c :: todo }
    else do
      let (t, c, r) ← t.phfragCleaner degree draws c false
      match r with
      | none => visitAll todo t
      | some (ch, lun, start, preempt, counter) =>
        if preempt then do
          let c := { c with startLpn := start, ch := ch, lun := lun }
          let (t, back) ← t.preemptWith degree draws curIndex counter
          .ok { t with active := t.active ++ (c :: todo ++ back), restart := true }
        else if ch = -1 ∨ lun = -1 then
          visitAll todo { t with active := t.active ++ [{ c with conti := -1, startLpn := start }] }
        else
          visitAll todo
            { t with waiting := t.waiting ++ [{ c with startLpn := start, ch := ch, lun := lun }] }

/-- Behind the loop: when no chunk is active, one that waits is. -/
def wake (t : TurnState) : TurnState :=
  if ¬ t.restart ∧ t.active = [] then
    match t.waiting with
    | [] => t
    | c :: waiting => { t with active := [{ c with conti := -1 }], waiting := waiting }
  else t

end TurnState

/-- The variables of `clean_ftl`; `calls` counts the calls of `phfrag_cleaner`. -/
structure CleanState where
  ns : ConvNs
  active : ℕ → List LbaChunk
  lists : ℕ → List LbaChunk
  count : ℤ
  curChunk : ℕ
  curIndex : ℕ
  restart : Bool
  calls : ℕ

namespace CleanState

variable (numLists nrParts : ℕ) (degree : ℕ) (draws : Draws) (s : CleanState)

/-- The number of the lists in use. -/
def slot : ℕ := s.curIndex * numLists + s.curChunk

/-- A list of active chunks of the partition in use has an entry. -/
def HaveChunk : Prop := ∃ i < numLists, s.active (s.curIndex * numLists + i) ≠ []

instance : Decidable (s.HaveChunk numLists) := inferInstanceAs (Decidable (∃ _ < _, _))

/-- The first part of a round: when the turn is over or the list is empty, the next list of the
partition is taken, or the next partition if none of its lists has an entry. -/
def nextSlot (limit : ℤ) : CleanState :=
  if (¬ s.restart ∧ limit ≤ s.count) ∨ s.active (s.slot numLists) = [] then
    let curChunk := if numLists ≤ s.curChunk + 1 then 0 else s.curChunk + 1
    if s.HaveChunk numLists then { s with count := 0, curChunk := curChunk }
    else
      let curIndex := if nrParts ≤ s.curIndex + 1 then 0 else s.curIndex + 1
      { s with count := 0, curChunk := 0, curIndex := curIndex }
  else s

/-- The turn of the list in use begins. -/
def turn : TurnState where
  ns := s.ns
  active := []
  waiting := s.lists (s.slot numLists)
  count := s.count
  restart := false
  calls := s.calls

/-- The turn of the list in use is over. -/
def putBack (t : TurnState) : CleanState where
  ns := t.ns
  active := Function.update s.active (s.slot numLists) t.active
  lists := Function.update s.lists (s.slot numLists) t.waiting
  count := t.count
  curChunk := s.curChunk
  curIndex := s.curIndex
  restart := t.restart
  calls := t.calls

/-- One round of the loop of `clean_ftl`. -/
def round (limit : ℤ) : Except CleanStop CleanState := do
  let s := s.nextSlot numLists nrParts limit
  let t ← TurnState.visitAll degree draws s.curIndex limit (s.active (s.slot numLists))
    (s.turn numLists)
  .ok (s.putBack numLists t.wake)

/-- `restart || any_active_nonempty(...)`. -/
def Again : Prop := s.restart ∨ ∃ k < numLists * nrParts, s.active k ≠ []

instance : Decidable (s.Again numLists nrParts) := inferInstanceAs (Decidable (_ ∨ _))

/-- The loop of `clean_ftl`. -/
def cleanLoop (limits : ℕ → ℤ) (fuel : ℕ) : Option (Except CleanStop CleanState) :=
  doWhile (fun n s => s.round numLists nrParts degree draws (limits n))
    (Again numLists nrParts) fuel 0 s

end CleanState

/-- `compare_by_size`, as `list_sort` uses it: `a` may stand before `b`. -/
def compareBySize (a b : LbaChunk) : Prop := a.size ≤ b.size

instance : DecidableRel compareBySize := fun a b => inferInstanceAs (Decidable (a.size ≤ b.size))

/-- The state before the first round, with the new namespace `ns`. -/
def cleanStart (ns : ConvNs) (head : ℕ → List LbaChunk) : CleanState where
  ns := ns
  active := fun i => (head i).insertionSort compareBySize
  lists := fun _ => []
  count := 0
  curChunk := 0
  curIndex := 0
  restart := true
  calls := 0

/-- **`clean_ftl`** of the namespace `old` with `num_list` lists; the new namespace is made with
the configuration `cfg`, of which `max_con` may have changed. -/
def cleanFtl (old : ConvNs) (numList size : ℕ) (cfg : FtlConfigs) (degree : ℕ) (draws : Draws)
    (limits : ℕ → ℤ) (fuel : ℕ) : Option (Except CleanStop CleanState) :=
  match old.createListFromTableSplit numList, convInitNamespace size cfg with
  | .ok head, .ok ns =>
    (cleanStart ns head).cleanLoop numList old.nrParts degree draws limits fuel
  | .ok _, .error e => some (.error (.fault e))
  | .error e, _ => some (.error (.fault e))

end NvmeVirt
