/-
# Cutting the mapping table into chunks

`create_list_from_table_split` of `main.c`, which `clean_ftl` calls to collect
the mapped logical pages of a namespace, and `generate_lpn`.  The maximal runs
of mapped pages are found in one pass over the table; of every run each
partition gets the chunk of the pages it holds, in the list `cur_chunk` of that
partition.

A chunk stands for the logical pages from its start to its end in steps of
`nr_parts`, which is how `phfrag_cleaner` walks it.  The end of a chunk is
computed in 64 bits: a run that ends below the number of the partition has
nothing before its end to step back to.
-/

import Mathlib
import NvmeVirt.Lib.Intervals
import NvmeVirt.ConvFtl.Cleaner
import NvmeVirt.ConvFtl.Reachable

namespace NvmeVirt

open Outcome Intervals

/-- `generate_lpn`; it leaves `next_process_lpn` as it is, and nothing reads it. -/
def generateLpn (start end' size idx : ℕ) (ch lun : ℤ) : LbaChunk where
  startLpn := start
  endLpn := end'
  devideSize := 0
  idx := idx
  ch := ch
  lun := lun
  size := size
  nextProcessLpn := 0
  counter := -1
  conti := -1

/-- The chunk of partition `i` of the run from `first` to `last`. -/
def dumpChunk (nrParts i first last count : ℕ) : LbaChunk :=
  let startMod := first % nrParts
  let lastMod := last % nrParts
  let sDiff := (i + nrParts - startMod) % nrParts
  let dumpS := u64 (first + sDiff)
  let eDiff := (lastMod + nrParts - i) % nrParts
  let dumpE := u64 (last + 2 ^ 64 - eDiff)
  generateLpn dumpS dumpE count i (-1) (-1)

/-- The variables of `create_list_from_table_split` its loop changes. -/
structure SplitState where
  totalRealCount : ℕ
  curChunk : ℕ
  startLpn : ℕ
  count : ℕ
  head : ℕ → List LbaChunk

namespace SplitState

variable (s : SplitState)

/-- The inner loop: every partition gets its chunk of the run that ended before `globalLpn`.  The
index of the list is an `int`. -/
def dump (nrParts numList globalLpn : ℕ) : Except Fault SplitState :=
  forRange nrParts (fun i s => do
    let curIdx := i * numList + s.curChunk
    defined (curIdx < 2 ^ 31)
    let lpn := dumpChunk nrParts i s.startLpn (globalLpn - 1) s.count
    .ok { s with head := Function.update s.head curIdx (s.head curIdx ++ [lpn]) }) s

/-- The part of a round that counts the table off into `num_list` parts; `cur_chunk` is an
`int`. -/
def nextList (numList splitCount : ℕ) : Except Fault SplitState :=
  if splitCount ≤ s.totalRealCount + 1 then do
    defined (s.curChunk + 1 < 2 ^ 31)
    .ok { s with
      totalRealCount := 0
      curChunk := if s.curChunk + 1 = numList then s.curChunk else s.curChunk + 1 }
  else .ok { s with totalRealCount := s.totalRealCount + 1 }

end SplitState

namespace ConvNs

variable (ns : ConvNs)

/-- `total_lpn_count`. -/
def totalLpnCount : ℕ := ns.sp.ttPgs * ns.nrParts

/-- The mapping table has a page for the logical page `l` of the namespace. -/
def mapped (l : ℕ) : Prop :=
  l < ns.totalLpnCount ∧ mappedPpa ((ns.ftls (l % ns.nrParts)).maptbl (l / ns.nrParts))

instance (l : ℕ) : Decidable (ns.mapped l) := inferInstanceAs (Decidable (_ ∧ _))

/-- One round of the loop of `create_list_from_table_split`. -/
def splitRound (numList globalLpn : ℕ) (s : SplitState) : Except Fault SplitState := do
  let s ← s.nextList numList (ns.totalLpnCount / numList)
  let idx := globalLpn % ns.nrParts
  let localLpn := globalLpn / ns.nrParts
  let ppa := (ns.ftls idx).maptbl localLpn
  if mappedPpa ppa then
    .ok { s with
      startLpn := if s.count = 0 then globalLpn else s.startLpn
      count := s.count + 1 }
  else if s.count ≠ 0 then do
    let s ← s.dump ns.nrParts numList globalLpn
    .ok { s with count := 0 }
  else .ok s

/-- `create_list_from_table_split`: `num_list` lists for every partition.  The size of their array
is computed in 64 bits. -/
def createListFromTableSplit (numList : ℕ) : Except Fault (ℕ → List LbaChunk) := do
  defined (16 * numList * ns.nrParts < 2 ^ 64)
  let s ← forRange ns.totalLpnCount (fun g s => ns.splitRound numList g s)
    { totalRealCount := 0, curChunk := 0, startLpn := 0, count := 0, head := fun _ => [] }
  let s ← if s.count ≠ 0 then s.dump ns.nrParts numList ns.totalLpnCount else .ok s
  .ok s.head

end ConvNs

/-! ### What the chunks describe -/

/-- The logical pages a chunk stands for. -/
def LbaChunk.pages (nrParts : ℕ) (c : LbaChunk) : Set ℕ :=
  {l | c.startLpn ≤ l ∧ l ≤ c.endLpn ∧ l % nrParts = c.startLpn % nrParts}

/-- The chunks in the lists of partition `i`. -/
def chunksOf (numList : ℕ) (head : ℕ → List LbaChunk) (i : ℕ) : List LbaChunk :=
  (List.range numList).flatMap fun k => head (i * numList + k)

/-- For each partition the chunks in its lists are disjoint and describe its mapped pages. -/
def ConvNs.ExactPartition (ns : ConvNs) (numList : ℕ) (head : ℕ → List LbaChunk) : Prop :=
  ∀ i < ns.nrParts,
    (chunksOf numList head i).Pairwise
        (fun a b => Disjoint (a.pages ns.nrParts) (b.pages ns.nrParts)) ∧
      ∀ l, (∃ c ∈ chunksOf numList head i, l ∈ c.pages ns.nrParts) ↔
        ns.mapped l ∧ l % ns.nrParts = i

/-- The chunk of partition `i` of a run. -/
def chunkOfRun (nrParts i : ℕ) (r : ℕ × ℕ) : LbaChunk :=
  dumpChunk nrParts i r.1 r.2 (r.2 + 1 - r.1)

section

variable {nrParts i first last count : ℕ}

/-- Where the chunk of a run starts. -/
theorem dumpChunk_startLpn (hn : nrParts < 2 ^ 32) (hi : i < nrParts) (hf : first < 2 ^ 63)
    (last count : ℕ) :
    (dumpChunk nrParts i first last count).startLpn =
      first + (i + nrParts - first % nrParts) % nrParts := by
  have := Nat.mod_lt (i + nrParts - first % nrParts) (by omega : 0 < nrParts)
  exact u64_of_lt (by omega)

/-- The start of a chunk is a page of its partition. -/
theorem start_mod (hi : i < nrParts) (first : ℕ) :
    (first + (i + nrParts - first % nrParts) % nrParts) % nrParts = i := by
  have hlt := Nat.mod_lt first (by omega : 0 < nrParts)
  rw [Nat.add_mod_mod, ← Nat.mod_add_mod, show first % nrParts + (i + nrParts - first % nrParts) =
    i + nrParts by omega, Nat.add_mod_right, Nat.mod_eq_of_lt hi]

/-- From a page not below `i` the step back to a page of partition `i` stays above zero. -/
theorem back_le (hi : i < nrParts) (hil : i ≤ last) :
    (last % nrParts + nrParts - i) % nrParts ≤ last := by
  have hdiv := Nat.mod_le last nrParts
  rcases Nat.lt_or_ge last nrParts with h | h
  · rw [Nat.mod_eq_of_lt h, show last + nrParts - i = last - i + nrParts by omega,
      Nat.add_mod_right, Nat.mod_eq_of_lt (by omega)]
    omega
  · exact (Nat.mod_lt _ (by omega)).le.trans h

/-- Where the chunk of a run ends when the run does not end below the number of the partition. -/
theorem dumpChunk_endLpn (hi : i < nrParts) (hl : last < 2 ^ 63) (hil : i ≤ last)
    (first count : ℕ) :
    (dumpChunk nrParts i first last count).endLpn =
      last - (last % nrParts + nrParts - i) % nrParts := by
  have := back_le hi hil
  show (last + 2 ^ 64 - _) % 2 ^ 64 = _
  rw [show last + 2 ^ 64 - (last % nrParts + nrParts - i) % nrParts =
    last - (last % nrParts + nrParts - i) % nrParts + 2 ^ 64 by omega, Nat.add_mod_right]
  exact Nat.mod_eq_of_lt (by omega)

/-- The end of such a chunk is a page of its partition. -/
theorem end_mod (hi : i < nrParts) (hil : i ≤ last) :
    (last - (last % nrParts + nrParts - i) % nrParts) % nrParts = i := by
  have hback := back_le hi hil
  have hlast := Nat.mod_lt last (by omega : 0 < nrParts)
  have hsum : (last - (last % nrParts + nrParts - i) % nrParts +
      (last % nrParts + nrParts - i)) % nrParts = last % nrParts := by
    rw [← Nat.add_mod_mod, Nat.sub_add_cancel hback]
  have hsum' : (i + (last % nrParts + nrParts - i)) % nrParts = last % nrParts := by
    rw [show i + (last % nrParts + nrParts - i) = last % nrParts + nrParts by omega,
      Nat.add_mod_right, Nat.mod_mod]
  have hmod : _ % nrParts = i % nrParts := Nat.ModEq.add_right_cancel' _ (hsum.trans hsum'.symm)
  rw [hmod, Nat.mod_eq_of_lt hi]

/-- **A run that does not end below the number of the partition is cut exactly:** its chunk
stands for the pages of the run in the partition. -/
theorem mem_dumpChunk_pages (hn : nrParts < 2 ^ 32) (hi : i < nrParts) (hle : first ≤ last)
    (hl : last < 2 ^ 63) (hil : i ≤ last) (l : ℕ) :
    l ∈ (dumpChunk nrParts i first last count).pages nrParts ↔
      first ≤ l ∧ l ≤ last ∧ l % nrParts = i := by
  have hnr : 0 < nrParts := by omega
  have hlast := Nat.mod_lt last hnr
  have hs := start_mod hi first
  have hsd := Nat.mod_lt (i + nrParts - first % nrParts) hnr
  have hed := Nat.mod_lt (last % nrParts + nrParts - i) hnr
  have hback := back_le hi hil
  have hstart := dumpChunk_startLpn hn hi (by omega : first < 2 ^ 63) last count
  have hend := dumpChunk_endLpn hi hl hil first count
  unfold LbaChunk.pages
  rw [Set.mem_ofPred_eq, hstart, hend, hs]
  generalize (i + nrParts - first % nrParts) % nrParts = sd at *
  have he := end_mod hi hil
  generalize (last % nrParts + nrParts - i) % nrParts = ed at *
  constructor
  · rintro ⟨h1, h2, h3⟩
    exact ⟨by omega, by omega, h3⟩
  · rintro ⟨h1, h2, h3⟩
    refine ⟨?_, ?_, h3⟩
    · by_contra hlt
      have := Nat.ModEq.add_le_of_lt (show l ≡ first + sd [MOD nrParts] from h3.trans hs.symm)
        (by omega)
      omega
    · by_contra hlt
      have := Nat.ModEq.add_le_of_lt (show last - ed ≡ l [MOD nrParts] from he.trans h3.symm)
        (by omega)
      omega

/-- **A run that ends below the number of the partition gets a chunk that runs to the end of the
64-bit range:** it contains the page the number of the partition names. -/
theorem mem_dumpChunk_pages_of_lt (hn : nrParts < 2 ^ 32) (hi : i < nrParts) (hle : first ≤ last)
    (hil : last < i) (count : ℕ) :
    i ∈ (dumpChunk nrParts i first last count).pages nrParts := by
  have hstart := dumpChunk_startLpn hn hi (by omega : first < 2 ^ 63) last count
  have hfirst : first % nrParts = first := Nat.mod_eq_of_lt (by omega)
  have hback : (last % nrParts + nrParts - i) % nrParts = last + nrParts - i := by
    rw [Nat.mod_eq_of_lt (by omega : last < nrParts), Nat.mod_eq_of_lt (by omega)]
  have hend : (dumpChunk nrParts i first last count).endLpn = i + 2 ^ 64 - nrParts := by
    show (last + 2 ^ 64 - _) % 2 ^ 64 = _
    rw [hback, Nat.mod_eq_of_lt (by omega)]
    omega
  rw [hfirst, show i + nrParts - first = i - first + nrParts by omega, Nat.add_mod_right,
    Nat.mod_eq_of_lt (by omega)] at hstart
  refine ⟨by omega, by omega, ?_⟩
  rw [hstart, show first + (i - first) = i by omega]

end

/-! ### The lists of a partition -/

/-- An entry added to one of several lists is added to all of them together. -/
theorem flatMap_update {α : Type*} (f : ℕ → List α) (c : α) {k n : ℕ} (hk : k < n) :
    ((List.range n).flatMap (Function.update f k (f k ++ [c]))).Perm
      ((List.range n).flatMap f ++ [c]) := by
  induction n with
  | zero => omega
  | succ n ih =>
    rw [List.range_succ, List.flatMap_append, List.flatMap_append, List.flatMap_singleton,
      List.flatMap_singleton]
    rcases Nat.lt_or_ge k n with h | h
    · rw [Function.update_of_ne (by omega)]
      refine ((ih h).append_right _).trans ?_
      rw [List.append_assoc, List.append_assoc]
      exact List.perm_append_comm.append_left _
    · obtain rfl : k = n := by omega
      have hrest : (List.range k).flatMap (Function.update f k (f k ++ [c])) =
          (List.range k).flatMap f := by
        refine List.flatMap_congr fun j hj => ?_
        rw [Function.update_of_ne (List.mem_range.1 hj).ne]
      rw [hrest, Function.update_self, List.append_assoc]

section

variable {numList k i j : ℕ} {head : ℕ → List LbaChunk} {c : LbaChunk}

/-- A chunk added to a list of partition `i` is added to its chunks. -/
theorem chunksOf_update (hk : k < numList) :
    (chunksOf numList (Function.update head (i * numList + k) (head (i * numList + k) ++ [c]))
      i).Perm (chunksOf numList head i ++ [c]) := by
  have h : (fun k' => Function.update head (i * numList + k) (head (i * numList + k) ++ [c])
      (i * numList + k')) = Function.update (fun k' => head (i * numList + k')) k
        (head (i * numList + k) ++ [c]) := by
    funext k'
    rcases eq_or_ne k' k with rfl | h
    · simp
    · rw [Function.update_of_ne (by omega), Function.update_of_ne h]
  unfold chunksOf
  rw [h]
  exact flatMap_update (fun k' => head (i * numList + k')) c hk

/-- The chunks of the other partitions stay as they are. -/
theorem chunksOf_update_of_ne (hk : k < numList) (hij : i ≠ j) (v : List LbaChunk) :
    chunksOf numList (Function.update head (i * numList + k) v) j = chunksOf numList head j := by
  refine List.flatMap_congr fun k' hk' => Function.update_of_ne (fun h => hij ?_) _ _
  have hlt := List.mem_range.1 hk'
  have hdiv : ∀ a b, b < numList → (a * numList + b) / numList = a := fun a b hb => by
    rw [Nat.add_comm, Nat.add_mul_div_right _ _ (by omega), Nat.div_eq_of_lt hb, Nat.zero_add]
  rw [← hdiv i k hk, ← h, hdiv j k' hlt]

end

/-! ### One pass over the table -/

/-- What the inner loop does: unless the index of a list does not fit an `int`, every partition
gets its chunk. -/
theorem SplitState.ends_dump {nrParts numList g : ℕ} (hn : 0 < nrParts) (s : SplitState)
    (hk : s.curChunk < numList) :
    Ends (s.dump nrParts numList g)
      (fun t => t = { s with head := t.head } ∧
        (nrParts - 1) * numList + s.curChunk < 2 ^ 31 ∧
        ∀ i < nrParts, (chunksOf numList t.head i).Perm
          (chunksOf numList s.head i ++ [dumpChunk nrParts i s.startLpn (g - 1) s.count]))
      (fun _ => 2 ^ 31 ≤ (nrParts - 1) * numList + s.curChunk) := by
  have hloop := Ends.forRange (n := nrParts) (s := s)
    (b := fun i s => do
      let curIdx := i * numList + s.curChunk
      defined (curIdx < 2 ^ 31)
      let lpn := dumpChunk nrParts i s.startLpn (g - 1) s.count
      .ok { s with head := Function.update s.head curIdx (s.head curIdx ++ [lpn]) })
    (fun j t => t = { s with head := t.head } ∧
      (j ≠ 0 → (j - 1) * numList + s.curChunk < 2 ^ 31) ∧
      (∀ i < j, (chunksOf numList t.head i).Perm
        (chunksOf numList s.head i ++ [dumpChunk nrParts i s.startLpn (g - 1) s.count])) ∧
      ∀ i, j ≤ i → chunksOf numList t.head i = chunksOf numList s.head i)
    (E := fun _ => 2 ^ 31 ≤ (nrParts - 1) * numList + s.curChunk)
    ⟨rfl, by simp, by simp, fun _ _ => rfl⟩ ?_
  · exact hloop.mono (fun t ⟨ht, hidx, hdone, _⟩ => ⟨ht, hidx (by omega), hdone⟩) fun _ h => h
  · rintro j hj t ⟨ht, hidx, hdone, hrest⟩
    have hcur : t.curChunk = s.curChunk := by rw [ht]
    have hstart : t.startLpn = s.startLpn := by rw [ht]
    have hcount : t.count = s.count := by rw [ht]
    have hmono : j * numList ≤ (nrParts - 1) * numList := Nat.mul_le_mul_right _ (by omega)
    refine Ends.bind (Q := fun _ => j * numList + t.curChunk < 2 ^ 31)
      (ends_defined_or.mono (fun _ h => h) fun _ h => by omega) fun _ hdef => ?_
    rw [hcur] at hdef
    simp only [ends_ok, hcur, hstart, hcount]
    refine ⟨by rw [ht], fun _ => by simpa using hdef, fun i hi => ?_, fun i hi => ?_⟩
    · rcases Nat.lt_succ_iff_lt_or_eq.1 hi with hlt | rfl
      · rw [chunksOf_update_of_ne hk (by omega)]
        exact hdone i hlt
      · rw [← hrest i le_rfl]
        exact chunksOf_update hk
    · rw [chunksOf_update_of_ne hk (by omega)]
      exact hrest i (by omega)

/-- The number of rounds after which `create_list_from_table_split` moves on to the next list. -/
def ConvNs.splitLen (ns : ConvNs) (numList : ℕ) : ℕ := max 1 (ns.totalLpnCount / numList)

/-- The list in use after `n` rounds. -/
def ConvNs.listAt (ns : ConvNs) (numList n : ℕ) : ℕ := min (numList - 1) (n / ns.splitLen numList)

/-- **The sizes the code can count:** the array of the lists fits the address space, `cur_chunk`
stays an `int`, and so does the index of each list a run that ends at a page `l` is put in. -/
structure ConvNs.ListsFit (ns : ConvNs) (numList : ℕ) : Prop where
  array : 16 * numList * ns.nrParts < 2 ^ 64
  cur : min numList (ns.totalLpnCount / ns.splitLen numList) < 2 ^ 31
  idx : ∀ l, ns.mapped l → ¬ ns.mapped (l + 1) →
    (ns.nrParts - 1) * numList + ns.listAt numList (min (l + 2) ns.totalLpnCount) < 2 ^ 31

/-- Fewer than `2^31` lists always fit. -/
theorem ConvNs.ListsFit.of_lt {ns : ConvNs} {numList : ℕ} (hn : 0 < ns.nrParts)
    (hl : 0 < numList) (h : ns.nrParts * numList < 2 ^ 31) : ns.ListsFit numList where
  array := by
    rw [Nat.mul_assoc, Nat.mul_comm numList]
    omega
  cur := by
    have := Nat.le_mul_of_pos_left numList hn
    omega
  idx l _ _ := by
    have hsub : (ns.nrParts - 1) * numList + numList = ns.nrParts * numList := by
      rw [← Nat.succ_mul, show (ns.nrParts - 1).succ = ns.nrParts by omega]
    unfold listAt
    omega

/-- What holds after `g` rounds, with the runs closed so far. -/
structure ConvNs.SplitInv (ns : ConvNs) (numList g : ℕ) (s : SplitState) (rs : List (ℕ × ℕ)) :
    Prop where
  scanned : RunScan ns.mapped g s.count rs
  start : s.count ≠ 0 → s.startLpn = g - s.count
  idx : ∀ r ∈ rs,
    (ns.nrParts - 1) * numList + ns.listAt numList (min (r.2 + 2) ns.totalLpnCount) < 2 ^ 31
  chunks : ∀ i < ns.nrParts,
    (chunksOf numList s.head i).Perm (rs.map (chunkOfRun ns.nrParts i))

/-- Where the counters of the lists stand after `g` rounds. -/
structure ConvNs.ListInv (ns : ConvNs) (numList g : ℕ) (s : SplitState) : Prop where
  real : s.totalRealCount = g % ns.splitLen numList
  cur : s.curChunk = ns.listAt numList g
  fits : min numList (g / ns.splitLen numList) < 2 ^ 31

section

variable {ns : ConvNs} {numList g : ℕ} {s : SplitState} {rs : List (ℕ × ℕ)}

/-- Counting one more round keeps the counters in place. -/
theorem ConvNs.ListInv.nextList (hl : 0 < numList) (h : ns.ListInv numList g s)
    (hg : g < ns.totalLpnCount) :
    Ends (s.nextList numList (ns.totalLpnCount / numList))
      (fun t => ns.ListInv numList (g + 1) t ∧
        t = { s with totalRealCount := t.totalRealCount, curChunk := t.curChunk })
      fun _ => ¬ ns.ListsFit numList := by
  have hlen : 0 < ns.splitLen numList := by unfold splitLen; omega
  have hreal := h.real
  have hcur := h.cur
  have hfits := h.fits
  unfold listAt at hcur
  have hmod := Nat.mod_lt g hlen
  have hle : ns.totalLpnCount / numList ≤ s.totalRealCount + 1 ↔
      ns.splitLen numList ≤ s.totalRealCount + 1 := by
    unfold splitLen
    omega
  unfold SplitState.nextList
  by_cases hif : ns.totalLpnCount / numList ≤ s.totalRealCount + 1
  · rw [if_pos hif]
    have hsum : g + 1 = ns.splitLen numList * (g / ns.splitLen numList + 1) := by
      have := Nat.div_add_mod g (ns.splitLen numList)
      rw [Nat.mul_succ]
      omega
    have hdiv : (g + 1) / ns.splitLen numList = g / ns.splitLen numList + 1 := by
      rw [hsum, Nat.mul_div_cancel_left _ hlen]
    have hle : (g + 1) / ns.splitLen numList ≤ ns.totalLpnCount / ns.splitLen numList :=
      Nat.div_le_div_right hg
    refine Ends.bind (Q := fun _ => s.curChunk + 1 < 2 ^ 31)
      (ends_defined_or.mono (fun _ h => h) fun _ h hfit => ?_) fun _ hdef => ?_
    · have := hfit.cur
      omega
    · refine ⟨⟨?_, ?_, ?_⟩, rfl⟩
      · rw [hsum, Nat.mul_mod_right]
      · unfold listAt
        rw [hdiv]
        simp only
        split_ifs <;> omega
      · rw [hdiv]
        omega
  · rw [if_neg hif]
    have hsum : g + 1 = s.totalRealCount + 1 + ns.splitLen numList * (g / ns.splitLen numList) := by
      have := Nat.div_add_mod g (ns.splitLen numList)
      omega
    have hlt : s.totalRealCount + 1 < ns.splitLen numList := by omega
    have hdiv : (g + 1) / ns.splitLen numList = g / ns.splitLen numList := by
      rw [hsum, Nat.add_mul_div_left _ _ hlen, Nat.div_eq_of_lt hlt, Nat.zero_add]
    refine ⟨⟨?_, ?_, ?_⟩, rfl⟩
    · rw [hsum, Nat.add_mul_mod_self_left, Nat.mod_eq_of_lt hlt]
    · unfold listAt
      rw [hdiv]
      exact hcur
    · rw [hdiv]
      exact hfits

/-- A run closed before the page `g` is put in the list in use. -/
theorem ConvNs.SplitInv.dump (hn : 0 < ns.nrParts) (hg : 0 < g) (h : ns.SplitInv numList g s rs)
    (hc : s.count ≠ 0) (hp : ¬ ns.mapped g) (hcur : s.curChunk < numList)
    (hlist : s.curChunk = ns.listAt numList (min (g + 1) ns.totalLpnCount)) :
    Ends (s.dump ns.nrParts numList g)
      (fun t => t = { s with head := t.head } ∧
        ns.SplitInv numList (g + 1) { t with count := 0 } (rs ++ [(g - s.count, g - 1)]))
      fun _ => ¬ ns.ListsFit numList := by
  have hle := h.scanned.le
  have hlast : ns.mapped (g - 1) := h.scanned.all (g - 1) (by omega) (by omega)
  rw [show g + 1 = g - 1 + 2 by omega] at hlist
  refine (s.ends_dump hn hcur).mono (fun t ⟨ht, hidx, hchunks⟩ => ⟨ht, ?_⟩) fun _ he hfit => ?_
  · refine ⟨h.scanned.close hp (by omega), fun h0 => absurd rfl h0, fun r hr => ?_, fun i hi => ?_⟩
    · rcases List.mem_append.1 hr with hr | hr
      · exact h.idx r hr
      · rw [List.mem_singleton.1 hr, ← hlist]
        exact hidx
    · rw [List.map_append, List.map_singleton]
      refine (hchunks i hi).trans ?_
      unfold chunkOfRun
      rw [h.start hc, show g - 1 + 1 - (g - s.count) = s.count by omega]
      exact (h.chunks i hi).append_right _
  · have := hfit.idx (g - 1) hlast (by rwa [show g - 1 + 1 = g by omega])
    rw [← hlist] at this
    omega

/-- One round of the pass. -/
theorem ConvNs.ends_splitRound (hn : 0 < ns.nrParts) (hl : 0 < numList)
    (hg : g < ns.totalLpnCount) (hlist : ns.ListInv numList g s)
    (h : ns.SplitInv numList g s rs) :
    Ends (ns.splitRound numList g s)
      (fun t => ns.ListInv numList (g + 1) t ∧ ∃ rs, ns.SplitInv numList (g + 1) t rs)
      fun _ => ¬ ns.ListsFit numList := by
  refine (hlist.nextList hl hg).bind ?_
  rintro t ⟨hlist', ht⟩
  have hinv : ns.SplitInv numList g t rs := by
    rw [ht]
    exact ⟨h.scanned, h.start, h.idx, h.chunks⟩
  have hcur : t.curChunk < numList := by
    rw [hlist'.cur]
    unfold listAt
    omega
  by_cases hmap : mappedPpa ((ns.ftls (g % ns.nrParts)).maptbl (g / ns.nrParts))
  · simp only [if_pos hmap]
    have hp : ns.mapped g := ⟨hg, hmap⟩
    refine ⟨⟨hlist'.real, hlist'.cur, hlist'.fits⟩, rs, hinv.scanned.extend hp, fun _ => ?_,
      hinv.idx, hinv.chunks⟩
    have hle := hinv.scanned.le
    simp only
    split_ifs with h0
    · omega
    · rw [hinv.start h0]
      omega
  have hp : ¬ ns.mapped g := fun hp => hmap hp.2
  simp only [if_neg hmap]
  by_cases hcount : t.count ≠ 0
  · rw [if_pos hcount]
    have hg0 : 0 < g := by have := hinv.scanned.le; omega
    refine (hinv.dump hn hg0 hcount hp hcur (by rw [hlist'.cur, min_eq_left (by omega)])).bind ?_
    rintro r ⟨hr, hinv'⟩
    refine ⟨?_, _, hinv'⟩
    rw [hr]
    exact ⟨hlist'.real, hlist'.cur, hlist'.fits⟩
  · rw [if_neg hcount]
    have hcount : t.count = 0 := not_not.1 hcount
    refine ⟨hlist', rs, ?_, fun h0 => absurd hcount h0, hinv.idx, hinv.chunks⟩
    have hs := hinv.scanned
    rw [hcount] at hs ⊢
    exact hs.skip hp

end

/-- **What the pass leaves:** unless a counter does not fit, each partition has the chunks of the
maximal runs of mapped pages, spread over its lists. -/
theorem ConvNs.ends_createList (ns : ConvNs) (hn : 0 < ns.nrParts) {numList : ℕ}
    (hl : 0 < numList) :
    Ends (ns.createListFromTableSplit numList)
      (fun head => ns.ListsFit numList ∧ ∃ rs, RunScan ns.mapped (ns.totalLpnCount + 1) 0 rs ∧
        ∀ i < ns.nrParts,
          (chunksOf numList head i).Perm (rs.map (chunkOfRun ns.nrParts i)))
      fun _ => ¬ ns.ListsFit numList := by
  unfold createListFromTableSplit
  refine Ends.bind (Q := fun _ => 16 * numList * ns.nrParts < 2 ^ 64)
    (ends_defined_or.mono (fun _ h => h) fun _ h hfit => h hfit.array) fun _ harray => ?_
  have hloop := Ends.forRange (n := ns.totalLpnCount) (b := fun g s => ns.splitRound numList g s)
    (s := { totalRealCount := 0, curChunk := 0, startLpn := 0, count := 0, head := fun _ => [] })
    (fun g s => ns.ListInv numList g s ∧ ∃ rs, ns.SplitInv numList g s rs)
    (E := fun _ => ¬ ns.ListsFit numList) ?_ ?_
  · refine hloop.bind ?_
    rintro s ⟨hlist, rs, h⟩
    have hp : ¬ ns.mapped ns.totalLpnCount := fun hp => lt_irrefl _ hp.1
    have hcur : s.curChunk < numList := by
      rw [hlist.cur]
      unfold listAt
      omega
    have hdone : ∀ head rs, RunScan ns.mapped (ns.totalLpnCount + 1) 0 rs →
        (∀ r ∈ rs, (ns.nrParts - 1) * numList +
          ns.listAt numList (min (r.2 + 2) ns.totalLpnCount) < 2 ^ 31) →
        (∀ i < ns.nrParts,
          (chunksOf numList head i).Perm (rs.map (chunkOfRun ns.nrParts i))) →
        ns.ListsFit numList ∧ ∃ rs, RunScan ns.mapped (ns.totalLpnCount + 1) 0 rs ∧
          ∀ i < ns.nrParts,
            (chunksOf numList head i).Perm (rs.map (chunkOfRun ns.nrParts i)) := by
      intro head rs hs hidx hchunks
      refine ⟨⟨harray, hlist.fits, fun l hl hend => ?_⟩, rs, hs, hchunks⟩
      obtain ⟨r, hr, rfl⟩ := hs.exists_end (by have := hl.1; omega) hl hend
      exact hidx r hr
    by_cases hcount : s.count ≠ 0
    · rw [if_pos hcount]
      have hpos : 0 < ns.totalLpnCount := by have := h.scanned.le; omega
      refine (h.dump hn hpos hcount hp hcur (by rw [hlist.cur, min_eq_right (by omega)])).bind ?_
      rintro t ⟨_, h'⟩
      exact hdone t.head _ h'.scanned h'.idx h'.chunks
    · rw [if_neg hcount]
      have hs := h.scanned
      rw [not_not.1 hcount] at hs
      exact hdone s.head rs (hs.skip hp) h.idx h.chunks
  · refine ⟨⟨by simp, by simp [listAt], by simp⟩, [], RunScan.nil, fun h => absurd rfl h, by simp,
      fun i _ => ?_⟩
    simp [chunksOf]
  · rintro g hg s ⟨hlist, rs, h⟩
    exact ends_splitRound hn hl hg hlist h

/-! ### The chunks are a partition -/

/-- In an exact partition no run of mapped pages ends below the number of the last partition: the
run would put an unmapped page into a chunk. -/
theorem ConvNs.ExactPartition.mapped_succ {ns : ConvNs} (hn : 0 < ns.nrParts)
    (hn32 : ns.nrParts < 2 ^ 32) {numList : ℕ} (hl : 0 < numList) {head : ℕ → List LbaChunk}
    (hok : ns.createListFromTableSplit numList = .ok head) (hpart : ns.ExactPartition numList head)
    {l : ℕ} (hlt : l + 1 < ns.nrParts) (hmap : ns.mapped l) : ns.mapped (l + 1) := by
  obtain ⟨-, rs, hs, hchunks⟩ := (ns.ends_createList hn hl).of_ok hok
  by_contra hend
  obtain ⟨r, hr, rfl⟩ := hs.exists_end (by have := hmap.1; omega) hmap hend
  have hmem := mem_dumpChunk_pages_of_lt hn32 hlt (hs.runs r hr).le
    (Nat.lt_succ_self _) (r.2 + 1 - r.1)
  refine hend (((hpart _ hlt).2 _).1 ⟨_, ?_, hmem⟩).1
  exact (hchunks _ hlt).mem_iff.2 (List.mem_map_of_mem hr)

/-- **When the chunks are an exact partition:** the lists fit, and no run of mapped pages ends
below the number of the last partition.  `nr_parts` is a `uint32_t`, and `conv_init_ftl` counts to
`tt_pgs` in an `int`. -/
theorem exactPartition_iff (ns : ConvNs) (hn : 0 < ns.nrParts) (hn32 : ns.nrParts < 2 ^ 32)
    (ht : ns.sp.ttPgs < 2 ^ 31) {numList : ℕ} (hl : 0 < numList) :
    (∃ head, ns.createListFromTableSplit numList = .ok head ∧ ns.ExactPartition numList head) ↔
      ns.ListsFit numList ∧ ∀ l, l + 1 < ns.nrParts → ns.mapped l → ns.mapped (l + 1) := by
  have hspec := ns.ends_createList hn hl
  have htotal : ns.totalLpnCount < 2 ^ 63 := by
    have := Nat.mul_lt_mul'' ht hn32
    unfold ConvNs.totalLpnCount
    omega
  constructor
  · rintro ⟨head, hok, hpart⟩
    exact ⟨(hspec.of_ok hok).1, fun l hlt hmap => hpart.mapped_succ hn hn32 hl hok hlt hmap⟩
  · rintro ⟨hfit, hup⟩
    obtain ⟨head, hok, _, rs, hs, hchunks⟩ := (hspec.mono (fun _ h => h) fun _ h => h hfit).exists_ok
    have hend : ∀ r ∈ rs, ns.nrParts ≤ r.2 + 1 := fun r hr => by
      have hrun := hs.runs r hr
      by_contra hlt
      exact hrun.after (hup r.2 (by omega) (hrun.all r.2 hrun.le le_rfl))
    have hlast : ∀ r ∈ rs, r.2 < 2 ^ 63 := fun r hr => by
      have := ((hs.runs r hr).all r.2 (hs.runs r hr).le le_rfl).1
      omega
    have hpages : ∀ i < ns.nrParts, ∀ r ∈ rs, ∀ l,
        l ∈ (chunkOfRun ns.nrParts i r).pages ns.nrParts ↔
          r.1 ≤ l ∧ l ≤ r.2 ∧ l % ns.nrParts = i := fun i hi r hr =>
      mem_dumpChunk_pages hn32 hi (hs.runs r hr).le (hlast r hr) (by have := hend r hr; omega)
    refine ⟨head, hok, fun i hi => ⟨?_, fun l => ?_⟩⟩
    · rw [(hchunks i hi).pairwise_iff fun h => h.symm, List.pairwise_map]
      refine hs.sorted.imp_of_mem fun ha hb hab => Set.disjoint_left.2 fun l hla hlb => ?_
      have h1 := ((hpages i hi _ ha l).1 hla).2.1
      have h2 := ((hpages i hi _ hb l).1 hlb).1
      omega
    · constructor
      · rintro ⟨c, hc, hlc⟩
        obtain ⟨r, hr, rfl⟩ := List.mem_map.1 ((hchunks i hi).mem_iff.1 hc)
        obtain ⟨h1, h2, h3⟩ := (hpages i hi r hr l).1 hlc
        exact ⟨(hs.runs r hr).all l h1 h2, h3⟩
      · rintro ⟨hmap, hmod⟩
        obtain ⟨r, hr, h1, h2⟩ := hs.covers l (by have := hmap.1; omega) hmap
        exact ⟨_, (hchunks i hi).mem_iff.2 (List.mem_map_of_mem hr),
          (hpages i hi r hr l).2 ⟨h1, h2, hmod⟩⟩

/-- A tiny device of two partitions. -/
def twoPartConfigs : FtlConfigs := { tinyConfigs with ssdPartitions := 2, nandChannels := 2 }

/-- The first two pages are written, and the table is cut into one list a partition. -/
theorem exactPartition_two : ∃ ns₀ ns head, convInitNamespace (2 * tinySize) twoPartConfigs = .ok ns₀ ∧
    runList ConvNs.exec ns₀ [.write 0 15] = .ok ns ∧
    ns.createListFromTableSplit 1 = .ok head ∧ ns.ExactPartition 1 head := by
  have hcheck : (convInitNamespace (2 * tinySize) twoPartConfigs).toOption.any (fun ns =>
      (runList ConvNs.exec ns [.write 0 15]).toOption.any fun ns =>
        decide (ns.nrParts = 2 ∧ ns.sp.ttPgs = 12 ∧ ns.mapped 1)) = true := by
    decide +kernel
  obtain ⟨ns₀, hinit, hp⟩ := exists_ok_of_any hcheck
  obtain ⟨ns, hrun, hp⟩ := exists_ok_of_any hp
  obtain ⟨hn, ht, hmap⟩ := of_decide_eq_true hp
  obtain ⟨head, hok, hpart⟩ := (exactPartition_iff ns (by omega) (by omega) (by omega)
    Nat.one_pos).2 ⟨.of_lt (by omega) Nat.one_pos (by omega), fun l hl _ => by
      rwa [show l + 1 = 1 by omega]⟩
  exact ⟨ns₀, ns, head, hinit, hrun, hok, hpart⟩

/-- **Only the first page is written:** the chunk of the second partition runs to the end of the
64-bit range. -/
theorem onePage_not_exactPartition : ∃ ns₀ ns head,
    convInitNamespace (2 * tinySize) twoPartConfigs = .ok ns₀ ∧
    runList ConvNs.exec ns₀ [.write 0 7] = .ok ns ∧ ns.createListFromTableSplit 1 = .ok head ∧
    head 1 = [generateLpn 1 (2 ^ 64 - 1) 1 1 (-1) (-1)] ∧ ¬ ns.ExactPartition 1 head := by
  have hcheck : (convInitNamespace (2 * tinySize) twoPartConfigs).toOption.any (fun ns =>
      (runList ConvNs.exec ns [.write 0 7]).toOption.any fun ns =>
        (ns.createListFromTableSplit 1).toOption.any fun head => decide (
          ns.nrParts = 2 ∧ ns.mapped 0 ∧ ¬ ns.mapped 1 ∧
          head 1 = [generateLpn 1 (2 ^ 64 - 1) 1 1 (-1) (-1)])) = true := by
    decide +kernel
  obtain ⟨ns₀, hinit, hp⟩ := exists_ok_of_any hcheck
  obtain ⟨ns, hrun, hp⟩ := exists_ok_of_any hp
  obtain ⟨head, hok, hp⟩ := exists_ok_of_any hp
  obtain ⟨hn, hmap, hnot, hhead⟩ := of_decide_eq_true hp
  refine ⟨ns₀, ns, head, hinit, hrun, hok, hhead, fun hpart => hnot ?_⟩
  exact hpart.mapped_succ (by omega) (by omega) Nat.one_pos hok (by omega) hmap

end NvmeVirt
