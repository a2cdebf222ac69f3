/-
# Counting the fragmentation of the whole device

`check_physical_fragmentation` of `main.c` hands the maximal runs of mapped pages to
`phfrag_check` of `check_phfrag.c`, in pieces of 40 pages.  `phfrag_check` takes its
arguments for logical blocks and divides them by the blocks of a page once more: it
looks at the pages from an eighth of the first to an eighth of the last number of a
piece.  So the pair of the pages `l` and `l + nr_parts` is counted not where these two
lie in one run, but where the pages `8 l + 7` and `8 (l + nr_parts)` lie in one piece.

`counted` is a history variable: the first pages of the pairs that are counted.
-/

import NvmeVirt.Lib.Sums
import NvmeVirt.ConvFtl.Chunks

namespace NvmeVirt

open Outcome Intervals Sums

/-- The fields of `struct nvmev_config` the check works on. -/
structure PhfragConfig where
  inputLba : ℕ
  lbaLen : ℕ
  count : ℕ
  counted : Multiset ℕ
  deriving DecidableEq

/-- `is_same_oneshot_page`. -/
def isSameOneshotPage (spp : Ssdparams) (ppa1 ppa2 : Ppa) : Prop :=
  ppa1.blkAddr = ppa2.blkAddr ∧ ppa1.pg / spp.pgsPerOneshotpg = ppa2.pg / spp.pgsPerOneshotpg

instance (spp : Ssdparams) (ppa1 ppa2 : Ppa) : Decidable (isSameOneshotPage spp ppa1 ppa2) :=
  inferInstanceAs (Decidable (_ ∧ _))

/-- `predict_next_ch` and `predict_next_die`. -/
def predictNext (spp : Ssdparams) (pre : Ppa) : ℕ × ℕ :=
  if spp.nchs ≤ pre.ch + 1 then (0, if spp.lunsPerCh ≤ pre.lun + 1 then 0 else pre.lun + 1)
  else (pre.ch + 1, pre.lun)

/-- `is_next_correct`. -/
def isNextCorrect (spp : Ssdparams) (pre next : Ppa) : Prop :=
  isSameOneshotPage spp pre next ∨ (next.ch, next.lun) = predictNext spp pre

instance (spp : Ssdparams) (pre next : Ppa) : Decidable (isNextCorrect spp pre next) :=
  inferInstanceAs (Decidable (_ ∨ _))

/-- `small_chunk_size`. -/
def smallChunkSize : ℕ := 40

/-- The variables of `create_list_from_table` its loop changes. -/
structure TableScan where
  startLpn : ℕ
  count : ℕ
  chunks : List LbaChunk

namespace ConvNs

variable (ns : ConvNs)

/-- The pages `startLpn, startLpn + nr_parts, …` of the loop of `phfrag_check`, all of one
partition; `counts` are the count and the pairs behind it. -/
def checkPart (startLpn endLpn : ℕ) (counts : ℕ × Multiset ℕ) :
    Except Fault (ℕ × Multiset ℕ) := do
  let q := startLpn % ns.nrParts
  let prevPpa ← (ns.ftls q).getMaptblEnt (startLpn / ns.nrParts)
  let c ← forRange ((endLpn - startLpn) / ns.nrParts + 1)
    (fun i (c : Ppa × ℕ × Multiset ℕ) => do
      let lpn := startLpn + i * ns.nrParts
      let curPpa ← (ns.ftls q).getMaptblEnt (lpn / ns.nrParts)
      .ok (curPpa, if isNextCorrect (ns.ftls q).ssd.sp c.1 curPpa then c.2
        else (c.2.1 + 1, (lpn - ns.nrParts) ::ₘ c.2.2)))
    (prevPpa, counts)
  .ok c.2

/-- `phfrag_check`, with what it returns. -/
def phfragCheck (cfg : PhfragConfig) : Except Fault (Bool × PhfragConfig) := do
  defined (0 < ns.nrParts)
  let startLpn := cfg.inputLba / ns.sp.secsPerPg
  let endLpn := u64 (cfg.inputLba + cfg.lbaLen + 2 ^ 64 - 1) / ns.sp.secsPerPg
  if ns.sp.ttPgs ≤ endLpn / ns.nrParts then return (false, cfg)
  let (count, counted) ← forRange (min ns.nrParts (endLpn + 1 - startLpn))
    (fun i counts => ns.checkPart (startLpn + i) endLpn counts) (0, 0)
  return (true, { cfg with count := cfg.count + count, counted := cfg.counted + counted })

/-- One round of the loop of `create_list_from_table`. -/
def tableRound (s : TableScan) (globalLpn : ℕ) : TableScan :=
  let ppa := (ns.ftls (globalLpn % ns.nrParts)).maptbl (globalLpn / ns.nrParts)
  if mappedPpa ppa then
    { s with
      startLpn := if s.count = 0 then globalLpn else s.startLpn
      count := s.count + 1 }
  else if s.count ≠ 0 then
    { s with
      chunks := s.chunks ++ [generateLpn s.startLpn (globalLpn - 1) s.count 0 (-1) (-1)]
      count := 0 }
  else s

/-- `create_list_from_table`. -/
def createListFromTable : List LbaChunk :=
  let s := (List.range ns.totalLpnCount).foldl ns.tableRound ⟨0, 0, []⟩
  if s.count ≠ 0 then
    s.chunks ++ [generateLpn s.startLpn (ns.totalLpnCount - 1) s.count 0 (-1) (-1)]
  else s.chunks

/-- The loop of `check_physical_fragmentation` over the pieces of a chunk; a piece is at least one
page. -/
def checkChunk : ℕ → ℕ → ℕ → PhfragConfig → Except Fault PhfragConfig
  | 0, _, _, cfg => .ok cfg
  | fuel + 1, startLpn, endLpn, cfg =>
    if startLpn ≤ endLpn then do
      let lbaLen := min (endLpn - startLpn + 1) smallChunkSize
      let (_, cfg) ← ns.phfragCheck { cfg with inputLba := startLpn, lbaLen := lbaLen }
      checkChunk fuel (startLpn + lbaLen) endLpn cfg
    else .ok cfg

/-- `check_physical_fragmentation` for `PHFRAG`. -/
def checkPhysicalFragmentation (cfg : PhfragConfig) : Except Fault PhfragConfig :=
  runList (fun cfg (lpn : LbaChunk) =>
      ns.checkChunk (lpn.endLpn + 1 - lpn.startLpn) lpn.startLpn lpn.endLpn cfg)
    { cfg with count := 0, counted := 0 } ns.createListFromTable

/-! ### What is counted -/

/-- The entry of the table for a logical page of the namespace. -/
def pageOf (l : ℕ) : Ppa := (ns.ftls (l % ns.nrParts)).maptbl (l / ns.nrParts)

/-- The next page of the partition is not where it should be. -/
def Broken (l : ℕ) : Prop :=
  ¬ isNextCorrect (ns.ftls (l % ns.nrParts)).ssd.sp (ns.pageOf l) (ns.pageOf (l + ns.nrParts))

instance (l : ℕ) : Decidable (ns.Broken l) := inferInstanceAs (Decidable (¬ _))

/-- Both pages lie in one maximal run of mapped pages. -/
def SameRun (l m : ℕ) : Prop := ∃ r, IsRun ns.mapped r ∧ r.1 ≤ l ∧ m ≤ r.2

/-- The starts of the pieces of a run. -/
def pieces (r : ℕ × ℕ) : Finset ℕ :=
  (Finset.Icc r.1 r.2).filter fun a => smallChunkSize ∣ a - r.1

/-- Both pages lie in one piece of a maximal run. -/
def SamePiece (l m : ℕ) : Prop :=
  ∃ r, IsRun ns.mapped r ∧ ∃ a ∈ pieces r, a ≤ l ∧ m ≤ min r.2 (a + (smallChunkSize - 1))

open Classical in
/-- The number of broken pairs in the runs. -/
noncomputable def brokenPairs : ℕ :=
  ((Finset.range ns.totalLpnCount).filter fun l =>
    ns.SameRun l (l + ns.nrParts) ∧ ns.Broken l).card

/-- **Each broken pair of a run is counted once,** and nothing else is. -/
structure CountsEachOnce (cfg : PhfragConfig) : Prop where
  count : cfg.count = ns.brokenPairs
  once : cfg.counted.Nodup
  pairs : ∀ l, l ∈ cfg.counted ↔ ns.SameRun l (l + ns.nrParts) ∧ ns.Broken l

open Classical in
/-- The maximal runs of mapped pages. -/
noncomputable def runs : Finset (ℕ × ℕ) :=
  (Finset.range ns.totalLpnCount ×ˢ Finset.range ns.totalLpnCount).filter (IsRun ns.mapped)

/-- The pair of a page, if it is broken. -/
def brokenAt (l : ℕ) : Multiset ℕ := if ns.Broken l then {l} else 0

/-- The broken pairs `phfrag_check` finds between two numbers. -/
def piecePairs (first last : ℕ) : Multiset ℕ :=
  ∑ l ∈ Finset.Ico (first / ns.sp.secsPerPg) (last / ns.sp.secsPerPg + 1 - ns.nrParts),
    ns.brokenAt l

end ConvNs

/-- The configuration with further pairs counted. -/
def PhfragConfig.add (cfg : PhfragConfig) (pairs : Multiset ℕ) : PhfragConfig :=
  { cfg with count := cfg.count + pairs.card, counted := cfg.counted + pairs }

namespace ConvNs

section

variable {ns : ConvNs} {startLpn endLpn fuel : ℕ} {cfg : PhfragConfig} {rs : List (ℕ × ℕ)}

/-- The instances have one geometry. -/
def SameParams (ns : ConvNs) : Prop := ∀ q < ns.nrParts, (ns.ftls q).ssd.sp = ns.sp

/-! ### One piece -/

/-- A page is where it should be behind itself. -/
theorem isNextCorrect_self (spp : Ssdparams) (p : Ppa) : isNextCorrect spp p p :=
  .inl ⟨rfl, rfl⟩

/-- A broken pair along the pages of a partition. -/
theorem broken_stride (startLpn i : ℕ) : ns.Broken (startLpn + i * ns.nrParts) ↔
    ¬ isNextCorrect (ns.ftls (startLpn % ns.nrParts)).ssd.sp
      (ns.pageOf (startLpn + i * ns.nrParts)) (ns.pageOf (startLpn + (i + 1) * ns.nrParts)) := by
  unfold Broken
  rw [Nat.add_mul_mod_self_right, Nat.succ_mul, Nat.add_assoc]

/-- **The loop over the pages of a partition** counts the broken pairs among them. -/
theorem checkPart_eq (hn : 0 < ns.nrParts) (hsp : ns.SameParams) (hle : startLpn ≤ endLpn)
    (hend : endLpn / ns.nrParts < ns.sp.ttPgs) (s : Multiset ℕ) :
    ns.checkPart startLpn endLpn (s.card, s) =
      .ok ((s + ∑ j ∈ Finset.range ((endLpn - startLpn) / ns.nrParts),
          ns.brokenAt (startLpn + j * ns.nrParts)).card,
        s + ∑ j ∈ Finset.range ((endLpn - startLpn) / ns.nrParts),
          ns.brokenAt (startLpn + j * ns.nrParts)) := by
  have hq := Nat.mod_lt startLpn hn
  have hent : ∀ l, l ≤ endLpn → (ns.ftls (startLpn % ns.nrParts)).getMaptblEnt (l / ns.nrParts) =
      .ok ((ns.ftls (startLpn % ns.nrParts)).maptbl (l / ns.nrParts)) := fun l hl =>
    defined_bind (hsp _ hq ▸ lt_of_le_of_lt (Nat.div_le_div_right hl) hend) _
  have hpage : ∀ j, (ns.ftls (startLpn % ns.nrParts)).maptbl
      ((startLpn + j * ns.nrParts) / ns.nrParts) = ns.pageOf (startLpn + j * ns.nrParts) := by
    intro j
    unfold pageOf
    rw [Nat.add_mul_mod_self_right]
  have hloop : Ends (forRange ((endLpn - startLpn) / ns.nrParts + 1)
      (fun i (c : Ppa × ℕ × Multiset ℕ) => do
        let lpn := startLpn + i * ns.nrParts
        let curPpa ← (ns.ftls (startLpn % ns.nrParts)).getMaptblEnt (lpn / ns.nrParts)
        .ok (curPpa, if isNextCorrect (ns.ftls (startLpn % ns.nrParts)).ssd.sp c.1 curPpa then c.2
          else (c.2.1 + 1, (lpn - ns.nrParts) ::ₘ c.2.2)))
      (ns.pageOf startLpn, s.card, s) : Except Fault (Ppa × ℕ × Multiset ℕ))
      (fun c => c.2.1 = c.2.2.card ∧ c.2.2 = s + ∑ j ∈ Finset.range ((endLpn - startLpn) / ns.nrParts),
        ns.brokenAt (startLpn + j * ns.nrParts)) fun _ => False := by
    -- Behind round `i` the page before is the one of round `i`, and `i` pairs have been looked at.
    refine (Ends.forRange (fun i (c : Ppa × ℕ × Multiset ℕ) =>
      c.1 = ns.pageOf (startLpn + (i - 1) * ns.nrParts) ∧ c.2.1 = c.2.2.card ∧
        c.2.2 = s + ∑ j ∈ Finset.range (i - 1), ns.brokenAt (startLpn + j * ns.nrParts))
      ?_ fun i hi c hc => ?_).mono (fun c hc => hc.2) fun _ h => h
    · rw [Nat.zero_sub, Nat.zero_mul, Nat.add_zero, Finset.sum_range_zero, add_zero]
      exact ⟨rfl, rfl, rfl⟩
    · obtain ⟨prev, count, counted⟩ := c
      obtain ⟨hprev, hcount, hcounted⟩ := hc
      dsimp only at hprev hcount hcounted
      have hl : startLpn + i * ns.nrParts ≤ endLpn := by
        have := Nat.mul_le_mul_right ns.nrParts (Nat.lt_succ_iff.1 hi)
        have := Nat.div_mul_le_self (endLpn - startLpn) ns.nrParts
        omega
      dsimp only
      rw [hent _ hl, ok_bind, hpage, hprev, ends_ok, Nat.add_sub_cancel]
      cases i with
      | zero =>
        rw [Nat.zero_sub, if_pos (isNextCorrect_self _ _)]
        exact ⟨rfl, hcount, hcounted⟩
      | succ i =>
        rw [Nat.add_sub_cancel] at hcounted ⊢
        rw [Finset.sum_range_succ, ← add_assoc, ← hcounted]
        have hiff := ns.broken_stride startLpn i
        unfold brokenAt
        by_cases hcorrect : isNextCorrect (ns.ftls (startLpn % ns.nrParts)).ssd.sp
            (ns.pageOf (startLpn + i * ns.nrParts)) (ns.pageOf (startLpn + (i + 1) * ns.nrParts))
        · rw [if_pos hcorrect, if_neg fun hb => hiff.1 hb hcorrect, add_zero]
          exact ⟨rfl, hcount, rfl⟩
        · have hback : startLpn + (i + 1) * ns.nrParts - ns.nrParts = startLpn + i * ns.nrParts := by
            rw [Nat.succ_mul]
            omega
          rw [if_neg hcorrect, if_pos (hiff.2 hcorrect), hback, hcount, add_comm counted,
            Multiset.singleton_add]
          exact ⟨rfl, (Multiset.card_cons _ _).symm, rfl⟩
  obtain ⟨⟨p, count, counted⟩, hc, hcount, hcounted⟩ := hloop.exists_ok
  have hfirst : (ns.ftls (startLpn % ns.nrParts)).maptbl (startLpn / ns.nrParts) =
      ns.pageOf startLpn := rfl
  dsimp only at hcount hcounted
  unfold checkPart
  dsimp only at hc ⊢
  rw [hent _ hle, ok_bind, hfirst, hc, ok_bind, hcount, hcounted]

/-- **`phfrag_check`** counts the broken pairs between the pages of two blocks. -/
theorem phfragCheck_range (hn : 0 < ns.nrParts) (hsp : ns.SameParams) {last : ℕ}
    (hlen : cfg.lbaLen = last + 1 - cfg.inputLba) (hle : cfg.inputLba ≤ last)
    (hlast : last < 2 ^ 64) (hin : last / ns.sp.secsPerPg < ns.totalLpnCount) :
    ns.phfragCheck cfg = .ok (true, cfg.add (ns.piecePairs cfg.inputLba last)) := by
  have hu : u64 (cfg.inputLba + cfg.lbaLen + 2 ^ 64 - 1) = last := by
    unfold u64
    omega
  have hend : last / ns.sp.secsPerPg / ns.nrParts < ns.sp.ttPgs :=
    Nat.div_lt_of_lt_mul (by rw [Nat.mul_comm]; exact hin)
  have hstart : cfg.inputLba / ns.sp.secsPerPg ≤ last / ns.sp.secsPerPg :=
    Nat.div_le_div_right hle
  unfold phfragCheck piecePairs
  rw [defined_bind hn]
  dsimp only
  rw [hu, if_neg (Nat.not_le.2 hend), ← sum_strides hn]
  generalize cfg.inputLba / ns.sp.secsPerPg = first at hstart
  generalize last / ns.sp.secsPerPg = final at hend hstart
  have hloop : ∀ k, k ≤ min ns.nrParts (final + 1 - first) →
      (forRange k (fun i counts => ns.checkPart (first + i) final counts) (0, 0) :
          Except Fault (ℕ × Multiset ℕ)) =
        .ok ((∑ i ∈ Finset.range k, ∑ j ∈ Finset.range ((final - (first + i)) / ns.nrParts),
            ns.brokenAt (first + i + j * ns.nrParts)).card,
          ∑ i ∈ Finset.range k, ∑ j ∈ Finset.range ((final - (first + i)) / ns.nrParts),
            ns.brokenAt (first + i + j * ns.nrParts)) := by
    intro k hk
    induction k with
    | zero => rfl
    | succ k ih =>
      rw [forRange_succ, ih (by omega), ok_bind, checkPart_eq hn hsp (by omega) hend,
        Finset.sum_range_succ]
  rw [hloop _ le_rfl]
  rfl

/-- Between the numbers of two pages, the division included. -/
theorem phfragCheck_eq (hn : 0 < ns.nrParts) (hsp : ns.SameParams)
    (ht : ns.totalLpnCount < 2 ^ 64) {last : ℕ} (hlen : cfg.lbaLen = last + 1 - cfg.inputLba)
    (hle : cfg.inputLba ≤ last) (hlast : last < ns.totalLpnCount) :
    ns.phfragCheck cfg = .ok (true, cfg.add (ns.piecePairs cfg.inputLba last)) :=
  phfragCheck_range hn hsp hlen hle (hlast.trans ht)
    ((Nat.div_le_self _ _).trans_lt hlast)

/-! ### One run -/

/-- The pieces of a run: the first one and those of the rest. -/
theorem pieces_eq (hle : startLpn ≤ endLpn) :
    pieces (startLpn, endLpn) = insert startLpn (pieces (startLpn + smallChunkSize, endLpn)) := by
  ext a
  unfold pieces smallChunkSize
  simp only [Finset.mem_filter, Finset.mem_Icc, Finset.mem_insert]
  constructor
  · rintro ⟨⟨h1, h2⟩, k, hk⟩
    by_cases ha : a = startLpn
    · exact .inl ha
    · exact .inr ⟨by omega, k - 1, by omega⟩
  · rintro (rfl | ⟨h, k, hk⟩)
    · exact ⟨⟨le_rfl, hle⟩, by simp⟩
    · exact ⟨by omega, k + 1, by omega⟩

/-- A run that is over has no pieces. -/
theorem pieces_of_lt (h : endLpn < startLpn) : pieces (startLpn, endLpn) = ∅ := by
  unfold pieces
  rw [Finset.Icc_eq_empty (by simpa using h), Finset.filter_empty]

/-- The pairs found in the pieces of a run. -/
def runPairs (ns : ConvNs) (r : ℕ × ℕ) : Multiset ℕ :=
  ∑ a ∈ pieces r, ns.piecePairs a (min r.2 (a + (smallChunkSize - 1)))

/-- **The loop over the pieces of a run.** -/
theorem checkChunk_eq (hn : 0 < ns.nrParts) (hsp : ns.SameParams)
    (ht : ns.totalLpnCount < 2 ^ 64) (hend : endLpn < ns.totalLpnCount) (startLpn : ℕ)
    (cfg : PhfragConfig) (hfuel : endLpn + 1 - startLpn ≤ fuel) :
    ∃ cfg', ns.checkChunk fuel startLpn endLpn cfg = .ok cfg' ∧
      cfg'.count = cfg.count + (ns.runPairs (startLpn, endLpn)).card ∧
      cfg'.counted = cfg.counted + ns.runPairs (startLpn, endLpn) := by
  induction fuel generalizing startLpn cfg with
  | zero =>
    refine ⟨cfg, rfl, ?_⟩
    unfold runPairs
    rw [pieces_of_lt (by omega)]
    exact ⟨rfl, (add_zero _).symm⟩
  | succ fuel ih =>
    unfold checkChunk
    by_cases hle : startLpn ≤ endLpn
    · set last := min endLpn (startLpn + (smallChunkSize - 1)) with hlast
      have hpiece := @phfragCheck_eq ns { cfg with
          inputLba := startLpn, lbaLen := min (endLpn - startLpn + 1) smallChunkSize }
        hn hsp ht last (by unfold smallChunkSize at *; dsimp only; omega)
        (by unfold smallChunkSize at *; dsimp only; omega) (by omega)
      rw [if_pos hle]
      dsimp only at hpiece ⊢
      rw [hpiece, ok_bind]
      obtain ⟨cfg', hrest, hcount, hcounted⟩ := ih
        (startLpn + min (endLpn - startLpn + 1) smallChunkSize) (PhfragConfig.add { cfg with
          inputLba := startLpn, lbaLen := min (endLpn - startLpn + 1) smallChunkSize }
            (ns.piecePairs startLpn last)) (by unfold smallChunkSize; omega)
      have hnext : pieces (startLpn + min (endLpn - startLpn + 1) smallChunkSize, endLpn) =
          pieces (startLpn + smallChunkSize, endLpn) := by
        by_cases hlong : endLpn - startLpn + 1 < smallChunkSize
        · rw [pieces_of_lt (by omega), pieces_of_lt (by omega)]
        · rw [Nat.min_eq_right (by omega)]
      have hnot : startLpn ∉ pieces (startLpn + smallChunkSize, endLpn) := by
        unfold pieces smallChunkSize
        simp
      have hpairs : ns.runPairs (startLpn, endLpn) = ns.piecePairs startLpn last +
          ns.runPairs (startLpn + min (endLpn - startLpn + 1) smallChunkSize, endLpn) := by
        unfold runPairs
        rw [hnext, pieces_eq hle, Finset.sum_insert hnot]
      refine ⟨cfg', hrest, ?_, ?_⟩
      · rw [hcount, hpairs, Multiset.card_add]
        exact Nat.add_assoc _ _ _
      · rw [hcounted, hpairs]
        exact add_assoc _ _ _
    · refine ⟨cfg, if_neg hle, ?_⟩
      unfold runPairs
      rw [pieces_of_lt (by omega)]
      exact ⟨rfl, (add_zero _).symm⟩

/-! ### All runs -/

/-- The chunk of a whole run. -/
def runChunk (r : ℕ × ℕ) : LbaChunk := generateLpn r.1 r.2 (r.2 + 1 - r.1) 0 (-1) (-1)

/-- The pass over the table before page `g`. -/
structure ScanInv (ns : ConvNs) (g : ℕ) (s : TableScan) (rs : List (ℕ × ℕ)) : Prop where
  scanned : RunScan ns.mapped g s.count rs
  start : s.count ≠ 0 → s.startLpn = g - s.count
  chunks : s.chunks = rs.map runChunk

/-- A run closed before the page `g`. -/
theorem ScanInv.chunk {g : ℕ} {s : TableScan} (h : ns.ScanInv g s rs) (hcount : s.count ≠ 0) :
    generateLpn s.startLpn (g - 1) s.count 0 (-1) (-1) = runChunk (g - s.count, g - 1) := by
  have hle := h.scanned.le
  unfold runChunk
  rw [h.start hcount, show g - 1 + 1 - (g - s.count) = s.count by omega]

/-- One round of the pass. -/
theorem ScanInv.round {g : ℕ} {s : TableScan} (hg : g < ns.totalLpnCount)
    (h : ns.ScanInv g s rs) : ∃ rs', ns.ScanInv (g + 1) (ns.tableRound s g) rs' := by
  have hle := h.scanned.le
  unfold tableRound
  dsimp only
  by_cases hmap : mappedPpa ((ns.ftls (g % ns.nrParts)).maptbl (g / ns.nrParts))
  · rw [if_pos hmap]
    refine ⟨rs, h.scanned.extend ⟨hg, hmap⟩, fun _ => ?_, h.chunks⟩
    show (if s.count = 0 then g else s.startLpn) = g + 1 - (s.count + 1)
    split_ifs with h0
    · omega
    · rw [h.start h0]
      omega
  rw [if_neg hmap]
  have hp : ¬ ns.mapped g := fun hp => hmap hp.2
  by_cases hcount : s.count ≠ 0
  · rw [if_pos hcount]
    refine ⟨rs ++ [(g - s.count, g - 1)], h.scanned.close hp (by omega), fun h0 => absurd rfl h0,
      ?_⟩
    rw [List.map_append, ← h.chunks, List.map_singleton, ← h.chunk hcount]
  · rw [if_neg hcount]
    have hs := h.scanned
    rw [not_not.1 hcount] at hs
    refine ⟨rs, ?_, fun h0 => absurd h0 hcount, h.chunks⟩
    rw [not_not.1 hcount]
    exact hs.skip hp

/-- **The pass collects the maximal runs.** -/
theorem createListFromTable_eq (ns : ConvNs) :
    ∃ rs, RunScan ns.mapped (ns.totalLpnCount + 1) 0 rs ∧
      ns.createListFromTable = rs.map runChunk := by
  have hpass : ∀ g ≤ ns.totalLpnCount,
      ∃ rs, ns.ScanInv g ((List.range g).foldl ns.tableRound ⟨0, 0, []⟩) rs := by
    intro g hg
    induction g with
    | zero => exact ⟨[], RunScan.nil, fun h => absurd rfl h, rfl⟩
    | succ g ih =>
      obtain ⟨rs, h⟩ := ih (by omega)
      rw [List.range_succ, List.foldl_append, List.foldl_cons, List.foldl_nil]
      exact h.round (by omega)
  obtain ⟨rs, h⟩ := hpass _ le_rfl
  have hp : ¬ ns.mapped ns.totalLpnCount := fun hp => lt_irrefl _ hp.1
  unfold createListFromTable
  dsimp only
  generalize (List.range ns.totalLpnCount).foldl ns.tableRound ⟨0, 0, []⟩ = s at h
  by_cases hcount : s.count ≠ 0
  · rw [if_pos hcount]
    refine ⟨_, h.scanned.close hp (by omega), ?_⟩
    rw [List.map_append, ← h.chunks, List.map_singleton, ← h.chunk hcount]
  · rw [if_neg hcount]
    have hs := h.scanned
    rw [not_not.1 hcount] at hs
    exact ⟨rs, hs.skip hp, h.chunks⟩

/-- The loop over the runs. -/
theorem checkRuns_eq (hn : 0 < ns.nrParts) (hsp : ns.SameParams)
    (ht : ns.totalLpnCount < 2 ^ 64) (cfg : PhfragConfig) (hrs : ∀ r ∈ rs, r.2 < ns.totalLpnCount) :
    ∃ cfg', runList (fun cfg (lpn : LbaChunk) =>
        ns.checkChunk (lpn.endLpn + 1 - lpn.startLpn) lpn.startLpn lpn.endLpn cfg) cfg
          (rs.map runChunk) = .ok cfg' ∧
      cfg'.count = cfg.count + (rs.map ns.runPairs).sum.card ∧
      cfg'.counted = cfg.counted + (rs.map ns.runPairs).sum := by
  induction rs generalizing cfg with
  | nil => exact ⟨cfg, rfl, rfl, (add_zero _).symm⟩
  | cons r rs ih =>
    obtain ⟨cfg₁, hrun, hcount, hcounted⟩ := checkChunk_eq hn hsp ht
      (hrs r List.mem_cons_self) r.1 cfg le_rfl
    obtain ⟨cfg₂, hrest, hcount₂, hcounted₂⟩ :=
      ih cfg₁ fun r' hr' => hrs r' (List.mem_cons_of_mem _ hr')
    rw [List.map_cons, runList_cons]
    refine ⟨cfg₂, bind_eq_ok.2 ⟨cfg₁, hrun, hrest⟩, ?_, ?_⟩
    · rw [hcount₂, hcount, List.map_cons, List.sum_cons, Multiset.card_add, Nat.add_assoc]
    · rw [hcounted₂, hcounted, List.map_cons, List.sum_cons, add_assoc]

open Classical in
/-- The runs the pass collects are all there are. -/
theorem runs_eq (hs : RunScan ns.mapped (ns.totalLpnCount + 1) 0 rs) :
    ns.runs = rs.toFinset := by
  ext r
  unfold runs
  rw [Finset.mem_filter, List.mem_toFinset, hs.mem_runs fun n hp => Nat.lt_succ_of_lt hp.1,
    and_iff_right_iff_imp, Finset.mem_product, Finset.mem_range, Finset.mem_range]
  exact fun hr => ⟨(hr.all _ le_rfl hr.le).1, (hr.all _ hr.le le_rfl).1⟩

/-- **What `check_physical_fragmentation` counts:** the pairs found in the pieces of the runs. -/
theorem checkPhysicalFragmentation_eq (hn : 0 < ns.nrParts) (hsp : ns.SameParams)
    (ht : ns.totalLpnCount < 2 ^ 64) (cfg : PhfragConfig) :
    ∃ cfg', ns.checkPhysicalFragmentation cfg = .ok cfg' ∧
      cfg'.count = cfg'.counted.card ∧ cfg'.counted = ∑ r ∈ ns.runs, ns.runPairs r := by
  obtain ⟨rs, hs, hlist⟩ := ns.createListFromTable_eq
  have hend : ∀ r ∈ rs, r.2 < ns.totalLpnCount := fun r hr =>
    ((hs.runs r hr).all _ (hs.runs r hr).le le_rfl).1
  obtain ⟨cfg', hrun, hcount, hcounted⟩ :=
    checkRuns_eq hn hsp ht { cfg with count := 0, counted := 0 } hend
  have hall : cfg'.counted = (rs.map ns.runPairs).sum := hcounted.trans (zero_add _)
  refine ⟨cfg', by unfold checkPhysicalFragmentation; rw [hlist]; exact hrun, ?_, ?_⟩
  · rw [hcount, hall]
    exact Nat.zero_add _
  · classical
    rw [hall, runs_eq hs, List.sum_toFinset _ hs.nodup]

/-- The pairs of a piece: the broken ones with the windows of their pages in it. -/
theorem count_piecePairs (hsecs : 0 < ns.sp.secsPerPg) (a b l : ℕ) :
    (ns.piecePairs a b).count l = if ns.Broken l ∧ a ≤ (l + 1) * ns.sp.secsPerPg - 1 ∧
      (l + ns.nrParts) * ns.sp.secsPerPg ≤ b then 1 else 0 := by
  have hfirst : a / ns.sp.secsPerPg ≤ l ↔ a ≤ (l + 1) * ns.sp.secsPerPg - 1 := by
    have hpos : 0 < (l + 1) * ns.sp.secsPerPg := Nat.mul_pos (Nat.succ_pos l) hsecs
    rw [← Nat.lt_succ_iff, Nat.succ_eq_add_one, Nat.div_lt_iff_lt_mul hsecs]
    omega
  have hlast : l < b / ns.sp.secsPerPg + 1 - ns.nrParts ↔
      (l + ns.nrParts) * ns.sp.secsPerPg ≤ b := by
    rw [← Nat.le_div_iff_mul_le hsecs]
    omega
  have hat : ∀ m, (ns.brokenAt m).count l = if m = l then (if ns.Broken l then 1 else 0) else 0 := by
    intro m
    unfold brokenAt
    by_cases hm : m = l
    · subst hm
      rw [if_pos rfl]
      split_ifs <;> simp
    · rw [if_neg hm]
      split_ifs <;> simp [Ne.symm hm]
  unfold piecePairs
  rw [Multiset.count_sum', Finset.sum_congr rfl fun m _ => hat m, Finset.sum_ite_eq']
  simp only [Finset.mem_Ico, hfirst, hlast]
  split_ifs <;> tauto

/-- The pieces a page lies in are one at most. -/
theorem piece_unique {r r' : ℕ × ℕ} {a a' x : ℕ} (hr : IsRun ns.mapped r) (hr' : IsRun ns.mapped r')
    (ha : a ∈ pieces r) (ha' : a' ∈ pieces r') (hx : a ≤ x ∧ x ≤ min r.2 (a + (smallChunkSize - 1)))
    (hx' : a' ≤ x ∧ x ≤ min r'.2 (a' + (smallChunkSize - 1))) : r = r' ∧ a = a' := by
  unfold pieces at ha ha'
  simp only [Finset.mem_filter, Finset.mem_Icc] at ha ha'
  obtain ⟨⟨h1, h2⟩, k, hk⟩ := ha
  obtain ⟨⟨h1', h2'⟩, k', hk'⟩ := ha'
  obtain rfl := hr.eq_of_mem hr' (n := x) ⟨by omega, by omega⟩ ⟨by omega, by omega⟩
  unfold smallChunkSize at hk hk' hx hx'
  exact ⟨rfl, by omega⟩

/-- **Which pairs are counted:** the broken ones with their windows in one piece, each once. -/
theorem count_counted (hn : 0 < ns.nrParts) (hsecs : 0 < ns.sp.secsPerPg) (l : ℕ) :
    (∑ r ∈ ns.runs, ns.runPairs r).count l ≤ 1 ∧
      (l ∈ ∑ r ∈ ns.runs, ns.runPairs r ↔ ns.Broken l ∧
        ns.SamePiece ((l + 1) * ns.sp.secsPerPg - 1) ((l + ns.nrParts) * ns.sp.secsPerPg)) := by
  classical
  have hwindow : (l + 1) * ns.sp.secsPerPg - 1 ≤ (l + ns.nrParts) * ns.sp.secsPerPg :=
    (Nat.sub_le _ _).trans (Nat.mul_le_mul_right _ (by omega))
  have hmem : ∀ r ∈ ns.runs, IsRun ns.mapped r := fun r hr => (Finset.mem_filter.1 hr).2
  -- the pieces with the window of the pair
  set found := (ns.runs.sigma fun r => pieces r).filter fun x => ns.Broken l ∧
    x.2 ≤ (l + 1) * ns.sp.secsPerPg - 1 ∧
    (l + ns.nrParts) * ns.sp.secsPerPg ≤ min x.1.2 (x.2 + (smallChunkSize - 1)) with hfound
  have hcount : (∑ r ∈ ns.runs, ns.runPairs r).count l = found.card := by
    rw [hfound, Finset.card_filter, Finset.sum_sigma, Multiset.count_sum']
    refine Finset.sum_congr rfl fun r _ => ?_
    unfold runPairs
    rw [Multiset.count_sum']
    exact Finset.sum_congr rfl fun a _ => count_piecePairs hsecs _ _ l
  constructor
  · rw [hcount, Finset.card_le_one]
    rintro ⟨r, a⟩ hx ⟨r', a'⟩ hx'
    simp only [hfound, Finset.mem_filter, Finset.mem_sigma] at hx hx'
    obtain ⟨⟨hr, ha⟩, -, h1, h2⟩ := hx
    obtain ⟨⟨hr', ha'⟩, -, h1', h2'⟩ := hx'
    obtain ⟨rfl, rfl⟩ := piece_unique (hmem r hr) (hmem r' hr') ha ha' ⟨h1, hwindow.trans h2⟩
      ⟨h1', hwindow.trans h2'⟩
    rfl
  · rw [← Multiset.count_pos, hcount, Finset.card_pos]
    constructor
    · rintro ⟨⟨r, a⟩, hx⟩
      simp only [hfound, Finset.mem_filter, Finset.mem_sigma] at hx
      obtain ⟨⟨hr, ha⟩, hb, h1, h2⟩ := hx
      exact ⟨hb, r, hmem r hr, a, ha, h1, h2⟩
    · rintro ⟨hb, r, hr, a, ha, h1, h2⟩
      refine ⟨⟨r, a⟩, ?_⟩
      simp only [hfound, Finset.mem_filter, Finset.mem_sigma]
      refine ⟨⟨Finset.mem_filter.2 ⟨?_, hr⟩, ha⟩, hb, h1, h2⟩
      rw [Finset.mem_product, Finset.mem_range, Finset.mem_range]
      exact ⟨(hr.all _ le_rfl hr.le).1, (hr.all _ hr.le le_rfl).1⟩

/-- **When each broken pair of a run is counted once, and nothing else:** when the broken pairs that
lie in one run are those whose pages, taken for blocks, lie in one piece of a run. -/
theorem checkPhysicalFragmentation_count_iff (hn : 0 < ns.nrParts) (hsp : ns.SameParams)
    (ht : ns.totalLpnCount < 2 ^ 64) (hsecs : 0 < ns.sp.secsPerPg) :
    (∃ cfg', ns.checkPhysicalFragmentation cfg = .ok cfg' ∧ ns.CountsEachOnce cfg') ↔
      ∀ l, ns.Broken l → (ns.SameRun l (l + ns.nrParts) ↔
        ns.SamePiece ((l + 1) * ns.sp.secsPerPg - 1) ((l + ns.nrParts) * ns.sp.secsPerPg)) := by
  classical
  obtain ⟨cfg', hrun, hcount, hcounted⟩ := checkPhysicalFragmentation_eq hn hsp ht cfg
  have hmem : ∀ l, l ∈ cfg'.counted ↔ ns.Broken l ∧
      ns.SamePiece ((l + 1) * ns.sp.secsPerPg - 1) ((l + ns.nrParts) * ns.sp.secsPerPg) := by
    rw [hcounted]
    exact fun l => (count_counted hn hsecs l).2
  constructor
  · rintro ⟨cfg'', hrun', hright⟩ l hb
    rw [hrun] at hrun'
    cases hrun'
    have hiff := (hright.pairs l).symm.trans (hmem l)
    tauto
  · intro hsame
    have hnodup : cfg'.counted.Nodup := by
      rw [hcounted, Multiset.nodup_iff_count_le_one]
      exact fun l => (count_counted hn hsecs l).1
    have hpairs : ∀ l, l ∈ cfg'.counted ↔ ns.SameRun l (l + ns.nrParts) ∧ ns.Broken l := by
      intro l
      rw [hmem]
      have := hsame l
      tauto
    refine ⟨cfg', hrun, ?_, hnodup, hpairs⟩
    unfold brokenPairs
    rw [hcount, ← Multiset.toFinset_card_of_nodup hnodup]
    refine congrArg Finset.card (Finset.ext fun l => ?_)
    rw [Multiset.mem_toFinset, hpairs, Finset.mem_filter, Finset.mem_range]
    refine ⟨fun h => ⟨?_, h⟩, fun h => h.2⟩
    obtain ⟨⟨r, hr, h1, h2⟩, -⟩ := h
    exact (hr.all l h1 (by omega)).1

end

end ConvNs

/-- A tiny device of two dies. -/
def twoDieConfigs : FtlConfigs := { tinyConfigs with nandChannels := 2 }

/-- The configuration before the check. -/
def emptyCheck : PhfragConfig := ⟨0, 0, 0, 0⟩

/-- Page 0 goes to the first die, page 20 to the second one, and the pages 1 to 8 follow: the pair of
the pages 0 and 1 is broken, the pages 7 and 8 lie in the piece of both, and it is counted. -/
theorem checkPhysicalFragmentation_count_ninePages : ∃ ns₀ ns cfg',
    convInitNamespace (2 * tinySize) twoDieConfigs = .ok ns₀ ∧
    runList ConvNs.exec ns₀ [.write 0 7, .release 4096, .write 160 7, .release 4096,
      .write 8 15, .release 8192, .write 24 15, .release 8192, .write 40 15, .release 8192,
      .write 56 15] = .ok ns ∧
    ns.checkPhysicalFragmentation emptyCheck = .ok cfg' ∧ ns.CountsEachOnce cfg' ∧
      cfg'.counted = {0} := by
  have hcheck : (convInitNamespace (2 * tinySize) twoDieConfigs).toOption.any (fun ns =>
      (runList ConvNs.exec ns [.write 0 7, .release 4096, .write 160 7, .release 4096,
        .write 8 15, .release 8192, .write 24 15, .release 8192, .write 40 15, .release 8192,
        .write 56 15]).toOption.any fun ns =>
          (ns.checkPhysicalFragmentation emptyCheck).toOption.any fun cfg => decide (
            (ns.nrParts = 1 ∧ ns.totalLpnCount = 24 ∧ ns.sp.secsPerPg = 8) ∧ cfg.counted = {0} ∧
            (∀ l < 10, ns.mapped l ↔ l ≤ 8) ∧
            (∀ l < 24, ns.mapped l → ns.mapped (l + 1) → l ≤ 7 ∧ (ns.Broken l ↔ l = 0)))) =
        true := by
    decide +kernel
  obtain ⟨ns₀, hinit, hp⟩ := exists_ok_of_any hcheck
  obtain ⟨ns, hrun, hp⟩ := exists_ok_of_any hp
  obtain ⟨cfg, hcfg, hp⟩ := exists_ok_of_any hp
  obtain ⟨⟨hn, ht, hsecs⟩, hcounted, hmapped, hpairs⟩ := of_decide_eq_true hp
  have hsp : ns.SameParams := fun q hq => by
    obtain rfl : q = 0 := by omega
    rfl
  have hrunOf : IsRun ns.mapped (0, 8) :=
    ⟨by decide, fun n _ hle => (hmapped n (by omega)).2 hle, by simp, fun h =>
      absurd ((hmapped 9 (by decide)).1 h) (by decide)⟩
  obtain ⟨cfg', hcfg', hright⟩ : ∃ cfg', ns.checkPhysicalFragmentation emptyCheck = .ok cfg' ∧
      ns.CountsEachOnce cfg' :=
    (ConvNs.checkPhysicalFragmentation_count_iff (by omega) hsp (by omega) (by omega)).2
      fun l hb => by
      rw [hn, hsecs]
      constructor
      · rintro ⟨r, hr, h1, h2⟩
        have hl := hr.all l h1 (by omega)
        obtain rfl := (hpairs l (ht ▸ hl.1) hl (hr.all _ (by omega) h2)).2.1 hb
        exact ⟨(0, 8), hrunOf, 0, by decide, by decide, by decide⟩
      · rintro ⟨r, hr, a, ha, h1, h2⟩
        have hfirst := (Finset.mem_Icc.1 (Finset.mem_filter.1 ha).1).1
        have hl := hr.all ((l + 1) * 8 - 1) (by omega) (by omega)
        have hnext := hr.all ((l + 1) * 8 - 1 + 1) (by omega) (by omega)
        have hle := (hpairs _ (ht ▸ hl.1) hl hnext).1
        obtain rfl : l = 0 := by omega
        exact ⟨(0, 8), hrunOf, le_rfl, by decide⟩
  rw [hcfg] at hcfg'
  cases hcfg'
  exact ⟨ns₀, ns, cfg, hinit, hrun, hcfg, hright, hcounted⟩

/-- Page 0 goes to the first die, page 5 to the second one and page 1 to the first one again: the
pair of the pages 0 and 1 is broken, and it is not counted. -/
theorem twoPages_not_counted : ∃ ns₀ ns, convInitNamespace (2 * tinySize) twoDieConfigs = .ok ns₀ ∧
    runList ConvNs.exec ns₀
      [.write 0 7, .release 4096, .write 40 7, .release 4096, .write 8 7] = .ok ns ∧
    0 < ns.nrParts ∧ ns.SameParams ∧ ns.totalLpnCount < 2 ^ 64 ∧
    ¬ ∃ cfg', ns.checkPhysicalFragmentation emptyCheck = .ok cfg' ∧
      cfg'.count = ns.brokenPairs := by
  have hcheck : (convInitNamespace (2 * tinySize) twoDieConfigs).toOption.any (fun ns =>
      (runList ConvNs.exec ns
        [.write 0 7, .release 4096, .write 40 7, .release 4096, .write 8 7]).toOption.any fun ns =>
          (ns.checkPhysicalFragmentation emptyCheck).toOption.any fun cfg => decide (
            ns.nrParts = 1 ∧ ns.totalLpnCount = 24 ∧ cfg.count = 0 ∧ ns.mapped 0 ∧ ns.mapped 1 ∧
              ¬ ns.mapped 2 ∧ ns.Broken 0)) = true := by
    decide +kernel
  obtain ⟨ns₀, hinit, hp⟩ := exists_ok_of_any hcheck
  obtain ⟨ns, hrun, hp⟩ := exists_ok_of_any hp
  obtain ⟨cfg, hcfg, hp⟩ := exists_ok_of_any hp
  obtain ⟨hn, ht, hcount, h0, h1, h2, hbroken⟩ := of_decide_eq_true hp
  refine ⟨ns₀, ns, hinit, hrun, by omega, fun q hq => ?_, by omega, ?_⟩
  · obtain rfl : q = 0 := by omega
    rfl
  rintro ⟨cfg', hcfg', hpairs⟩
  rw [hcfg] at hcfg'
  cases hcfg'
  have hpair : 0 < ns.brokenPairs := by
    classical
    refine Finset.card_pos.2 ⟨0, Finset.mem_filter.2 ?_⟩
    rw [Finset.mem_range, hn]
    refine ⟨by omega, ⟨(0, 1), ⟨by decide, fun n _ hle => ?_, by simp, h2⟩, le_rfl, le_rfl⟩, hbroken⟩
    have hle' : n ≤ 1 := hle
    interval_cases n
    · exact h0
    · exact h1
  omega

end NvmeVirt
