/-
# Copying the data of a command by DMA

`__do_perform_io_using_dma` of `io.c`: a first loop collects the PRPs of a command,
with the text of the loop of `__do_perform_io`; a second one merges pages that follow
each other in memory and copies each run at once.  The list is collected before
anything is copied, so it is always the one the host has described.

`ioat_dma_submit` copies the range it is given; host addresses are 64 bits wide.
-/

import NvmeVirt.Io.Prps

namespace NvmeVirt

open Outcome

/-- The first loop: its cursor, whose memories stay, and `paddr_list`. -/
structure DmaCollect where
  cursor : IoCursor
  paddrList : ℕ → ℕ

namespace DmaCollect

/-- One round: `paddr_list` has 513 entries, and the first is not used. -/
def round (s : DmaCollect) (cmd : NvmeRwCommand) : Except Fault DmaCollect := do
  let (c, paddr) ← s.cursor.nextPaddr cmd
  defined (c.prpOffs < 513)
  let ioSize := c.ioSize paddr
  .ok {
    cursor := { c with remaining := c.remaining - ioSize }
    paddrList := Function.update s.paddrList c.prpOffs paddr }

/-- The loop; a round takes a byte at least. -/
def loop (cmd : NvmeRwCommand) : ℕ → DmaCollect → Except Fault DmaCollect
  | 0, s => .ok s
  | fuel + 1, s =>
    if s.cursor.remaining = 0 then .ok s
    else do
      let s ← s.round cmd
      loop cmd fuel s

end DmaCollect

/-- The bytes `ioat_dma_submit` copies. -/
def Transfer.dmaBytes (t : Transfer) : List (ℕ × ℕ) :=
  (List.range t.size).map fun i => (u64 (t.paddr + i), t.offset + i)

/-- The second loop with the two memories; `moved` is a history variable, newest first. -/
structure DmaCursor where
  remaining : ℕ
  offset : ℕ
  prpOffs : ℕ
  host : Mem
  storage : Mem
  moved : List Transfer

namespace DmaCursor

/-- The inner loop: the pages that follow the one before are taken along. -/
def mergeRun (paddrList : ℕ → ℕ) (numPrps : ℕ) : ℕ → ℕ → ℕ → ℕ × ℕ
  | 0, prpOffs, size => (prpOffs, size)
  | fuel + 1, prpOffs, size =>
    if prpOffs ≤ numPrps ∧ paddrList prpOffs = u64 (paddrList (prpOffs - 1) + pageSize) then
      mergeRun paddrList numPrps fuel (prpOffs + 1) (size + pageSize)
    else (prpOffs, size)

/-- The bytes of the page of a PRP the second loop starts with. -/
def firstSize (c : DmaCursor) (paddr : ℕ) : ℕ :=
  let size := min c.remaining pageSize
  let memOffs := paddr % pageSize
  if pageSize < size + memOffs then pageSize - memOffs else size

/-- The copy of the round. -/
def copy (c : DmaCursor) (cmd : NvmeRwCommand) (t : Transfer) : DmaCursor :=
  match cmd.opcode with
  | .write => { c with storage := byteCopy c.storage c.host (t.dmaBytes.map Prod.swap) }
  | .zoneAppend => { c with storage := byteCopy c.storage c.host (t.dmaBytes.map Prod.swap) }
  | .read => { c with host := byteCopy c.host c.storage t.dmaBytes }
  | _ => c

/-- One round of the second loop. -/
def round (c : DmaCursor) (cmd : NvmeRwCommand) (paddrList : ℕ → ℕ) (numPrps : ℕ) : DmaCursor :=
  let paddr := paddrList c.prpOffs
  let (prpOffs, size) :=
    mergeRun paddrList numPrps numPrps (c.prpOffs + 1) (c.firstSize paddr)
  let ioSize := min c.remaining size
  let t : Transfer := { paddr := paddr, offset := c.offset, size := ioSize }
  { c.copy cmd t with
    remaining := c.remaining - ioSize
    offset := u64 (c.offset + ioSize)
    prpOffs := prpOffs
    moved := t :: c.moved }

/-- The second loop. -/
def loop (cmd : NvmeRwCommand) (paddrList : ℕ → ℕ) (numPrps : ℕ) : ℕ → DmaCursor → DmaCursor
  | 0, c => c
  | fuel + 1, c =>
    if c.remaining = 0 then c
    else loop cmd paddrList numPrps fuel (c.round cmd paddrList numPrps)

/-- The pairs copied so far, oldest first. -/
def pairs (c : DmaCursor) : List (ℕ × ℕ) := c.moved.reverse.flatMap Transfer.dmaBytes

end DmaCursor

/-- `__do_perform_io_using_dma`. -/
def doPerformIoUsingDma (cmd : NvmeRwCommand) (host storage : Mem) : Except Fault DmaCursor := do
  let s ← DmaCollect.loop cmd cmd.ioLength {
    cursor := IoCursor.start host storage cmd.ioOffset cmd.ioLength
    paddrList := fun _ => 0 }
  .ok (DmaCursor.loop cmd s.paddrList s.cursor.prpOffs cmd.ioLength {
    remaining := cmd.ioLength, offset := cmd.ioOffset, prpOffs := 1
    host := host, storage := storage, moved := [] })

/-! ### The list -/

namespace DmaCollect

variable {s : DmaCollect} {cmd : NvmeRwCommand} {host : Mem} {m : ℕ}

/-- The first `m` PRPs have been collected. -/
structure Collected (cmd : NvmeRwCommand) (host : Mem) (m : ℕ) (s : DmaCollect) : Prop where
  walked : IoCursor.Walked cmd m s.cursor
  before : ∀ q < m, cmd.covered q < cmd.ioLength
  list : ∀ q < m, s.paddrList (q + 1) = cmd.prp host q
  hostKept : s.cursor.host = host

/-- A round collects the next PRP. -/
theorem Collected.round (hconf : cmd.ConformingPrps host) (h : Collected cmd host m s)
    (hm : cmd.covered m < cmd.ioLength) :
    ∃ s', s.round cmd = .ok s' ∧ Collected cmd host (m + 1) s' := by
  obtain ⟨c, hnext, ho, ho2, hlist⟩ := h.walked.nextPaddr hconf hm
  have hkept : IoCursor.EntryKept cmd host m s.cursor := fun _ _ => by rw [h.hostKept]
  rw [IoCursor.prpNow_eq_iff.2 hkept] at hnext
  have hframe := IoCursor.nextPaddr_frame hnext
  have hsize := hconf.ioSize_eq hm (hframe.1.trans h.walked.remaining)
  have hroom : c.prpOffs < 513 := by
    have hcount := hconf.count
    rw [ho]
    cases m with
    | zero => decide
    | succ j =>
      have := NvmeRwCommand.lt_numRest hm
      omega
  unfold DmaCollect.round
  rw [hnext, ok_bind]
  dsimp only
  rw [defined_bind hroom]
  refine ⟨_, rfl, ⟨?_, ho, fun hl => (ho2 hl).trans (by omega), fun h2 hl => hlist (by omega) hl⟩,
    fun q hq => (cmd.covered_mono (Nat.lt_succ_iff.1 hq)).trans_lt hm, fun q hq => ?_,
    hframe.2.2.1.trans h.hostKept⟩
  · have := cmd.covered_add_pageBytes m
    have hrem := h.walked.remaining
    show c.remaining - c.ioSize (cmd.prp host m) = _
    rw [hsize, hframe.1]
    omega
  · show Function.update s.paddrList c.prpOffs (cmd.prp host m) (q + 1) = _
    rw [ho]
    rcases Nat.lt_succ_iff_lt_or_eq.1 hq with hlt | rfl
    · have hne : q + 1 ≠ m + 1 := by omega
      rw [Function.update_of_ne hne]
      exact h.list q hlt
    · exact Function.update_self _ _ _

/-- **The loop collects the PRPs of the description.** -/
theorem Collected.loop (hconf : cmd.ConformingPrps host) (h : Collected cmd host m s) {fuel : ℕ}
    (hf : s.cursor.remaining ≤ fuel) :
    ∃ s' n, DmaCollect.loop cmd fuel s = .ok s' ∧ Collected cmd host n s' ∧
      cmd.covered n = cmd.ioLength := by
  induction fuel generalizing m s with
  | zero =>
    refine ⟨s, m, rfl, h, ?_⟩
    have := cmd.covered_le m
    have := h.walked.remaining
    omega
  | succ fuel ih =>
    unfold DmaCollect.loop
    split_ifs with h0
    · refine ⟨s, m, rfl, h, ?_⟩
      have := cmd.covered_le m
      have := h.walked.remaining
      omega
    · have hm : cmd.covered m < cmd.ioLength := by
        have := h.walked.remaining
        omega
      obtain ⟨s₁, hs₁, h₁⟩ := h.round hconf hm
      rw [hs₁, ok_bind]
      refine ih h₁ ?_
      have := NvmeRwCommand.covered_lt hm
      have := h₁.walked.remaining
      have := h.walked.remaining
      omega

end DmaCollect

/-! ### The runs -/

namespace DmaCursor

variable {c : DmaCursor} {cmd : NvmeRwCommand} {host storage : Mem} {m n p q size : ℕ}
  {list : ℕ → ℕ}

/-- **What is merged:** pages each of which follows the one before. -/
theorem mergeRun_spec (list : ℕ → ℕ) (n fuel p size : ℕ) :
    p ≤ (mergeRun list n fuel p size).1 ∧
      (mergeRun list n fuel p size).2 = size + pageSize * ((mergeRun list n fuel p size).1 - p) ∧
      ∀ q, p ≤ q → q < (mergeRun list n fuel p size).1 →
        q ≤ n ∧ list q = u64 (list (q - 1) + pageSize) := by
  induction fuel generalizing p size with
  | zero => exact ⟨le_rfl, by simp [mergeRun], fun q h1 h2 => absurd h2 (not_lt.2 h1)⟩
  | succ fuel ih =>
    unfold mergeRun
    split_ifs with hif
    · obtain ⟨h1, h2, h3⟩ := ih (p + 1) (size + pageSize)
      refine ⟨by omega, ?_, fun q hq hlt => ?_⟩
      · rw [h2, show (mergeRun list n fuel (p + 1) (size + pageSize)).1 - p =
          (mergeRun list n fuel (p + 1) (size + pageSize)).1 - (p + 1) + 1 by omega, Nat.mul_succ]
        omega
      · rcases hq.eq_or_lt with rfl | hlt'
        · exact hif
        · exact h3 q hlt' hlt
    · exact ⟨le_rfl, by simp, fun q h1 h2 => absurd h2 (not_lt.2 h1)⟩

/-- The pages of the PRPs `m` to `m + r`: the first goes up to the end of its page, and each of the
others follows the one before. -/
structure Merged (cmd : NvmeRwCommand) (host : Mem) (m r : ℕ) : Prop where
  pos : 0 < r
  before : ∀ j < r, cmd.covered (m + j) < cmd.ioLength
  follows : ∀ j, j + 1 < r → cmd.prp host (m + (j + 1)) = u64 (cmd.prp host (m + j) + pageSize)

theorem u64_add_left (a b : ℕ) : u64 (u64 a + b) = u64 (a + b) := Nat.mod_add_mod _ _ _

/-- Where a page is merged with the next, it starts aligned. -/
theorem Merged.aligned (hconf : cmd.ConformingPrps host) {r : ℕ} (h : Merged cmd host m r)
    (hr : 1 < r) : cmd.prp host m % pageSize = 0 := by
  have hnext := hconf.prp_aligned (m := m) (h.before 1 hr)
  have hfollows : cmd.prp host (m + 1) = u64 (cmd.prp host m + pageSize) := h.follows 0 hr
  rw [hfollows] at hnext
  unfold u64 pageSize at *
  omega

/-- From an aligned page on, each page before the end of the buffer is covered whole. -/
theorem covered_add (hm : cmd.covered m < cmd.ioLength)
    (ha : cmd.prp host m % pageSize = 0) (r : ℕ) :
    cmd.covered (m + r) = min cmd.ioLength (cmd.covered m + pageSize * r) := by
  cases m with
  | zero =>
    have hfirst : cmd.firstBytes = min cmd.ioLength pageSize := by
      unfold NvmeRwCommand.prp at ha
      rw [if_pos rfl] at ha
      unfold NvmeRwCommand.firstBytes
      rw [ha, Nat.sub_zero]
    cases r with
    | zero => rfl
    | succ r =>
      rw [Nat.zero_add, NvmeRwCommand.covered_succ, NvmeRwCommand.covered_zero, hfirst,
        Nat.mul_succ]
      omega
  | succ m =>
    rw [Nat.add_right_comm, NvmeRwCommand.covered_succ, NvmeRwCommand.covered_of_lt hm, Nat.mul_add]
    omega

/-- The bytes of the pages merged. -/
theorem Merged.total (hconf : cmd.ConformingPrps host) {r : ℕ} (h : Merged cmd host m r) :
    cmd.covered m + min (cmd.ioLength - cmd.covered m) (cmd.pageBytes m + pageSize * (r - 1)) =
      cmd.covered (m + r) := by
  have hm : cmd.covered m < cmd.ioLength := h.before 0 h.pos
  have hpage := cmd.covered_add_pageBytes m
  have hpos := h.pos
  rcases (show r = 1 ∨ 1 < r by omega) with rfl | hr
  · have := cmd.covered_le (m + 1)
    omega
  · have ha := h.aligned hconf hr
    have hone := covered_add hm ha 1
    have hlt : cmd.covered (m + 1) < cmd.ioLength := h.before 1 hr
    obtain ⟨k, rfl⟩ : ∃ k, r = k + 1 := ⟨r - 1, by omega⟩
    rw [covered_add hm ha (k + 1), Nat.add_sub_cancel, Nat.mul_succ]
    omega

/-- Where each page merged starts in memory. -/
theorem Merged.prp_eq (hconf : cmd.ConformingPrps host) {r : ℕ} (h : Merged cmd host m r) {j : ℕ}
    (hj : j < r) :
    cmd.prp host (m + j) = u64 (cmd.prp host m + (cmd.covered (m + j) - cmd.covered m)) := by
  induction j with
  | zero =>
    rw [Nat.add_zero, Nat.sub_self, Nat.add_zero]
    exact (Nat.mod_eq_of_lt (hconf.prp_lt m)).symm
  | succ j ih =>
    have hm : cmd.covered m < cmd.ioLength := h.before 0 h.pos
    have ha := h.aligned hconf (by omega)
    have hnow := covered_add hm ha j
    have hnext := covered_add hm ha (j + 1)
    have hlt := h.before (j + 1) hj
    rw [Nat.mul_succ] at hnext
    rw [h.follows j hj, ih (by omega), u64_add_left, Nat.add_assoc]
    congr 2
    omega

/-- A page of the description ends where its page in memory does. -/
theorem pageBytes_fits (hconf : cmd.ConformingPrps host) (hm : cmd.covered m < cmd.ioLength) :
    cmd.prp host m % pageSize + cmd.pageBytes m ≤ pageSize := by
  rw [← hconf.ioSize_eq hm (c := IoCursor.start host host 0 (cmd.ioLength - cmd.covered m)) rfl]
  have := Nat.mod_lt (cmd.prp host m) (show 0 < pageSize by decide)
  unfold IoCursor.ioSize
  dsimp only
  split_ifs <;> omega

/-- **One range for the pages merged:** it holds the bytes of each of them, in order. -/
theorem Merged.described (hconf : cmd.ConformingPrps host) {r : ℕ} (h : Merged cmd host m r)
    {j : ℕ} (hj : j ≤ r) :
    cmd.described host (cmd.covered (m + j)) = cmd.described host (cmd.covered m) ++
      (List.range (cmd.covered (m + j) - cmd.covered m)).map
        fun i => (u64 (cmd.prp host m + i), cmd.slba * 512 + cmd.covered m + i) := by
  induction j with
  | zero => simp
  | succ j ih =>
    have hmj := h.before j hj
    have hle : cmd.covered m ≤ cmd.covered (m + j) := cmd.covered_mono (Nat.le_add_right _ _)
    have hpage := cmd.covered_add_pageBytes (m + j)
    have hsplit : cmd.covered (m + (j + 1)) - cmd.covered m =
        cmd.covered (m + j) - cmd.covered m + cmd.pageBytes (m + j) := by
      rw [← Nat.add_assoc, ← hpage]
      omega
    rw [hsplit, List.range_add, List.map_append, List.map_map, ← List.append_assoc,
      ← ih (by omega), ← Nat.add_assoc, NvmeRwCommand.described_covered_succ hmj]
    congr 1
    refine List.map_congr_left fun i hi => ?_
    have hfits := pageBytes_fits hconf hmj
    have hprp := h.prp_eq hconf (show j < r by omega)
    have hlt := hconf.prp_lt (m + j)
    have hi := List.mem_range.1 hi
    -- The page does not reach past the last address.
    have haddr : u64 (cmd.prp host m + (cmd.covered (m + j) - cmd.covered m + i)) =
        cmd.prp host (m + j) + i := by
      rw [← Nat.add_assoc, ← u64_add_left, ← hprp]
      unfold u64
      unfold pageSize at hfits
      omega
    rw [Function.comp_apply, haddr, Prod.mk.injEq]
    omega

/-- The second loop stands before the page of PRP `m`, with all before it copied. -/
structure AtPage (cmd : NvmeRwCommand) (host storage : Mem) (m : ℕ) (c : DmaCursor) : Prop where
  remaining : c.remaining = cmd.ioLength - cmd.covered m
  offset : cmd.covered m < cmd.ioLength → c.offset = cmd.slba * 512 + cmd.covered m
  prpOffs : c.prpOffs = m + 1
  pairs : c.pairs = cmd.described host (cmd.covered m)
  copied : IoCursor.Copied cmd host storage c.pairs c.host c.storage

/-- What a round changes. -/
theorem round_fields (cmd : NvmeRwCommand) {r k : ℕ}
    (hmerge : mergeRun list n n (c.prpOffs + 1) (c.firstSize (list c.prpOffs)) = (r, k)) :
    let t : Transfer := ⟨list c.prpOffs, c.offset, min c.remaining k⟩
    (c.round cmd list n).remaining = c.remaining - min c.remaining k ∧
      (c.round cmd list n).offset = u64 (c.offset + min c.remaining k) ∧
      (c.round cmd list n).prpOffs = r ∧ (c.round cmd list n).pairs = c.pairs ++ t.dmaBytes ∧
      (cmd.ToStorage → (c.round cmd list n).host = c.host ∧
        (c.round cmd list n).storage = byteCopy c.storage c.host (t.dmaBytes.map Prod.swap)) ∧
      (cmd.opcode = .read → (c.round cmd list n).storage = c.storage ∧
        (c.round cmd list n).host = byteCopy c.host c.storage t.dmaBytes) := by
  intro t
  have hround : c.round cmd list n = { c.copy cmd t with
      remaining := c.remaining - t.size
      offset := u64 (c.offset + t.size)
      prpOffs := r
      moved := t :: c.moved } := by
    unfold round
    dsimp only
    rw [hmerge]
  rw [hround]
  refine ⟨rfl, rfl, rfl, ?_, ?_, fun hop => ?_⟩
  · simp [DmaCursor.pairs]
  · rintro (hop | hop) <;>
    · unfold copy
      simp [hop]
  · unfold copy
    simp [hop]

/-- The memories after some more pairs. -/
theorem copied_append {ps qs : List (ℕ × ℕ)}
    {host₁ storage₁ host₂ storage₂ : Mem} (h : IoCursor.Copied cmd host storage ps host₁ storage₁)
    (hwrite : cmd.ToStorage → host₂ = host₁ ∧
      storage₂ = byteCopy storage₁ host₁ (qs.map Prod.swap))
    (hread : cmd.opcode = .read → storage₂ = storage₁ ∧ host₂ = byteCopy host₁ storage₁ qs) :
    IoCursor.Copied cmd host storage (ps ++ qs) host₂ storage₂ := by
  refine ⟨fun hop => ?_, fun hop => ?_⟩
  · obtain ⟨h1, h2⟩ := h.write hop
    obtain ⟨h3, h4⟩ := hwrite hop
    refine ⟨h3.trans h1, ?_⟩
    rw [h4, h2, h1, List.map_append, byteCopy_append]
  · obtain ⟨h1, h2⟩ := h.read hop
    obtain ⟨h3, h4⟩ := hread hop
    refine ⟨h3.trans h1, ?_⟩
    rw [h4, h2, h1, byteCopy_append]

/-- **A round of the second loop:** it copies the pages it merges. -/
theorem AtPage.round (hconf : cmd.ConformingPrps host) (hb : cmd.slba * 512 + cmd.ioLength ≤ 2 ^ 64)
    (h : AtPage cmd host storage m c) (hm : cmd.covered m < cmd.ioLength)
    (hbefore : ∀ q < n, cmd.covered q < cmd.ioLength) (hall : cmd.covered n = cmd.ioLength)
    (hlist : ∀ q < n, list (q + 1) = cmd.prp host q) :
    ∃ r, 0 < r ∧ AtPage cmd host storage (m + r) (c.round cmd list n) := by
  have hmn : m < n := by
    by_contra hnot
    have := cmd.covered_mono (not_lt.1 hnot)
    omega
  have hstart := h.prpOffs
  have hpaddr : list c.prpOffs = cmd.prp host m := by
    rw [hstart]
    exact hlist m hmn
  have hfirst : c.firstSize (list c.prpOffs) = cmd.pageBytes m := by
    rw [hpaddr]
    exact hconf.ioSize_eq (c := IoCursor.start host host 0 c.remaining) hm h.remaining
  obtain ⟨h1, h2, h3⟩ := mergeRun_spec list n n (c.prpOffs + 1) (c.firstSize (list c.prpOffs))
  generalize hmerge : mergeRun list n n (c.prpOffs + 1) (c.firstSize (list c.prpOffs)) = pk
    at h1 h2 h3
  obtain ⟨p, k⟩ := pk
  dsimp only at h1 h2 h3
  obtain ⟨hrem, hoff, hoffs, hpairs, hwrite, hread⟩ := round_fields cmd hmerge
  obtain ⟨r, rfl⟩ : ∃ r, p = m + 1 + (r + 1) := ⟨p - (m + 2), by omega⟩
  rw [hfirst, hstart, show m + 1 + (r + 1) - (m + 1 + 1) = r by omega] at h2
  have hmerged : Merged cmd host m (r + 1) := by
    refine ⟨Nat.succ_pos r, fun j hj => ?_, fun j hj => ?_⟩
    · cases j with
      | zero => exact hm
      | succ j =>
        have := h3 (m + 1 + (j + 1)) (by omega) (by omega)
        exact hbefore _ (by omega)
    · obtain ⟨hq, hval⟩ := h3 (m + 1 + (j + 1)) (by omega) (by omega)
      rw [show m + 1 + (j + 1) = m + (j + 1) + 1 by omega, hlist _ (by omega),
        show m + (j + 1) + 1 - 1 = m + j + 1 by omega, hlist _ (by omega)] at hval
      exact hval
  have htotal := hmerged.total hconf
  rw [Nat.add_sub_cancel, ← h2, ← h.remaining] at htotal
  have hle := cmd.covered_le (m + (r + 1))
  have hsize : min c.remaining k = cmd.covered (m + (r + 1)) - cmd.covered m := by omega
  rw [hsize, h.offset hm, hpaddr] at hpairs hwrite hread
  have hdesc := hmerged.described hconf le_rfl
  refine ⟨r + 1, Nat.succ_pos r, ?_, fun hlt => ?_, by omega, ?_, ?_⟩
  · rw [hrem, hsize, h.remaining]
    omega
  · rw [hoff, hsize, h.offset hm]
    unfold u64
    omega
  · rw [hpairs, h.pairs, hdesc]
    rfl
  · rw [hpairs]
    exact copied_append h.copied hwrite hread

/-- **The second loop:** it ends with the whole description copied. -/
theorem AtPage.loop (hconf : cmd.ConformingPrps host) (hb : cmd.slba * 512 + cmd.ioLength ≤ 2 ^ 64)
    (hbefore : ∀ q < n, cmd.covered q < cmd.ioLength) (hall : cmd.covered n = cmd.ioLength)
    (hlist : ∀ q < n, list (q + 1) = cmd.prp host q) (h : AtPage cmd host storage m c) {fuel : ℕ}
    (hf : c.remaining ≤ fuel) :
    cmd.DataMoved host storage (DmaCursor.loop cmd list n fuel c).pairs
      (DmaCursor.loop cmd list n fuel c).host (DmaCursor.loop cmd list n fuel c).storage := by
  have hle := cmd.covered_le m
  have hrem := h.remaining
  induction fuel generalizing m c with
  | zero =>
    have hfull : cmd.covered m = cmd.ioLength := by omega
    exact ⟨hfull ▸ h.pairs, h.copied⟩
  | succ fuel ih =>
    unfold DmaCursor.loop
    split_ifs with h0
    · have hfull : cmd.covered m = cmd.ioLength := by omega
      exact ⟨hfull ▸ h.pairs, h.copied⟩
    · have hm : cmd.covered m < cmd.ioLength := by omega
      obtain ⟨r, hr, h₁⟩ := h.round hconf hb hm hbefore hall hlist
      have hlt := NvmeRwCommand.covered_lt hm
      have hmono : cmd.covered (m + 1) ≤ cmd.covered (m + r) :=
        cmd.covered_mono (by omega)
      have hrem₁ := h₁.remaining
      exact ih h₁ (by omega) (cmd.covered_le _) hrem₁

end DmaCursor

/-! ### Both paths -/

section BothPaths

variable {cmd : NvmeRwCommand} {host storage : Mem}

/-- Both paths move the data of a command as described, and so they agree. -/
def BothPathsMove (cmd : NvmeRwCommand) (host storage : Mem) : Prop :=
  ∃ c d, doPerformIo cmd host storage = .ok c ∧ doPerformIoUsingDma cmd host storage = .ok d ∧
    cmd.DataMoved host storage c.pairs c.host c.storage ∧
    cmd.DataMoved host storage d.pairs d.host d.storage ∧
    c.host = d.host ∧ c.storage = d.storage

/-- **`__do_perform_io_using_dma` moves the data of a command as described**, also where a read
writes over its own list. -/
theorem doPerformIoUsingDma_dataMoved (storage : Mem) (hconf : cmd.ConformingPrps host)
    (hb : cmd.slba * 512 + cmd.ioLength ≤ 2 ^ 64) :
    ∃ d, doPerformIoUsingDma cmd host storage = .ok d ∧
      cmd.DataMoved host storage d.pairs d.host d.storage := by
  have hstart := atPrp_start cmd host storage hb
  have hoff := cmd.ioOffset_eq hb
  obtain ⟨s, n, hs, hcol, hall⟩ := DmaCollect.Collected.loop (m := 0) (s := {
      cursor := IoCursor.start host storage cmd.ioOffset cmd.ioLength
      paddrList := fun _ => 0 }) hconf
    ⟨hoff ▸ hstart.toWalked, fun q hq => absurd hq (Nat.not_lt_zero q),
      fun q hq => absurd hq (Nat.not_lt_zero q), rfl⟩ (show _ ≤ cmd.ioLength from le_rfl)
  unfold doPerformIoUsingDma
  rw [hs, ok_bind, hcol.walked.prpOffs]
  refine ⟨_, rfl, DmaCursor.AtPage.loop (m := 0) hconf hb hcol.before hall hcol.list ?_ le_rfl⟩
  exact ⟨rfl, fun _ => hoff.trans (Nat.add_zero _).symm, rfl, rfl, fun _ => ⟨rfl, rfl⟩, fun _ => ⟨rfl, rfl⟩⟩

/-- The memories the pairs determine. -/
theorem copied_unique {ps : List (ℕ × ℕ)} {host₁ storage₁ host₂ storage₂ : Mem}
    (hop : cmd.opcode = .read ∨ cmd.ToStorage)
    (h₁ : IoCursor.Copied cmd host storage ps host₁ storage₁)
    (h₂ : IoCursor.Copied cmd host storage ps host₂ storage₂) :
    host₁ = host₂ ∧ storage₁ = storage₂ := by
  rcases hop with hop | hop
  · exact ⟨(h₁.read hop).2.trans (h₂.read hop).2.symm, (h₁.read hop).1.trans (h₂.read hop).1.symm⟩
  · exact ⟨(h₁.write hop).1.trans (h₂.write hop).1.symm,
      (h₁.write hop).2.trans (h₂.write hop).2.symm⟩

/-- A page and a half from the last 16 bytes of a page on, with the list in these 16 bytes. -/
def readOverList : NvmeRwCommand where
  opcode := .read
  commandId := 0
  nsid := 1
  prp1 := 0x1FF0
  prp2 := 0x1FF0
  slba := 0
  length := 8
  control := 0

/-- The list names the pages at `0x2000` and `0x3000`. -/
def listMemory : Mem := fun a => if a = 0x1FF1 then 0x20 else if a = 0x1FF9 then 0x30 else 0

/-- The first data a read writes may be the list it has not followed yet. -/
theorem readOverList_not_bothPathsMove :
    readOverList.opcode = .read ∧ readOverList.ConformingPrps listMemory ∧
      readOverList.slba * 512 + readOverList.ioLength ≤ 2 ^ 64 ∧
      ¬ BothPathsMove readOverList listMemory fun _ => 0 := by
  have hconf : readOverList.ConformingPrps listMemory :=
    ⟨by decide, by decide, by decide +kernel, fun _ => by decide, by decide⟩
  refine ⟨rfl, hconf, by decide, ?_⟩
  rintro ⟨c, -, hc, -, hmoved, -⟩
  have hkept := (doPerformIo_dataMoved_iff (Or.inl rfl) hconf (by decide)).1 ⟨c, hc, hmoved⟩
  exact absurd (hkept rfl (by decide) 0 (by decide)) (by decide +kernel)

/-- **Both paths move the data of a command as described exactly when a read leaves its list
alone:** the one path reads the list while it copies, the other one before. -/
theorem bothPathsMove_iff (hop : cmd.opcode = .read ∨ cmd.ToStorage)
    (hconf : cmd.ConformingPrps host) (hb : cmd.slba * 512 + cmd.ioLength ≤ 2 ^ 64) :
    BothPathsMove cmd host storage ↔ cmd.PrpListKept host storage := by
  rw [← doPerformIo_dataMoved_iff hop hconf hb]
  constructor
  · rintro ⟨c, d, hc, -, hmoved, -⟩
    exact ⟨c, hc, hmoved⟩
  · rintro ⟨c, hc, hmoved⟩
    obtain ⟨d, hd, hmoved'⟩ := doPerformIoUsingDma_dataMoved storage hconf hb
    have hsame := hmoved'.memories
    rw [hmoved'.pairs, ← hmoved.pairs] at hsame
    exact ⟨c, d, hc, hd, hmoved, hmoved', copied_unique hop hmoved.memories hsame⟩

/-- A write reads the list in the same place only. -/
theorem writeFromList_bothPathsMove :
    BothPathsMove { readOverList with opcode := .write } listMemory fun _ => 0 :=
  (bothPathsMove_iff (Or.inr (Or.inl rfl))
    ⟨by decide, by decide, by decide +kernel, fun _ => by decide, by decide⟩ (by decide)).2
    fun hread => by cases hread

end BothPaths

end NvmeVirt
