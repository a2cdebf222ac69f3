/-
# The buffer a command describes

PRP1 names the first page of the buffer of a command, from any offset on.  What is
left of the data is in the page PRP2 names, or, where that is more than a page, in
the pages that the list at PRP2 names.  `__do_perform_io` walks the description
while it copies, so a read that writes over its own list goes astray there.
-/

import NvmeVirt.Io.Transfers

namespace NvmeVirt

open Outcome

namespace NvmeRwCommand

variable (cmd : NvmeRwCommand) (host : Mem)

/-- The bytes in the first page. -/
def firstBytes : ℕ := min cmd.ioLength (pageSize - cmd.prp1 % pageSize)

/-- PRP2 names a list. -/
def UsesList : Prop := pageSize < cmd.ioLength - cmd.firstBytes

instance : Decidable cmd.UsesList := inferInstanceAs (Decidable (_ < _))

/-- The number of PRPs after the first. -/
def numRest : ℕ := (cmd.ioLength - cmd.firstBytes + pageSize - 1) / pageSize

/-- The PRPs after the first. -/
def restPrp (j : ℕ) : ℕ := if cmd.UsesList then readLe64 host (cmd.prp2 + 8 * j) else cmd.prp2

/-- The PRPs in order. -/
def prp (m : ℕ) : ℕ := if m = 0 then cmd.prp1 else cmd.restPrp host (m - 1)

/-- The bytes in the pages of the first `m` PRPs. -/
def covered (m : ℕ) : ℕ :=
  if m = 0 then 0 else min cmd.ioLength (cmd.firstBytes + pageSize * (m - 1))

/-- The host address of byte `k` of the buffer. -/
def prpAddr (k : ℕ) : ℕ :=
  if k < cmd.firstBytes then cmd.prp1 + k
  else cmd.restPrp host ((k - cmd.firstBytes) / pageSize) + (k - cmd.firstBytes) % pageSize

/-- The first `n` bytes of the buffer paired with those of the storage. -/
def described (n : ℕ) : List (ℕ × ℕ) :=
  (List.range n).map fun k => (cmd.prpAddr host k, cmd.slba * 512 + k)

/-- A description as NVMe has it: PRP1 with any page offset, all later PRPs page aligned, a PRP list
inside one page, and at most 512 PRPs. -/
structure ConformingPrps : Prop where
  prp1 : cmd.prp1 < 2 ^ 64
  prp2 : cmd.prp2 < 2 ^ 64
  aligned : ∀ j < cmd.numRest, cmd.restPrp host j % pageSize = 0
  list : cmd.UsesList → cmd.prp2 % pageSize + 8 * cmd.numRest ≤ pageSize
  count : 1 + cmd.numRest ≤ 512

/-- **The data is where it belongs:** byte `k` of the buffer is paired with byte `slba * 512 + k` of
the storage for each `k < length`, and nothing else is copied. -/
structure DataMoved (storage : Mem) (ps : List (ℕ × ℕ)) (host' storage' : Mem) : Prop where
  pairs : ps = cmd.described host cmd.ioLength
  memories : IoCursor.Copied cmd host storage ps host' storage'

/-- **A read leaves its list alone:** each entry still holds its PRP when the data before the page
it names has been written. -/
def PrpListKept (storage : Mem) : Prop :=
  cmd.opcode = .read → cmd.UsesList → ∀ j < cmd.numRest,
    readLe64 (byteCopy host storage (cmd.described host (cmd.covered (j + 1)))) (cmd.prp2 + 8 * j) =
      readLe64 host (cmd.prp2 + 8 * j)

variable {cmd host} {m k i : ℕ}

theorem firstBytes_le (cmd : NvmeRwCommand) : cmd.firstBytes ≤ cmd.ioLength := Nat.min_le_left _ _

theorem firstBytes_pos (cmd : NvmeRwCommand) : 0 < cmd.firstBytes := by
  have hlen : 0 < cmd.ioLength := by
    unfold ioLength
    rw [Nat.shiftLeft_eq]
    exact Nat.mul_pos (Nat.succ_pos _) (by decide)
  have := Nat.mod_lt cmd.prp1 (show 0 < pageSize by decide)
  unfold firstBytes
  omega

theorem covered_zero : cmd.covered 0 = 0 := rfl

theorem covered_succ (m : ℕ) :
    cmd.covered (m + 1) = min cmd.ioLength (cmd.firstBytes + pageSize * m) := rfl

theorem covered_le (cmd : NvmeRwCommand) (m : ℕ) : cmd.covered m ≤ cmd.ioLength := by
  cases m with
  | zero => exact Nat.zero_le _
  | succ m => exact Nat.min_le_left _ _

/-- PRPs that do not cover the buffer are not all. -/
theorem lt_numRest (h : cmd.covered (m + 1) < cmd.ioLength) : m < cmd.numRest := by
  have hfirst := cmd.firstBytes_le
  have hp : 0 < pageSize := by decide
  rw [covered_succ] at h
  unfold numRest
  rw [Nat.lt_iff_add_one_le, Nat.le_div_iff_mul_le hp, Nat.succ_mul, Nat.mul_comm m]
  omega

/-- A second PRP after the first is in a list. -/
theorem usesList_of_two (h : cmd.covered (m + 2) < cmd.ioLength) : cmd.UsesList := by
  have hfirst := cmd.firstBytes_le
  rw [covered_succ, Nat.mul_succ] at h
  unfold UsesList
  omega

/-- What the PRPs cover before the end of the buffer. -/
theorem covered_of_lt (h : cmd.covered (m + 1) < cmd.ioLength) :
    cmd.covered (m + 1) = cmd.firstBytes + pageSize * m := by
  rw [covered_succ] at h ⊢
  omega

/-- The bytes of the page of a PRP. -/
def pageBytes (cmd : NvmeRwCommand) (m : ℕ) : ℕ := cmd.covered (m + 1) - cmd.covered m

theorem covered_add_pageBytes (cmd : NvmeRwCommand) (m : ℕ) :
    cmd.covered m + cmd.pageBytes m = cmd.covered (m + 1) := by
  have hle : cmd.covered m ≤ cmd.covered (m + 1) := by
    cases m with
    | zero => exact Nat.zero_le _
    | succ m =>
      rw [covered_succ, covered_succ, Nat.mul_succ]
      omega
  unfold pageBytes
  omega

theorem covered_mono (cmd : NvmeRwCommand) {n : ℕ} (h : m ≤ n) :
    cmd.covered m ≤ cmd.covered n := by
  induction h with
  | refl => exact le_rfl
  | step _ ih => exact ih.trans (cmd.covered_add_pageBytes _ ▸ Nat.le_add_right _ _)

/-- Another PRP covers more of a buffer that is not covered yet. -/
theorem covered_lt (h : cmd.covered m < cmd.ioLength) : cmd.covered m < cmd.covered (m + 1) := by
  have hfirst := cmd.firstBytes_pos
  have hp : 0 < pageSize := by decide
  cases m with
  | zero =>
    rw [covered_succ, covered_zero] at *
    omega
  | succ m =>
    have hcov := covered_of_lt h
    rw [hcov] at h ⊢
    rw [covered_succ, Nat.mul_succ]
    omega

/-- The PRPs before one there is do not cover the buffer. -/
theorem covered_lt_of_lt {j : ℕ} (h : j < cmd.numRest) : cmd.covered (j + 1) < cmd.ioLength := by
  have hp : 0 < pageSize := by decide
  unfold numRest at h
  rw [Nat.lt_iff_add_one_le, Nat.le_div_iff_mul_le hp, Nat.succ_mul, Nat.mul_comm j] at h
  rw [covered_succ]
  omega

/-- Byte `i` of the page of a PRP. -/
theorem prpAddr_covered (host : Mem) (h : cmd.covered m < cmd.ioLength) (hi : i < cmd.pageBytes m) :
    cmd.prpAddr host (cmd.covered m + i) = cmd.prp host m + i := by
  have hp : 0 < pageSize := by decide
  unfold pageBytes at hi
  unfold prpAddr prp
  cases m with
  | zero =>
    have hfirst := cmd.firstBytes_le
    rw [covered_succ, covered_zero, Nat.mul_zero, Nat.add_zero, min_eq_right hfirst] at hi
    rw [covered_zero, if_pos (by omega), if_pos rfl, Nat.zero_add]
  | succ m =>
    have hcov := covered_of_lt h
    rw [covered_succ, hcov, Nat.mul_succ] at hi
    have hlt : i < pageSize := by omega
    rw [hcov, if_neg (by omega), if_neg (by omega),
      show cmd.firstBytes + pageSize * m + i - cmd.firstBytes = i + pageSize * m by omega,
      Nat.add_mul_div_left _ _ hp, Nat.div_eq_of_lt hlt, Nat.add_mul_mod_self_left,
      Nat.mod_eq_of_lt hlt, Nat.zero_add, Nat.add_sub_cancel]

/-- The pairs of the page of a PRP follow those before. -/
theorem described_covered_succ (h : cmd.covered m < cmd.ioLength) :
    cmd.described host (cmd.covered (m + 1)) = cmd.described host (cmd.covered m) ++
      (List.range (cmd.pageBytes m)).map
        fun i => (cmd.prp host m + i, cmd.slba * 512 + cmd.covered m + i) := by
  unfold described
  rw [← cmd.covered_add_pageBytes m, List.range_add, List.map_append, List.map_map]
  congr 1
  refine List.map_congr_left fun i hi => ?_
  simp only [Function.comp_apply]
  rw [prpAddr_covered host h (List.mem_range.1 hi), Nat.add_assoc]

theorem readLe64_lt (mem : Mem) (a : ℕ) : readLe64 mem a < 2 ^ 64 := by
  have h : ∀ n, ∑ i ∈ Finset.range n, (mem (a + i)).toNat * 256 ^ i < 256 ^ n := by
    intro n
    induction n with
    | zero => simp
    | succ n ih =>
      have hb : (mem (a + n)).toNat ≤ 255 := by
        have := (mem (a + n)).toNat_lt
        omega
      have := Nat.mul_le_mul_right (256 ^ n) hb
      rw [Finset.sum_range_succ, Nat.pow_succ]
      omega
  exact h 8

theorem ConformingPrps.prp_lt (h : cmd.ConformingPrps host) (m : ℕ) : cmd.prp host m < 2 ^ 64 := by
  unfold prp restPrp
  split_ifs
  · exact h.prp1
  · exact readLe64_lt _ _
  · exact h.prp2

/-- The PRPs after the first are page aligned. -/
theorem ConformingPrps.prp_aligned (h : cmd.ConformingPrps host)
    (hm : cmd.covered (m + 1) < cmd.ioLength) : cmd.prp host (m + 1) % pageSize = 0 :=
  h.aligned m (lt_numRest hm)

/-- The bytes of a round: up to the end of the page of its PRP. -/
theorem ConformingPrps.ioSize_eq (h : cmd.ConformingPrps host)
    (hm : cmd.covered m < cmd.ioLength) {c : IoCursor}
    (hc : c.remaining = cmd.ioLength - cmd.covered m) :
    c.ioSize (cmd.prp host m) = cmd.pageBytes m := by
  have hfirst := cmd.firstBytes_le
  unfold IoCursor.ioSize pageBytes
  dsimp only
  rw [hc]
  cases m with
  | zero =>
    have hmod := Nat.mod_lt cmd.prp1 (show 0 < pageSize by decide)
    rw [covered_succ, covered_zero, Nat.mul_zero, Nat.add_zero, min_eq_right hfirst]
    unfold firstBytes prp
    rw [if_pos rfl]
    split_ifs <;> omega
  | succ m =>
    rw [h.prp_aligned hm, covered_of_lt hm, covered_succ, Nat.mul_succ]
    rw [covered_of_lt hm] at hm
    split_ifs <;> omega

end NvmeRwCommand

/-! ### The loop along the description -/

namespace IoCursor

variable {c c' : IoCursor} {cmd : NvmeRwCommand} {host storage : Mem} {m : ℕ}

/-- The cursor has walked over the first `m` PRPs. -/
structure Walked (cmd : NvmeRwCommand) (m : ℕ) (c : IoCursor) : Prop where
  remaining : c.remaining = cmd.ioLength - cmd.covered m
  prpOffs : c.prpOffs = m
  prp2Offs : cmd.UsesList → c.prp2Offs = m - 1
  list : 2 ≤ m → cmd.UsesList → c.paddrList = some cmd.prp2

/-- The cursor has copied the pages of the first `m` PRPs. -/
structure AtPrp (cmd : NvmeRwCommand) (host storage : Mem) (m : ℕ) (c : IoCursor) : Prop
    extends Walked cmd m c where
  passed : Passed cmd host storage (cmd.slba * 512) cmd.ioLength c
  pairs : c.pairs = cmd.described host (cmd.covered m)

/-- The entry of the list the next round reads still holds its PRP. -/
def EntryKept (cmd : NvmeRwCommand) (host : Mem) (m : ℕ) (c : IoCursor) : Prop :=
  cmd.UsesList → m ≠ 0 →
    readLe64 c.host (cmd.prp2 + 8 * (m - 1)) = readLe64 host (cmd.prp2 + 8 * (m - 1))

/-- The PRP of the next round, as the host memory names it by then. -/
def prpNow (cmd : NvmeRwCommand) (m : ℕ) (c : IoCursor) : ℕ :=
  if m = 0 then cmd.prp1
  else if cmd.UsesList then readLe64 c.host (cmd.prp2 + 8 * (m - 1)) else cmd.prp2

theorem prpNow_eq_iff : prpNow cmd m c = cmd.prp host m ↔ EntryKept cmd host m c := by
  unfold prpNow NvmeRwCommand.prp NvmeRwCommand.restPrp EntryKept
  split_ifs with h0 hlist
  · simp [h0]
  · simp [h0, hlist]
  · simp [hlist]

/-- The next entry of a list inside one page. -/
theorem nextEntry_ok {base : ℕ} (hbase : c.paddrList = some base)
    (hroom : base % pageSize + 8 * (c.prp2Offs + 1) ≤ pageSize) :
    c.nextEntry = .ok ({ c with prp2Offs := c.prp2Offs + 1 },
      readLe64 c.host (base + 8 * c.prp2Offs)) := by
  unfold nextEntry
  rw [hbase]
  exact defined_bind hroom _

/-- The host address of a round. -/
theorem Walked.nextPaddr (hconf : cmd.ConformingPrps host) (h : Walked cmd m c)
    (hm : cmd.covered m < cmd.ioLength) :
    ∃ c₁, c.nextPaddr cmd = .ok (c₁, prpNow cmd m c) ∧ c₁.prpOffs = m + 1 ∧
      (cmd.UsesList → c₁.prp2Offs = m) ∧ (1 ≤ m → cmd.UsesList → c₁.paddrList = some cmd.prp2) := by
  have hoffs := h.prpOffs
  have hroom : ∀ j, m = j + 1 → cmd.UsesList →
      cmd.prp2 % pageSize + 8 * (c.prp2Offs + 1) ≤ pageSize := by
    rintro j rfl hlist
    have hj := NvmeRwCommand.lt_numRest hm
    have := hconf.list hlist
    rw [h.prp2Offs hlist]
    omega
  unfold IoCursor.nextPaddr
  dsimp only
  rcases m with _ | _ | m
  · rw [if_pos (show c.prpOffs + 1 = 1 by omega)]
    exact ⟨_, rfl, congrArg (· + 1) hoffs, fun hl => h.prp2Offs hl, fun h1 => absurd h1 (by decide)⟩
  · have hrem : c.remaining = cmd.ioLength - cmd.firstBytes := by
      have hcov := NvmeRwCommand.covered_of_lt (m := 0) hm
      rw [h.remaining, hcov, Nat.mul_zero, Nat.add_zero]
    rw [if_neg (show ¬ c.prpOffs + 1 = 1 by omega), if_pos (show c.prpOffs + 1 = 2 by omega)]
    by_cases hlist : cmd.UsesList
    · have h2 : c.prp2Offs = 0 := h.prp2Offs hlist
      have hnow : prpNow cmd (0 + 1) c = readLe64 c.host (cmd.prp2 + 8 * c.prp2Offs) := by
        unfold prpNow
        rw [if_neg (by omega), if_pos hlist, h2]
      rw [hnow, if_pos (show pageSize < c.remaining by rw [hrem]; exact hlist), nextEntry_ok
        (c := { c with prpOffs := c.prpOffs + 1, paddrList := some cmd.prp2 }) rfl
        (hroom 0 rfl hlist)]
      exact ⟨_, rfl, congrArg (· + 1) hoffs, fun _ => congrArg (· + 1) h2, fun _ _ => rfl⟩
    · have hnow : prpNow cmd (0 + 1) c = cmd.prp2 := by
        unfold prpNow
        rw [if_neg (by omega), if_neg hlist]
      rw [hnow, if_neg (show ¬ pageSize < c.remaining by rw [hrem]; exact hlist)]
      exact ⟨_, rfl, congrArg (· + 1) hoffs, fun hl => absurd hl hlist,
        fun _ hl => absurd hl hlist⟩
  · have hlist := NvmeRwCommand.usesList_of_two hm
    have h2 : c.prp2Offs = m + 1 := h.prp2Offs hlist
    have hnow : prpNow cmd (m + 1 + 1) c = readLe64 c.host (cmd.prp2 + 8 * c.prp2Offs) := by
      unfold prpNow
      rw [if_neg (by omega), if_pos hlist, h2]
      rfl
    rw [hnow, if_neg (show ¬ c.prpOffs + 1 = 1 by omega),
      if_neg (show ¬ c.prpOffs + 1 = 2 by omega),
      nextEntry_ok (c := { c with prpOffs := c.prpOffs + 1 }) (h.list (by omega) hlist)
        (hroom (m + 1) rfl hlist)]
    exact ⟨_, rfl, congrArg (· + 1) hoffs, fun _ => congrArg (· + 1) h2,
      fun _ _ => h.list (by omega) hlist⟩

/-- **A round along the description:** it copies the next page, if the entry it reads still holds
its PRP. -/
theorem AtPrp.round (hconf : cmd.ConformingPrps host) (hb : cmd.slba * 512 + cmd.ioLength ≤ 2 ^ 64)
    (h : AtPrp cmd host storage m c) (hm : cmd.covered m < cmd.ioLength)
    (hkept : EntryKept cmd host m c) :
    ∃ c', c.round cmd = .ok c' ∧ AtPrp cmd host storage (m + 1) c' := by
  obtain ⟨c₁, hnext, ho, ho2, hlist⟩ := h.nextPaddr hconf hm
  rw [prpNow_eq_iff.2 hkept] at hnext
  have hok : ∃ c', c.round cmd = .ok c' := by
    unfold IoCursor.round
    rw [hnext]
    exact ⟨_, rfl⟩
  obtain ⟨c', hc'⟩ := hok
  refine ⟨c', hc', ?_⟩
  obtain ⟨c₂, p, hnext', hpairs, hrem, -, hoffs, hoffs2, hlist', -⟩ := round_pairs hc'
  rw [hnext] at hnext'
  cases hnext'
  have hrem₁ := (nextPaddr_frame hnext).1
  have hsize := hconf.ioSize_eq hm (hrem₁.trans h.remaining)
  have hoff : c.offset = cmd.slba * 512 + cmd.covered m := by
    have := h.passed.offset
    rw [h.remaining, Nat.sub_sub_self (cmd.covered_le m)] at this
    rw [this]
    exact Nat.mod_eq_of_lt (by omega)
  have hnot : c.remaining ≠ 0 := by
    rw [h.remaining]
    omega
  refine ⟨⟨?_, hoffs.trans ho, fun hl => ?_, fun h2 hl => ?_⟩, h.passed.round hb hnot hc', ?_⟩
  · have := cmd.covered_add_pageBytes m
    rw [hrem, hsize, h.remaining]
    omega
  · rw [hoffs2, ho2 hl]
    omega
  · rw [hlist']
    exact hlist (by omega) hl
  · rw [hpairs, h.pairs, hsize, hoff, NvmeRwCommand.described_covered_succ hm]

/-- Later rounds only add pairs. -/
theorem loop_prefix {fuel : ℕ} (hc : IoCursor.loop cmd fuel c = .ok c') : c.pairs <+: c'.pairs := by
  induction fuel generalizing c with
  | zero =>
    cases hc
    exact List.prefix_rfl
  | succ fuel ih =>
    unfold IoCursor.loop at hc
    split_ifs at hc with h0
    · cases hc
      exact List.prefix_rfl
    · obtain ⟨c₁, hc₁, hc⟩ := bind_eq_ok.1 hc
      obtain ⟨_, _, -, hpairs, -⟩ := round_pairs hc₁
      exact (hpairs ▸ List.prefix_append _ _).trans (ih hc)

/-- **A round astray:** where the entry it reads does not hold its PRP any more, the loop does not
copy what is described. -/
theorem AtPrp.astray (hconf : cmd.ConformingPrps host) (h : AtPrp cmd host storage m c)
    (hm : cmd.covered m < cmd.ioLength) (hkept : ¬ EntryKept cmd host m c) {fuel : ℕ}
    (hc : IoCursor.loop cmd (fuel + 1) c = .ok c') :
    c'.pairs ≠ cmd.described host cmd.ioLength := by
  intro heq
  have hrem : c.remaining ≠ 0 := by
    rw [h.remaining]
    omega
  unfold IoCursor.loop at hc
  rw [if_neg hrem] at hc
  obtain ⟨c₁, hc₁, hc⟩ := bind_eq_ok.1 hc
  have hpre := loop_prefix hc
  obtain ⟨c₂, hnext, -⟩ := h.nextPaddr hconf hm
  obtain ⟨c₃, p, hnext', hpairs, -⟩ := round_pairs hc₁
  rw [hnext] at hnext'
  cases hnext'
  have hpos := ioSize_pos c₂ (prpNow cmd m c) (by rw [(nextPaddr_frame hnext).1]; exact hrem)
  rw [hpairs, h.pairs, heq] at hpre
  -- The pair behind those copied so far names the PRP on the one side, the entry now on the other.
  have hlen : (cmd.described host (cmd.covered m)).length = cmd.covered m := by
    simp [NvmeRwCommand.described]
  obtain ⟨t, ht⟩ := hpre
  obtain ⟨n, hn⟩ := Nat.exists_eq_succ_of_ne_zero hpos.ne'
  have hnow : (cmd.described host cmd.ioLength)[cmd.covered m]? =
      some (prpNow cmd m c + 0, c.offset + 0) := by
    rw [← ht, hn, List.range_succ_eq_map, List.append_assoc,
      List.getElem?_append_right hlen.le, hlen, Nat.sub_self]
    rfl
  have hthen : (cmd.described host cmd.ioLength)[cmd.covered m]? =
      some (cmd.prpAddr host (cmd.covered m), cmd.slba * 512 + cmd.covered m) := by
    unfold NvmeRwCommand.described
    rw [List.getElem?_map, List.getElem?_range hm]
    rfl
  have hget := Option.some.inj (hnow.symm.trans hthen)
  have hfirst : 0 < cmd.pageBytes m := by
    have := cmd.covered_add_pageBytes m
    have hlt : cmd.covered m < cmd.covered (m + 1) := NvmeRwCommand.covered_lt hm
    omega
  have haddr := NvmeRwCommand.prpAddr_covered host hm hfirst
  rw [Nat.add_zero, Nat.add_zero] at haddr
  exact hkept (prpNow_eq_iff.1 ((congrArg Prod.fst hget).trans haddr))

/-- Along a description that the reads leave alone, every entry holds its PRP when it is read. -/
theorem AtPrp.entryKept (h : AtPrp cmd host storage m c) (hop : cmd.opcode = .read ∨ cmd.ToStorage)
    (hm : cmd.covered m < cmd.ioLength) (hkept : cmd.PrpListKept host storage) :
    EntryKept cmd host m c := by
  intro hlist hm0
  rcases hop with hop | hop
  · obtain ⟨j, rfl⟩ := Nat.exists_eq_succ_of_ne_zero hm0
    rw [(h.passed.copied.read hop).2, h.pairs]
    exact hkept hop hlist j (NvmeRwCommand.lt_numRest hm)
  · rw [(h.passed.copied.write hop).1]

/-- **The loop along a description that stays:** it ends with all of it copied. -/
theorem AtPrp.loop (hconf : cmd.ConformingPrps host) (hb : cmd.slba * 512 + cmd.ioLength ≤ 2 ^ 64)
    (hop : cmd.opcode = .read ∨ cmd.ToStorage) (hkept : cmd.PrpListKept host storage)
    (h : AtPrp cmd host storage m c) {fuel : ℕ} (hf : c.remaining ≤ fuel) :
    ∃ c', IoCursor.loop cmd fuel c = .ok c' ∧
      cmd.DataMoved host storage c'.pairs c'.host c'.storage := by
  induction fuel generalizing m c with
  | zero =>
    have hfull : cmd.covered m = cmd.ioLength := by
      have := cmd.covered_le m
      have := h.remaining
      omega
    exact ⟨c, rfl, hfull ▸ h.pairs, h.passed.copied⟩
  | succ fuel ih =>
    unfold IoCursor.loop
    split_ifs with h0
    · have hfull : cmd.covered m = cmd.ioLength := by
        have := cmd.covered_le m
        have := h.remaining
        omega
      exact ⟨c, rfl, hfull ▸ h.pairs, h.passed.copied⟩
    · have hm : cmd.covered m < cmd.ioLength := by
        have := h.remaining
        omega
      obtain ⟨c₁, hc₁, h₁⟩ := h.round hconf hb hm (h.entryKept hop hm hkept)
      rw [hc₁, ok_bind]
      refine ih h₁ ?_
      have := NvmeRwCommand.covered_lt hm
      have := h₁.remaining
      have := h.remaining
      omega

/-- Where the loop ends with all of the description copied, it has met every entry as it was. -/
theorem AtPrp.kept_of_loop (hconf : cmd.ConformingPrps host)
    (hb : cmd.slba * 512 + cmd.ioLength ≤ 2 ^ 64) (h : AtPrp cmd host storage m c) {fuel : ℕ}
    (hf : c.remaining ≤ fuel) (hc : IoCursor.loop cmd fuel c = .ok c')
    (hpairs : c'.pairs = cmd.described host cmd.ioLength) (hop : cmd.opcode = .read)
    (hlist : cmd.UsesList) {j : ℕ} (hmj : m ≤ j + 1) (hj : j < cmd.numRest) :
    readLe64 (byteCopy host storage (cmd.described host (cmd.covered (j + 1))))
      (cmd.prp2 + 8 * j) = readLe64 host (cmd.prp2 + 8 * j) := by
  have hjlt := NvmeRwCommand.covered_lt_of_lt hj
  have hm : cmd.covered m < cmd.ioLength :=
    (cmd.covered_mono hmj).trans_lt hjlt
  have hrem := h.remaining
  induction fuel generalizing m c with
  | zero => omega
  | succ fuel ih =>
    have hkept : EntryKept cmd host m c := by
      by_contra hnot
      exact h.astray hconf hm hnot hc hpairs
    rcases hmj.eq_or_lt with rfl | hlt
    · have := hkept hlist (by omega)
      rwa [(h.passed.copied.read hop).2, h.pairs] at this
    · unfold IoCursor.loop at hc
      rw [if_neg (by omega)] at hc
      obtain ⟨c₁, hc₁, h₁⟩ := h.round hconf hb hm hkept
      rw [hc₁, ok_bind] at hc
      have hcov := NvmeRwCommand.covered_lt hm
      have hrem₁ := h₁.remaining
      exact ih h₁ (by omega) hc (by omega) ((cmd.covered_mono hlt).trans_lt hjlt) hrem₁

end IoCursor

/-- The cursor `__do_perform_io` starts with. -/
theorem atPrp_start (cmd : NvmeRwCommand) (host storage : Mem)
    (hb : cmd.slba * 512 + cmd.ioLength ≤ 2 ^ 64) :
    IoCursor.AtPrp cmd host storage 0
      (IoCursor.start host storage (cmd.slba * 512) cmd.ioLength) where
  passed := IoCursor.passed_start cmd host storage (by
    have := cmd.firstBytes_pos
    have := cmd.firstBytes_le
    omega)
  remaining := rfl
  prpOffs := rfl
  prp2Offs _ := rfl
  list h := absurd h (by decide)
  pairs := rfl

theorem NvmeRwCommand.ioOffset_eq (cmd : NvmeRwCommand)
    (hb : cmd.slba * 512 + cmd.ioLength ≤ 2 ^ 64) : cmd.ioOffset = cmd.slba * 512 := by
  have := cmd.firstBytes_pos
  have := cmd.firstBytes_le
  unfold NvmeRwCommand.ioOffset u64
  rw [Nat.shiftLeft_eq]
  omega

theorem doPerformIo_eq (cmd : NvmeRwCommand) (host storage : Mem)
    (hb : cmd.slba * 512 + cmd.ioLength ≤ 2 ^ 64) :
    doPerformIo cmd host storage =
      IoCursor.loop cmd cmd.ioLength
        (IoCursor.start host storage (cmd.slba * 512) cmd.ioLength) := by
  unfold doPerformIo IoCursor.start
  rw [cmd.ioOffset_eq hb]

/-- **When `__do_perform_io` moves the data of a command as described.** -/
theorem doPerformIo_dataMoved_iff {cmd : NvmeRwCommand} {host storage : Mem}
    (hop : cmd.opcode = .read ∨ cmd.ToStorage) (hconf : cmd.ConformingPrps host)
    (hb : cmd.slba * 512 + cmd.ioLength ≤ 2 ^ 64) :
    (∃ c, doPerformIo cmd host storage = .ok c ∧
      cmd.DataMoved host storage c.pairs c.host c.storage) ↔ cmd.PrpListKept host storage := by
  rw [doPerformIo_eq cmd host storage hb]
  constructor
  · rintro ⟨c, hc, hmoved⟩ hread hlist j hj
    exact (atPrp_start cmd host storage hb).kept_of_loop hconf hb le_rfl hc hmoved.pairs hread
      hlist (Nat.zero_le _) hj
  · intro hkept
    exact (atPrp_start cmd host storage hb).loop hconf hb hop hkept le_rfl

end NvmeVirt
