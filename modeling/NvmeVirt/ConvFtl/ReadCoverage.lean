/-
# What a host read fetches

`conv_read` visits the pages of a command instance by instance and collects
neighbours of one flash page in a NAND read.  In every reachable state the reads
it issues come from a partition of the mapped pages of the command into batches
(`convRun_readCoverage`): one batch a read, each on one instance and in one flash
page.
-/

import NvmeVirt.ConvFtl.Read
import NvmeVirt.ConvFtl.Reachable
import NvmeVirt.ConvFtl.Striping

namespace NvmeVirt

open Outcome Inverse

/-- A NAND read and the logical pages it is issued for. -/
structure ReadBatch where
  read : NandRead
  lpns : List ℕ

namespace ConvNs

variable {ns : ConvNs} {reads : List NandRead} {vs : List ℕ} {c : ReadCursor} {q lpn : ℕ}

/-- The entry of the mapping table for a logical page of the namespace. -/
def entry (ns : ConvNs) (lpn : ℕ) : Ppa := (ns.ftls (lpn % ns.nrParts)).maptbl (lpn / ns.nrParts)

/-- **The read of a batch** goes to the instance of its pages, to the flash page they lie in, and
transfers all of them. -/
structure BatchOk (ns : ConvNs) (b : ReadBatch) : Prop where
  ne : b.lpns ≠ []
  part : ∀ lpn ∈ b.lpns, lpn % ns.nrParts = b.read.part
  page : ∀ lpn ∈ b.lpns, isSameFlashPage ns.sp (ns.entry lpn) b.read.ppa
  mapped : mappedPpa b.read.ppa
  size : b.read.xferSize = ns.sp.pgsz * b.lpns.length

/-- The mapped ones of the logical pages `vs`, in batches of the reads. -/
def Batched (ns : ConvNs) (reads : List NandRead) (vs : List ℕ) (bs : List ReadBatch) : Prop :=
  reads = bs.map ReadBatch.read ∧ (∀ b ∈ bs, ns.BatchOk b) ∧
    bs.flatMap ReadBatch.lpns = vs.filter fun lpn => mappedPpa (ns.entry lpn)

/-! ### The inner loop -/

/-- The pages `g` that the cursor has collected lie in one flash page of the instance `q`. -/
structure Collects (ns : ConvNs) (q : ℕ) (c : ReadCursor) (g : List ℕ) : Prop where
  size : c.xferSize = ns.sp.pgsz * g.length
  mapped : g ≠ [] → mappedPpa c.prevPpa
  part : ∀ lpn ∈ g, lpn % ns.nrParts = q
  page : ∀ lpn ∈ g, isSameFlashPage ns.sp (ns.entry lpn) c.prevPpa

/-- The invariant of the inner loop after the pages `vs`. -/
def CursorOk (ns : ConvNs) (q : ℕ) (vs : List ℕ) (c : ReadCursor) : Prop :=
  ∃ (bs : List ReadBatch) (g : List ℕ), ns.Collects q c g ∧
    c.reads = bs.map ReadBatch.read ∧ (∀ b ∈ bs, ns.BatchOk b) ∧
    bs.flatMap ReadBatch.lpns ++ g = vs.filter fun lpn => mappedPpa (ns.entry lpn)

/-- **The pages collected are issued as one batch.** -/
theorem CursorOk.issue (hsz : 0 < ns.sp.pgsz) (h : ns.CursorOk q vs c) :
    ∃ bs, ns.Batched (c.issue q) vs bs := by
  obtain ⟨bs, g, hg, hreads, hbs, hvs⟩ := h
  unfold ReadCursor.issue
  by_cases h0 : g = []
  · subst h0
    rw [if_neg (by rw [hg.size]; simp)]
    exact ⟨bs, hreads, hbs, by simpa using hvs⟩
  · have hpos : 0 < c.xferSize := by
      rw [hg.size]
      exact Nat.mul_pos hsz (List.length_pos_iff.2 h0)
    rw [if_pos hpos]
    refine ⟨bs ++ [⟨⟨q, c.prevPpa, c.xferSize⟩, g⟩], by simp [hreads], fun b hb => ?_, ?_⟩
    · rcases List.mem_append.1 hb with hb | hb
      · exact hbs b hb
      · rw [List.mem_singleton.1 hb]
        exact ⟨h0, hg.part, hg.page, hg.mapped h0, hg.size⟩
    · rw [List.flatMap_append, List.flatMap_singleton, hvs]

/-- **One round of the inner loop.** -/
theorem CursorOk.visit (hsz : 0 < ns.sp.pgsz) (h : ns.CursorOk q vs c)
    (hq : lpn % ns.nrParts = q)
    (hvalid : mappedPpa (ns.entry lpn) → ns.sp.validPpa (ns.entry lpn)) :
    ns.CursorOk q (vs ++ [lpn]) (c.visit ns.sp q (ns.entry lpn)) := by
  unfold ReadCursor.visit
  by_cases hm : mappedPpa (ns.entry lpn)
  · rw [if_neg (by simp [hm, hvalid hm])]
    by_cases hsame : mappedPpa c.prevPpa ∧ isSameFlashPage ns.sp (ns.entry lpn) c.prevPpa
    · -- one more page of the flash page
      rw [if_pos hsame]
      obtain ⟨bs, g, hg, hreads, hbs, hvs⟩ := h
      refine ⟨bs, g ++ [lpn], ⟨?_, fun _ => hsame.1, ?_, ?_⟩, hreads, hbs, ?_⟩
      · rw [List.length_append, List.length_singleton, Nat.mul_add, mul_one, ← hg.size]
      · simpa [or_imp, forall_and, hq] using hg.part
      · simpa [or_imp, forall_and, hsame.2] using hg.page
      · rw [← List.append_assoc, hvs, List.filter_append]
        simp [hm]
    · -- the first page of another flash page
      rw [if_neg hsame]
      obtain ⟨bs, hreads, hbs, hvs⟩ := h.issue hsz
      refine ⟨bs, [lpn], ⟨by simp, fun _ => hm, by simp [hq], ?_⟩, hreads, hbs, ?_⟩
      · simp [isSameFlashPage]
      · rw [hvs, List.filter_append]
        simp [hm]
  · rw [if_pos (.inl hm)]
    obtain ⟨bs, g, hg, hreads, hbs, hvs⟩ := h
    refine ⟨bs, g, hg, hreads, hbs, ?_⟩
    rw [hvs, List.filter_append]
    simp [hm]

/-! ### The outer loop -/

/-- The pages `start, start + nr_parts, …` up to `last`. -/
def partLpns (ns : ConvNs) (last start : ℕ) : List ℕ :=
  (List.range ((last - start) / ns.nrParts + 1)).map fun i => start + i * ns.nrParts

/-- The pages of a command in the order `conv_read` visits them. -/
def visitOrder (ns : ConvNs) (first last : ℕ) : List ℕ :=
  (List.range (min ns.nrParts (last + 1 - first))).flatMap fun i => ns.partLpns last (first + i)

theorem mem_partLpns (hpos : 0 < ns.nrParts) {last start : ℕ} (hle : start ≤ last) :
    lpn ∈ ns.partLpns last start ↔
      start ≤ lpn ∧ lpn ≤ last ∧ lpn % ns.nrParts = start % ns.nrParts := by
  simp only [partLpns, List.mem_map, List.mem_range]
  constructor
  · rintro ⟨i, hi, rfl⟩
    have h1 := Nat.mul_le_mul_right ns.nrParts (Nat.lt_succ_iff.1 hi)
    have h2 := Nat.div_mul_le_self (last - start) ns.nrParts
    exact ⟨Nat.le_add_right _ _, by omega, Nat.add_mul_mod_self_right _ _ _⟩
  · rintro ⟨h1, h2, h3⟩
    obtain ⟨i, hi⟩ := (Nat.modEq_iff_dvd' h1).1 h3.symm
    refine ⟨i, ?_, by rw [mul_comm]; omega⟩
    rw [Nat.lt_succ_iff, Nat.le_div_iff_mul_le hpos, mul_comm]
    omega

theorem nodup_partLpns (hpos : 0 < ns.nrParts) (last start : ℕ) :
    (ns.partLpns last start).Nodup := by
  refine List.nodup_range.map fun i j h => ?_
  exact Nat.eq_of_mul_eq_mul_right hpos (Nat.add_left_cancel h)

/-- **Every page of the command is visited once.** -/
theorem visitOrder_spec (hpos : 0 < ns.nrParts) (first last : ℕ) :
    (ns.visitOrder first last).Nodup ∧
      ∀ lpn, lpn ∈ ns.visitOrder first last ↔ first ≤ lpn ∧ lpn ≤ last := by
  have hle : ∀ i, i < min ns.nrParts (last + 1 - first) → first + i ≤ last := fun i hi => by omega
  refine ⟨List.nodup_flatMap.2 ⟨fun i _ => nodup_partLpns hpos _ _, ?_⟩, fun lpn => ?_⟩
  · -- different residues
    refine (List.nodup_range (n := min ns.nrParts (last + 1 - first))).pairwise_of_forall_ne
      fun i hi j hj hij l hli hlj => ?_
    rw [List.mem_range] at hi hj
    have h1 := ((mem_partLpns hpos (hle i hi)).1 hli).2.2
    have h2 := ((mem_partLpns hpos (hle j hj)).1 hlj).2.2
    have h3 : i % ns.nrParts = j % ns.nrParts := Nat.ModEq.add_left_cancel' first (h1.symm.trans h2)
    rw [Nat.mod_eq_of_lt (by omega), Nat.mod_eq_of_lt (by omega)] at h3
    exact hij h3
  · simp only [visitOrder, List.mem_flatMap, List.mem_range]
    constructor
    · rintro ⟨i, hi, hl⟩
      have := (mem_partLpns hpos (hle i hi)).1 hl
      omega
    · rintro ⟨h1, h2⟩
      have hmod := Nat.mod_lt (lpn - first) hpos
      have hmle := Nat.mod_le (lpn - first) ns.nrParts
      refine ⟨(lpn - first) % ns.nrParts, by omega,
        (mem_partLpns hpos (by omega)).2 ⟨by omega, h2, ?_⟩⟩
      rw [Nat.add_mod, Nat.mod_mod, ← Nat.add_mod]
      congr 1
      omega

/-- **The reads of one instance.** -/
theorem Batched.readPart {bs : List ReadBatch} {start last : ℕ} (hsz : 0 < ns.sp.pgsz)
    (hpos : 0 < ns.nrParts) (hsp : ∀ q, q < ns.nrParts → (ns.ftls q).ssd.sp = ns.sp)
    (hvalid : ∀ lpn, lpn ≤ last → mappedPpa (ns.entry lpn) → ns.sp.validPpa (ns.entry lpn))
    (hle : start ≤ last) (hlast : last / ns.nrParts < ns.sp.ttPgs) (h : ns.Batched reads vs bs) :
    Ends (ns.readPart start last reads)
      (fun reads => ∃ bs, ns.Batched reads (vs ++ ns.partLpns last start) bs) fun _ => False := by
  have hq : start % ns.nrParts < ns.nrParts := Nat.mod_lt _ hpos
  have hent : ∀ i, i ≤ (last - start) / ns.nrParts → start + i * ns.nrParts ≤ last ∧
      (ns.ftls (start % ns.nrParts)).getMaptblEnt ((start + i * ns.nrParts) / ns.nrParts) =
        .ok (ns.entry (start + i * ns.nrParts)) := by
    intro i hi
    have h1 := Nat.mul_le_mul_right ns.nrParts hi
    have h2 := Nat.div_mul_le_self (last - start) ns.nrParts
    have hl : start + i * ns.nrParts ≤ last := by omega
    refine ⟨hl, ?_⟩
    unfold ConvFtl.getMaptblEnt entry
    rw [Nat.add_mul_mod_self_right, defined_bind]
    rw [hsp _ hq]
    exact lt_of_le_of_lt (Nat.div_le_div_right hl) hlast
  have hfirst := (hent 0 (Nat.zero_le _)).2
  rw [Nat.zero_mul, Nat.add_zero] at hfirst
  unfold ConvNs.readPart
  dsimp only
  rw [hfirst, ok_bind]
  refine Ends.bind (Ends.forRange (fun i c => ns.CursorOk (start % ns.nrParts)
    (vs ++ (List.range i).map fun i => start + i * ns.nrParts) c) ?_ fun i hi c hc => ?_) ?_
  · obtain ⟨hreads, hbs, hvs⟩ := h
    exact ⟨bs, [], ⟨rfl, fun h0 => absurd rfl h0, by simp, by simp⟩, hreads, hbs,
      by simpa using hvs⟩
  · obtain ⟨hl, he⟩ := hent i (Nat.lt_succ_iff.1 hi)
    rw [he, ok_bind, hsp _ hq, ends_ok, List.range_succ, List.map_append, ← List.append_assoc]
    exact hc.visit hsz (Nat.add_mul_mod_self_right _ _ _) (hvalid _ hl)
  · exact fun c hc => hc.issue hsz

/-- **The reads of a command.** -/
theorem convRead_batched (hsz : 0 < ns.sp.pgsz) (hpos : 0 < ns.nrParts)
    (hsp : ∀ q, q < ns.nrParts → (ns.ftls q).ssd.sp = ns.sp) {slba length : ℕ}
    (hvalid : ∀ lpn, lpn ≤ ns.endLpn slba length → mappedPpa (ns.entry lpn) →
      ns.sp.validPpa (ns.entry lpn)) (hr : ns.inFtlRange slba length) :
    ∃ reads bs, ns.convRead slba length = .ok (some reads) ∧
      ns.Batched reads (ns.visitOrder (slba / ns.sp.secsPerPg) (ns.endLpn slba length)) bs := by
  have hend : Ends (ns.convRead slba length) (fun r => ∃ reads bs, r = some reads ∧
      ns.Batched reads (ns.visitOrder (slba / ns.sp.secsPerPg) (ns.endLpn slba length)) bs)
      fun _ => False := by
    unfold convRead
    rw [defined_bind hpos]
    dsimp only
    rw [if_neg (not_not.2 hr)]
    refine Ends.bind (Ends.forRange (fun i reads => ∃ bs, ns.Batched reads ((List.range i).flatMap
      fun i => ns.partLpns (ns.endLpn slba length) (slba / ns.sp.secsPerPg + i)) bs) ?_ ?_) ?_
    · exact ⟨[], rfl, by simp, rfl⟩
    · rintro i hi reads ⟨bs, hb⟩
      rw [List.range_succ, List.flatMap_append, List.flatMap_singleton]
      exact hb.readPart hsz hpos hsp hvalid (by omega) hr
    · rintro reads ⟨bs, hb⟩
      exact ⟨reads, bs, rfl, hb⟩
  obtain ⟨_, hok, reads, bs, rfl, hb⟩ := hend.exists_ok
  exact ⟨reads, bs, hok, hb⟩

/-! ### Coverage -/

/-- The mapped logical pages of a command. -/
def mappedOf (ns : ConvNs) (slba length : ℕ) : Finset ℕ :=
  (Finset.Icc (slba / ns.sp.secsPerPg) (ns.endLpn slba length)).filter
    fun lpn => mappedPpa (ns.entry lpn)

/-- **The reads of a command fetch its mapped pages, each in one of them.**  The sum of a read is
kept in 32 bits, which it does not exceed. -/
structure ReadCoverage (ns : ConvNs) (slba length : ℕ) (reads : List NandRead) : Prop where
  batches : ∃ bs : List ReadBatch, reads = bs.map ReadBatch.read ∧ (∀ b ∈ bs, ns.BatchOk b) ∧
    (bs.flatMap ReadBatch.lpns).Nodup ∧
    ∀ lpn, lpn ∈ bs.flatMap ReadBatch.lpns ↔ lpn ∈ ns.mappedOf slba length
  total : (reads.map NandRead.xferSize).sum = ns.sp.pgsz * (ns.mappedOf slba length).card
  issued : ∀ r ∈ reads, 0 < r.xferSize ∧ mappedPpa r.ppa
  fits : length < 2 ^ 16 → ∀ r ∈ reads, r.xferSize < 2 ^ 32

/-- The reads of batches transfer their pages. -/
theorem sum_xferSize {bs : List ReadBatch} (h : ∀ b ∈ bs, ns.BatchOk b) :
    ((bs.map ReadBatch.read).map NandRead.xferSize).sum =
      ns.sp.pgsz * (bs.flatMap ReadBatch.lpns).length := by
  induction bs with
  | nil => rfl
  | cons b bs ih =>
    simp only [List.map_cons, List.sum_cons, List.flatMap_cons, List.length_append, Nat.mul_add]
    rw [ih fun c hc => h c (List.mem_cons_of_mem _ hc), (h b (by simp)).size]

/-- The pages of a command of at most 2¹⁶ blocks. -/
theorem card_mappedOf_le (hsecs : ns.sp.secsPerPg = 8) {slba length : ℕ} (hlen : length < 2 ^ 16) :
    (ns.mappedOf slba length).card ≤ 8194 := by
  refine (Finset.card_filter_le _ _).trans ?_
  have hend : ns.endLpn slba length ≤ (slba + length) / 8 := by
    unfold endLpn
    rw [hsecs]
    exact Nat.div_le_div_right (Nat.mod_le _ _)
  rw [Nat.card_Icc, hsecs]
  omega

theorem Batched.readCoverage {bs : List ReadBatch} {slba length : ℕ} (hpos : 0 < ns.nrParts)
    (hsz : ns.sp.pgsz = 4096) (hsecs : ns.sp.secsPerPg = 8)
    (h : ns.Batched reads (ns.visitOrder (slba / ns.sp.secsPerPg) (ns.endLpn slba length)) bs) :
    ns.ReadCoverage slba length reads := by
  obtain ⟨hreads, hbs, hvs⟩ := h
  obtain ⟨hnd, hmem⟩ := visitOrder_spec hpos (slba / ns.sp.secsPerPg) (ns.endLpn slba length)
  have hnd' : (bs.flatMap ReadBatch.lpns).Nodup := hvs ▸ hnd.filter _
  have hmem' : ∀ lpn, lpn ∈ bs.flatMap ReadBatch.lpns ↔ lpn ∈ ns.mappedOf slba length := by
    intro lpn
    rw [hvs, List.mem_filter, hmem, mappedOf, Finset.mem_filter, Finset.mem_Icc]
    simp
  have hcard : (bs.flatMap ReadBatch.lpns).length = (ns.mappedOf slba length).card := by
    rw [← List.toFinset_card_of_nodup hnd']
    exact congrArg Finset.card (Finset.ext fun lpn => by rw [List.mem_toFinset, hmem'])
  have htotal : (reads.map NandRead.xferSize).sum =
      ns.sp.pgsz * (ns.mappedOf slba length).card := by
    rw [hreads, sum_xferSize hbs, hcard]
  refine ⟨⟨bs, hreads, hbs, hnd', hmem'⟩, htotal, fun r hr => ?_, fun hlen r hr => ?_⟩
  · rw [hreads] at hr
    obtain ⟨b, hb, rfl⟩ := List.mem_map.1 hr
    have hok := hbs b hb
    refine ⟨?_, hok.mapped⟩
    rw [hok.size, hsz]
    exact Nat.mul_pos (by norm_num) (List.length_pos_iff.2 hok.ne)
  · have hle := List.single_le_sum (fun _ _ => Nat.zero_le _) r.xferSize
      (List.mem_map.2 ⟨r, hr, rfl⟩)
    have : (ns.mappedOf slba length).card ≤ 8194 := card_mappedOf_le hsecs hlen
    rw [htotal, hsz] at hle
    omega

end ConvNs

/-- The geometry of a fresh namespace. -/
theorem convInitNamespace_params {size : ℕ} {cfg : FtlConfigs} {ns : ConvNs}
    (h : convInitNamespace size cfg = .ok ns) :
    ssdInitParams size cfg.ssdPartitions cfg = .ok ns.sp := by
  unfold convInitNamespace at h
  simp only [bind_eq_ok] at h
  obtain ⟨spp, hspp, ftl, hftl, h⟩ := h
  obtain ⟨hsp, -⟩ := convInitFtl_opened hftl .user
  cases h
  rw [hspp]
  exact congrArg Except.ok hsp.symm

/-- A mapped page of a command in range is a page of the device. -/
theorem ConvNs.Inv.entry_valid {ns : ConvNs} (hi : ns.Inv) {slba length lpn : ℕ}
    (hr : ns.inFtlRange slba length) (hl : lpn ≤ ns.endLpn slba length)
    (hm : mappedPpa (ns.entry lpn)) : ns.sp.validPpa (ns.entry lpn) := by
  have hq : lpn % ns.nrParts < ns.nrParts := Nat.mod_lt _ hi.parts_pos
  have hlt : lpn / ns.nrParts < (ns.ftls (lpn % ns.nrParts)).ssd.sp.ttPgs := by
    rw [hi.sp _ hq]
    exact lt_of_le_of_lt (Nat.div_le_div_right hl) hr
  have hlive := ((hi.ftl _ hq).map.forward _ hlt _ (if_pos hm)).1
  rw [← hi.sp _ hq]
  exact hlive.1

/-- A namespace in order answers a read in range with the NAND reads of its pages. -/
theorem ConvNs.Inv.readCoverage {ns : ConvNs} (hi : ns.Inv) (hsecs : ns.sp.secsPerPg = 8)
    (hsz : ns.sp.pgsz = 4096) {slba length : ℕ} (hr : ns.inFtlRange slba length) :
    ∃ reads, ns.convRead slba length = .ok (some reads) ∧ ns.ReadCoverage slba length reads := by
  obtain ⟨reads, bs, hok, hb⟩ := ConvNs.convRead_batched (by rw [hsz]; norm_num) hi.parts_pos hi.sp
    (fun _ hl hm => hi.entry_valid hr hl hm) hr
  exact ⟨reads, hok, hb.readCoverage hi.parts_pos hsz hsecs⟩

/-- **Every read covers its pages** in every reachable state: the reads of a command in range come
from a partition of its mapped pages into batches of one instance and one flash page. -/
theorem convRun_readCoverage (size : ℕ) (cfg : FtlConfigs) {ns₀ ns : ConvNs}
    (hinit : convInitNamespace size cfg = .ok ns₀) (hfit : ns₀.sp.FitsPpa) (ops : List ConvOp)
    (hrun : runList ConvNs.exec ns₀ ops = .ok ns) (slba length : ℕ)
    (hr : ns.inFtlRange slba length) :
    ∃ reads, ns.convRead slba length = .ok (some reads) ∧ ns.ReadCoverage slba length reads := by
  have hk := ((convInitNamespace_inv hinit hfit).1.run ops).of_ok hrun
  obtain ⟨-, hsecs, hsz⟩ := ssdInitParams_sizes (convInitNamespace_params hinit)
  rw [← hk.sp] at hsecs hsz
  exact hk.inv.readCoverage hsecs hsz hr

/-- Two pages written one after the other are fetched by one read, and the page behind them, which
is not mapped, by none. -/
theorem convRun_readCoverage_pair : ∃ (ns : ConvNs) (reads : List NandRead),
    ns.convRead 0 23 = .ok (some reads) ∧ reads.map NandRead.xferSize = [8192] ∧
      ns.ReadCoverage 0 23 reads := by
  obtain ⟨reads, hok, hcov⟩ := convRun_readCoverage (48 * 4096) stripedConfigs rfl
    ⟨by decide, by decide, by decide, by decide⟩ [.write 0 15] rfl 0 23 (by decide)
  refine ⟨_, reads, hok, ?_, hcov⟩
  cases hok
  rfl

end NvmeVirt
