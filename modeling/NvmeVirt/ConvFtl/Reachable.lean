/-
# What holds in every reachable state

The states a conventional namespace reaches from `conv_init_namespace` by write
commands, cleaner calls, buffer releases and the collections they trigger, seen
at command boundaries: the mapping table, the homes of the lines, and the
counters of pages, blocks and lines.
-/

import NvmeVirt.ConvFtl.Runs

namespace NvmeVirt

open Outcome Inverse

/-! ### The geometries that occur -/

/-- **The configuration the module ships fits `struct ppa`,** whatever the capacity. -/
theorem loadConvConfigs_fitsPpa {size maxCon : ℕ} {ns : ConvNs}
    (h : convInitNamespace size (loadConvConfigs maxCon) = .ok ns) : ns.sp.FitsPpa := by
  unfold convInitNamespace at h
  simp only [bind_eq_ok] at h
  obtain ⟨spp, hspp, ftl, hftl, h⟩ := h
  unfold convInitFtl at hftl
  simp only [bind_eq_ok, defined_eq_ok] at hftl
  obtain ⟨-, htt, _, -, _, -, _, -, hftl⟩ := hftl
  cases hftl
  cases h
  unfold ssdInitParams at hspp
  simp only [bind_eq_ok, toInt_eq_ok] at hspp
  obtain ⟨_, -, _, -, r, hblk, _, -, _, -, _, -, _, -, os, -, fl, -, ppb, ⟨-, rfl⟩, ppp, ⟨hppp, rfl⟩,
    bpl, -, ttl, -, hspp⟩ := hspp
  have hr : r.1 = 8192 := by
    unfold blkGeometry at hblk
    rw [if_pos (show 0 < (loadConvConfigs maxCon).blksPerPln from Nat.succ_pos _)] at hblk
    simp only [bind_eq_ok] at hblk
    obtain ⟨_, -, _, -, hblk⟩ := hblk
    cases hblk
    rfl
  cases hspp
  simp only [ConvNs.sp, ssdInit, loadConvConfigs, hr, u64] at htt hppp ⊢
  exact ⟨by norm_num, by norm_num, by norm_num, by simp only; omega⟩

/-- One die, blocks of two pages and six lines: small enough to run by hand. -/
def tinyConfigs : FtlConfigs where
  maxCon := 1
  ssdPartitions := 1
  nandChannels := 1
  lunsPerNandCh := 1
  plnsPerLun := 1
  flashPageSize := 4096
  oneshotPageSize := 4096
  blksPerPln := 6
  blkSize := 0
  writeUnitSize := 512
  globalWbSize := 8192
  writeEarlyCompletion := true

/-- The capacity of the tiny configuration. -/
def tinySize : ℕ := 6 * 2 * 4096

/-- A cleaner call for one logical page. -/
def tinyClean : CleanRequest where
  startLpn := 0
  endLpn := 0
  degree := 50
  preempt := []
  idx := 0
  force := false
  noReturn := false
  random := fun _ => 7

/-! ### The mapping table -/

namespace ConvFtl

/-- The mapped logical pages. -/
def mappedLpns (f : ConvFtl) : Set ℕ := {l | l < f.ssd.sp.ttPgs ∧ mappedPpa (f.maptbl l)}

/-- The pages of the geometry in state `PG_VALID`. -/
def validPpas (f : ConvFtl) : Set Ppa :=
  {p | f.ssd.sp.validPpa p ∧ p.rsv = 0 ∧ (f.ssd.getPg p).status = .valid}

variable {f : ConvFtl} {l : ℕ} {p : Ppa}

theorem table_isSome : (f.table l).isSome ↔ mappedPpa (f.maptbl l) := by
  unfold table
  split_ifs with h <;> simp [h]

/-- **The tables are inverse bijections** between the mapped logical pages and the valid pages. -/
theorem Inv.bijOn (h : f.Inv) :
    Set.BijOn f.maptbl f.mappedLpns f.validPpas ∧
      Set.InvOn (fun p => f.rmap (f.ssd.sp.pgidx p)) f.maptbl f.mappedLpns f.validPpas ∧
      ∀ p ∈ f.validPpas, f.rmap (f.ssd.sp.pgidx p) < f.ssd.sp.ttPgs := by
  have hfwd : ∀ l ∈ f.mappedLpns, f.maptbl l ∈ f.validPpas ∧
      f.rmap (f.ssd.sp.pgidx (f.maptbl l)) = l := by
    rintro l ⟨hl, hm⟩
    obtain ⟨⟨h1, h2, h3, -⟩, h4⟩ := h.map.forward l hl (f.maptbl l) (if_pos hm)
    exact ⟨⟨h1, h2, h3⟩, h4⟩
  have hbwd : ∀ p ∈ f.validPpas, f.rmap (f.ssd.sp.pgidx p) ∈ f.mappedLpns ∧
      f.maptbl (f.rmap (f.ssd.sp.pgidx p)) = p := by
    rintro p ⟨h1, h2, h3⟩
    obtain ⟨h4, h5⟩ := h.map.backward p ⟨h1, h2, h3, Finset.notMem_empty p⟩
    obtain ⟨h6, h7⟩ := table_eq_some h5
    exact ⟨⟨h4, by rw [h7]; exact h6⟩, h7⟩
  have hinv : Set.InvOn (fun p => f.rmap (f.ssd.sp.pgidx p)) f.maptbl f.mappedLpns f.validPpas :=
    ⟨fun l hl => (hfwd l hl).2, fun p hp => (hbwd p hp).2⟩
  exact ⟨hinv.bijOn (fun l hl => (hfwd l hl).1) fun p hp => (hbwd p hp).1, hinv,
    fun p hp => (hbwd p hp).1.1⟩

end ConvFtl

/-- **The mapping table is a bijection onto the valid pages** in every reachable state, with the
reverse table as its inverse; the pages of an accepted write stay mapped, and so does whatever is
mapped. -/
theorem convRun_bijOn (size : ℕ) (cfg : FtlConfigs) {ns₀ ns₁ ns₂ ns : ConvNs}
    (hinit : convInitNamespace size cfg = .ok ns₀) (hfit : ns₀.sp.FitsPpa)
    (ops₁ ops₂ : List ConvOp) (slba length : ℕ) {releases : Option (List ℕ)}
    (hrun₁ : runList ConvNs.exec ns₀ ops₁ = .ok ns₁)
    (hwrite : ns₁.convWrite slba length = .ok (ns₂, releases))
    (hrun₂ : runList ConvNs.exec ns₂ ops₂ = .ok ns) {q : ℕ} (hq : q < ns₀.nrParts) :
    (Set.BijOn (ns.ftls q).maptbl (ns.ftls q).mappedLpns (ns.ftls q).validPpas ∧
      Set.InvOn (fun p => (ns.ftls q).rmap ((ns.ftls q).ssd.sp.pgidx p)) (ns.ftls q).maptbl
        (ns.ftls q).mappedLpns (ns.ftls q).validPpas ∧
      ∀ p ∈ (ns.ftls q).validPpas,
        (ns.ftls q).rmap ((ns.ftls q).ssd.sp.pgidx p) < (ns.ftls q).ssd.sp.ttPgs) ∧
    (ns₁.ftls q).mappedLpns ⊆ (ns.ftls q).mappedLpns ∧
    (releases.isSome → ∀ lpn, slba / ns₀.sp.secsPerPg ≤ lpn → lpn ≤ ns₀.endLpn slba length →
      lpn % ns₀.nrParts = q → lpn / ns₀.nrParts ∈ (ns.ftls q).mappedLpns) := by
  have hi₀ := (convInitNamespace_inv hinit hfit).1
  have hk₁ := (hi₀.run ops₁).of_ok hrun₁
  obtain ⟨hk₂, hw⟩ := (hk₁.inv.convWrite slba length).of_ok hwrite
  have hk := (hk₂.inv.run ops₂).of_ok hrun₂
  have hq₁ : q < ns₁.nrParts := by rw [hk₁.nrParts]; exact hq
  have hq₂ : q < ns₂.nrParts := by rw [hk₂.nrParts]; exact hq₁
  have hq' : q < ns.nrParts := by rw [hk.nrParts]; exact hq₂
  have hsp : (ns.ftls q).ssd.sp = ns₁.sp := by rw [hk.inv.sp q hq', hk.sp, hk₂.sp]
  refine ⟨(hk.inv.ftl q hq').bijOn, ?_, ?_⟩
  · rintro l ⟨hl, hm⟩
    rw [hk₁.inv.sp q hq₁] at hl
    refine ⟨by rw [hsp]; exact hl, ConvFtl.table_isSome.1 ?_⟩
    exact ((hk₂.ftl q hq₁).trans (hk.ftl q hq₂)).mapped l (ConvFtl.table_isSome.2 hm)
  · intro hr lpn h1 h2 hlq
    have hend : ns₁.endLpn slba length = ns₀.endLpn slba length := by
      simp only [ConvNs.endLpn, hk₁.sp]
    obtain ⟨hlt, hmap⟩ := hw hr lpn (by rw [hk₁.sp]; exact h1) (by rw [hend]; exact h2)
    rw [hk₁.nrParts, hlq] at hmap
    rw [hk₁.nrParts] at hlt
    exact ⟨by rw [hsp]; exact hlt, ConvFtl.table_isSome.1 ((hk.ftl q hq₂).mapped _ hmap)⟩

/-- One page written, then moved by the cleaner. -/
theorem convRun_bijOn_tiny : ∃ ns : ConvNs, Set.BijOn (ns.ftls 0).maptbl (ns.ftls 0).mappedLpns
    (ns.ftls 0).validPpas ∧ 0 ∈ (ns.ftls 0).mappedLpns := by
  have h := convRun_bijOn tinySize tinyConfigs rfl ⟨by decide, by decide, by decide, by decide⟩ []
    [.release 4096, .clean tinyClean 0 (-1)] 0 6 rfl rfl rfl (q := 0) (by decide)
  exact ⟨_, h.1.1, h.2.2 rfl 0 (by decide) (by decide) rfl⟩

/-! ### The homes of the lines -/

/-- The places a line can be in. -/
inductive LineHome
  | userWp | gcWp | free | full | victim
  deriving DecidableEq, Repr

/-- All the places. -/
def LineHome.all : List LineHome := [.userWp, .gcWp, .free, .full, .victim]

theorem LineHome.mem_all (h : LineHome) : h ∈ LineHome.all := by cases h <;> decide

namespace ConvFtl

/-- The lines in a place. -/
def place (f : ConvFtl) : LineHome → List ℕ
  | .userWp => [f.wp.curline]
  | .gcWp => [f.gcWp.curline]
  | .free => f.lm.freeLineList
  | .full => f.lm.fullLineList
  | .victim => f.lm.victimLinePq.elems

/-- **Every line has one home, and the counts, positions and the room of the queue agree.** -/
structure HomesOk (f : ConvFtl) : Prop where
  home : ∀ l, l < f.ssd.sp.ttLines → ∃! h, l ∈ f.place h
  nodup : ∀ h, (f.place h).Nodup
  lt : ∀ h, ∀ l ∈ f.place h, l < f.ssd.sp.ttLines
  freeCnt : f.lm.freeLineCnt = (f.place .free).length
  fullCnt : f.lm.fullLineCnt = (f.place .full).length
  victimCnt : f.lm.victimLineCnt = (f.place .victim).length
  size : f.lm.victimLineCnt = f.lm.victimLinePq.size - 1
  pos : ∀ l, l < f.ssd.sp.ttLines → ((f.lm.lines l).pos ≠ 0 ↔ l ∈ f.place .victim)
  heapIndex : ∀ l ∈ f.place .victim, (f.lm.lines l).pos < f.lm.victimLinePq.size ∧
    f.lm.victimLinePq.d (f.lm.lines l).pos = l
  room : f.lm.victimLinePq.size ≤ f.lm.victimLinePq.avail ∧
    f.lm.victimLinePq.avail = f.ssd.sp.ttLines + 1

variable {f : ConvFtl} {front : ℕ × ℕ → ℕ → ℕ} {l : ℕ}

/-- The places hold every line once. -/
theorem Sound.places (h : f.Sound [] front) :
    (LineHome.all.flatMap f.place).Perm (List.range f.ssd.sp.blksPerPl) := by
  have := h.homed.homes
  simpa [LineHome.all, ConvFtl.place, LineMgmt.homes] using this

/-- No line is in two places. -/
theorem Sound.place_unique (h : f.Sound [] front) {v w : LineHome} (hv : l ∈ f.place v)
    (hw : l ∈ f.place w) : v = w := by
  have hnd := (List.nodup_flatMap.1 (h.places.nodup_iff.2 List.nodup_range)).2
  by_contra hne
  have hsymm : Std.Symm (Function.onFun List.Disjoint f.place) := ⟨fun _ _ hd => hd.symm⟩
  exact hnd.forall (LineHome.mem_all v) (LineHome.mem_all w) hne hv hw

theorem Sound.homesOk (h : f.Sound [] front) : HomesOk f where
  home := fun l hl => by
    rw [h.geom.ttLines] at hl
    obtain ⟨w, -, hw⟩ := List.mem_flatMap.1 (h.places.symm.subset (List.mem_range.2 hl))
    exact ⟨w, hw, fun v hv => h.place_unique hv hw⟩
  nodup := fun w =>
    (List.nodup_flatMap.1 (h.places.nodup_iff.2 List.nodup_range)).1 w (LineHome.mem_all w)
  lt := fun w l hl => by
    rw [h.geom.ttLines]
    exact List.mem_range.1 (h.places.subset (List.mem_flatMap.2 ⟨w, LineHome.mem_all w, hl⟩))
  freeCnt := h.homed.freeCnt
  fullCnt := h.homed.fullCnt
  victimCnt := by
    have := h.homed.victimCnt
    simp only [ConvFtl.place, Pqueue.length_elems]
    omega
  size := by
    have := h.homed.victimCnt
    omega
  pos := fun l hl => by
    rw [h.geom.ttLines] at hl
    exact (h.homed.pos_iff hl).trans Pqueue.mem_elems.symm
  heapIndex := fun l hl => (h.homed.placed.d_getpos (Pqueue.mem_elems.1 hl)).2
  room := ⟨h.homed.size_le, by rw [h.homed.avail, h.geom.ttLines]⟩

end ConvFtl

/-- **Every line has one home** in every reachable state. -/
theorem convRun_homesOk (size : ℕ) (cfg : FtlConfigs) {ns₀ ns : ConvNs}
    (hinit : convInitNamespace size cfg = .ok ns₀) (hfit : ns₀.sp.FitsPpa) (ops : List ConvOp)
    (hrun : runList ConvNs.exec ns₀ ops = .ok ns) {q : ℕ} (hq : q < ns₀.nrParts) :
    (ns.ftls q).HomesOk := by
  have hk := ((convInitNamespace_inv hinit hfit).1.run ops).of_ok hrun
  obtain ⟨front, hs⟩ := (hk.inv.ftl q (by rw [hk.nrParts]; exact hq)).sound
  exact hs.homesOk

/-- A page written and moved: its line is closed with an invalid page and waits in the queue. -/
theorem convRun_homesOk_tiny : ∃ ns : ConvNs, (ns.ftls 0).HomesOk ∧
    (ns.ftls 0).place .victim = [0] := by
  have h := convRun_homesOk tinySize tinyConfigs rfl ⟨by decide, by decide, by decide, by decide⟩
    [.write 0 6, .clean tinyClean 0 (-1)] rfl (q := 0) (by decide)
  exact ⟨_, h, rfl⟩

/-! ### The counters -/

namespace ConvFtl

/-- **The counters of blocks and lines count the states of their pages.** -/
structure CountersOk (f : ConvFtl) : Prop where
  block : ∀ d ∈ f.ssd.sp.dies, ∀ l, l < f.ssd.sp.ttLines →
    (f.ssd.blk (blockAt d l)).vpc =
        (f.ssd.blk (blockAt d l)).count f.ssd.sp.pgsPerBlk .valid ∧
      (f.ssd.blk (blockAt d l)).ipc =
        (f.ssd.blk (blockAt d l)).count f.ssd.sp.pgsPerBlk .invalid
  line : ∀ l, l < f.ssd.sp.ttLines →
    (f.lm.lines l).vpc = ∑ d ∈ f.ssd.sp.dies, (f.ssd.blk (blockAt d l)).vpc ∧
      (f.lm.lines l).ipc = ∑ d ∈ f.ssd.sp.dies, (f.ssd.blk (blockAt d l)).ipc
  free : ∀ l ∈ f.lm.freeLineList, ∀ d ∈ f.ssd.sp.dies, ∀ i, i < f.ssd.sp.pgsPerBlk →
    (f.ssd.getPg (pageAt d l i)).status = .free
  closed : ∀ l, l ∈ f.lm.fullLineList ∨ f.lm.victimLinePq.Mem l →
    ∀ d ∈ f.ssd.sp.dies, ∀ i, i < f.ssd.sp.pgsPerBlk →
      (f.ssd.getPg (pageAt d l i)).status ≠ .free

theorem Sound.countersOk {f : ConvFtl} {front : ℕ × ℕ → ℕ → ℕ} (h : f.Sound [] front) :
    CountersOk f where
  block := fun d hd l hl => by
    have hb := (h.nand d hd l (by rwa [← h.geom.ttLines])).1
    exact ⟨hb.vpc, hb.ipc⟩
  line := fun l hl => h.stats l (by rwa [← h.geom.ttLines]) (by simp)
  free := fun l hl d hd i hi =>
    ((h.nand d hd l (h.homed.free_lt hl)).1.free i hi).2 (by rw [h.free l hl d hd]; omega)
  closed := fun l hl d hd i hi hst => by
    have hlt : l < f.ssd.sp.blksPerPl := hl.elim h.homed.full_lt h.homed.queued_lt
    have := ((h.nand d hd l hlt).1.free i hi).1 hst
    rw [h.closed l hl d hd] at this
    omega

end ConvFtl

/-- **No assertion of the driver fails on any run,** and at command boundaries the counters of
blocks and lines are right.  A run that does not return wants for a free line, unless the cleaner
is called for pages or an instance the namespace does not have. -/
theorem convRun_countersOk (size : ℕ) (cfg : FtlConfigs) {ns₀ : ConvNs}
    (hinit : convInitNamespace size cfg = .ok ns₀) (hfit : ns₀.sp.FitsPpa) (ops : List ConvOp) :
    (∀ fn, runList ConvNs.exec ns₀ ops ≠ .error (.bug fn)) ∧
      (∀ e, runList ConvNs.exec ns₀ ops = .error e → (∀ op ∈ ops, ns₀.InRange op) →
        e = .noFreeLine) ∧
      ∀ ns, runList ConvNs.exec ns₀ ops = .ok ns → ∀ q, q < ns₀.nrParts →
        (ns.ftls q).CountersOk := by
  have hrun := (convInitNamespace_inv hinit hfit).1.run ops
  refine ⟨fun fn he => ?_, fun e he hin => ?_, fun ns hok q hq => ?_⟩
  · rcases hrun.of_error he with h | ⟨h, -⟩ <;> cases h
  · rcases hrun.of_error he with h | ⟨-, op, hop, hout⟩
    · exact h
    · exact absurd (hin op hop) hout
  · have hk := hrun.of_ok hok
    obtain ⟨front, hs⟩ := (hk.inv.ftl q (by rw [hk.nrParts]; exact hq)).sound
    exact hs.countersOk

/-- The counters after a page has been written and moved. -/
theorem convRun_countersOk_tiny : ∃ ns : ConvNs, (ns.ftls 0).CountersOk ∧
    ((ns.ftls 0).lm.lines 0).ipc = 1 := by
  have h := convRun_countersOk tinySize tinyConfigs rfl
    ⟨by decide, by decide, by decide, by decide⟩
    [.write 0 6, .clean tinyClean 0 (-1)]
  exact ⟨_, h.2.2 _ rfl 0 (by decide), rfl⟩

/-- A device of 257 channels, with room for a page of each in the write buffer. -/
def manyChannels : FtlConfigs :=
  { tinyConfigs with nandChannels := 257, blksPerPln := 3, globalWbSize := 257 * 4096 }

/-- Channel 256 is packed as channel 0: the first write of a line to come there finds a page that is
not free, and the assertion of `mark_page_valid` fails. -/
theorem manyChannels_markPageValid_fails : ∃ ns₀,
    convInitNamespace (257 * 3 * 4096) manyChannels = .ok ns₀ ∧
    runList ConvNs.exec ns₀ [.write 0 (257 * 8 - 1)] = .error (.bug .markPageValid) := by
  have hcheck : (convInitNamespace (257 * 3 * 4096) manyChannels).toOption.any (fun ns₀ => decide (
      runList ConvNs.exec ns₀ [.write 0 (257 * 8 - 1)] = .error (.bug .markPageValid))) = true := by
    decide +kernel
  obtain ⟨ns₀, hinit, hp⟩ := exists_ok_of_any hcheck
  exact ⟨ns₀, hinit, of_decide_eq_true hp⟩

end NvmeVirt
