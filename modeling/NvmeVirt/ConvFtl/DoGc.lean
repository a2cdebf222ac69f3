/-
# A whole garbage collection

The loops of `do_gc` visit every page of the victim before its block is erased,
in the last round die by die.  A collection leads from the invariant back to the
invariant, and the victim's invalid pages become free ones.
-/

import NvmeVirt.ConvFtl.Collect

namespace NvmeVirt

open Outcome Inverse

/-- The dies the inner loops of `do_gc` have visited when they are at channel `ch`, die `lun`. -/
def Before (ch lun : ℕ) (d : ℕ × ℕ) : Prop := d.1 < ch ∨ d.1 = ch ∧ d.2 < lun

/-- The pages looked at when the loops of `do_gc` are at flash page `k` of a die. -/
def Scanned (fpp k ch lun : ℕ) (d : ℕ × ℕ) (i : ℕ) : Prop :=
  i < k * fpp ∨ i < k * fpp + fpp ∧ Before ch lun d

/-- The dies erased by then, of `n` rounds in all. -/
def Erased (n k ch lun : ℕ) (d : ℕ × ℕ) : Prop := k = n ∨ k + 1 = n ∧ Before ch lun d

theorem before_succ (ch lun : ℕ) (d : ℕ × ℕ) :
    Before ch (lun + 1) d ↔ Before ch lun d ∨ d = (ch, lun) := by
  rw [Prod.ext_iff]
  unfold Before
  constructor
  · intro h
    omega
  · intro h
    omega

theorem before_channel {spp : Ssdparams} {d : ℕ × ℕ} (hd : d ∈ spp.dies) (ch : ℕ) :
    Before ch spp.lunsPerCh d ↔ Before (ch + 1) 0 d := by
  have := (Ssdparams.mem_dies.1 hd).2
  unfold Before
  constructor
  · intro h
    omega
  · intro h
    omega

theorem before_all {spp : Ssdparams} {d : ℕ × ℕ} (hd : d ∈ spp.dies) : Before spp.nchs 0 d :=
  .inl (Ssdparams.mem_dies.1 hd).1

theorem not_before_start (d : ℕ × ℕ) : ¬ Before 0 0 d := by
  unfold Before
  omega

theorem not_before_self (ch lun : ℕ) : ¬ Before ch lun (ch, lun) := by
  unfold Before
  omega

namespace ConvFtl

variable {f f₀ : ConvFtl} {v k : ℕ} {front : ℕ × ℕ → ℕ → ℕ} {S V : Finset Ppa} {fp : ℕ}

/-- The state of the loops of `do_gc` at flash page `k`, channel `ch`, die `lun`. -/
def CollectingAt (f₀ : ConvFtl) (v : ℕ) (V : Finset Ppa) (fp k ch lun : ℕ) (f : ConvFtl) : Prop :=
  ∃ S front, Collecting f₀ v V fp f S front (Scanned f₀.ssd.sp.pgsPerFlashpg k ch lun)
    (Erased f₀.ssd.sp.flashpgsPerBlk k ch lun)

/-- **One round of the loops of `do_gc`.** -/
theorem CollectingAt.gcDie {ch lun : ℕ} (h : CollectingAt f₀ v V fp k ch lun f)
    (hk : k < f₀.ssd.sp.flashpgsPerBlk) (hch : ch < f₀.ssd.sp.nchs)
    (hlun : lun < f₀.ssd.sp.lunsPerCh) (hppb : 0 < f₀.ssd.sp.pgsPerBlk) :
    Ends (f.gcDie v k ch lun) (CollectingAt f₀ v V fp k ch (lun + 1)) (GcStuck f₀ V fp) := by
  obtain ⟨S, front, h⟩ := h
  have hd : ((ch, lun) : ℕ × ℕ) ∈ f₀.ssd.sp.dies := Ssdparams.mem_dies.2 ⟨hch, hlun⟩
  have hflash : f₀.ssd.sp.pgsPerBlk = f₀.ssd.sp.flashpgsPerBlk * f₀.ssd.sp.pgsPerFlashpg :=
    h.sp ▸ h.sound.geom.flashpgs
  set n := f₀.ssd.sp.flashpgsPerBlk with hn
  set fpp := f₀.ssd.sp.pgsPerFlashpg with hfpp
  have hfpos : 0 < fpp := Nat.pos_of_ne_zero fun h0 => by rw [h0, mul_zero] at hflash; omega
  have hbound : k * fpp + fpp ≤ f₀.ssd.sp.pgsPerBlk := by
    rw [hflash, ← Nat.succ_mul]
    exact Nat.mul_le_mul_right fpp hk
  have hvlt : v < f.ssd.sp.blksPerPl := h.sound.homed.held_lt (by simp)
  have hpage : Ppa.ofFields ch lun 0 v (k * f.ssd.sp.pgsPerFlashpg) = pageAt (ch, lun) v (k * fpp) := by
    rw [h.sp]
    exact Ssdparams.ofFields_eq (h.sp ▸ h.sound.geom.fits) hd (h.sp ▸ hvlt)
      (show k * fpp < f₀.ssd.sp.pgsPerBlk by omega)
  have her : ¬ Erased n k ch lun (ch, lun) := by
    rintro (hc | ⟨-, hb⟩)
    · omega
    · exact not_before_self ch lun hb
  have hsc : ∀ j, k * fpp ≤ j → ¬ Scanned fpp k ch lun (ch, lun) j := by
    rintro j hj (hc | ⟨-, hb⟩)
    · omega
    · exact not_before_self ch lun hb
  have hscan : ∀ e j, (Scanned fpp k ch lun e j ∨
      e = (ch, lun) ∧ k * fpp ≤ j ∧ j < k * fpp + fpp) ↔ Scanned fpp k ch (lun + 1) e j := by
    intro e j
    unfold Scanned
    rw [before_succ]
    constructor
    · rintro ((h1 | h1) | ⟨h1, h2, h3⟩)
      · exact .inl h1
      · exact .inr ⟨h1.1, .inl h1.2⟩
      · exact .inr ⟨h3, .inr h1⟩
    · rintro (h1 | ⟨h1, h2 | h2⟩)
      · exact .inl (.inl h1)
      · exact .inl (.inr ⟨h1, h2⟩)
      · rcases Nat.lt_or_ge j (k * fpp) with h3 | h3
        · exact .inl (.inl h3)
        · exact .inr ⟨h2, h3, h1⟩
  unfold ConvFtl.gcDie
  dsimp only
  rw [hpage, h.sp, ← hn]
  refine (h.cleanOneFlashpg hd hbound her hsc).bind fun f' hf' => ?_
  obtain ⟨S', front', hf'⟩ := hf'
  have hf'' := hf'.congr (fun e _ j _ => (hscan e j).symm) fun _ _ => Iff.rfl
  split_ifs with hlast
  · -- the last round erases the block
    obtain ⟨f₂, front₂, hf₂, h₂⟩ := hf''.markBlockFree (i := k * fpp) (hf'.sp ▸ hd)
      (by rw [hf'.sp]; omega) her fun j hj => by
        rw [hf'.sp, hflash] at hj
        refine .inr ⟨?_, (before_succ ..).2 (.inr rfl)⟩
        rwa [← Nat.succ_mul, show k.succ = n by omega]
    rw [hf₂]
    refine ⟨S', front₂, h₂.congr (fun _ _ _ _ => Iff.rfl) fun e _ => ?_⟩
    unfold Erased
    rw [before_succ]
    constructor
    · rintro (h1 | ⟨h1, h2 | h2⟩)
      · exact .inl (.inl h1)
      · exact .inl (.inr ⟨h1, h2⟩)
      · exact .inr h2
    · rintro ((h1 | h1) | h1)
      · exact .inl h1
      · exact .inr ⟨h1.1, .inl h1.2⟩
      · exact .inr ⟨by omega, .inr h1⟩
  · refine ⟨S', front', hf''.congr (fun _ _ _ _ => Iff.rfl) fun e _ => ?_⟩
    unfold Erased
    constructor
    · rintro (h1 | h1) <;> omega
    · rintro (h1 | h1) <;> omega

/-- **The loops of `do_gc`** look at every page and erase every block of the victim. -/
theorem CollectingAt.loops (h : CollectingAt f₀ v V fp 0 0 0 f)
    (hppb : 0 < f₀.ssd.sp.pgsPerBlk) :
    Ends (forRange f₀.ssd.sp.flashpgsPerBlk (fun flashpg f =>
        forRange f₀.ssd.sp.nchs (fun ch f =>
          forRange f₀.ssd.sp.lunsPerCh (fun lun f => f.gcDie v flashpg ch lun) f) f) f)
      (CollectingAt f₀ v V fp f₀.ssd.sp.flashpgsPerBlk 0 0) (GcStuck f₀ V fp) := by
  refine Ends.forRange (fun k => CollectingAt f₀ v V fp k 0 0) h fun k hk t ht => ?_
  refine (Ends.forRange (fun ch => CollectingAt f₀ v V fp k ch 0) ht fun ch hch t ht => ?_).mono
    ?_ fun _ he => he
  · refine (Ends.forRange (fun lun => CollectingAt f₀ v V fp k ch lun) ht
      fun lun hlun t ht => ht.gcDie hk hch hlun hppb).mono ?_ fun _ he => he
    rintro t ⟨S, front, ht⟩
    refine ⟨S, front, ht.congr (fun e he j _ => ?_) fun e he => ?_⟩
    · unfold Scanned
      rw [before_channel (ht.sp ▸ he)]
    · unfold Erased
      rw [before_channel (ht.sp ▸ he)]
  · rintro t ⟨S, front, ht⟩
    refine ⟨S, front, ht.congr (fun e he j _ => ?_) fun e he => ?_⟩
    · have hall := before_all (ht.sp ▸ he : e ∈ f₀.ssd.sp.dies)
      have hnone := not_before_start e
      unfold Scanned
      rw [Nat.succ_mul]
      constructor
      · rintro (h1 | ⟨h1, h2⟩)
        · exact .inr ⟨h1, hall⟩
        · exact absurd h2 hnone
      · rintro (h1 | ⟨h1, -⟩)
        · exact .inl (by omega)
        · exact .inl h1
    · have hall := before_all (ht.sp ▸ he : e ∈ f₀.ssd.sp.dies)
      have hnone := not_before_start e
      unfold Erased
      constructor
      · rintro (h1 | ⟨h1, h2⟩)
        · exact .inr ⟨h1, hall⟩
        · exact absurd h2 hnone
      · rintro (h1 | ⟨h1, -⟩)
        · omega
        · exact .inl h1

/-! ### The victim's valid pages -/

/-- The valid pages of a line. -/
def validPages (f : ConvFtl) (l : ℕ) : Finset Ppa :=
  f.ssd.sp.dies.biUnion fun d =>
    ((Finset.range f.ssd.sp.pgsPerBlk).filter fun i => f.statusAt d l i = .valid).image (pageAt d l)

theorem mem_validPages {l : ℕ} {p : Ppa} : p ∈ f.validPages l ↔
    ∃ d ∈ f.ssd.sp.dies, ∃ i, i < f.ssd.sp.pgsPerBlk ∧ f.statusAt d l i = .valid ∧
      pageAt d l i = p := by
  simp only [validPages, Finset.mem_biUnion, Finset.mem_image, Finset.mem_filter,
    Finset.mem_range, and_assoc]

/-- A line has as many valid pages as its blocks count. -/
theorem Sound.card_validPages {vs : List ℕ} (h : f.Sound vs front) {l : ℕ}
    (hl : l < f.ssd.sp.blksPerPl) :
    (f.validPages l).card = ∑ d ∈ f.ssd.sp.dies, (f.ssd.blk (blockAt d l)).vpc := by
  unfold validPages
  rw [Finset.card_biUnion]
  · refine Finset.sum_congr rfl fun d hd => ?_
    rw [Finset.card_image_of_injective _ fun i j hij => (pageAt_inj.1 hij).2.2]
    exact (h.nand d hd l hl).1.vpc.symm
  · intro d _ e _ hde
    rw [Function.onFun, Finset.disjoint_left]
    intro p hp hq
    obtain ⟨i, -, rfl⟩ := Finset.mem_image.1 hp
    obtain ⟨j, -, hj⟩ := Finset.mem_image.1 hq
    exact hde (pageAt_inj.1 hj).1.symm

/-! ### `do_gc` -/

/-- **A collection is over:** the victim's invalid pages have become free pages. -/
structure Collected (f f' : ConvFtl) (front front' : ℕ × ℕ → ℕ → ℕ) (v : ℕ) : Prop where
  sound : f'.Sound [] front'
  map : f'.MapOk f'.table ∅
  written : f'.WrittenMapped
  queued : f.lm.victimLinePq.Mem v
  free : freePages f'.ssd.sp [] front' = freePages f.ssd.sp [] front + (f.lm.lines v).ipc
  ipc_pos : 0 < (f.lm.lines v).ipc
  ipc_le : (f.lm.lines v).ipc ≤ f.ssd.sp.pgsPerLine
  sp : f'.ssd.sp = f.ssd.sp
  cp : f'.cp = f.cp
  wfc : f'.wfc = { f.wfc with creditsToRefill := (f.lm.lines v).ipc }
  dom : ∀ l, (f'.table l).isSome = (f.table l).isSome
  track : ∃ f₂, Tracked f f₂ v (f.validPages v) (fun _ => True) ∧
    f' = { f₂ with lm := f₂.lm.markLineFree v }

theorem ttPgs_eq {spp : Ssdparams} (g : spp.Geometry) :
    spp.ttPgs = spp.blksPerPl * spp.pgsPerLine := by
  rw [g.ttPgs, g.pgsPerCh, g.pgsPerLun, g.pgsPerPl, g.pgsPerLine]
  ring

theorem pgsPerLine_lt {spp : Ssdparams} (g : spp.Geometry) (h : 0 < spp.blksPerPl) :
    spp.pgsPerLine < 2 ^ 32 := by
  have h1 := g.ttPgs_lt
  have h2 := Nat.le_mul_of_pos_left spp.pgsPerLine h
  rw [ttPgs_eq g] at h1
  omega

/-- Picking the victim changes nothing a collection is tracked by. -/
theorem Tracked.picked {f₂ : ConvFtl} {lm : LineMgmt} {w : WriteFlowControl} {er : ℕ × ℕ → Prop}
    (h : Tracked (note { f with lm := lm, wfc := w } (.victim v)) f₂ v S er)
    (hlm : lm.freeLineList = f.lm.freeLineList) : Tracked f f₂ v S er :=
  { h with freeLineList := hlm ▸ h.freeLineList }

/-- **After the loops the victim becomes a free line,** and nothing is stale any more. -/
theorem CollectingAt.finish {f₂ : ConvFtl} {lm : LineMgmt}
    (h₂ : CollectingAt (note { f with
        lm := lm, wfc := { f.wfc with creditsToRefill := (f.lm.lines v).ipc } } (.victim v)) v
      (f.validPages v) (freePages f.ssd.sp [] front) f.ssd.sp.flashpgsPerBlk 0 0 f₂)
    (h : f.Sound [] front) (hq : f.lm.victimLinePq.Mem v)
    (hcard : (f.validPages v).card = (f.lm.lines v).vpc)
    (hlm : lm.freeLineList = f.lm.freeLineList) :
    ∃ front', Collected f { f₂ with lm := f₂.lm.markLineFree (v % 2 ^ 16) } front front' v := by
  obtain ⟨S, front', h₂⟩ := h₂
  have hvlt : v < f.ssd.sp.blksPerPl := h.homed.queued_lt hq
  have hsum := (h.line_sum hvlt (by simp)).trans (h.closed_sum (.inr hq))
  have hpos := h.homed.queued v hq
  have hsp : f₂.ssd.sp = f.ssd.sp := h₂.sp
  have hs := h₂.sound
  have hmod : v % 2 ^ 16 = v :=
    Nat.mod_eq_of_lt (lt_of_lt_of_le hvlt h.geom.fits.blksPerPl)
  have hdone : ∀ d ∈ f₂.ssd.sp.dies, front' d v = 0 := fun d hd => h₂.done d hd (.inl rfl)
  have hblk : ∀ d ∈ f₂.ssd.sp.dies, (f₂.ssd.blk (blockAt d v)).vpc = 0 ∧
      (f₂.ssd.blk (blockAt d v)).ipc = 0 := fun d hd => by
    have := (hs.nand d hd v (hsp ▸ hvlt)).1.vpc_add_ipc
    rw [hdone d hd] at this
    omega
  have hne : ∀ l, l ≠ v → (f₂.lm.markLineFree v).lines l = f₂.lm.lines l := fun l hl => by
    simp [LineMgmt.markLineFree, LineMgmt.setLine, hl]
  have hself : ((f₂.lm.markLineFree v).lines v).vpc = 0 ∧
      ((f₂.lm.markLineFree v).lines v).ipc = 0 := by
    simp [LineMgmt.markLineFree, LineMgmt.setLine]
  have hall : ∀ p ∈ f.validPages v, p ∈ S := by
    intro p hp
    obtain ⟨d, hd, i, hi, -, rfl⟩ := mem_validPages.1 hp
    have hflash := h.geom.flashpgs
    refine (h₂.stale d (hsp ▸ hd) i (hsp ▸ hi)).2 ⟨hp, .inl ?_⟩
    show i < f.ssd.sp.flashpgsPerBlk * f.ssd.sp.pgsPerFlashpg
    omega
  have hSV : S = f.validPages v := Finset.Subset.antisymm h₂.sub hall
  rw [hmod]
  refine ⟨front', {
    sound := ?_, map := ?_, written := h₂.written.of_same rfl rfl rfl, queued := hq, free := ?_
    ipc_pos := hpos, ipc_le := by omega, sp := hsp, cp := h₂.cp, wfc := h₂.wfc, dom := h₂.dom
    track := ⟨f₂, ?_, rfl⟩ }⟩
  · refine {
      geom := hs.geom, homed := ?_, nand := hs.nand, stats := fun l hl _ => ?_
      ptr := fun io => ?_, free := fun l hl d hd => ?_, closed := hs.closed
      history := hs.history, run := fun io => ?_ }
    · refine LineMgmt.Homed.markLineFree (hs.homed.perm_held ?_)
      exact (List.perm_append_comm : ([v] ++ [f₂.wp.curline, f₂.gcWp.curline]).Perm _)
    · by_cases hl : l = v
      · subst hl
        rw [hself.1, hself.2]
        exact ⟨(Finset.sum_eq_zero fun d hd => (hblk d hd).1).symm,
          (Finset.sum_eq_zero fun d hd => (hblk d hd).2).symm⟩
      · simp only [hne l hl]
        exact hs.stats l ‹_› (by simpa using hl)
    · cases io
      · exact hs.ptr .user
      · exact hs.ptr .gc
    · rcases List.mem_append.1 hl with hl | hl
      · exact hs.free l hl d hd
      · rw [List.mem_singleton.1 hl]
        exact hdone d hd
    · cases io
      · exact hs.run .user
      · exact hs.run .gc
  · refine IsInverse.congr h₂.map (fun _ _ => rfl) (fun w => ?_) fun _ _ => rfl
    unfold Live
    constructor
    · rintro ⟨h1, h2, h3, -⟩
      refine ⟨h1, h2, h3, fun hwS => ?_⟩
      -- a stale page is on the victim, whose pages are free
      obtain ⟨d, l, i, hd, hl, hi, rfl⟩ := Ssdparams.exists_pageAt hs.geom.layout h1 h2
      have hlv : l = v := h₂.line _ (h₂.sub hwS)
      subst hlv
      have hf := ((hs.nand d hd l hl).1.free i hi).2 (by rw [hdone d hd]; exact Nat.zero_le i)
      have h3' : ((f₂.ssd.blk (blockAt d l)).pg i).status = .valid := h3
      rw [h3'] at hf
      cases hf
    · rintro ⟨h1, h2, h3, -⟩
      exact ⟨h1, h2, h3, Finset.notMem_empty _⟩
  · have hfree := h₂.free
    rw [hSV, hcard, hsp] at hfree
    have hvfree : lineFree f.ssd.sp front' v = f.ssd.sp.pgsPerLine :=
      lineFree_empty h.geom fun d hd => hdone d (hsp ▸ hd)
    have hsplit := Sums.sum_change
      (f := fun l => if l ∈ [v] then 0 else lineFree f.ssd.sp front' l)
      (g := fun l => if l ∈ ([] : List ℕ) then 0 else lineFree f.ssd.sp front' l)
      (Finset.mem_range.2 hvlt) fun l _ hl => by simp [hl]
    simp only [List.mem_singleton, if_true, List.not_mem_nil, if_false, hvfree] at hsplit
    show freePages f₂.ssd.sp [] front' = _
    rw [hsp]
    unfold freePages at hfree ⊢
    simp only [List.mem_singleton, List.not_mem_nil, if_false] at hfree ⊢
    omega
  · rw [← hSV]
    exact (h₂.track.congr fun d _ => iff_of_true trivial (.inl rfl)).picked hlm

/-- A collection copies the valid pages of its victim. -/
theorem Collected.gcCopies {f' : ConvFtl} {front' : ℕ × ℕ → ℕ → ℕ}
    (h : Collected f f' front front' v) :
    f'.gcCopies = f.gcCopies + (f.validPages v).card := by
  obtain ⟨f₂, ht, hf'⟩ := h.track
  rw [hf']
  exact ht.copies

/-- A collection without a copy leaves the tables alone. -/
theorem Collected.tables {f' : ConvFtl} {front' : ℕ × ℕ → ℕ → ℕ}
    (h : Collected f f' front front' v) (hc : f'.gcCopies = f.gcCopies) :
    f'.maptbl = f.maptbl ∧ f'.rmap = f.rmap := by
  have hempty : f.validPages v = ∅ := by
    rw [h.gcCopies] at hc
    exact Finset.card_eq_zero.1 (by omega)
  obtain ⟨f₂, ht, hf'⟩ := h.track
  rw [hempty] at ht
  rw [hf']
  exact ⟨funext fun l => ht.kept l (Finset.notMem_empty _), ht.rmap rfl⟩

/-- A collection names only pages that are mapped. -/
theorem Collected.rmapNames {f' : ConvFtl} {front' : ℕ × ℕ → ℕ → ℕ}
    (h : Collected f f' front front' v) (hn : f.RmapNames) : f'.RmapNames := by
  obtain ⟨f₂, ht, hf'⟩ := h.track
  have hrmap : f'.rmap = f₂.rmap := by rw [hf']
  intro i hlt hi
  rw [hrmap] at hi
  rw [h.sp] at hlt
  rw [h.sp, h.dom, hrmap]
  rcases ht.named i with he | he
  · rw [he] at hi ⊢
    exact hn i hlt hi
  · exact he

/-- **A collection of the line `select_victim_line` picks** keeps the invariant.  It can stop only
when no line and fewer than two lines' worth of pages are free. -/
theorem Sound.collect (h : f.Sound [] front) (hm : f.MapOk f.table ∅) (hw : f.WrittenMapped)
    (hppb : 0 < f.ssd.sp.pgsPerBlk) {force : Bool} {lm : LineMgmt}
    (hsel : f.lm.selectVictimLine f.ssd.sp force = some (v, lm)) :
    Ends (f.doGc force) (fun r => r.2 = 0 ∧ ∃ front', Collected f r.1 front front' v)
      (fun e => e = .noFreeLine ∧ freePages f.ssd.sp [] front < 2 * f.ssd.sp.pgsPerLine ∧
        f.lm.freeLineList = []) := by
  unfold ConvFtl.doGc
  dsimp only
  rw [hsel]
  dsimp only
  obtain ⟨hh, hq, hfree, hclosed, hstat⟩ := h.homed.selectVictimLine hsel
  have hvlt : v < f.ssd.sp.blksPerPl := h.homed.queued_lt hq
  have hid : (lm.lines v).id = v := hh.id v hvlt
  have hipc : (lm.lines v).ipc = (f.lm.lines v).ipc := (stat_eq (hstat v)).2.1
  have hsum := (h.line_sum hvlt (by simp)).trans (h.closed_sum (.inr hq))
  have hpos := h.homed.queued v hq
  have hu32 : u32 (lm.lines v).ipc = (f.lm.lines v).ipc := by
    rw [hipc]
    refine u32_of_lt ?_
    have := pgsPerLine_lt h.geom (by omega)
    omega
  rw [hid, hu32]
  set f₁ : ConvFtl := note { f with
    lm := lm, wfc := { f.wfc with creditsToRefill := (f.lm.lines v).ipc } } (.victim v) with hf₁
  have hs₁ : f₁.Sound [v] front := by
    refine {
      geom := h.geom, homed := ?_, nand := h.nand, stats := fun l hl _ => ?_
      ptr := fun io => ?_, free := fun l hl => h.free l (hfree ▸ hl)
      closed := fun l hl => h.closed l ((hclosed l).1 hl).2, history := h.history
      run := fun io => ?_ }
    · refine hh.perm_held ?_
      exact (List.perm_append_comm : ([f.wp.curline, f.gcWp.curline] ++ [v]).Perm _)
    · have hs := stat_eq (hstat l)
      show (lm.lines l).vpc = _ ∧ (lm.lines l).ipc = _
      rw [hs.2.1, hs.2.2]
      exact h.stats l hl (by simp)
    · cases io
      · exact h.ptr .user
      · exact h.ptr .gc
    · cases io
      · exact h.run .user
      · exact h.run .gc
  have hclo : f.lm.Closed v := .inr hq
  have hfp : freePages f.ssd.sp [v] front = freePages f.ssd.sp [] front := by
    refine Finset.sum_congr rfl fun l _ => ?_
    by_cases hl : l = v
    · subst hl
      simp [lineFree_full (h.closed l hclo)]
    · simp [hl]
  have hcard : (f.validPages v).card = (f.lm.lines v).vpc := by
    rw [h.card_validPages hvlt, (h.stats v hvlt (by simp)).1]
  have hstart : Collecting f₁ v (f.validPages v) (freePages f.ssd.sp [] front) f₁ ∅ front
      (Scanned f₁.ssd.sp.pgsPerFlashpg 0 0 0) (Erased f₁.ssd.sp.flashpgsPerBlk 0 0 0) := by
    have hn : f₁.ssd.sp.flashpgsPerBlk ≠ 0 := fun h0 => by
      have := hs₁.geom.flashpgs
      rw [h0, zero_mul] at this
      exact absurd this (Nat.pos_iff_ne_zero.1 hppb)
    have hnone : ∀ d, ¬ Erased f₁.ssd.sp.flashpgsPerBlk 0 0 0 d := by
      rintro d (h0 | ⟨-, hb⟩)
      · exact hn h0.symm
      · exact not_before_start d hb
    refine {
      sound := hs₁, map := hm.of_same rfl rfl, written := fun io l p hp => hw io l p ?_
      done := fun d _ he => absurd he (hnone d), full := fun d hd _ => h.closed v hclo d hd
      valid := fun d hd i hi _ => ?_, sub := Finset.empty_subset _, line := fun p hp => ?_
      stale := fun d hd i hi => ?_, free := by rw [Finset.card_empty, add_zero]; exact hfp
      sp := rfl, cp := rfl, wfc := rfl, dom := fun _ => rfl
      track := .refl f₁ v fun d _ => hnone d, room := by rw [Finset.card_empty, add_zero] }
    · rcases List.mem_cons.1 hp with hp | hp
      · cases hp
      · exact hp
    · rw [mem_validPages]
      constructor
      · exact fun hv => ⟨d, hd, i, hi, hv, rfl⟩
      · rintro ⟨e, -, j, -, hv, he⟩
        obtain ⟨rfl, -, rfl⟩ := pageAt_inj.1 he
        exact hv
    · obtain ⟨d, -, i, -, -, rfl⟩ := mem_validPages.1 hp
      rfl
    · refine iff_of_false (Finset.notMem_empty _) ?_
      rintro ⟨-, h0 | ⟨-, hb⟩⟩
      · omega
      · exact not_before_start d hb
  refine ((CollectingAt.loops ⟨∅, front, hstart⟩ hppb).mono (fun f₂ hf₂ => hf₂) fun e he => ?_).bind
    fun f₂ hf₂ => ?_
  · obtain ⟨rfl, hle, hroom⟩ := he
    have hppl : f₁.ssd.sp.pgsPerLine = f.ssd.sp.pgsPerLine := rfl
    rw [hcard] at hle hroom
    refine ⟨rfl, by omega, List.length_eq_zero_iff.1 ?_⟩
    -- the copies would fit on one free line
    have hlen : f.lm.freeLineList.length * f.ssd.sp.pgsPerLine ≤ f₁.gcRoom := by
      rw [← hfree]
      exact Nat.le_add_left _ _
    by_contra h0
    have := Nat.le_mul_of_pos_left f.ssd.sp.pgsPerLine (Nat.pos_of_ne_zero h0)
    omega
  · exact ⟨rfl, hf₂.finish h hq hcard hfree⟩

/-- **`do_gc`** keeps the invariant.  Without a queued line it does nothing; it can stop only when
fewer than two lines' worth of pages are free. -/
theorem Sound.doGc (h : f.Sound [] front) (hm : f.MapOk f.table ∅) (hw : f.WrittenMapped)
    (hppb : 0 < f.ssd.sp.pgsPerBlk) :
    Ends (f.doGc true)
      (fun r => r = (f, -1) ∧ f.lm.victimLinePq.size = 1 ∨
        r.2 = 0 ∧ ∃ v front', Collected f r.1 front front' v)
      (fun e => e = .noFreeLine ∧ freePages f.ssd.sp [] front < 2 * f.ssd.sp.pgsPerLine) := by
  cases hsel : f.lm.selectVictimLine f.ssd.sp true with
  | none =>
    unfold ConvFtl.doGc
    dsimp only
    rw [hsel]
    exact .inl ⟨rfl, (LineMgmt.selectVictimLine_eq_none true rfl).1 hsel⟩
  | some r =>
    obtain ⟨v, lm⟩ := r
    refine (h.collect hm hw hppb hsel).mono (fun r hr => ?_) fun e he => ⟨he.1, he.2.1⟩
    obtain ⟨h0, front', hc⟩ := hr
    exact .inr ⟨h0, v, front', hc⟩

end ConvFtl

end NvmeVirt
