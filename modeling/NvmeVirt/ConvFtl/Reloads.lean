/-
# Devices that load snapshots

The invariant of an instance speaks only of what a snapshot holds and of the
history.  So an instance that is equal to another in these is as good as it, and
the devices that are reached by commands, by stores to the storage and by loading
the snapshots of other reachable devices all have the invariant.
-/

import NvmeVirt.ConvFtl.RoundTrip

namespace NvmeVirt

open Outcome Pqueue

variable {calls : FileCalls} {fuel : ℕ}

/-! ### Blocks and lines -/

/-- The pages and the counters of a block are all that counts. -/
theorem BlockOk.of_same {spp : Ssdparams} {b b' : NandBlock} {k : ℕ} (h : BlockOk spp b k)
    (hpg : ∀ i, i < spp.pgsPerBlk →
      (b'.pg i).status = (b.pg i).status ∧ (b'.pg i).nsecs = (b.pg i).nsecs)
    (hnpgs : b'.npgs = b.npgs) (hipc : b'.ipc = b.ipc) (hvpc : b'.vpc = b.vpc) :
    BlockOk spp b' k := by
  have hcount : ∀ st, b'.count spp.pgsPerBlk st = b.count spp.pgsPerBlk st := fun st => by
    unfold NandBlock.count
    refine congrArg Finset.card (Finset.filter_congr fun i hi => ?_)
    rw [(hpg i (Finset.mem_range.1 hi)).1]
  exact {
    le := h.le
    free := fun i hi => by rw [(hpg i hi).1, h.free i hi]
    nsecs := fun i hi => by rw [(hpg i hi).2, h.nsecs i hi]
    npgs := hnpgs.trans h.npgs
    vpc := by rw [hvpc, hcount, h.vpc]
    ipc := by rw [hipc, hcount, h.ipc] }

namespace LineMgmt

variable {lm lm' : LineMgmt} {n : ℕ} {held : List ℕ}

/-- What lies behind the lines and outside the heap does not count. -/
theorem Homed.of_same (h : lm.Homed n held) (hlines : ∀ l, l < n → lm'.lines l = lm.lines l)
    (hfree : lm'.freeLineList = lm.freeLineList) (hfull : lm'.fullLineList = lm.fullLineList)
    (hsize : lm'.victimLinePq.size = lm.victimLinePq.size)
    (havail : lm'.victimLinePq.avail = lm.victimLinePq.avail)
    (hd : ∀ i, 1 ≤ i → i < lm.victimLinePq.size → lm'.victimLinePq.d i = lm.victimLinePq.d i)
    (hfreeCnt : lm'.freeLineCnt = lm.freeLineCnt) (hfullCnt : lm'.fullLineCnt = lm.fullLineCnt)
    (hvictimCnt : lm'.victimLineCnt = lm.victimLineCnt) (htt : lm'.ttLines = lm.ttLines) :
    lm'.Homed n held := by
  have hmem : ∀ l, lm'.victimLinePq.Mem l ↔ lm.victimLinePq.Mem l := fun l => by
    unfold Pqueue.Mem
    rw [hsize]
    refine exists_congr fun i => and_congr_right fun h1 => and_congr_right fun hi => ?_
    rw [hd i h1 hi]
  have helems : lm'.victimLinePq.elems = lm.victimLinePq.elems := by
    unfold Pqueue.elems
    rw [hsize]
    refine List.map_congr_left fun i hi => hd (i + 1) (by omega) ?_
    have := List.mem_range.1 hi
    omega
  have hslot : ∀ i, 1 ≤ i → i < lm.victimLinePq.size →
      lm'.lines (lm'.victimLinePq.d i) = lm.lines (lm.victimLinePq.d i) := fun i h1 hi => by
    rw [hd i h1 hi, hlines _ (h.queued_lt ⟨i, h1, hi, rfl⟩)]
  exact {
    homes := by
      unfold LineMgmt.homes
      rw [hfree, hfull, helems]
      exact h.homes
    placed := fun i h1 hi => by
      rw [hsize] at hi
      show (lm'.lines (lm'.victimLinePq.d i)).pos = i
      rw [hslot i h1 hi]
      exact h.placed i h1 hi
    avail := havail.trans h.avail
    size_pos := by rw [hsize]; exact h.size_pos
    pos := fun l hl hp => by
      rw [hlines l hl] at hp
      exact (hmem l).2 (h.pos l hl hp)
    freeCnt := by rw [hfreeCnt, hfree, h.freeCnt]
    fullCnt := by rw [hfullCnt, hfull, h.fullCnt]
    victimCnt := by rw [hvictimCnt, hsize, h.victimCnt]
    id := fun l hl => by rw [hlines l hl, h.id l hl]
    full := fun l hl => by
      rw [hfull] at hl
      rw [hlines l (h.full_lt hl), h.full l hl]
    queued := fun l hl => by
      rw [hmem] at hl
      rw [hlines l (h.queued_lt hl)]
      exact h.queued l hl
    ordered := h.ordered.congr hsize fun i h1 hi => congrArg Line.vpc (hslot i h1 hi)
    ttLines := htt.trans h.ttLines }

end LineMgmt

/-! ### Instances -/

namespace ConvFtl

variable {f f' : ConvFtl} {front : ℕ × ℕ → ℕ → ℕ}

theorem SnapshotEq.getWp (e : f.SnapshotEq f') (io : IoType) : f'.getWp io = f.getWp io := by
  cases io
  · exact e.wp
  · exact e.gcWp

/-- A page of the geometry has the same state. -/
theorem SnapshotEq.status (e : f.SnapshotEq f') {p : Ppa} (hp : f.ssd.sp.validPpa p) :
    (f'.ssd.getPg p).status = (f.ssd.getPg p).status := by
  obtain ⟨h1, h2, h3, h4, h5⟩ := hp
  exact (e.page p.blkAddr ⟨h1, h2, h3, h4⟩ p.pg h5).1

theorem SnapshotEq.table (e : f.SnapshotEq f') {l : ℕ} (hl : l < f.ssd.sp.ttPgs) :
    f'.table l = f.table l := by
  unfold ConvFtl.table
  rw [e.maptbl l hl]

/-- **Pages, blocks, lines and write pointers** are all in the snapshot. -/
theorem Sound.of_snapshotEq (h : f.Sound [] front) (e : f.SnapshotEq f') (hlog : f'.log = f.log) :
    f'.Sound [] front := by
  have hgeom := h.geom
  have hblk : ∀ d ∈ f.ssd.sp.dies, ∀ l, l < f.ssd.sp.blksPerPl →
      f.ssd.sp.HasBlk (blockAt d l) := fun d hd l hl => by
    obtain ⟨h1, h2⟩ := Ssdparams.mem_dies.1 hd
    exact ⟨h1, h2, by rw [hgeom.plsPerLun]; exact Nat.one_pos, hl⟩
  have hhomed : f'.lm.Homed f.ssd.sp.blksPerPl (f.wp.curline :: f.gcWp.curline :: []) :=
    h.homed.of_same (fun l hl => e.lines l (hgeom.ttLines ▸ hl)) e.freeLineList e.fullLineList
      e.heap.1 e.heap.2.1 e.heap.2.2 e.freeLineCnt e.fullLineCnt e.victimLineCnt e.ttLines
  have hmem : ∀ l, f'.lm.victimLinePq.Mem l ↔ f.lm.victimLinePq.Mem l := fun l => by
    unfold Pqueue.Mem
    rw [e.heap.1]
    refine exists_congr fun i => and_congr_right fun h1 => and_congr_right fun hi => ?_
    rw [e.heap.2.2 i h1 hi]
  refine {
    geom := e.sp ▸ hgeom, homed := ?_, nand := ?_, stats := ?_, ptr := fun io => ?_
    free := ?_, closed := ?_, history := ?_, run := fun io => ?_ }
  · rw [e.sp, e.wp, e.gcWp]
    exact hhomed
  · intro d hd l hl
    rw [e.sp] at hd hl ⊢
    obtain ⟨hb, hlist⟩ := h.nand d hd l hl
    have ha := hblk d hd l hl
    obtain ⟨hnpgs, hipc, hvpc, -, -⟩ := e.block _ ha
    refine ⟨hb.of_same (fun i hi => ?_) hnpgs hipc hvpc, by rw [hlog]; exact hlist⟩
    obtain ⟨hst, hsecs, -⟩ := e.page _ ha i hi
    exact ⟨hst, hsecs⟩
  · intro l hl hv
    rw [e.sp] at hl
    rw [e.sp, e.lines l (hgeom.ttLines ▸ hl)]
    obtain ⟨h1, h2⟩ := h.stats l hl hv
    rw [h1, h2]
    refine ⟨Finset.sum_congr rfl fun d hd => ?_, Finset.sum_congr rfl fun d hd => ?_⟩
    · exact (e.block _ (hblk d hd l hl)).2.2.1.symm
    · exact (e.block _ (hblk d hd l hl)).2.1.symm
  · have hcnt : ∀ d ∈ f.ssd.sp.dies, f'.written io d = f.written io d := fun d hd => by
      cases io with
      | user =>
        show f'.pageCounter (f'.ssd.sp.dieIdx d.1 d.2) = f.pageCounter (f.ssd.sp.dieIdx d.1 d.2)
        obtain ⟨h1, h2⟩ := Ssdparams.mem_dies.1 hd
        rw [e.sp]
        exact e.pageCounter _ (Ssdparams.digit_lt h1 h2)
      | gc =>
        show gcFront f'.ssd.sp f'.gcWp d = gcFront f.ssd.sp f.gcWp d
        rw [e.sp, e.gcWp]
    have hw := h.ptr io
    rw [e.sp, e.getWp]
    exact ⟨hw.blk, hw.pl, hw.die, fun d hd => by rw [hcnt d hd, hw.front d hd],
      by rw [hcnt _ hw.die, hw.pg], hw.room⟩
  · intro l hl d hd
    rw [e.freeLineList] at hl
    rw [e.sp] at hd
    exact h.free l hl d hd
  · intro l hl d hd
    rw [e.sp] at hd ⊢
    refine h.closed l ?_ d hd
    unfold LineMgmt.Closed at hl ⊢
    rwa [e.fullLineList, hmem] at hl
  · rw [e.sp, hlog]
    exact h.history
  · rw [e.sp, e.getWp, hlog]
    exact h.run io

/-- **The tables** are in the snapshot. -/
theorem Inv.of_snapshotEq (h : f.Inv) (e : f.SnapshotEq f') (hlog : f'.log = f.log) : f'.Inv := by
  obtain ⟨front, hs⟩ := h.sound
  refine ⟨⟨front, hs.of_snapshotEq e hlog⟩, ?_, ?_⟩
  · have hlive : ∀ p, f'.Live ∅ p ↔ f.Live ∅ p := fun p => by
      unfold Live
      rw [e.sp]
      refine and_congr_right fun hp => ?_
      rw [e.status hp]
    unfold MapOk
    rw [e.sp]
    refine Inverse.IsInverse.congr h.map (fun l hl => e.table hl) hlive fun p hp => ?_
    obtain ⟨h1, h2, -⟩ := hp
    obtain ⟨d, k, i, hd, hk, hi, rfl⟩ := Ssdparams.exists_pageAt hs.geom.layout h1 h2
    exact e.rmap _ (Ssdparams.pgidx_lt hs.geom.layout hd hk hi)
  · intro io lpn p hp
    rw [hlog] at hp
    obtain ⟨hlt, hsome⟩ := h.written io lpn p hp
    rw [e.sp, e.table hlt]
    exact ⟨hlt, hsome⟩

theorem RmapNames.of_snapshotEq (h : f.RmapNames) (e : f.SnapshotEq f') : f'.RmapNames := by
  intro i hi hne
  rw [e.sp] at hi ⊢
  rw [e.rmap i hi] at hne ⊢
  obtain ⟨hlt, hsome⟩ := h i hi hne
  rw [e.table hlt]
  exact ⟨hlt, hsome⟩

/-- A state inside a page write of the instance `f`: its write credits are looked at next. -/
inductive InPage (f : ConvFtl) : ConvFtl → Prop
  | start : InPage f f
  | host {lpn : ℕ} {f₁ f₂ : ConvFtl} {p : Ppa} : f.remapPage lpn = .ok (f₁, p) →
      f₁.advanceWritePointer .user = .ok f₂ → InPage f f₂.consumeWriteCredit
  | clean {lpn degree random : ℕ} {con conti con' conti' : ℤ} {f₁ f₂ : ConvFtl} {p : Ppa}
      {r : Option RewritePointer} : f.remapPage lpn = .ok (f₁, p) →
      f₁.advanceWritePointerCleanver degree con conti false random = .ok (f₂, con', conti', r) →
      InPage f f₂.consumeWriteCredit

/-- The credits are no part of it. -/
theorem Sound.consumeWriteCredit (h : f.Sound [] front) :
    f.consumeWriteCredit.Sound [] front := by
  unfold ConvFtl.consumeWriteCredit
  exact h.with_wfc _

/-- **Before its credits are looked at** a page write has the pages, blocks, lines and write
pointers in order. -/
theorem Inv.inPage (h : f.Inv) (hp : f.InPage f') :
    f'.ssd.sp = f.ssd.sp ∧ ∃ front, f'.Sound [] front := by
  obtain ⟨⟨front, hs⟩, hm, hw⟩ := h
  have hremap : ∀ {lpn f₁ p}, f.remapPage lpn = .ok (f₁, p) →
      f₁.ssd.sp = f.ssd.sp ∧ f₁.Handed [] front .user := fun {lpn f₁ p} hr => by
    by_cases hlpn : lpn < f.ssd.sp.ttPgs
    · obtain ⟨g, hg, hrem⟩ := hs.remapPage hm hw hlpn
      cases hg.symm.trans hr
      exact ⟨hrem.sp, hrem.handed⟩
    · rw [remapPage_out hlpn] at hr
      cases hr
  cases hp with
  | start => exact ⟨rfl, front, hs⟩
  | host hr ha =>
    obtain ⟨hsp, hh⟩ := hremap hr
    obtain ⟨h₂, had⟩ := hh.advanceUser.of_ok ha
    exact ⟨(congrArg Ssd.sp had.ssd).trans hsp, _, h₂.consumeWriteCredit⟩
  | clean hr ha =>
    obtain ⟨hsp, hh⟩ := hremap hr
    obtain ⟨h₂, had⟩ := (hh.advanceCleanver _ _ _ _ _).of_ok ha
    exact ⟨(congrArg Ssd.sp had.ssd).trans hsp, _, h₂.consumeWriteCredit⟩

end ConvFtl

/-! ### Devices -/

namespace ConvDevice

/-- **The states of a device that starts as `ns₀`:** it executes commands, or some of the page
writes of a command, its storage is written, and snapshots of such states are loaded into devices
of the same configuration, whatever these hold; a load that comes to an end had tables to free and
room behind `pos`. -/
inductive Reachable (calls : FileCalls) (fuel : ℕ) (ns₀ : ConvNs) : ConvDevice → Prop
  | init {storageSize : ℕ} {storage : Mem} :
      Reachable calls fuel ns₀ ⟨ns₀, storageSize, storage, false⟩
  | exec {d : ConvDevice} {op : ConvOp} {ns : ConvNs} : Reachable calls fuel ns₀ d →
      d.ns.exec op = .ok ns → Reachable calls fuel ns₀ { d with ns := ns }
  | page {d : ConvDevice} {q : ℕ} {op : PageOp} {f : ConvFtl} : Reachable calls fuel ns₀ d →
      q < d.ns.nrParts → (d.ns.ftls q).pageOp op = .ok f →
      Reachable calls fuel ns₀ { d with ns.ftls := Function.update d.ns.ftls q f }
  | store {d : ConvDevice} {storage : Mem} : Reachable calls fuel ns₀ d →
      Reachable calls fuel ns₀ { d with storage := storage }
  | load {d old d' : ConvDevice} {o : OpenFile} {fresh : ℕ → UInt8} {posRoom : ℕ}
      {lineAddr lineAddr' : ℕ → ℕ} : Reachable calls fuel ns₀ d → d.SameConfig old →
      d.saveDevice calls fuel lineAddr (.ok ()) = (o, .returns 0) →
      old.loadDevice calls fuel fresh posRoom lineAddr' (fun q => (d.ns.ftls q).log) (.ok o.bytes) =
        .ok (d', 0) →
      Reachable calls fuel ns₀ d'

/-- **The invariant of a device.** -/
structure Inv (d : ConvDevice) : Prop where
  ns : d.ns.Inv
  named : ∀ q, q < d.ns.nrParts → (d.ns.ftls q).RmapNames
  secsPerPg : d.ns.sp.secsPerPg = 8

variable {d old d' : ConvDevice} {ns₀ : ConvNs}

/-- A later state of the namespace. -/
theorem Inv.kept (h : d.Inv) {ns : ConvNs} (hk : ConvNs.Kept d.ns ns) :
    Inv { d with ns := ns } where
  ns := hk.inv
  named := fun q hq => by
    have hq' : q < d.ns.nrParts := hk.nrParts ▸ hq
    exact (hk.ftl q hq').named (h.named q hq')
  secsPerPg := by rw [hk.sp, h.secsPerPg]

/-- The instances fit their file. -/
theorem Inv.fits (h : d.Inv) {q : ℕ} (hq : q < d.ns.nrParts) : (d.ns.ftls q).Fits := by
  refine (h.ns.ftl q hq).fits (h.named q hq) ?_
  rw [h.ns.sp q hq, h.secsPerPg]

/-- **A snapshot of a device in order** gives a device in order. -/
theorem Inv.restored (h : d.Inv) (hcfg : d.SameConfig old) :
    (d.restored old fun q => (d.ns.ftls q).log).Inv := by
  have hftl : ∀ q, q < d.ns.nrParts → (d.restored old fun q => (d.ns.ftls q).log).ns.ftls q =
      (d.ns.ftls q).restored (old.ns.ftls q) (d.ns.ftls q).log := fun q hq => if_pos hq
  have heq : ∀ q, q < d.ns.nrParts → (d.ns.ftls q).SnapshotEq
      ((d.ns.ftls q).restored (old.ns.ftls q) (d.ns.ftls q).log) := fun q hq => by
    obtain ⟨front, hs⟩ := (h.ns.ftl q hq).sound
    exact hs.restored (hcfg.sp q hq)
  have hparts : (d.restored old fun q => (d.ns.ftls q).log).ns.nrParts = d.ns.nrParts :=
    hcfg.nrParts
  have hsp : (d.restored old fun q => (d.ns.ftls q).log).ns.sp = d.ns.sp := by
    unfold ConvNs.sp
    rw [hftl 0 h.ns.parts_pos]
    exact (heq 0 h.ns.parts_pos).sp
  refine ⟨⟨hparts ▸ h.ns.parts_pos, fun q hq => ?_, fun q hq => ?_⟩, fun q hq => ?_, ?_⟩
  · rw [hparts] at hq
    rw [hftl q hq]
    exact (h.ns.ftl q hq).of_snapshotEq (heq q hq) rfl
  · rw [hparts] at hq
    rw [hftl q hq, hsp, (heq q hq).sp, h.ns.sp q hq]
  · rw [hparts] at hq
    rw [hftl q hq]
    exact (h.named q hq).of_snapshotEq (heq q hq)
  · rw [hsp, h.secsPerPg]

/-- **Every reachable device is in order.** -/
theorem Reachable.inv (hcalls : calls.Transfers) (hfuel : pageSize < fuel) {size : ℕ}
    {cfg : FtlConfigs} (hinit : convInitNamespace size cfg = .ok ns₀) (hfit : ns₀.sp.FitsPpa)
    (h : Reachable calls fuel ns₀ d) : d.Inv := by
  induction h with
  | init =>
    exact ⟨(convInitNamespace_inv hinit hfit).1,
      fun q _ => (convInitNamespace_current hinit q).2.2, convInitNamespace_secsPerPg hinit⟩
  | exec _ hop ih => exact ih.kept ((ih.ns.exec _).of_ok hop)
  | page _ hq hop ih => exact ih.kept (ih.ns.update hq (((ih.ns.ftl _ hq).pageOp _).of_ok hop))
  | store _ ih => exact ⟨ih.ns, ih.named, ih.secsPerPg⟩
  | @load d old d' o fresh posRoom lineAddr lineAddr' _ hcfg hsave hload ih =>
    obtain ⟨hlive, hroom⟩ := live_of_loadDevice hcalls hfuel (fun q hq => ih.fits hq)
      ih.ns.parts_pos hcfg hsave hload
    obtain ⟨o', hsave', hload'⟩ := loadDevice_saveDevice hcalls hfuel fresh hroom lineAddr lineAddr'
      (fun q => (d.ns.ftls q).log) (fun q hq => ih.fits hq) hcfg hlive
    cases hsave'.symm.trans hsave
    cases hload'.symm.trans hload
    exact ih.restored hcfg

end ConvDevice

end NvmeVirt
