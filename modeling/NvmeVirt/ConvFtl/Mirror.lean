/-
# Instances that are equal in the memory the driver owns

`f.Mirror f'` says that two instances agree in every page of the geometry, in
the table entries below `tt_pgs`, in the lines below `blks_per_pl` and in the
filled slots of the victim queue, and that the lists, the queue and the write
pointers name only such lines and dies.  What lies behind is different memory in
two devices.  The operations on lines and pages read none of it.
-/

import NvmeVirt.ConvFtl.Reloads
import NvmeVirt.Pqueue.Mirror
import NvmeVirt.Lib.Lockstep

namespace NvmeVirt

open Outcome Pqueue

/-! ### Lines -/

/-- The first `n` lines are the same and know their numbers. -/
def SameLines (n : ℕ) (lines lines' : ℕ → Line) : Prop :=
  ∀ l, l < n → lines' l = lines l ∧ (lines l).id = l

/-- The same line is stored on both sides. -/
theorem SameLines.store {n l : ℕ} {lines lines' : ℕ → Line} (h : SameLines n lines lines')
    {line : Line} (hid : line.id = l) :
    SameLines n (Function.update lines l line) (Function.update lines' l line) := by
  intro k hk
  by_cases hkl : k = l
  · subst hkl
    simp [hid]
  · simpa [hkl] using h k hk

/-- The accessors of the queue read and write one line. -/
theorem victimOps_respects (n : ℕ) : victimOps.Respects (· < n) (SameLines n) where
  getpri := fun s s' x h hx => by simp [victimOps, (h x hx).1]
  getpos := fun s s' x h hx => by simp [victimOps, (h x hx).1]
  setpri := fun s s' x p h hx => by
    simp only [victimOps, (h x hx).1]
    exact h.store (h x hx).2
  setpos := fun s s' x k h hx => by
    simp only [victimOps, (h x hx).1]
    exact h.store (h x hx).2

namespace LineMgmt

/-- **`lm'` is `lm`** in the first `n` lines, the lists and the queue; the lists and the queue name
no other lines. -/
structure Mirror (n : ℕ) (lm lm' : LineMgmt) : Prop where
  lines : SameLines n lm.lines lm'.lines
  queue : lm.victimLinePq.Mirror (· < n) lm'.victimLinePq
  freeLineList : lm'.freeLineList = lm.freeLineList
  free_lt : ∀ l ∈ lm.freeLineList, l < n
  fullLineList : lm'.fullLineList = lm.fullLineList
  ttLines : lm'.ttLines = lm.ttLines
  freeLineCnt : lm'.freeLineCnt = lm.freeLineCnt
  victimLineCnt : lm'.victimLineCnt = lm.victimLineCnt
  fullLineCnt : lm'.fullLineCnt = lm.fullLineCnt

variable {lm lm' : LineMgmt} {n l : ℕ} {spp : Ssdparams}

theorem Mirror.line (h : lm.Mirror n lm') (hl : l < n) : lm'.lines l = lm.lines l :=
  (h.lines l hl).1

theorem Mirror.id (h : lm.Mirror n lm') (hl : l < n) : (lm.lines l).id = l := (h.lines l hl).2

/-- The same line is stored on both sides. -/
theorem Mirror.setLine (h : lm.Mirror n lm') {line : Line} (hid : line.id = l) :
    (lm.setLine l line).Mirror n (lm'.setLine l line) :=
  { h with lines := h.lines.store hid }

/-- A line is taken off its list on both sides. -/
theorem Mirror.listDelInit (h : lm.Mirror n lm') (l : ℕ) :
    (lm.listDelInit l).Mirror n (lm'.listDelInit l) :=
  { h with
    freeLineList := congrArg (List.erase · l) h.freeLineList
    free_lt := fun k hk => h.free_lt k (List.mem_of_mem_erase hk)
    fullLineList := congrArg (List.erase · l) h.fullLineList }

/-- The queue and its lines after an operation of the queue. -/
theorem Mirror.requeue (h : lm.Mirror n lm') {r r' : Pqueue ℕ × (ℕ → Line)}
    (hr : MirrorOn (· < n) (SameLines n) r r') :
    ({ lm with victimLinePq := r.1, lines := r.2 } : LineMgmt).Mirror n
      { lm' with victimLinePq := r'.1, lines := r'.2 } :=
  { h with lines := hr.2, queue := hr.1 }

/-- `get_next_free_line` hands out the same line. -/
theorem Mirror.getNextFreeLine (h : lm.Mirror n lm') :
    Option.Rel (fun r r' => r'.1 = r.1 ∧ r.1 < n ∧ r.2.Mirror n r'.2) lm.getNextFreeLine
      lm'.getNextFreeLine := by
  unfold LineMgmt.getNextFreeLine
  rw [h.freeLineList]
  cases hfree : lm.freeLineList with
  | nil => exact .none
  | cons l rest =>
    refine .some ⟨rfl, h.free_lt l (by simp [hfree]), ?_⟩
    exact { h.listDelInit l with freeLineCnt := congrArg (· - 1) h.freeLineCnt }

theorem Mirror.takeFreeLine (h : lm.Mirror n lm') :
    Agree (fun r r' => r'.1 = r.1 ∧ r.1 < n ∧ r.2.Mirror n r'.2) lm.takeFreeLine
      lm'.takeFreeLine := by
  have hnext := h.getNextFreeLine
  unfold LineMgmt.takeFreeLine
  generalize lm.getNextFreeLine = a at hnext
  generalize lm'.getNextFreeLine = b at hnext
  rcases hnext with ⟨hr⟩ | -
  · exact hr
  · exact rfl

/-- A used-up line is retired to the same place. -/
theorem Mirror.retireLine (h : lm.Mirror n lm') (fn : Fn) (spp : Ssdparams) (hl : l < n) :
    Agree (LineMgmt.Mirror n) (lm.retireLine fn spp l) (lm'.retireLine fn spp l) := by
  unfold LineMgmt.retireLine
  rw [h.line hl]
  dsimp only
  refine Agree.ite Iff.rfl (fun _ => ?_) fun _ => ?_
  · refine Agree.same_bind _ fun _ _ => ?_
    exact { h with
      fullLineList := congrArg (· ++ [l]) h.fullLineList
      fullLineCnt := congrArg (· + 1) h.fullLineCnt }
  · rw [h.queue.size, h.queue.avail]
    refine Agree.same_bind _ fun _ _ => ?_
    refine Agree.same_bind _ fun _ _ => ?_
    refine Agree.same_bind _ fun _ _ => ?_
    exact { h.requeue (h.queue.pqueueInsert (victimOps_respects n) h.lines hl) with
      victimLineCnt := congrArg (· + 1) h.victimLineCnt }

/-- The same victim is picked. -/
theorem Mirror.selectVictimLine (h : lm.Mirror n lm') (spp : Ssdparams) (force : Bool) :
    Option.Rel (fun r r' => r'.1 = r.1 ∧ r.1 < n ∧ r.2.Mirror n r'.2)
      (lm.selectVictimLine spp force) (lm'.selectVictimLine spp force) := by
  unfold LineMgmt.selectVictimLine
  rw [h.queue.pqueuePeek]
  cases hpeek : lm.victimLinePq.pqueuePeek with
  | none => exact .none
  | some l =>
    obtain ⟨hsz, hd⟩ := pqueuePeek_eq_some.1 hpeek
    have hsz' := h.queue.size_pos
    have hl : l < n := hd ▸ h.queue.elem 1 le_rfl (by omega)
    dsimp only
    rw [h.line hl]
    split_ifs with hfew
    · exact .none
    · have hq := h.queue.pqueuePop (victimOps_respects n) h.lines
      refine .some ⟨rfl, hl, ?_⟩
      have hm : ({
          lm with
          victimLinePq := (lm.victimLinePq.pqueuePop victimOps lm.lines).2.1
          lines := (lm.victimLinePq.pqueuePop victimOps lm.lines).2.2
          victimLineCnt := lm.victimLineCnt - 1 } : LineMgmt).Mirror n {
          lm' with
          victimLinePq := (lm'.victimLinePq.pqueuePop victimOps lm'.lines).2.1
          lines := (lm'.victimLinePq.pqueuePop victimOps lm'.lines).2.2
          victimLineCnt := lm'.victimLineCnt - 1 } :=
        { h.requeue hq with victimLineCnt := congrArg (· - 1) h.victimLineCnt }
      have hline := hm.line hl
      dsimp only at hline ⊢
      rw [hline]
      exact hm.setLine (hm.id hl)

/-- A collected line goes back to the end of the same list. -/
theorem Mirror.markLineFree (h : lm.Mirror n lm') (hl : l < n) :
    (lm.markLineFree l).Mirror n (lm'.markLineFree l) := by
  have hcleared : (lm.setLine l { lm.lines l with ipc := 0, vpc := 0 }).Mirror n
      (lm'.setLine l { lm.lines l with ipc := 0, vpc := 0 }) := by
    refine h.setLine ?_
    exact h.id hl
  unfold LineMgmt.markLineFree
  rw [h.line hl]
  refine { hcleared with
    freeLineList := congrArg (· ++ [l]) h.freeLineList, free_lt := fun k hk => ?_
    freeLineCnt := congrArg (· + 1) h.freeLineCnt }
  rcases List.mem_append.1 hk with hk | hk
  · exact h.free_lt k hk
  · rwa [List.mem_singleton.1 hk]

/-- The line's part of `mark_page_valid`. -/
theorem Mirror.validatePage (h : lm.Mirror n lm') (spp : Ssdparams) (hl : l < n) :
    Agree (LineMgmt.Mirror n) (lm.validatePage spp l) (lm'.validatePage spp l) := by
  unfold LineMgmt.validatePage
  rw [h.line hl]
  exact Agree.same_bind _ fun _ _ => h.setLine (h.id hl)

/-- The line's part of `mark_page_invalid`; a line with a position stands there in the queue. -/
theorem Mirror.invalidatePage (h : lm.Mirror n lm') {held : List ℕ} (hh : lm.Homed n held)
    (spp : Ssdparams) (hl : l < n) :
    Agree (LineMgmt.Mirror n) (lm.invalidatePage spp l) (lm'.invalidatePage spp l) := by
  have hpos : (lm.lines l).pos ≠ 0 → (lm.lines l).pos < lm.victimLinePq.size := fun hp =>
    (hh.placed.d_getpos (hh.pos l hl hp)).2.1
  have hset : ∀ line : Line, line.id = (lm.lines l).id →
      (lm.setLine l line).Mirror n (lm'.setLine l line) := fun line hid =>
    h.setLine (hid.trans (h.id hl))
  have hcounted := hset { lm.lines l with ipc := (lm.lines l).ipc + 1 } rfl
  have hrest : ∀ a b : LineMgmt, a.Mirror n b → ∀ full : Prop, [Decidable full] →
      Agree (LineMgmt.Mirror n)
        (if full then do
          let a := a.listDelInit l
          defined (a.victimLinePq.size < a.victimLinePq.avail)
          let r := a.victimLinePq.pqueueInsert victimOps a.lines l
          .ok { a with
            fullLineCnt := a.fullLineCnt - 1
            victimLinePq := r.1
            lines := r.2
            victimLineCnt := a.victimLineCnt + 1 }
        else .ok a : Except Fault LineMgmt)
        (if full then do
          let b := b.listDelInit l
          defined (b.victimLinePq.size < b.victimLinePq.avail)
          let r := b.victimLinePq.pqueueInsert victimOps b.lines l
          .ok { b with
            fullLineCnt := b.fullLineCnt - 1
            victimLinePq := r.1
            lines := r.2
            victimLineCnt := b.victimLineCnt + 1 }
        else .ok b) := by
    intro a b hab full _
    refine Agree.ite Iff.rfl (fun _ => ?_) fun _ => hab
    have hoff := hab.listDelInit l
    dsimp only
    rw [hoff.queue.size, hoff.queue.avail]
    refine Agree.same_bind _ fun _ _ => ?_
    exact { hoff.requeue (hoff.queue.pqueueInsert (victimOps_respects n) hoff.lines hl) with
      fullLineCnt := congrArg (· - 1) hoff.fullLineCnt
      victimLineCnt := congrArg (· + 1) hoff.victimLineCnt }
  unfold LineMgmt.invalidatePage
  rw [h.line hl]
  refine Agree.same_bind _ fun _ _ => ?_
  refine Agree.ite Iff.rfl (fun _ => Agree.same_bind _ fun _ _ => ?_) fun _ => ?_
  all_goals
    refine Agree.same_bind _ fun _ _ => hrest _ _ ?_ _
    dsimp only
    split_ifs with hp
    · exact hcounted.requeue (hcounted.queue.pqueueChangePriority (victimOps_respects n)
        victimOps_lawful hcounted.lines _ hl
        (by simpa [LineMgmt.setLine, victimOps] using Nat.one_le_iff_ne_zero.2 hp)
        (by simpa [LineMgmt.setLine, victimOps] using hpos hp))
    · refine hcounted.setLine ?_
      exact h.id hl

end LineMgmt

/-! ### Pages -/

/-- The first `n` pages are the same. -/
def SamePages (n : ℕ) (pg pg' : ℕ → NandPage) : Prop :=
  ∀ i, i < n → (pg' i).status = (pg i).status ∧ (pg' i).nsecs = (pg i).nsecs

/-- The same state is stored for a page on both sides. -/
theorem SamePages.setStatus {n : ℕ} {pg pg' : ℕ → NandPage} (h : SamePages n pg pg') (i : ℕ)
    (st : PgStatus) :
    SamePages n (Function.update pg i { pg i with status := st })
      (Function.update pg' i { pg' i with status := st }) := by
  intro j hj
  by_cases hji : j = i
  · subst hji
    simpa using (h j hj).2
  · simpa [hji] using h j hj

/-- The first `n` pages and the counters of a block are the same; the erase counter is compared as
the word the driver has for it. -/
structure NandBlock.Mirror (n : ℕ) (b b' : NandBlock) : Prop where
  pg : SamePages n b.pg b'.pg
  npgs : b'.npgs = b.npgs
  ipc : b'.ipc = b.ipc
  vpc : b'.vpc = b.vpc
  eraseCnt : u32 b'.eraseCnt = u32 b.eraseCnt

namespace Ssd

/-- **`s'` is `s`** in the blocks of the geometry. -/
structure Mirror (s s' : Ssd) : Prop where
  sp : s'.sp = s.sp
  blk : ∀ a, s.sp.HasBlk a → (s.blk a).Mirror s.sp.pgsPerBlk (s'.blk a)

variable {s s' : Ssd} {p : Ppa}

/-- The block of a page of the geometry. -/
theorem hasBlk_of_validPpa {spp : Ssdparams} (hp : spp.validPpa p) : spp.HasBlk p.blkAddr :=
  ⟨hp.1, hp.2.1, hp.2.2.1, hp.2.2.2.1⟩

theorem Mirror.getBlk (h : s.Mirror s') (hp : s.sp.validPpa p) :
    (s.getBlk p).Mirror s.sp.pgsPerBlk (s'.getBlk p) := h.blk _ (hasBlk_of_validPpa hp)

theorem Mirror.status (h : s.Mirror s') (hp : s.sp.validPpa p) :
    (s'.getPg p).status = (s.getPg p).status := ((h.getBlk hp).pg _ hp.2.2.2.2).1

/-- Blocks that are the same are stored on both sides. -/
theorem Mirror.setBlk (h : s.Mirror s') (p : Ppa) {b b' : NandBlock}
    (hb : b.Mirror s.sp.pgsPerBlk b') : (s.setBlk p b).Mirror (s'.setBlk p b') where
  sp := h.sp
  blk := fun a ha => by
    by_cases hap : a = p.blkAddr
    · subst hap
      simpa [Ssd.setBlk] using hb
    · simpa [Ssd.setBlk, hap] using h.blk a ha

theorem Mirror.setPgStatus (h : s.Mirror s') (hp : s.sp.validPpa p) (st : PgStatus) :
    (s.setPgStatus p st).Mirror (s'.setPgStatus p st) := by
  have hb := h.getBlk hp
  exact h.setBlk p { hb with pg := hb.pg.setStatus p.pg st }

end Ssd

/-! ### Instances -/

namespace ConvFtl

/-- **`f'` is `f`** in the memory the driver owns, its credits and its history; the write pointers
of `f` stand on lines and dies of the geometry. -/
structure Mirror (f f' : ConvFtl) : Prop where
  ssd : f.ssd.Mirror f'.ssd
  cp : f'.cp = f.cp
  maptbl : ∀ l, l < f.ssd.sp.ttPgs → f'.maptbl l = f.maptbl l
  rmap : ∀ i, i < f.ssd.sp.ttPgs → f'.rmap i = f.rmap i
  wp : f'.wp = f.wp
  gcWp : f'.gcWp = f.gcWp
  lm : f.lm.Mirror f.ssd.sp.blksPerPl f'.lm
  wfc : f'.wfc = f.wfc
  pageCounter : ∀ i, i < f.ssd.sp.nchs * f.ssd.sp.lunsPerCh → f'.pageCounter i = f.pageCounter i
  log : f'.log = f.log
  userLine : f.wp.curline < f.ssd.sp.blksPerPl
  gcLine : f.gcWp.curline < f.ssd.sp.blksPerPl
  die : (f.wp.ch, f.wp.lun) ∈ f.ssd.sp.dies

variable {f f' : ConvFtl} {p : Ppa} {lpn : ℕ} {front : ℕ × ℕ → ℕ → ℕ}

/-- **An instance in order and one loaded from its snapshot** with the same credits. -/
theorem Sound.mirror (h : f.Sound [] front) (e : f.SnapshotEq f') (hcp : f'.cp = f.cp)
    (hwfc : f'.wfc = f.wfc) (hlog : f'.log = f.log) : f.Mirror f' where
  ssd := {
    sp := e.sp
    blk := fun a ha => by
      obtain ⟨hnpgs, hipc, hvpc, herase, -⟩ := e.block a ha
      exact {
        pg := fun i hi => ⟨(e.page a ha i hi).1, (e.page a ha i hi).2.1⟩
        npgs := hnpgs
        ipc := hipc
        vpc := hvpc
        eraseCnt := by rw [herase, u32, u32, Nat.mod_mod] } }
  cp := hcp
  maptbl := e.maptbl
  rmap := e.rmap
  wp := e.wp
  gcWp := e.gcWp
  lm := {
    lines := fun l hl => ⟨e.lines l (h.geom.ttLines ▸ hl), h.homed.id l hl⟩
    queue := ⟨e.heap.1, h.homed.size_pos, e.heap.2.1, e.heap.2.2,
      fun i hi hi' => h.homed.queued_lt ⟨i, hi, hi', rfl⟩⟩
    freeLineList := e.freeLineList
    free_lt := fun l hl => h.homed.free_lt hl
    fullLineList := e.fullLineList
    ttLines := e.ttLines
    freeLineCnt := e.freeLineCnt
    victimLineCnt := e.victimLineCnt
    fullLineCnt := e.fullLineCnt }
  wfc := hwfc
  pageCounter := e.pageCounter
  log := hlog
  userLine := h.curline_lt .user
  gcLine := h.curline_lt .gc
  die := (h.ptr .user).die

theorem Mirror.getWp (h : f.Mirror f') (io : IoType) : f'.getWp io = f.getWp io := by
  cases io
  · exact h.wp
  · exact h.gcWp

/-! ### The accessors -/

theorem Mirror.accessPpa (h : f.Mirror f') (p : Ppa) : f'.accessPpa p = f.accessPpa p := by
  unfold ConvFtl.accessPpa
  rw [h.ssd.sp]

theorem Mirror.getNewPage (h : f.Mirror f') (io : IoType) : f'.getNewPage io = f.getNewPage io := by
  unfold ConvFtl.getNewPage
  rw [h.getWp]

theorem Mirror.ppa2pgidx (h : f.Mirror f') (p : Ppa) : f'.ppa2pgidx p = f.ppa2pgidx p := by
  unfold ConvFtl.ppa2pgidx
  rw [h.ssd.sp]

theorem Mirror.lastPgInWordline (h : f.Mirror f') (p : Ppa) :
    f'.lastPgInWordline p ↔ f.lastPgInWordline p := by
  unfold ConvFtl.lastPgInWordline
  rw [h.ssd.sp]

/-- The entry is inside the table. -/
theorem ppa2pgidx_lt {i : ℕ} (h : f.ppa2pgidx p = .ok i) : i < f.ssd.sp.ttPgs := by
  unfold ConvFtl.ppa2pgidx at h
  simp only [bind_eq_ok, nvmevAssert_eq_ok] at h
  obtain ⟨-, hlt, h⟩ := h
  cases h
  exact hlt

theorem Mirror.getMaptblEnt (h : f.Mirror f') (lpn : ℕ) :
    f'.getMaptblEnt lpn = f.getMaptblEnt lpn := by
  unfold ConvFtl.getMaptblEnt
  rw [h.ssd.sp]
  by_cases hl : lpn < f.ssd.sp.ttPgs
  · rw [h.maptbl lpn hl]
  · simp [defined, hl]

theorem Mirror.getRmapEnt (h : f.Mirror f') (p : Ppa) : f'.getRmapEnt p = f.getRmapEnt p := by
  unfold ConvFtl.getRmapEnt
  rw [h.ppa2pgidx]
  cases hi : f.ppa2pgidx p with
  | ok i => rw [ok_bind, ok_bind, h.rmap i (ppa2pgidx_lt hi)]
  | error e => rfl

theorem Mirror.setMaptblEnt (h : f.Mirror f') (lpn : ℕ) (p : Ppa) :
    Agree ConvFtl.Mirror (f.setMaptblEnt lpn p) (f'.setMaptblEnt lpn p) := by
  unfold ConvFtl.setMaptblEnt
  rw [h.ssd.sp]
  refine Agree.same_bind _ fun _ _ => ?_
  refine { h with maptbl := fun l hl => ?_ }
  by_cases hlp : l = lpn
  · subst hlp
    simp
  · simpa [hlp] using h.maptbl l hl

theorem Mirror.setRmapEnt (h : f.Mirror f') (lpn : ℕ) (p : Ppa) :
    Agree ConvFtl.Mirror (f.setRmapEnt lpn p) (f'.setRmapEnt lpn p) := by
  unfold ConvFtl.setRmapEnt
  rw [h.ppa2pgidx]
  refine Agree.same_bind _ fun i hi => ?_
  refine { h with rmap := fun j hj => ?_ }
  by_cases hji : j = i
  · subst hji
    simp
  · simpa [hji] using h.rmap j hj

theorem Mirror.note (h : f.Mirror f') (e : FlashEv) : (f.note e).Mirror (f'.note e) :=
  { h with log := congrArg (e :: ·) h.log }

/-- Pages and lines change together. -/
theorem Mirror.store (h : f.Mirror f') {ssd ssd' : Ssd} {lm lm' : LineMgmt}
    (hssd : ssd.Mirror ssd') (hlm : lm.Mirror f.ssd.sp.blksPerPl lm')
    (hsp : ssd.sp = f.ssd.sp) :
    ConvFtl.Mirror { f with ssd := ssd, lm := lm } { f' with ssd := ssd', lm := lm' } where
  ssd := hssd
  cp := h.cp
  maptbl := fun l hl => h.maptbl l (by rwa [← hsp])
  rmap := fun i hi => h.rmap i (by rwa [← hsp])
  wp := h.wp
  gcWp := h.gcWp
  lm := by
    show lm.Mirror ssd.sp.blksPerPl lm'
    rwa [hsp]
  wfc := h.wfc
  pageCounter := fun i hi => h.pageCounter i (by rwa [← hsp])
  log := h.log
  userLine := by
    show _ < ssd.sp.blksPerPl
    rw [hsp]
    exact h.userLine
  gcLine := by
    show _ < ssd.sp.blksPerPl
    rw [hsp]
    exact h.gcLine
  die := by
    show _ ∈ ssd.sp.dies
    rw [hsp]
    exact h.die

/-! ### Marking pages and blocks -/

/-- Below the check of the address the page is one of the geometry. -/
theorem validPpa_of_accessPpa {u : Unit} (h : f.accessPpa p = .ok u) : f.ssd.sp.validPpa p := by
  unfold ConvFtl.accessPpa at h
  rwa [defined_eq_ok] at h

theorem Mirror.markPageValid (h : f.Mirror f') (p : Ppa) :
    Agree ConvFtl.Mirror (f.markPageValid p) (f'.markPageValid p) := by
  unfold ConvFtl.markPageValid
  dsimp only
  rw [h.accessPpa, h.ssd.sp]
  refine Agree.same_bind _ fun _ hp => ?_
  have hval := validPpa_of_accessPpa hp
  have hset := h.ssd.setPgStatus hval .valid
  have hblk := hset.getBlk (p := p) hval
  rw [h.ssd.status hval, hblk.vpc]
  refine Agree.same_bind _ fun _ _ => Agree.same_bind _ fun _ _ => ?_
  refine (h.lm.validatePage _ hval.2.2.2.1).bind fun lm lm' hlm => ?_
  refine h.store (hset.setBlk p ?_) hlm rfl
  exact { hblk with vpc := rfl }

/-- The line of the page knows its place in the queue. -/
theorem Mirror.markPageInvalid (h : f.Mirror f') {held : List ℕ}
    (hh : f.lm.Homed f.ssd.sp.blksPerPl held) (p : Ppa) :
    Agree ConvFtl.Mirror (f.markPageInvalid p) (f'.markPageInvalid p) := by
  unfold ConvFtl.markPageInvalid
  dsimp only
  rw [h.accessPpa, h.ssd.sp]
  refine Agree.same_bind _ fun _ hp => ?_
  have hval := validPpa_of_accessPpa hp
  have hset := h.ssd.setPgStatus hval .invalid
  have hblk := hset.getBlk (p := p) hval
  rw [h.ssd.status hval, hblk.vpc, hblk.ipc]
  refine Agree.same_bind _ fun _ _ => Agree.same_bind _ fun _ _ => Agree.same_bind _ fun _ _ => ?_
  refine (h.lm.invalidatePage hh _ hval.2.2.2.1).bind fun lm lm' hlm => ?_
  refine h.store (hset.setBlk p ?_) hlm rfl
  exact { hblk with vpc := rfl, ipc := rfl }

/-- All pages of the block become free on both sides. -/
theorem Mirror.markBlockFree (h : f.Mirror f') (p : Ppa) :
    Agree ConvFtl.Mirror (f.markBlockFree p) (f'.markBlockFree p) := by
  unfold ConvFtl.markBlockFree
  dsimp only
  rw [h.accessPpa, h.ssd.sp]
  refine Agree.same_bind _ fun _ hp => ?_
  have hval := validPpa_of_accessPpa hp
  have hblk := h.ssd.getBlk hval
  have hpages := Agree.forRange (fun _ => SamePages f.ssd.sp.pgsPerBlk) hblk.pg
    (n := f.ssd.sp.pgsPerBlk)
    (b := fun i pg => do
      nvmevAssert .markBlockFree ((pg i).nsecs = f.ssd.sp.secsPerPg)
      .ok (Function.update pg i { pg i with status := .free }))
    (c := fun i pg => do
      nvmevAssert .markBlockFree ((pg i).nsecs = f.ssd.sp.secsPerPg)
      .ok (Function.update pg i { pg i with status := .free })) fun i hi pg pg' hpg => by
    rw [(hpg i hi).2]
    exact Agree.same_bind _ fun _ _ => hpg.setStatus i .free
  refine hpages.bind fun pg pg' hpg => ?_
  rw [hblk.npgs]
  refine Agree.same_bind _ fun _ _ => ?_
  have herase : u32 ((f'.ssd.getBlk p).eraseCnt + 1) = u32 ((f.ssd.getBlk p).eraseCnt + 1) := by
    have := hblk.eraseCnt
    unfold u32 at this ⊢
    omega
  have hfreed : NandBlock.Mirror f.ssd.sp.pgsPerBlk
      { f.ssd.getBlk p with
        pg := pg, ipc := 0, vpc := 0, eraseCnt := (f.ssd.getBlk p).eraseCnt + 1 }
      { f'.ssd.getBlk p with
        pg := pg', npgs := (f.ssd.getBlk p).npgs, ipc := 0, vpc := 0
        eraseCnt := (f'.ssd.getBlk p).eraseCnt + 1 } := ⟨hpg, rfl, rfl, rfl, herase⟩
  exact (h.store (h.ssd.setBlk p hfreed) h.lm rfl).note _

end ConvFtl

end NvmeVirt
