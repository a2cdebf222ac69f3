/-
# Marking pages keeps the invariant

`mark_page_invalid` on a valid page keeps `Sound`.  `mark_page_valid` on the page
a write pointer has just handed out leaves the state `Handed`: all is as in
`Sound`, but the pointer still stands on the page it handed out.
-/

import NvmeVirt.ConvFtl.Invariant

namespace NvmeVirt

open Outcome Inverse

/-- `front` with the block of line `l` on die `d` written up to `k`. -/
def setFront (front : ℕ × ℕ → ℕ → ℕ) (d : ℕ × ℕ) (l k : ℕ) : ℕ × ℕ → ℕ → ℕ :=
  fun d' l' => if d' = d ∧ l' = l then k else front d' l'

section

variable {front : ℕ × ℕ → ℕ → ℕ} {d e : ℕ × ℕ} {l m k : ℕ}

@[simp] theorem setFront_same : setFront front d l k d l = k := by simp [setFront]

theorem setFront_line (h : m ≠ l) : setFront front d l k e m = front e m := by
  simp [setFront, h]

theorem setFront_die (h : e ≠ d) : setFront front d l k e m = front e m := by
  simp [setFront, h]

@[simp] theorem setFront_front : setFront front d l (front d l) = front := by
  funext d' l'
  by_cases h : d' = d ∧ l' = l
  · simp [setFront, h]
  · simp [setFront, h]

end

namespace Ssd

variable {ssd : Ssd} {p q : Ppa} {b : NandBlock} {st : PgStatus}

@[simp] theorem setBlk_sp : (ssd.setBlk p b).sp = ssd.sp := rfl

@[simp] theorem setBlk_blk_self : (ssd.setBlk p b).blk p.blkAddr = b := by simp [setBlk]

theorem setBlk_blk_ne {a : BlkAddr} (h : a ≠ p.blkAddr) :
    (ssd.setBlk p b).blk a = ssd.blk a := by simp [setBlk, h]

@[simp] theorem setBlk_getBlk_self : (ssd.setBlk p b).getBlk p = b := setBlk_blk_self

@[simp] theorem setBlk_setBlk {b' : NandBlock} : (ssd.setBlk p b).setBlk p b' = ssd.setBlk p b' := by
  simp [setBlk]

theorem setPgStatus_eq : ssd.setPgStatus p st = ssd.setBlk p ((ssd.getBlk p).setStatus p.pg st) :=
  rfl

/-- The status of a page after a store to its block. -/
theorem getPg_setBlk (hb : ∀ i, (b.pg i).status =
    if i = p.pg then st else ((ssd.getBlk p).pg i).status) (q : Ppa) :
    ((ssd.setBlk p b).getPg q).status =
      if q.blkAddr = p.blkAddr ∧ q.pg = p.pg then st else (ssd.getPg q).status := by
  unfold getPg getBlk
  by_cases h : q.blkAddr = p.blkAddr
  · rw [h, setBlk_blk_self, hb]
    simp [getBlk]
  · rw [setBlk_blk_ne h]
    simp [h]

/-- A field of the blocks that a store to one block keeps. -/
theorem blk_setBlk {α : Type} (g : NandBlock → α) (hb : g b = g (ssd.getBlk p)) (a : BlkAddr) :
    g ((ssd.setBlk p b).blk a) = g (ssd.blk a) := by
  by_cases h : a = p.blkAddr
  · rw [h, setBlk_blk_self, hb]
    rfl
  · rw [setBlk_blk_ne h]

end Ssd

/-- One block changes, its front moves to `k`, and the history says so. -/
theorem NandOk.update {ssd : Ssd} {log log' : List FlashEv} {front : ℕ × ℕ → ℕ → ℕ}
    (h : NandOk ssd log front) {d : ℕ × ℕ} {l k i : ℕ} {b : NandBlock} (hb : BlockOk ssd.sp b k)
    (hlog : handedOut (blockAt d l) log' = List.range k)
    (hrest : ∀ a, a ≠ blockAt d l → handedOut a log' = handedOut a log) :
    NandOk (ssd.setBlk (pageAt d l i) b) log' (setFront front d l k) := by
  intro e he m hm
  by_cases heq : e = d ∧ m = l
  · obtain ⟨rfl, rfl⟩ := heq
    rw [setFront_same]
    refine ⟨?_, hlog⟩
    rw [← pageAt_blkAddr e m i, Ssd.setBlk_blk_self]
    exact hb
  · have hne : blockAt e m ≠ blockAt d l := fun hc => heq (blockAt_inj.1 hc)
    have hf : setFront front d l k e m = front e m := by simp [setFront, heq]
    rw [hf, hrest _ hne, Ssd.setBlk_blk_ne (by rwa [pageAt_blkAddr])]
    exact h e he m hm

/-- The sums over the blocks of a line when one block changes. -/
theorem LineStats.update {ssd : Ssd} {lines lines' : ℕ → Line} {vs : List ℕ}
    (h : LineStats ssd lines vs) {d : ℕ × ℕ} {l i : ℕ} {b : NandBlock} (hd : d ∈ ssd.sp.dies)
    (hvpc : (lines' l).vpc + (ssd.blk (blockAt d l)).vpc = (lines l).vpc + b.vpc)
    (hipc : (lines' l).ipc + (ssd.blk (blockAt d l)).ipc = (lines l).ipc + b.ipc)
    (hne : ∀ k, k ≠ l → (lines' k).vpc = (lines k).vpc ∧ (lines' k).ipc = (lines k).ipc) :
    LineStats (ssd.setBlk (pageAt d l i) b) lines' vs := by
  intro m hm hmv
  obtain ⟨h1, h2⟩ := h m hm hmv
  have hblk : ∀ e, blockAt e m ≠ blockAt d l →
      (ssd.setBlk (pageAt d l i) b).blk (blockAt e m) = ssd.blk (blockAt e m) := fun e he =>
    Ssd.setBlk_blk_ne (by rwa [pageAt_blkAddr])
  by_cases hml : m = l
  · subst hml
    have hself : (ssd.setBlk (pageAt d m i) b).blk (blockAt d m) = b := by
      rw [← pageAt_blkAddr d m i, Ssd.setBlk_blk_self]
    have hoff : ∀ e ∈ ssd.sp.dies, e ≠ d →
        (ssd.setBlk (pageAt d m i) b).blk (blockAt e m) = ssd.blk (blockAt e m) :=
      fun e _ hed => hblk e fun hc => hed (blockAt_inj.1 hc).1
    have hsv := Sums.sum_change (f := fun e => (ssd.blk (blockAt e m)).vpc)
      (g := fun e => ((ssd.setBlk (pageAt d m i) b).blk (blockAt e m)).vpc) hd
      fun e he hed => by rw [hoff e he hed]
    have hsi := Sums.sum_change (f := fun e => (ssd.blk (blockAt e m)).ipc)
      (g := fun e => ((ssd.setBlk (pageAt d m i) b).blk (blockAt e m)).ipc) hd
      fun e he hed => by rw [hoff e he hed]
    simp only [hself] at hsv hsi
    simp only [Ssd.setBlk_sp]
    omega
  · have hsame : ∀ e ∈ ssd.sp.dies,
        (ssd.setBlk (pageAt d l i) b).blk (blockAt e m) = ssd.blk (blockAt e m) :=
      fun e _ => hblk e fun hc => hml (blockAt_inj.1 hc).2
    simp only [Ssd.setBlk_sp]
    rw [(hne m hml).1, (hne m hml).2, h1, h2]
    exact ⟨Finset.sum_congr rfl fun e he => by rw [hsame e he],
      Finset.sum_congr rfl fun e he => by rw [hsame e he]⟩

theorem Ssdparams.Geometry.card_mul {spp : Ssdparams} (g : spp.Geometry) :
    spp.dies.card * spp.pgsPerBlk = spp.pgsPerLine := by
  rw [spp.card_dies, g.pgsPerLine, mul_comm spp.nchs]

namespace ConvFtl

variable {f : ConvFtl} {vs : List ℕ} {front : ℕ × ℕ → ℕ → ℕ} {d : ℕ × ℕ} {l i : ℕ}

/-! ### Lines -/

/-- The counters of a line add up to its written pages. -/
theorem Sound.line_sum (h : f.Sound vs front) (hl : l < f.ssd.sp.blksPerPl) (hv : l ∉ vs) :
    (f.lm.lines l).vpc + (f.lm.lines l).ipc = ∑ d ∈ f.ssd.sp.dies, front d l := by
  obtain ⟨h1, h2⟩ := h.stats l hl hv
  rw [h1, h2, ← Finset.sum_add_distrib]
  exact Finset.sum_congr rfl fun d hd => (h.nand d hd l hl).1.vpc_add_ipc

theorem Sound.front_le (h : f.Sound vs front) (hl : l < f.ssd.sp.blksPerPl)
    (hd : d ∈ f.ssd.sp.dies) : front d l ≤ f.ssd.sp.pgsPerBlk := (h.nand d hd l hl).1.le

theorem Sound.sum_le (h : f.Sound vs front) (hl : l < f.ssd.sp.blksPerPl) :
    ∑ d ∈ f.ssd.sp.dies, front d l ≤ f.ssd.sp.pgsPerLine := by
  rw [← h.geom.card_mul]
  exact Finset.sum_le_card_nsmul _ _ _ fun d hd => h.front_le hl hd

/-- A line with a page left is not full. -/
theorem Sound.sum_lt (h : f.Sound vs front) (hl : l < f.ssd.sp.blksPerPl)
    (hd : d ∈ f.ssd.sp.dies) (hlt : front d l < f.ssd.sp.pgsPerBlk) :
    ∑ d ∈ f.ssd.sp.dies, front d l < f.ssd.sp.pgsPerLine := by
  rw [← h.geom.card_mul, ← smul_eq_mul, ← Finset.sum_const]
  exact Finset.sum_lt_sum (fun e he => h.front_le hl he) ⟨d, hd, hlt⟩

theorem Sound.closed_sum (h : f.Sound vs front) (hc : f.lm.Closed l) :
    ∑ d ∈ f.ssd.sp.dies, front d l = f.ssd.sp.pgsPerLine := by
  rw [Finset.sum_congr rfl (h.closed l hc), Finset.sum_const, smul_eq_mul, h.geom.card_mul]

theorem Sound.curline_lt (h : f.Sound vs front) (io : IoType) :
    (f.getWp io).curline < f.ssd.sp.blksPerPl := by
  cases io
  · exact h.homed.held_lt (by simp [getWp])
  · exact h.homed.held_lt (by simp [getWp])

/-- The line of a write pointer is not queued. -/
theorem Sound.curline_not_queued (h : f.Sound vs front) (io : IoType) :
    ¬ f.lm.victimLinePq.Mem (f.getWp io).curline := by
  refine h.homed.not_queued (.inl ?_)
  cases io <;> simp [getWp]

/-- The line of a write pointer has a page left. -/
theorem Sound.open_sum (h : f.Sound vs front) (io : IoType) (hppb : 0 < f.ssd.sp.pgsPerBlk) :
    ∑ d ∈ f.ssd.sp.dies, front d (f.getWp io).curline < f.ssd.sp.pgsPerLine := by
  have hw := h.ptr io
  refine h.sum_lt (h.curline_lt io) hw.die ?_
  rw [hw.front _ hw.die, ← hw.pg]
  exact hw.room hppb

/-- A line is full exactly when all its pages are valid. -/
theorem Sound.full_iff (h : f.Sound vs front) (hl : l < f.ssd.sp.blksPerPl) (hv : l ∉ vs)
    (hppb : 0 < f.ssd.sp.pgsPerBlk) (hpos : 0 < (f.lm.lines l).vpc) :
    (f.lm.lines l).vpc = f.ssd.sp.pgsPerLine ↔ l ∈ f.lm.fullLineList := by
  have hsum := h.line_sum hl hv
  have hle := h.sum_le hl
  constructor
  · intro hvp
    have hmem := h.homed.mem_homes hl
    simp only [LineMgmt.homes, List.mem_append, List.mem_cons, Pqueue.mem_elems, hv,
      or_false] at hmem
    rcases hmem with ((hm | hm) | hm) | hm
    · have hopen : ∑ d ∈ f.ssd.sp.dies, front d l < f.ssd.sp.pgsPerLine := by
        rcases hm with rfl | rfl
        · exact h.open_sum .user hppb
        · exact h.open_sum .gc hppb
      omega
    · rw [Finset.sum_eq_zero (h.free l hm)] at hsum
      omega
    · exact hm
    · have := h.homed.queued l hm
      omega
  · intro hf
    have h1 := h.homed.full l hf
    have h2 := h.closed_sum (.inl hf)
    omega

/-! ### `mark_page_invalid` -/

/-- What a change of the status of one page leaves alone. -/
structure Marked (f f' : ConvFtl) (p : Ppa) (st : PgStatus) : Prop where
  sp : f'.ssd.sp = f.ssd.sp
  cp : f'.cp = f.cp
  maptbl : f'.maptbl = f.maptbl
  rmap : f'.rmap = f.rmap
  wp : f'.wp = f.wp
  gcWp : f'.gcWp = f.gcWp
  wfc : f'.wfc = f.wfc
  pageCounter : f'.pageCounter = f.pageCounter
  log : f'.log = f.log
  freeLineList : f'.lm.freeLineList = f.lm.freeLineList
  closed : ∀ k, f'.lm.Closed k ↔ f.lm.Closed k
  status : ∀ q, (f'.ssd.getPg q).status =
    if q.blkAddr = p.blkAddr ∧ q.pg = p.pg then st else (f.ssd.getPg q).status
  eraseCnt : ∀ a, (f'.ssd.blk a).eraseCnt = (f.ssd.blk a).eraseCnt

/-- **`mark_page_invalid` on a valid page** keeps the invariant, and none of its assertions
fails. -/
theorem Sound.markPageInvalid (h : f.Sound vs front) (hd : d ∈ f.ssd.sp.dies)
    (hl : l < f.ssd.sp.blksPerPl) (hv : l ∉ vs) (hi : i < f.ssd.sp.pgsPerBlk)
    (hs : (f.ssd.getPg (pageAt d l i)).status = .valid) :
    ∃ f', f.markPageInvalid (pageAt d l i) = .ok f' ∧ f'.Sound vs front ∧
      Marked f f' (pageAt d l i) .invalid := by
  obtain ⟨hb, hlog⟩ := h.nand d hd l hl
  set b := f.ssd.blk (blockAt d l) with hbdef
  have hst : (b.pg i).status = .valid := hs
  have hbsum := hb.vpc_add_ipc
  have hbpos := hb.vpc_pos hi hst
  have hble := hb.le
  have hsum := h.line_sum hl hv
  have hle := h.sum_le hl
  have hvpos : 0 < (f.lm.lines l).vpc := by
    rw [(h.stats l hl hv).1]
    exact lt_of_lt_of_le hbpos
      (Finset.single_le_sum (f := fun d => (f.ssd.blk (blockAt d l)).vpc)
        (fun _ _ => Nat.zero_le _) hd)
  obtain ⟨lm', hlm, hhomed, hfree, hclosed, hstat⟩ := h.homed.invalidatePage f.ssd.sp hl
    hvpos (by omega) (h.full_iff hl hv (by omega) hvpos)
  set b' : NandBlock := { b.setStatus i .invalid with ipc := b.ipc + 1, vpc := b.vpc - 1 } with hb'
  refine ⟨{ f with ssd := f.ssd.setBlk (pageAt d l i) b', lm := lm' }, ?_, ?_, ?_⟩
  · have hacc := Ssdparams.validPpa_pageAt h.geom.layout hd hl hi
    have h1 : b.ipc < f.ssd.sp.pgsPerBlk := by omega
    have h2 : 0 < b.vpc ∧ b.vpc ≤ f.ssd.sp.pgsPerBlk := by omega
    unfold ConvFtl.markPageInvalid
    refine (defined_bind hacc _).trans ((nvmevAssert_bind hs _).trans ?_)
    simp only [Ssd.setPgStatus_eq, Ssd.setBlk_getBlk_self, Ssd.setBlk_setBlk, pageAt_pg, pageAt_blk]
    refine (nvmevAssert_bind h1 _).trans ((nvmevAssert_bind h2 _).trans ?_)
    rw [hlm]
    rfl
  · have hline : ∀ k, (lm'.lines k).stat = if k = l then ((f.lm.lines l).id,
        (f.lm.lines l).ipc + 1, (f.lm.lines l).vpc - 1) else (f.lm.lines k).stat := hstat
    have hself := hline l
    rw [if_pos rfl] at hself
    simp only [Line.stat, Prod.mk.injEq] at hself
    refine {
      geom := h.geom, homed := hhomed, nand := ?_, stats := ?_, ptr := fun io => ?_
      free := fun k hk => h.free k (by rwa [← hfree])
      closed := fun k hk => h.closed k ((hclosed k).1 hk), history := h.history
      run := fun io => ?_ }
    · have := h.nand.update (i := i) (hb.invalidate hi hst) hlog fun _ _ => rfl
      rwa [setFront_front] at this
    · refine h.stats.update hd ?_ ?_ fun k hk => ?_
      · rw [hself.2.2]
        show (f.lm.lines l).vpc - 1 + b.vpc = (f.lm.lines l).vpc + (b.vpc - 1)
        omega
      · rw [hself.2.1]
        show (f.lm.lines l).ipc + 1 + b.ipc = (f.lm.lines l).ipc + (b.ipc + 1)
        omega
      · have := hline k
        rw [if_neg hk] at this
        exact ⟨(stat_eq this).2.2, (stat_eq this).2.1⟩
    · cases io
      · exact h.ptr .user
      · exact h.ptr .gc
    · cases io
      · exact h.run .user
      · exact h.run .gc
  · refine ⟨rfl, rfl, rfl, rfl, rfl, rfl, rfl, rfl, rfl, hfree, hclosed, ?_,
      Ssd.blk_setBlk NandBlock.eraseCnt rfl⟩
    refine Ssd.getPg_setBlk fun j => ?_
    by_cases hj : j = i
    · simp [hj, hb', NandBlock.setStatus]
    · simp [hj, hb', NandBlock.setStatus, Ssd.getBlk, hbdef]

/-! ### `get_new_page` and `mark_page_valid` -/

/-- The fronts once the page under a write pointer is handed out. -/
def nextFront (f : ConvFtl) (io : IoType) (front : ℕ × ℕ → ℕ → ℕ) : ℕ × ℕ → ℕ → ℕ :=
  setFront front ((f.getWp io).ch, (f.getWp io).lun) (f.getWp io).curline ((f.getWp io).pg + 1)

/-- **A page is handed out** and marked valid, and the write pointer `io` still stands on it. -/
structure Handed (f : ConvFtl) (vs : List ℕ) (front : ℕ × ℕ → ℕ → ℕ) (io : IoType) : Prop where
  geom : f.ssd.sp.Geometry
  homed : f.lm.Homed f.ssd.sp.blksPerPl (f.wp.curline :: f.gcWp.curline :: vs)
  nand : NandOk f.ssd f.log (f.nextFront io front)
  stats : LineStats f.ssd f.lm.lines vs
  ptr : ∀ io, WpOk f.ssd.sp (f.getWp io) (f.written io) front
  free : ∀ l ∈ f.lm.freeLineList, ∀ d ∈ f.ssd.sp.dies, front d l = 0
  closed : ∀ l, f.lm.Closed l → ∀ d ∈ f.ssd.sp.dies, front d l = f.ssd.sp.pgsPerBlk
  history : HistoryOk f.ssd.sp f.log
  room : (f.getWp io).pg < f.ssd.sp.pgsPerBlk
  run : ∃ rest, handOuts io f.log = (f.getWp io).page :: rest ∧
    ((f.getWp io).page :: rest).IsChain (Follows f.ssd.sp)
  other : ∀ io', io' ≠ io →
    ((f.getWp io').page :: handOuts io' f.log).IsChain (Follows f.ssd.sp)

/-- The page under a write pointer is the next free page of its block. -/
theorem Sound.front_page (h : f.Sound vs front) (io : IoType) :
    front ((f.getWp io).ch, (f.getWp io).lun) (f.getWp io).curline = (f.getWp io).pg := by
  have hw := h.ptr io
  rw [hw.front _ hw.die, ← hw.pg]

/-- **`get_new_page` hands out the page under the write pointer.** -/
theorem Sound.getNewPage (h : f.Sound vs front) (io : IoType) (hppb : 0 < f.ssd.sp.pgsPerBlk) :
    f.getNewPage io = .ok (f.getWp io).page := by
  have hw := h.ptr io
  have hp : Ppa.ofFields (f.getWp io).ch (f.getWp io).lun (f.getWp io).pl (f.getWp io).blk
      (f.getWp io).pg = (f.getWp io).page := by
    rw [hw.pl, hw.blk]
    exact Ssdparams.ofFields_eq h.geom.fits hw.die (h.curline_lt io) (hw.room hppb)
  unfold ConvFtl.getNewPage
  simp only [hp]
  exact nvmevAssert_bind rfl _

/-- **`mark_page_valid` on the page just handed out**: none of its assertions fails. -/
theorem Sound.handOut (h : f.Sound vs front) (io : IoType) (lpn : ℕ)
    (hcur : (f.getWp io).curline ∉ vs) (hppb : 0 < f.ssd.sp.pgsPerBlk) :
    ∃ f', (f.note (.handOut io lpn (f.getWp io).page)).markPageValid (f.getWp io).page = .ok f' ∧
      f'.Handed vs front io ∧
      Marked (f.note (.handOut io lpn (f.getWp io).page)) f' (f.getWp io).page .valid := by
  have hw := h.ptr io
  have hpg := hw.room hppb
  have hl := h.curline_lt io
  have hfp := h.front_page io
  have hd := hw.die
  have hsum := h.line_sum hl hcur
  have hlt := h.open_sum io hppb
  set d : ℕ × ℕ := ((f.getWp io).ch, (f.getWp io).lun) with hddef
  set l := (f.getWp io).curline with hldef
  set k := (f.getWp io).pg with hkdef
  have hpage : (f.getWp io).page = pageAt d l k := rfl
  obtain ⟨hb, hlog⟩ := h.nand d hd l hl
  rw [hfp] at hb hlog
  rw [hpage]
  set b := f.ssd.blk (blockAt d l) with hbdef
  have hst : (b.pg k).status = .free := (hb.free k hpg).2 le_rfl
  have hbsum := hb.vpc_add_ipc
  obtain ⟨lm', hlm, hhomed, hfree, hclosed, hstat⟩ := h.homed.validatePage f.ssd.sp
    (h.curline_not_queued io) (l := l) (by omega)
  set b' : NandBlock := { b.setStatus k .valid with vpc := b.vpc + 1 } with hb'
  have hself := hstat l
  rw [if_pos rfl] at hself
  simp only [Line.stat, Prod.mk.injEq] at hself
  refine ⟨{ f.note (.handOut io lpn (pageAt d l k)) with
    ssd := f.ssd.setBlk (pageAt d l k) b', lm := lm' }, ?_, ?_, ?_⟩
  · have hacc := Ssdparams.validPpa_pageAt h.geom.layout hd hl hpg
    have h1 : b.vpc < f.ssd.sp.pgsPerBlk := by omega
    unfold ConvFtl.markPageValid
    refine (defined_bind hacc _).trans ((nvmevAssert_bind hst _).trans ?_)
    simp only [Ssd.setPgStatus_eq, Ssd.setBlk_getBlk_self, Ssd.setBlk_setBlk, pageAt_pg, pageAt_blk]
    refine (nvmevAssert_bind h1 _).trans ?_
    have hlm' : (f.note (.handOut io lpn (pageAt d l k))).lm.validatePage
        (f.note (.handOut io lpn (pageAt d l k))).ssd.sp l = .ok lm' := hlm
    rw [hlm']
    rfl
  · refine {
      geom := h.geom, homed := hhomed, nand := ?_, stats := ?_, ptr := fun io' => ?_
      free := fun m hm => h.free m (by rwa [← hfree])
      closed := fun m hm => h.closed m ((hclosed m).1 hm)
      history := ?_, room := ?_, run := ?_, other := ?_ }
    · have hnext : ConvFtl.nextFront { f.note (.handOut io lpn (pageAt d l k)) with
          ssd := f.ssd.setBlk (pageAt d l k) b', lm := lm' } io front
          = setFront front d l (k + 1) := by
        cases io <;> rfl
      rw [hnext]
      refine h.nand.update (hb.validate hpg) ?_ fun a ha => ?_
      · simp [ConvFtl.note, handedOut, hlog, List.range_succ]
      · simp only [ConvFtl.note, handedOut]
        rw [if_neg (by rw [pageAt_blkAddr]; exact ha.symm)]
    · refine h.stats.update hd ?_ ?_ fun m hm => ?_
      · rw [hself.2.2]
        show (f.lm.lines l).vpc + 1 + b.vpc = (f.lm.lines l).vpc + (b.vpc + 1)
        omega
      · rw [hself.2.1]
        rfl
      · have := hstat m
        rw [if_neg hm] at this
        exact ⟨(stat_eq this).2.2, (stat_eq this).2.1⟩
    · cases io'
      · exact h.ptr .user
      · exact h.ptr .gc
    · exact ⟨by rw [pageAt_blkAddr, pageAt_pg]; exact hlog, hpg, h.history⟩
    · cases io <;> exact hpg
    · have hrun := h.run io
      refine ⟨handOuts io f.log, ?_, ?_⟩
      · cases io <;> simp [ConvFtl.note, handOuts, ConvFtl.getWp] <;> rfl
      · cases io <;> exact hrun
    · intro io' hne
      have hrun := h.run io'
      have hlog' : handOuts io' (f.note (.handOut io lpn (pageAt d l k))).log
          = handOuts io' f.log := by
        simp [ConvFtl.note, handOuts, hne.symm]
      simp only [hlog']
      cases io' <;> exact hrun
  · refine ⟨rfl, rfl, rfl, rfl, rfl, rfl, rfl, rfl, rfl, hfree, hclosed, ?_,
      Ssd.blk_setBlk NandBlock.eraseCnt rfl⟩
    refine Ssd.getPg_setBlk fun j => ?_
    by_cases hj : j = k
    · simp [hj, hb', NandBlock.setStatus]
    · simp [hj, hb', NandBlock.setStatus, Ssd.getBlk, hbdef]

end ConvFtl

end NvmeVirt
