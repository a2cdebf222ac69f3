/-
# Loading what was saved

`load_device` takes off the file, section by section, what `save_device` has put
on it.  `Fits` says that the numbers of an instance fit the fields they are saved
in and that its counts match its lists; an instance that fits is read back with
the same tables, lines, queue and lists, whatever the device held before.
-/

import NvmeVirt.ConvFtl.Snapshot

namespace NvmeVirt

open LittleEndian Loader

variable {calls : FileCalls} {fresh : ℕ → UInt8} {posRoom : ℕ} {m : Mem}

/-! ### Pages and blocks -/

theorem PgStatus.ofCode_code (st : PgStatus) : PgStatus.ofCode (st.code % 256 ^ 4) = some st := by
  cases st <;> rfl

@[simp] theorem length_freshBytes (fresh : ℕ → UInt8) (n : ℕ) :
    (freshBytes fresh n).length = n := by
  simp [freshBytes]

/-- A page as it is read back: the sector statuses are cut to their width. -/
def NandPage.saved (pg : NandPage) : NandPage :=
  { pg with sec := (List.range pg.nsecs).map fun i => pg.sec.getD i 0 % 256 ^ 4 }

/-- **A page is read back.** -/
theorem reads_page (h : calls.Transfers) {pg : NandPage} (hn : pg.nsecs < 2 ^ 31)
    (old : NandPage) (m : Mem) :
    Reads (ssdReadPg calls fresh old) (ssdWritePg pg).flatten m m pg.saved := by
  have hmod : pg.nsecs % 256 ^ 4 = pg.nsecs := Nat.mod_eq_of_lt (by omega)
  unfold ssdReadPg ssdWritePg
  simp only [List.flatten_cons, List.flatten_nil, List.append_nil]
  refine Reads.bind (Reads.number h 4 _ _ m) ?_
  rw [hmod]
  refine Reads.bind (Reads.number h 4 _ _ m) ?_
  refine Reads.check (Reads.found (PgStatus.ofCode_code _) m) ?_
  refine Reads.check (Reads.within hn m) ?_
  refine (Reads.readInto h (by simp) m).map.congr rfl ?_
  refine congrArg (fun sec => { pg with sec := sec }) (List.map_congr_left fun i hi => ?_)
  exact (wordAt_words (k := 4) (fun i => pg.sec.getD i 0) (List.mem_range.1 hi)).symm

/-- The numbers of a block fit their fields, and it has all its pages. -/
structure NandBlock.Fits (room : ℕ) (b : NandBlock) : Prop where
  npgs : b.npgs = room
  small : room < 2 ^ 32
  ipc : b.ipc < 2 ^ 32
  vpc : b.vpc < 2 ^ 32
  nsecs : ∀ i, i < room → (b.pg i).nsecs < 2 ^ 31

/-- A block as it is read back over the block `old`. -/
def NandBlock.saved (b old : NandBlock) : NandBlock where
  pg i := if i < b.npgs then (b.pg i).saved else old.pg i
  npgs := b.npgs
  ipc := b.ipc
  vpc := b.vpc
  eraseCnt := b.eraseCnt % 256 ^ 4
  wp := b.wp % 256 ^ 4

/-- **A block is read back.** -/
theorem reads_blk (h : calls.Transfers) {room : ℕ} {b : NandBlock} (hb : b.Fits room)
    (old : NandBlock) (m : Mem) :
    Reads (ssdReadBlk calls fresh room old) (ssdWriteBlk b).flatten m m (b.saved old) := by
  have hroom := hb.small
  have hn : b.npgs % 256 ^ 4 = b.npgs := Nat.mod_eq_of_lt (by rw [hb.npgs]; omega)
  have hi : b.ipc % 256 ^ 4 = b.ipc := Nat.mod_eq_of_lt (by have := hb.ipc; omega)
  have hv : b.vpc % 256 ^ 4 = b.vpc := Nat.mod_eq_of_lt (by have := hb.vpc; omega)
  unfold ssdReadBlk ssdWriteBlk
  simp only [List.cons_append, List.nil_append, List.flatten_cons, flatten_flatMap]
  refine Reads.bind (Reads.number h 4 _ _ m) ?_
  refine Reads.bind (Reads.number h 4 _ _ m) ?_
  refine Reads.bind (Reads.number h 4 _ _ m) ?_
  refine Reads.bind (Reads.number h 4 _ _ m) ?_
  refine Reads.bind (Reads.number h 4 _ _ m) ?_
  rw [hn, hi, hv]
  refine Reads.check (Reads.within (by rw [hb.npgs]) m) ?_
  have hpg : Reads (array b.npgs (fun i pg => ssdReadPg calls fresh (pg i)) old.pg) _ m m
      (b.saved old).pg :=
    Reads.fields fun i hi => reads_page h (hb.nsecs i (by rw [← hb.npgs]; exact hi)) _ m
  exact hpg.map

/-- The block is in the geometry. -/
def Ssdparams.HasBlk (spp : Ssdparams) (a : BlkAddr) : Prop :=
  a.ch < spp.nchs ∧ a.lun < spp.lunsPerCh ∧ a.pl < spp.plsPerLun ∧ a.blk < spp.blksPerPl

instance (spp : Ssdparams) (a : BlkAddr) : Decidable (spp.HasBlk a) :=
  inferInstanceAs (Decidable (_ ∧ _))

/-- The blocks as they are read back over those of `old`. -/
def Ssd.saved (ssd old : Ssd) : Ssd :=
  { old with blk := fun a => if old.sp.HasBlk a then (ssd.blk a).saved (old.blk a) else old.blk a }

/-- The entries below `n` made anew by `r`. -/
def remade {α : Type} (n : ℕ) (r : ℕ → α → α) (old : ℕ → α) (i : ℕ) : α :=
  if i < n then r i (old i) else old i

/-- A plane is read back. -/
theorem reads_pl (h : calls.Transfers) {spp : Ssdparams} {pl : ℕ → NandBlock}
    (hb : ∀ i, i < spp.blksPerPl → (pl i).Fits spp.pgsPerBlk) (old : ℕ → NandBlock) (m : Mem) :
    Reads (ssdReadPl calls fresh spp old) (ssdWritePl spp pl).flatten m m
      (remade spp.blksPerPl (fun i => (pl i).saved) old) := by
  unfold ssdWritePl
  rw [flatten_flatMap]
  exact Reads.each (fun i hi a => reads_blk h (hb i hi) a m) old

/-- A die is read back. -/
theorem reads_lun (h : calls.Transfers) {spp : Ssdparams} {lun : ℕ → ℕ → NandBlock}
    (hb : ∀ j, j < spp.plsPerLun → ∀ i, i < spp.blksPerPl → (lun j i).Fits spp.pgsPerBlk)
    (old : ℕ → ℕ → NandBlock) (m : Mem) :
    Reads (ssdReadLun calls fresh spp old) (ssdWriteLun spp lun).flatten m m
      (remade spp.plsPerLun (fun j => remade spp.blksPerPl fun i => (lun j i).saved) old) := by
  unfold ssdWriteLun
  rw [flatten_flatMap]
  exact Reads.each (fun j hj a => reads_pl h (hb j hj) a m) old

/-- A channel is read back. -/
theorem reads_ch (h : calls.Transfers) {spp : Ssdparams} {ch : ℕ → ℕ → ℕ → NandBlock}
    (hb : ∀ k, k < spp.lunsPerCh → ∀ j, j < spp.plsPerLun → ∀ i, i < spp.blksPerPl →
      (ch k j i).Fits spp.pgsPerBlk) (old : ℕ → ℕ → ℕ → NandBlock) (m : Mem) :
    Reads (ssdReadCh calls fresh spp old) (ssdWriteCh spp ch).flatten m m
      (remade spp.lunsPerCh (fun k => remade spp.plsPerLun fun j =>
        remade spp.blksPerPl fun i => (ch k j i).saved) old) := by
  unfold ssdWriteCh
  rw [flatten_flatMap]
  exact Reads.each (fun k hk a => reads_lun h (hb k hk) a m) old

/-- **All blocks are read back.** -/
theorem reads_chs (h : calls.Transfers) {ssd old : Ssd} (hsp : old.sp = ssd.sp)
    (hb : ∀ a, ssd.sp.HasBlk a → (ssd.blk a).Fits ssd.sp.pgsPerBlk) (m : Mem) :
    Reads (ssdReadChs calls fresh old) (ssdWriteChs ssd).flatten m m (ssd.saved old) := by
  unfold ssdReadChs ssdWriteChs
  rw [flatten_flatMap, hsp]
  have hch : Reads (array ssd.sp.nchs (fun i ch => ssdReadCh calls fresh ssd.sp (ch i)) old.ch)
      ((List.range ssd.sp.nchs).flatMap fun i => (ssdWriteCh ssd.sp (ssd.ch i)).flatten) m m _ :=
    Reads.each (fun c hc a => reads_ch h (fun k hk j hj i hi => hb ⟨c, k, j, i⟩ ⟨hc, hk, hj, hi⟩) a
      m) old.ch
  refine hch.map.congr rfl ?_
  unfold Ssd.saved Ssdparams.HasBlk
  rw [hsp]
  refine congrArg (Ssd.mk ssd.sp) (funext fun a => ?_)
  by_cases h1 : a.ch < ssd.sp.nchs
  · by_cases h2 : a.lun < ssd.sp.lunsPerCh
    · by_cases h3 : a.pl < ssd.sp.plsPerLun
      · by_cases h4 : a.blk < ssd.sp.blksPerPl
        · simp [remade, Ssd.ch, h1, h2, h3, h4]
        · simp [remade, Ssd.ch, h1, h2, h3, h4]
      · simp [remade, Ssd.ch, h1, h2, h3]
    · simp [remade, Ssd.ch, h1, h2]
  · simp [Ssd.ch, h1]

/-! ### Lines, the victim queue and the lists -/

/-- The numbers of a line fit their fields. -/
structure Line.Fits (line : Line) : Prop where
  id : line.id < 2 ^ 31
  ipc : line.ipc < 2 ^ 32
  vpc : line.vpc < 2 ^ 32
  pos : line.pos < 2 ^ 31

/-- **A line is read back,** whatever the local variables hold. -/
theorem reads_line (h : calls.Transfers) (hroom : 8 ≤ posRoom) {line : Line} (hf : line.Fits)
    (locals : Line) (m : Mem) :
    Reads (loadLine calls posRoom locals) (lineSections line).flatten m m line := by
  have h1 : line.id % 256 ^ 4 = line.id := Nat.mod_eq_of_lt (by have := hf.id; omega)
  have h2 : line.ipc % 256 ^ 4 = line.ipc := Nat.mod_eq_of_lt (by have := hf.ipc; omega)
  have h3 : line.vpc % 256 ^ 4 = line.vpc := Nat.mod_eq_of_lt (by have := hf.vpc; omega)
  have h4 : line.pos % 256 ^ 8 = line.pos := Nat.mod_eq_of_lt (by have := hf.pos; omega)
  have h5 : (asInt line.pos % 2 ^ 64).toNat = line.pos := by
    rw [asInt_of_lt hf.pos]
    have := hf.pos
    omega
  unfold loadLine lineSections
  simp only [List.flatten_cons, List.flatten_nil, List.append_nil]
  refine Reads.bind (Reads.number h 4 _ _ m) ?_
  refine Reads.bind (Reads.number h 4 _ _ m) ?_
  refine Reads.bind (Reads.number h 4 _ _ m) ?_
  rw [h1, h2, h3]
  refine (Reads.numberOnStack h hroom _ _ m).map.congr rfl ?_
  rw [h4, h5]

/-- Where something lives behind `pos`, a line is not read. -/
theorem stops_line (h : calls.Transfers) (hroom : posRoom < 8) (line locals : Line) (m : Mem) :
    StopsOn (loadLine calls posRoom locals) (lineSections line).flatten m .undefined := by
  unfold loadLine lineSections
  simp only [List.flatten_cons, List.flatten_nil, List.append_nil]
  refine Reads.stops (Reads.number h 4 _ _ m) ?_
  refine Reads.stops (Reads.number h 4 _ _ m) ?_
  refine Reads.stops (Reads.number h 4 _ _ m) ?_
  exact (StopsOn.numberOnStack h hroom _ _ m).bind

/-- A line is found by its id. -/
theorem lineOf_eq {lines : ℕ → Line} {n l : ℕ} (hid : ∀ l, l < n → (lines l).id = l) (hl : l < n) :
    lineOf lines n l = some l := by
  unfold lineOf
  induction n with
  | zero => omega
  | succ n ih =>
    rw [List.range_succ, List.find?_append]
    rcases Nat.lt_or_ge l n with hlt | hge
    · rw [ih (fun k hk => hid k (by omega)) hlt]
      rfl
    · obtain rfl : l = n := by omega
      have hnone : (List.range l).find? (fun w => (lines w).id = l) = none := by
        refine List.find?_eq_none.2 fun k hk => ?_
        have hk := List.mem_range.1 hk
        rw [hid k (by omega), decide_eq_true_eq]
        omega
      rw [hnone, Option.none_or, List.find?_cons_of_pos]
      rw [hid l hl, decide_eq_true_eq]

/-- The ids of a list of lines, word by word. -/
theorem flatten_ids {lines : ℕ → Line} {n : ℕ} {ls : List ℕ} (hid : ∀ l, l < n → (lines l).id = l)
    (hls : ∀ l ∈ ls, l < n) :
    (ls.map fun l => leBytes 4 (lines l).id).flatten = words 4 ls.length fun i => ls.getD i 0 := by
  unfold words
  rw [List.flatMap_def]
  congr 1
  refine List.ext_getElem (by simp) fun i h1 h2 => ?_
  rw [List.length_map] at h1
  simp only [List.getElem_map, List.getElem_range, List.getD_eq_getElem _ _ h1]
  rw [hid _ (hls _ (List.getElem_mem h1))]

/-- **The list is found again** from its ids. -/
theorem linesOf_words {lines : ℕ → Line} {n : ℕ} {ls : List ℕ}
    (hid : ∀ l, l < n → (lines l).id = l) (hls : ∀ l ∈ ls, l < n) (hn : n ≤ 2 ^ 31) :
    linesOf lines n ls.length (words 4 ls.length fun i => ls.getD i 0) = ls := by
  unfold linesOf
  have hmap : (List.range ls.length).filterMap (fun i =>
      lineOf lines n (wordAt 4 (words 4 ls.length fun i => ls.getD i 0) i)) =
      (List.range ls.length).filterMap fun i => some (ls.getD i 0) := by
    refine List.filterMap_congr fun i hi => ?_
    have hi := List.mem_range.1 hi
    have hlt : ls.getD i 0 < n := by
      rw [List.getD_eq_getElem _ _ hi]
      exact hls _ (List.getElem_mem hi)
    rw [wordAt_words _ hi, Nat.mod_eq_of_lt (by omega), lineOf_eq hid hlt]
  rw [hmap, List.filterMap_eq_map']
  refine List.ext_getElem (by simp) fun i h1 h2 => ?_
  rw [List.getElem_map, List.getElem_range, List.getD_eq_getElem _ _ h2]

/-- **The heap is found again** from the ids of its lines. -/
theorem loadVictims_words {lines : ℕ → Line} {n k : ℕ} {v : ℕ → ℕ}
    (hid : ∀ l, l < n → (lines l).id = l) (hv : ∀ i, i < k → v i < n) (hn : n ≤ 2 ^ 31)
    (pq : Pqueue ℕ) :
    loadVictims lines n k (words 4 k v) pq =
      { pq with d := fun i => if 1 ≤ i ∧ i ≤ k then v (i - 1) else pq.d i } := by
  have hloop : ∀ j, j ≤ k → loadVictims lines n j (words 4 k v) pq =
      { pq with d := fun i => if 1 ≤ i ∧ i ≤ j then v (i - 1) else pq.d i } := by
    intro j
    induction j with
    | zero =>
      intro _
      show Pqueue.mk pq.size pq.avail pq.step pq.d = _
      refine congrArg (Pqueue.mk pq.size pq.avail pq.step) (funext fun i => ?_)
      rw [if_neg (by omega)]
    | succ j ih =>
      intro hj
      unfold loadVictims at ih ⊢
      rw [List.range_succ, List.foldl_append, ih (by omega), List.foldl_cons, List.foldl_nil,
        wordAt_words _ (by omega), Nat.mod_eq_of_lt (by have := hv j (by omega); omega),
        lineOf_eq hid (hv j (by omega))]
      refine congrArg (Pqueue.mk pq.size pq.avail pq.step) (funext fun i => ?_)
      by_cases hi : i = j + 1
      · subst hi
        rw [Function.update_self, if_pos (by omega), Nat.add_sub_cancel]
      · rw [Function.update_of_ne hi]
        refine if_congr (by omega) rfl rfl
  exact hloop k le_rfl

/-- The numbers of the lines fit their fields, and the counts are those of the lists. -/
structure LineMgmt.Fits (room : ℕ) (lm : LineMgmt) : Prop where
  ttLines : lm.ttLines = room
  small : room < 2 ^ 31
  line : ∀ l, l < room → (lm.lines l).Fits ∧ (lm.lines l).id = l
  size : lm.victimLinePq.size < 2 ^ 64
  avail : lm.victimLinePq.avail < 2 ^ 64
  victimCnt : lm.victimLineCnt ≤ room
  victim : ∀ i, i < lm.victimLineCnt → lm.victimLinePq.d (i + 1) < room
  freeCnt : lm.freeLineCnt = lm.freeLineList.length ∧ lm.freeLineCnt ≤ room
  free : ∀ l ∈ lm.freeLineList, l < room
  fullCnt : lm.fullLineCnt = lm.fullLineList.length ∧ lm.fullLineCnt ≤ room
  full : ∀ l ∈ lm.fullLineList, l < room

/-- The lines, the queue and the lists as they are read back over those of `old`. -/
def LineMgmt.saved (lm old : LineMgmt) : LineMgmt :=
  { lm with
    lines := fun l => if l < lm.ttLines then lm.lines l else old.lines l
    victimLinePq := {
      size := lm.victimLinePq.size
      avail := lm.victimLinePq.avail
      step := lm.victimLinePq.step % 256 ^ 8
      d := fun i => if 1 ≤ i ∧ i ≤ lm.victimLineCnt then lm.victimLinePq.d i else default } }

/-- **The lines, the queue and the lists are read back.** -/
theorem reads_lines (h : calls.Transfers) (hroom : 8 ≤ posRoom) {room : ℕ} {lm : LineMgmt}
    (hf : lm.Fits room) (old : LineMgmt) (m : Mem) :
    Reads (loadLines calls fresh posRoom room old) lm.sections.flatten m m (lm.saved old) := by
  have hsmall := hf.small
  have htt := hf.ttLines
  have hid : ∀ l, l < lm.ttLines → (lm.lines l).id = l := fun l hl => (hf.line l (htt ▸ hl)).2
  have h1 : lm.ttLines % 256 ^ 4 = lm.ttLines := Nat.mod_eq_of_lt (by omega)
  have h2 : lm.freeLineCnt % 256 ^ 4 = lm.freeLineCnt :=
    Nat.mod_eq_of_lt (by have := hf.freeCnt; omega)
  have h3 : lm.victimLineCnt % 256 ^ 4 = lm.victimLineCnt :=
    Nat.mod_eq_of_lt (by have := hf.victimCnt; omega)
  have h4 : lm.fullLineCnt % 256 ^ 4 = lm.fullLineCnt :=
    Nat.mod_eq_of_lt (by have := hf.fullCnt; omega)
  have h5 : lm.victimLinePq.size % 256 ^ 8 = lm.victimLinePq.size :=
    Nat.mod_eq_of_lt (by have := hf.size; omega)
  have h6 : lm.victimLinePq.avail % 256 ^ 8 = lm.victimLinePq.avail :=
    Nat.mod_eq_of_lt (by have := hf.avail; omega)
  have hlines : Reads (array lm.ttLines (fun i lines =>
        loadLine calls posRoom (if i = 0 then freshLine fresh else lines (i - 1))) old.lines)
      ((List.range lm.ttLines).flatMap fun l => (lineSections (lm.lines l)).flatten) m m
      (lm.saved old).lines :=
    Reads.fields fun l hl => reads_line h hroom (hf.line l (htt ▸ hl)).1 _ m
  unfold loadLines LineMgmt.sections
  simp only [List.flatten_append, List.flatten_cons, List.flatten_nil, List.append_nil,
    List.append_assoc, flatten_flatMap]
  refine Reads.bind (Reads.number h 4 _ _ m) ?_
  refine Reads.bind (Reads.number h 4 _ _ m) ?_
  refine Reads.bind (Reads.number h 4 _ _ m) ?_
  refine Reads.bind (Reads.number h 4 _ _ m) ?_
  rw [h1, h2, h3, h4]
  refine Reads.bind hlines ?_
  refine Reads.bind (Reads.number h 8 _ _ m) ?_
  refine Reads.bind (Reads.number h 8 _ _ m) ?_
  refine Reads.bind (Reads.number h 8 _ _ m) ?_
  rw [h5, h6]
  refine Reads.check (Reads.within ⟨hf.victimCnt, htt ▸ hf.freeCnt.2, htt ▸ hf.fullCnt.2⟩ m) ?_
  have hvictims : ((List.range lm.victimLineCnt).map fun i =>
      leBytes 4 (lm.lines (lm.victimLinePq.d (i + 1))).id).flatten =
      words 4 lm.victimLineCnt fun i => lm.victimLinePq.d (i + 1) := by
    unfold words
    rw [List.flatMap_def]
    refine congrArg List.flatten (List.map_congr_left fun i hi => ?_)
    rw [hid _ (htt ▸ hf.victim i (List.mem_range.1 hi))]
  rw [hvictims, flatten_ids hid fun l hl => htt ▸ hf.free l hl,
    flatten_ids hid fun l hl => htt ▸ hf.full l hl, ← hf.freeCnt.1, ← hf.fullCnt.1]
  refine Reads.bind (Reads.readInto h (by simp) m) ?_
  refine Reads.bind (Reads.readInto h (by simp) m) ?_
  refine (Reads.readInto h (by simp) m).map.congr rfl ?_
  have hid' : ∀ l, l < lm.ttLines → ((lm.saved old).lines l).id = l := fun l hl => by
    show (if l < lm.ttLines then lm.lines l else old.lines l).id = l
    rw [if_pos hl]
    exact hid l hl
  have hfree := linesOf_words hid' (fun l hl => htt ▸ hf.free l hl) (by omega)
  have hfull := linesOf_words hid' (fun l hl => htt ▸ hf.full l hl) (by omega)
  rw [← hf.freeCnt.1] at hfree
  rw [← hf.fullCnt.1] at hfull
  rw [hfree, hfull, loadVictims_words hid' (fun i hi => htt ▸ hf.victim i hi) (by omega)]
  refine congrArg (fun d => { lm.saved old with
    victimLinePq := { (lm.saved old).victimLinePq with d := d } }) (funext fun i => ?_)
  by_cases hi : 1 ≤ i ∧ i ≤ lm.victimLineCnt
  · rw [if_pos hi, if_pos hi, Nat.sub_add_cancel hi.1]
  · rw [if_neg hi, if_neg hi]
    rfl

/-- Where something lives behind `pos`, the lines are not read. -/
theorem stops_lines (h : calls.Transfers) (hroom : posRoom < 8) {room : ℕ} {lm : LineMgmt}
    (hf : lm.Fits room) (hpos : 0 < room) (old : LineMgmt) (m : Mem) :
    StopsOn (loadLines calls fresh posRoom room old) lm.sections.flatten m .undefined := by
  have hsmall := hf.small
  have htt := hf.ttLines
  have h1 : lm.ttLines % 256 ^ 4 = lm.ttLines := Nat.mod_eq_of_lt (by omega)
  unfold loadLines LineMgmt.sections
  simp only [List.flatten_append, List.flatten_cons, List.flatten_nil, List.append_nil,
    List.append_assoc, flatten_flatMap]
  refine Reads.stops (Reads.number h 4 _ _ m) ?_
  refine Reads.stops (Reads.number h 4 _ _ m) ?_
  refine Reads.stops (Reads.number h 4 _ _ m) ?_
  refine Reads.stops (Reads.number h 4 _ _ m) ?_
  rw [h1]
  exact (StopsOn.array (htt ▸ hpos) (stops_line h hroom _ _ m)).append.bind

end NvmeVirt
