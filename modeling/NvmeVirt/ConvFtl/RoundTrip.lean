/-
# A conventional snapshot, saved and loaded

The write pointers, the tables and the page counters are read back like the
blocks and the lines, and every record goes to the place in the storage it was
taken from.  So an instance that fits its file comes back as `ConvFtl.restored`,
and a device with all its instances as `ConvDevice.restored`, whatever the device
that is loaded held before.
-/

import NvmeVirt.ConvFtl.Records
import NvmeVirt.ConvFtl.Restore

namespace NvmeVirt

open LittleEndian Loader Outcome

variable {calls : FileCalls} {fresh : ℕ → UInt8} {posRoom : ℕ} {m : Mem} {fuel : ℕ}

/-! ### The tables and the write pointers -/

/-- The fields of an address fit its bit fields. -/
structure Ppa.Fits (p : Ppa) : Prop where
  pg : p.pg < 2 ^ 16
  blk : p.blk < 2 ^ 16
  pl : p.pl < 2 ^ 8
  lun : p.lun < 2 ^ 8
  ch : p.ch < 2 ^ 8
  rsv : p.rsv < 2 ^ 8

/-- **An address is read as it was written.** -/
theorem Ppa.ofBytes_bytes {p : Ppa} (h : p.Fits) : Ppa.ofBytes p.bytes = p := by
  obtain ⟨h1, h2, h3, h4, h5, h6⟩ := h
  have hrsv : (leBytes 1 p.rsv).take 1 = leBytes 1 p.rsv := by simp
  unfold Ppa.ofBytes Ppa.bytes
  simp (disch := omega) only [drop_leBytes_append, take_leBytes_append, leNat_leBytes,
    Nat.reduceSub, List.drop_zero, hrsv, Nat.mod_eq_of_lt]

@[simp] theorem Ppa.length_bytes (p : Ppa) : p.bytes.length = 8 := by
  simp [Ppa.bytes]

/-- An entry of the mapping table in memory. -/
theorem Ppa.ofBytes_entry {f : ℕ → Ppa} {n i : ℕ} (hi : i < n) (hf : (f i).Fits) :
    Ppa.ofBytes ((((List.range n).flatMap fun j => (f j).bytes).drop (8 * i)).take 8) = f i := by
  rw [take_drop_flatMap (fun j => Ppa.length_bytes (f j)) hi, Ppa.ofBytes_bytes hf]

/-- The numbers of a write pointer fit their fields. -/
structure WritePointer.Fits (wp : WritePointer) : Prop where
  ch : wp.ch < 2 ^ 32
  lun : wp.lun < 2 ^ 32
  pg : wp.pg < 2 ^ 32
  blk : wp.blk < 2 ^ 32
  pl : wp.pl < 2 ^ 32

/-- **A write pointer is read as it was written,** once its line is found. -/
theorem WritePointer.ofBytes_bytes {wp : WritePointer} (h : wp.Fits) (lineAddr : ℕ → ℕ) :
    WritePointer.ofBytes wp.curline (wp.bytes lineAddr) = wp := by
  obtain ⟨h1, h2, h3, h4, h5⟩ := h
  unfold WritePointer.ofBytes WritePointer.bytes
  simp (disch := omega) only [drop_leBytes_append, take_leBytes_append, leNat_leBytes,
    Nat.reduceSub, List.drop_zero, Nat.mod_eq_of_lt]

@[simp] theorem WritePointer.length_bytes (wp : WritePointer) (lineAddr : ℕ → ℕ) :
    (wp.bytes lineAddr).length = 32 := by
  simp [WritePointer.bytes]

theorem wordAt_leBytes (n : ℕ) : wordAt 4 (leBytes 4 n) 0 = n % 256 ^ 4 := by
  unfold wordAt
  rw [Nat.mul_zero, List.drop_zero, List.take_of_length_le (by simp), leNat_leBytes]

/-! ### The records -/

/-- The memory once the records of the logical pages `lpns` are written over `m`. -/
def recordsMem (src : Mem) (nrParts q : ℕ) (lpns : List ℕ) (m : Mem) : Mem :=
  lpns.foldl (fun m lpn => writeBytes m (recordAddr nrParts q lpn)
    (readBytes src (recordAddr nrParts q lpn) pageSize)) m

/-- A byte of the storage lies in the record of a logical page. -/
def InRecord (nrParts q lpn x : ℕ) : Prop :=
  recordAddr nrParts q lpn ≤ x ∧ x < recordAddr nrParts q lpn + pageSize

instance (nrParts q lpn x : ℕ) : Decidable (InRecord nrParts q lpn x) :=
  inferInstanceAs (Decidable (_ ∧ _))

/-- **The records bring their bytes back** and nothing else. -/
theorem recordsMem_eq (src : Mem) (nrParts q : ℕ) (lpns : List ℕ) (m : Mem) (x : ℕ) :
    recordsMem src nrParts q lpns m x =
      if ∃ lpn ∈ lpns, InRecord nrParts q lpn x then src x else m x := by
  induction lpns generalizing m with
  | nil => simp [recordsMem]
  | cons lpn lpns ih =>
    show recordsMem src nrParts q lpns (writeBytes m (recordAddr nrParts q lpn)
      (readBytes src (recordAddr nrParts q lpn) pageSize)) x = _
    rw [ih, writeBytes_readBytes]
    by_cases h1 : ∃ l ∈ lpns, InRecord nrParts q l x
    · obtain ⟨l, hl, hx⟩ := h1
      rw [if_pos ⟨l, hl, hx⟩, if_pos ⟨l, List.mem_cons_of_mem _ hl, hx⟩]
    · rw [if_neg h1]
      refine if_congr ?_ rfl rfl
      constructor
      · exact fun hx => ⟨lpn, List.mem_cons_self, hx⟩
      · rintro ⟨l, hl, hx⟩
        rcases List.mem_cons.1 hl with rfl | hl
        · exact hx
        · exact absurd ⟨l, hl, hx⟩ h1

/-- **The records are read back** to where they were. -/
theorem reads_records (h : calls.Transfers) (hfuel : pageSize < fuel) (src : Mem)
    (nrParts q : ℕ) (lpns : List ℕ) (m : Mem) :
    Reads (loadRecords calls fuel nrParts q lpns)
      (lpns.flatMap fun lpn => readBytes src (recordAddr nrParts q lpn) pageSize) m
      (recordsMem src nrParts q lpns m) () := by
  induction lpns generalizing m with
  | nil => exact Reads.pure () m
  | cons lpn lpns ih =>
    rw [List.flatMap_cons]
    refine Reads.bind (a := ()) (fun s rest hm hs => ?_) (ih _)
    obtain ⟨s', hloop, hmem, hbytes⟩ := h.copyIn_done inPage (by decide) inPage_iff false lpn
      (recordAddr nrParts q lpn) fuel (Nat.zero_le pageSize) (by omega)
      (length_readBytes src _ pageSize) s hs
    have hloop₀ : copyLoop inPage false
        (copyIn calls lpn (recordAddr nrParts q lpn) pageSize) fuel 0 s = (s', .done) := hloop
    refine ⟨s', ?_, ?_, hbytes⟩
    · simp only [hloop₀]
    · rw [hmem, Nat.cast_zero, add_zero, hm]

/-! ### One instance -/

namespace ConvFtl

/-- The numbers of an instance fit the fields they are saved in. -/
structure Fits (f : ConvFtl) : Prop where
  blk : ∀ a, f.ssd.sp.HasBlk a → (f.ssd.blk a).Fits f.ssd.sp.pgsPerBlk
  wp : f.wp.Fits
  gcWp : f.gcWp.Fits
  curline : f.wp.curline < f.ssd.sp.ttLines
  gcCurline : f.gcWp.curline < f.ssd.sp.ttLines
  maptbl : ∀ i, i < f.ssd.sp.ttPgs → (f.maptbl i).Fits
  rmap : ∀ i, i < f.ssd.sp.ttPgs → f.rmap i < 2 ^ 64
  pageCounter : ∀ i, i < f.ssd.sp.nchs * f.ssd.sp.lunsPerCh → f.pageCounter i < 2 ^ 64
  lm : f.lm.Fits f.ssd.sp.ttLines

/-- The instance as it is read back over the instance `old`, with the history `log`. -/
def restored (f old : ConvFtl) (log : List FlashEv) : ConvFtl :=
  { old with
    ssd := f.ssd.saved old.ssd
    maptbl := fun i => if i < f.ssd.sp.ttPgs then f.maptbl i else old.maptbl i
    rmap := fun i => if i < f.ssd.sp.ttPgs then f.rmap i else old.rmap i
    wp := f.wp
    gcWp := f.gcWp
    lm := f.lm.saved old.lm
    pageCounter := fun i =>
      if i < f.ssd.sp.nchs * f.ssd.sp.lunsPerCh then f.pageCounter i else old.pageCounter i
    log := log }

variable {f old : ConvFtl} {log : List FlashEv}

/-- The restored instance has the same records. -/
theorem recordLpns_restored (hsp : old.ssd.sp = f.ssd.sp) :
    (f.restored old log).recordLpns = f.recordLpns := by
  have hrmap : ∀ i ∈ List.range f.ssd.sp.ttPgs, (f.restored old log).rmap i = f.rmap i :=
    fun i hi => if_pos (List.mem_range.1 hi)
  have hsp' : (f.restored old log).ssd.sp = f.ssd.sp := hsp
  unfold recordLpns
  rw [hsp', List.filter_congr fun i hi => by rw [hrmap i hi]]
  exact List.map_congr_left fun i hi => hrmap i (List.mem_filter.1 hi).1

/-- **An instance is read back.** -/
theorem reads_part (h : calls.Transfers) (hfuel : pageSize < fuel) (hroom : 8 ≤ posRoom)
    (lineAddr lineAddr' : ℕ → ℕ) (d : ConvDevice) (q : ℕ) (logs : ℕ → List FlashEv)
    (hf : (d.ns.ftls q).Fits) (hsp : old.ssd.sp = (d.ns.ftls q).ssd.sp) (m : Mem) :
    Reads (loadPart calls fuel fresh posRoom lineAddr' d.ns.nrParts logs q old) (d.partBytes lineAddr q) m
      (recordsMem d.storage d.ns.nrParts q (d.ns.ftls q).recordLpns m)
      ((d.ns.ftls q).restored old (logs q)) := by
  obtain ⟨f, hfdef⟩ : ∃ f, d.ns.ftls q = f := ⟨_, rfl⟩
  have hrec : d.records q = f.recordLpns.flatMap fun lpn =>
      readBytes d.storage (recordAddr d.ns.nrParts q lpn) pageSize := by
    unfold ConvDevice.records
    rw [hfdef]
  unfold ConvDevice.partBytes
  rw [hrec]
  simp only [hfdef] at hf hsp ⊢
  have hsmall := hf.lm.small
  have hwp : f.wp.curline % 256 ^ 4 = f.wp.curline :=
    Nat.mod_eq_of_lt (by have := hf.curline; omega)
  have hgc : f.gcWp.curline % 256 ^ 4 = f.gcWp.curline :=
    Nat.mod_eq_of_lt (by have := hf.gcCurline; omega)
  have hid : ∀ l, l < f.ssd.sp.ttLines → (f.lm.lines l).id = l := fun l hl => (hf.lm.line l hl).2
  have hid' : ∀ l, l < (f.lm.saved old.lm).ttLines → ((f.lm.saved old.lm).lines l).id = l :=
    fun l hl => by
      have hl' : l < f.lm.ttLines := hl
      show (if l < f.lm.ttLines then f.lm.lines l else old.lm.lines l).id = l
      rw [if_pos hl']
      exact hid l (hf.lm.ttLines ▸ hl')
  have hline : ∀ l, l < f.ssd.sp.ttLines →
      lineOf (f.lm.saved old.lm).lines (f.lm.saved old.lm).ttLines l = some l := fun l hl =>
    lineOf_eq hid' (show l < f.lm.ttLines by rw [hf.lm.ttLines]; exact hl)
  have hdone : f.restored old (logs q) = {
      old with
      ssd := f.ssd.saved old.ssd
      maptbl := fun i => if i < old.ssd.sp.ttPgs then Ppa.ofBytes
        ((((List.range f.ssd.sp.ttPgs).flatMap fun i => (f.maptbl i).bytes).drop (8 * i)).take 8)
          else old.maptbl i
      rmap := fun i => if i < old.ssd.sp.ttPgs then wordAt 8 (words 8 f.ssd.sp.ttPgs f.rmap) i
        else old.rmap i
      wp := WritePointer.ofBytes f.wp.curline (f.wp.bytes lineAddr)
      gcWp := WritePointer.ofBytes f.gcWp.curline (f.gcWp.bytes lineAddr)
      lm := f.lm.saved old.lm
      pageCounter := fun i => if i < old.ssd.sp.nchs * old.ssd.sp.lunsPerCh then
        wordAt 8 (words 8 (f.ssd.sp.nchs * f.ssd.sp.lunsPerCh) f.pageCounter) i
          else old.pageCounter i
      log := logs q } := by
    rw [WritePointer.ofBytes_bytes hf.wp, WritePointer.ofBytes_bytes hf.gcWp, hsp]
    unfold restored
    congr 1
    · funext i
      split_ifs with hi
      · exact (Ppa.ofBytes_entry hi (hf.maptbl i hi)).symm
      · rfl
    · funext i
      split_ifs with hi
      · rw [wordAt_words _ hi, Nat.mod_eq_of_lt (by have := hf.rmap i hi; omega)]
      · rfl
    · funext i
      split_ifs with hi
      · rw [wordAt_words _ hi, Nat.mod_eq_of_lt (by have := hf.pageCounter i hi; omega)]
      · rfl
  unfold loadPart ConvFtl.sections
  simp only [List.flatten_append, List.flatten_cons, List.flatten_nil, List.append_nil,
    List.append_assoc]
  refine Reads.bind (reads_chs h hsp hf.blk m) ?_
  refine Reads.bind (Reads.readInto h (by simp) m) ?_
  refine Reads.bind (Reads.readInto h (by simp) m) ?_
  refine Reads.bind (Reads.readInto h (by simp) m) ?_
  refine Reads.bind (Reads.readInto h (by simp) m) ?_
  refine Reads.bind (Reads.readInto h (by simp [hsp, Nat.mul_comm]) m) ?_
  refine Reads.bind (Reads.readInto h (by simp [hsp]) m) ?_
  refine Reads.bind (Reads.readInto h (by simp [hsp]) m) ?_
  rw [hsp]
  refine Reads.bind (reads_lines h hroom hf.lm old.lm m) ?_
  rw [wordAt_leBytes, wordAt_leBytes, hid _ hf.curline, hid _ hf.gcCurline, hwp, hgc]
  refine Reads.check (Reads.found (hline _ hf.curline) m) ?_
  refine Reads.check (Reads.found (hline _ hf.gcCurline) m) ?_
  rw [hsp] at hdone
  rw [← hdone, recordLpns_restored hsp]
  exact (reads_records h hfuel d.storage d.ns.nrParts q f.recordLpns m).map.congr rfl rfl

/-- Where something lives behind `pos`, an instance is not read back. -/
theorem stops_part (h : calls.Transfers) (hroom : posRoom < 8) (lineAddr lineAddr' : ℕ → ℕ)
    (d : ConvDevice) (q : ℕ) (logs : ℕ → List FlashEv) (hf : (d.ns.ftls q).Fits)
    (hsp : old.ssd.sp = (d.ns.ftls q).ssd.sp) (m : Mem) :
    StopsOn (loadPart calls fuel fresh posRoom lineAddr' d.ns.nrParts logs q old)
      (d.partBytes lineAddr q) m .undefined := by
  have hpos : 0 < (d.ns.ftls q).ssd.sp.ttLines := (Nat.zero_le _).trans_lt hf.curline
  unfold loadPart ConvDevice.partBytes ConvFtl.sections
  simp only [List.flatten_append, List.flatten_cons, List.flatten_nil, List.append_nil,
    List.append_assoc]
  refine Reads.stops (reads_chs h hsp hf.blk m) ?_
  refine Reads.stops (Reads.readInto h (by simp) m) ?_
  refine Reads.stops (Reads.readInto h (by simp) m) ?_
  refine Reads.stops (Reads.readInto h (by simp) m) ?_
  refine Reads.stops (Reads.readInto h (by simp) m) ?_
  refine Reads.stops (Reads.readInto h (by simp [hsp, Nat.mul_comm]) m) ?_
  refine Reads.stops (Reads.readInto h (by simp [hsp]) m) ?_
  refine Reads.stops (Reads.readInto h (by simp [hsp]) m) ?_
  rw [hsp]
  exact (stops_lines h hroom hf.lm hpos old.lm m).append.bind

/-! ### The numbers of an instance fit -/

variable {front : ℕ × ℕ → ℕ → ℕ}

/-- A block of the geometry is the block of a line on a die. -/
theorem Sound.exists_blockAt (h : f.Sound [] front) {a : BlkAddr} (ha : f.ssd.sp.HasBlk a) :
    ∃ d ∈ f.ssd.sp.dies, ∃ l, l < f.ssd.sp.blksPerPl ∧ a = blockAt d l := by
  obtain ⟨ch, lun, pl, blk⟩ := a
  obtain ⟨h1, h2, h3, h4⟩ := ha
  rw [h.geom.plsPerLun] at h3
  obtain rfl : pl = 0 := by
    dsimp only at h3
    omega
  exact ⟨(ch, lun), Ssdparams.mem_dies.2 ⟨h1, h2⟩, blk, h4, rfl⟩

theorem Sound.blk_npgs (h : f.Sound [] front) {a : BlkAddr} (ha : f.ssd.sp.HasBlk a) :
    (f.ssd.blk a).npgs = f.ssd.sp.pgsPerBlk := by
  obtain ⟨d, hd, l, hl, rfl⟩ := h.exists_blockAt ha
  exact (h.nand d hd l hl).1.npgs

theorem Sound.blk_fits (h : f.Sound [] front) (hsecs : f.ssd.sp.secsPerPg = 8) {a : BlkAddr}
    (ha : f.ssd.sp.HasBlk a) : (f.ssd.blk a).Fits f.ssd.sp.pgsPerBlk := by
  obtain ⟨d, hd, l, hl, rfl⟩ := h.exists_blockAt ha
  have hb := (h.nand d hd l hl).1
  have hsum := hb.vpc_add_ipc
  have hle := hb.le
  have hroom := h.geom.fits.pgsPerBlk
  exact {
    npgs := hb.npgs, small := by omega, ipc := by omega, vpc := by omega
    nsecs := fun i hi => by
      have := hb.nsecs i hi
      omega }

theorem Sound.getWp_fits (h : f.Sound [] front) (io : IoType) : (f.getWp io).Fits := by
  have hw := h.ptr io
  have hline := h.curline_lt io
  have hfits := h.geom.fits
  obtain ⟨hch, hlun⟩ := Ssdparams.mem_dies.1 hw.die
  have hpg : (f.getWp io).pg ≤ f.ssd.sp.pgsPerBlk := by
    rw [hw.pg, ← hw.front _ hw.die]
    exact h.front_le hline hw.die
  have h1 := hfits.nchs
  have h2 := hfits.lunsPerCh
  have h3 := hfits.blksPerPl
  have h4 := hfits.pgsPerBlk
  dsimp only at hch hlun
  exact {
    ch := by omega, lun := by omega, pg := by omega, blk := by rw [hw.blk]; omega
    pl := by rw [hw.pl]; omega }

/-- The page counters are counters of blocks. -/
theorem Sound.pageCounter_le (h : f.Sound [] front) {i : ℕ}
    (hi : i < f.ssd.sp.nchs * f.ssd.sp.lunsPerCh) : f.pageCounter i ≤ f.ssd.sp.pgsPerBlk := by
  have hd : (i / f.ssd.sp.lunsPerCh, i % f.ssd.sp.lunsPerCh) ∈ f.ssd.sp.dies :=
    Ssdparams.mem_dies.2 ⟨Nat.div_lt_of_lt_mul (by rwa [mul_comm]), Nat.mod_lt _ h.geom.luns_pos⟩
  have hfront := (h.ptr .user).front _ hd
  have hidx : f.ssd.sp.dieIdx (i / f.ssd.sp.lunsPerCh) (i % f.ssd.sp.lunsPerCh) = i := by
    unfold Ssdparams.dieIdx
    exact Nat.div_add_mod' i _
  have hle := h.front_le (h.curline_lt .user) hd
  rw [hfront] at hle
  simpa [written, userFront, hidx] using hle

theorem Sound.lm_fits (h : f.Sound [] front) : f.lm.Fits f.ssd.sp.ttLines := by
  have hroom := h.geom.fits.blksPerPl
  have hsize := h.homed.size_le
  have havail := h.homed.avail
  have hcnt := h.homed.victimCnt
  have hlen := h.homed.homes.length_eq
  simp only [LineMgmt.homes, List.length_append, List.length_range] at hlen
  have hfree := h.homed.freeCnt
  have hfull := h.homed.fullCnt
  rw [h.geom.ttLines]
  refine {
    ttLines := h.homed.ttLines, small := by omega, line := fun l hl => ⟨?_, h.homed.id l hl⟩
    size := by omega, avail := by omega, victimCnt := by omega
    victim := fun i hi => h.homed.queued_lt ⟨i + 1, by omega, by omega, rfl⟩
    freeCnt := ⟨hfree, by omega⟩, free := fun l hl => h.homed.free_lt hl
    fullCnt := ⟨hfull, by omega⟩, full := fun l hl => h.homed.full_lt hl }
  have hsum := h.line_sum hl (by simp)
  have hle := h.sum_le hl
  have hline := pgsPerLine_lt h.geom (by omega)
  have hpos : (f.lm.lines l).pos < 2 ^ 31 := by
    by_cases hp : (f.lm.lines l).pos = 0
    · rw [hp]
      norm_num
    · have := (h.homed.placed.d_getpos (h.homed.pos l hl hp)).2.1
      have : (f.lm.lines l).pos < f.lm.victimLinePq.size := this
      omega
  exact ⟨by rw [h.homed.id l hl]; omega, by omega, by omega, hpos⟩

/-- An entry of the mapping table is the marker or an address in the geometry. -/
theorem Inv.maptbl_fits (h : f.Inv) {l : ℕ} (hl : l < f.ssd.sp.ttPgs) : (f.maptbl l).Fits := by
  obtain ⟨front, hs⟩ := h.sound
  by_cases hm : mappedPpa (f.maptbl l)
  · obtain ⟨⟨⟨h1, h2, h3, h4, h5⟩, hr, -⟩, -⟩ := h.map.forward l hl _ (if_pos hm)
    have hfits := hs.geom.fits
    have h6 := hfits.nchs
    have h7 := hfits.lunsPerCh
    have h8 := hfits.blksPerPl
    have h9 := hfits.pgsPerBlk
    have h10 := hs.geom.plsPerLun
    exact ⟨by omega, by omega, by omega, by omega, by omega, by omega⟩
  · rw [not_not.1 hm]
    exact ⟨by decide, by decide, by decide, by decide, by decide, by decide⟩

/-- **An instance fits its file** after every run. -/
theorem Inv.fits (h : f.Inv) (hn : f.RmapNames) (hsecs : f.ssd.sp.secsPerPg = 8) : f.Fits := by
  obtain ⟨front, hs⟩ := h.sound
  have hppb := hs.geom.fits.pgsPerBlk
  exact {
    blk := fun a ha => hs.blk_fits hsecs ha
    wp := hs.getWp_fits .user
    gcWp := hs.getWp_fits .gc
    curline := hs.geom.ttLines ▸ hs.curline_lt .user
    gcCurline := hs.geom.ttLines ▸ hs.curline_lt .gc
    maptbl := fun l hl => h.maptbl_fits hl
    rmap := fun i hlt => by
      by_cases hi : f.rmap i = invalidLpn
      · rw [hi]
        decide
      · have := (hn i hlt hi).1
        have := hs.geom.ttPgs_lt
        omega
    pageCounter := fun i hi => by
      have := hs.pageCounter_le hi
      omega
    lm := hs.lm_fits }

/-- The records are of the mapped logical pages. -/
theorem Inv.mem_recordLpns_iff (h : f.Inv) (hn : f.RmapNames) {l : ℕ} :
    l ∈ f.recordLpns ↔ l ∈ f.mappedLpns := by
  rw [mem_recordLpns]
  constructor
  · rintro ⟨i, hi, hne, rfl⟩
    exact ⟨(hn i hi hne).1, table_isSome.1 (hn i hi hne).2⟩
  · intro hl
    obtain ⟨hidx, hr⟩ := h.rmap_mapped hl
    exact ⟨_, hidx, by rw [hr]; exact h.ne_invalidLpn hl.1, hr⟩

end ConvFtl

/-! ### The device -/

namespace ConvDevice

variable (d old : ConvDevice) (logs : ℕ → List FlashEv)

/-- A byte of the storage is in a record of the first `n` instances. -/
def Recorded (n x : ℕ) : Prop :=
  ∃ q < n, ∃ lpn ∈ (d.ns.ftls q).recordLpns, InRecord d.ns.nrParts q lpn x

instance (n x : ℕ) : Decidable (d.Recorded n x) :=
  inferInstanceAs (Decidable (∃ q < n, ∃ lpn ∈ _, InRecord _ q lpn x))

/-- The storage once the records of the first `n` instances are read back into `m`. -/
def recordedMem (m : Mem) (n : ℕ) : Mem := fun x => if d.Recorded n x then d.storage x else m x

theorem recordedMem_zero (m : Mem) : d.recordedMem m 0 = m := by
  funext x
  refine if_neg ?_
  rintro ⟨q, hq, -⟩
  omega

/-- The records of one more instance. -/
theorem recordedMem_succ (m : Mem) (q : ℕ) :
    recordsMem d.storage d.ns.nrParts q (d.ns.ftls q).recordLpns (d.recordedMem m q) =
      d.recordedMem m (q + 1) := by
  funext x
  rw [recordsMem_eq]
  unfold recordedMem
  by_cases hx : ∃ lpn ∈ (d.ns.ftls q).recordLpns, InRecord d.ns.nrParts q lpn x
  · have hrec : d.Recorded (q + 1) x := ⟨q, Nat.lt_succ_self q, hx⟩
    rw [if_pos hx, if_pos hrec]
  · rw [if_neg hx]
    refine if_congr ?_ rfl rfl
    constructor
    · rintro ⟨r, hr, hrx⟩
      exact ⟨r, Nat.lt_succ_of_lt hr, hrx⟩
    · rintro ⟨r, hr, hrx⟩
      rcases Nat.lt_succ_iff_lt_or_eq.1 hr with hlt | rfl
      · exact ⟨r, hlt, hrx⟩
      · exact absurd hrx hx

/-- The device as it is read back over the device `old`. -/
def restored : ConvDevice :=
  { old with
    ns.ftls := fun q =>
      if q < d.ns.nrParts then (d.ns.ftls q).restored (old.ns.ftls q) (logs q) else old.ns.ftls q
    storage := d.recordedMem old.removeItems.storage d.ns.nrParts
    removed := false }

/-- Two devices are configured alike. -/
structure SameConfig : Prop where
  nrParts : old.ns.nrParts = d.ns.nrParts
  storageSize : old.storageSize = d.storageSize
  sp : ∀ q, q < d.ns.nrParts → (old.ns.ftls q).ssd.sp = (d.ns.ftls q).ssd.sp

variable {d old logs}

/-- **`load_device` reads back** what `save_device` wrote, whatever the tables and the storage of the
device held before. -/
theorem loadDevice_saveDevice (h : calls.Transfers) (hfuel : pageSize < fuel)
    (fresh : ℕ → UInt8) (hroom : 8 ≤ posRoom) (lineAddr lineAddr' : ℕ → ℕ)
    (logs : ℕ → List FlashEv) (hd : ∀ q, q < d.ns.nrParts → (d.ns.ftls q).Fits)
    (hcfg : d.SameConfig old) (hlive : old.removed = false) :
    ∃ o, d.saveDevice calls fuel lineAddr (.ok ()) = (o, .returns 0) ∧
      old.loadDevice calls fuel fresh posRoom lineAddr' logs (.ok o.bytes) =
        .ok (d.restored old logs, 0) := by
  obtain ⟨o, ho, hbytes⟩ := h.saveDevice_done hfuel lineAddr d
  refine ⟨o, ho, ?_⟩
  have hparts : Reads (array old.ns.nrParts (fun q ftls =>
      loadPart calls fuel fresh posRoom lineAddr' old.ns.nrParts logs q (ftls q)) old.ns.ftls)
      ((List.range d.ns.nrParts).flatMap (d.partBytes lineAddr))
      (d.recordedMem old.removeItems.storage 0)
      (d.recordedMem old.removeItems.storage d.ns.nrParts) (d.restored old logs).ns.ftls := by
    rw [hcfg.nrParts]
    refine Reads.array fun q hq => ?_
    dsimp only
    rw [if_neg (lt_irrefl q), ← recordedMem_succ]
    exact ConvFtl.reads_part h hfuel hroom lineAddr lineAddr' d q logs (hd q hq) (hcfg.sp q hq) _
  obtain ⟨s', hs', hmem, -⟩ := hparts { file := { bytes := o.bytes }, mem := old.removeItems.storage }
    [] (recordedMem_zero d _).symm (by rw [List.append_nil]; exact hbytes)
  unfold loadDevice
  dsimp only
  rw [hlive, if_neg Bool.false_ne_true, hs', ok_bind, hmem]
  rfl

/-- **`load_device` has no meaning** for a device whose tables are freed, and where an object of its
stack frame lies behind `pos`. -/
theorem loadDevice_undefined (h : calls.Transfers) (hfuel : pageSize < fuel)
    (fresh : ℕ → UInt8) (lineAddr lineAddr' : ℕ → ℕ) (logs : ℕ → List FlashEv)
    (hd : ∀ q, q < d.ns.nrParts → (d.ns.ftls q).Fits) (hparts : 0 < d.ns.nrParts)
    (hcfg : d.SameConfig old) (hbad : ¬ (old.removed = false ∧ 8 ≤ posRoom)) :
    ∃ o, d.saveDevice calls fuel lineAddr (.ok ()) = (o, .returns 0) ∧
      old.loadDevice calls fuel fresh posRoom lineAddr' logs (.ok o.bytes) = .error .undefined := by
  obtain ⟨o, ho, hbytes⟩ := h.saveDevice_done hfuel lineAddr d
  refine ⟨o, ho, ?_⟩
  unfold loadDevice
  dsimp only
  by_cases hlive : old.removed = false
  · have hroom : posRoom < 8 := Nat.not_le.1 fun hroom => hbad ⟨hlive, hroom⟩
    have hstops : StopsOn (array old.ns.nrParts (fun q ftls =>
        loadPart calls fuel fresh posRoom lineAddr' old.ns.nrParts logs q (ftls q)) old.ns.ftls)
        ((List.range d.ns.nrParts).flatMap (d.partBytes lineAddr)) old.removeItems.storage
        .undefined := by
      rw [hcfg.nrParts]
      exact StopsOn.array hparts (ConvFtl.stops_part h hroom lineAddr lineAddr' d 0 logs (hd 0 hparts)
        (hcfg.sp 0 hparts) _)
    have herr := hstops { file := { bytes := o.bytes }, mem := old.removeItems.storage } [] rfl
      (by rw [List.append_nil]; exact hbytes)
    rw [hlive, if_neg Bool.false_ne_true, herr]
    rfl
  · rw [if_pos (Bool.not_eq_false _ ▸ hlive)]

/-- A snapshot that has been loaded was loaded into a device with tables, by code with room behind
`pos`. -/
theorem live_of_loadDevice (h : calls.Transfers) (hfuel : pageSize < fuel) {o : OpenFile}
    {lineAddr lineAddr' : ℕ → ℕ} (hd : ∀ q, q < d.ns.nrParts → (d.ns.ftls q).Fits)
    (hparts : 0 < d.ns.nrParts) (hcfg : d.SameConfig old) {r : ConvDevice × ℤ}
    (hsave : d.saveDevice calls fuel lineAddr (.ok ()) = (o, .returns 0))
    (hload : old.loadDevice calls fuel fresh posRoom lineAddr' logs (.ok o.bytes) = .ok r) :
    old.removed = false ∧ 8 ≤ posRoom := by
  by_contra hbad
  obtain ⟨o', hsave', hload'⟩ := loadDevice_undefined h hfuel fresh lineAddr lineAddr' logs hd hparts
    hcfg hbad
  cases hsave'.symm.trans hsave
  cases hload'.symm.trans hload

end ConvDevice

/-! ### Round trip -/

namespace ConvFtl

/-- **`f'` is `f`** in all that a snapshot holds; the counters that nothing bounds are compared as
the words the driver has for them. -/
structure SnapshotEq (f f' : ConvFtl) : Prop where
  sp : f'.ssd.sp = f.ssd.sp
  page : ∀ a, f.ssd.sp.HasBlk a → ∀ i, i < f.ssd.sp.pgsPerBlk →
    ((f'.ssd.blk a).pg i).status = ((f.ssd.blk a).pg i).status ∧
      ((f'.ssd.blk a).pg i).nsecs = ((f.ssd.blk a).pg i).nsecs ∧
      ∀ j, j < ((f.ssd.blk a).pg i).nsecs →
        ((f'.ssd.blk a).pg i).sec.getD j 0 = u32 (((f.ssd.blk a).pg i).sec.getD j 0)
  block : ∀ a, f.ssd.sp.HasBlk a →
    (f'.ssd.blk a).npgs = (f.ssd.blk a).npgs ∧ (f'.ssd.blk a).ipc = (f.ssd.blk a).ipc ∧
      (f'.ssd.blk a).vpc = (f.ssd.blk a).vpc ∧
      (f'.ssd.blk a).eraseCnt = u32 (f.ssd.blk a).eraseCnt ∧
      (f'.ssd.blk a).wp = u32 (f.ssd.blk a).wp
  wp : f'.wp = f.wp
  gcWp : f'.gcWp = f.gcWp
  curline : ∀ io, (f'.lm.lines (f'.getWp io).curline).id = (f.lm.lines (f.getWp io).curline).id
  maptbl : ∀ i, i < f.ssd.sp.ttPgs → f'.maptbl i = f.maptbl i
  rmap : ∀ i, i < f.ssd.sp.ttPgs → f'.rmap i = f.rmap i
  pageCounter : ∀ i, i < f.ssd.sp.nchs * f.ssd.sp.lunsPerCh → f'.pageCounter i = f.pageCounter i
  lines : ∀ l, l < f.ssd.sp.ttLines → f'.lm.lines l = f.lm.lines l
  freeLineList : f'.lm.freeLineList = f.lm.freeLineList
  fullLineList : f'.lm.fullLineList = f.lm.fullLineList
  heap : f'.lm.victimLinePq.size = f.lm.victimLinePq.size ∧
    f'.lm.victimLinePq.avail = f.lm.victimLinePq.avail ∧
    ∀ i, 1 ≤ i → i < f.lm.victimLinePq.size →
      f'.lm.victimLinePq.d i = f.lm.victimLinePq.d i
  ttLines : f'.lm.ttLines = f.lm.ttLines
  freeLineCnt : f'.lm.freeLineCnt = f.lm.freeLineCnt
  victimLineCnt : f'.lm.victimLineCnt = f.lm.victimLineCnt
  fullLineCnt : f'.lm.fullLineCnt = f.lm.fullLineCnt

variable {f old : ConvFtl} {log : List FlashEv} {front : ℕ × ℕ → ℕ → ℕ}

/-- **What is read back is what was saved.** -/
theorem Sound.restored (h : f.Sound [] front) (hsp : old.ssd.sp = f.ssd.sp) :
    f.SnapshotEq (f.restored old log) := by
  have htt : f.lm.ttLines = f.ssd.sp.ttLines := h.homed.ttLines.trans h.geom.ttLines.symm
  have hline : ∀ l, l < f.ssd.sp.ttLines → (f.restored old log).lm.lines l = f.lm.lines l :=
    fun l hl => if_pos (htt ▸ hl)
  have hblk : ∀ a, f.ssd.sp.HasBlk a →
      (f.restored old log).ssd.blk a = (f.ssd.blk a).saved (old.ssd.blk a) :=
    fun a ha => if_pos (hsp ▸ ha)
  exact {
    sp := hsp
    page := fun a ha i hi => by
      have hb := h.blk_npgs ha
      rw [hblk a ha]
      have hpg : ((f.ssd.blk a).saved (old.ssd.blk a)).pg i = ((f.ssd.blk a).pg i).saved :=
        if_pos (by rw [hb]; exact hi)
      rw [hpg]
      refine ⟨rfl, rfl, fun j hj => ?_⟩
      rw [NandPage.saved, List.getD_eq_getElem _ _ (by simpa using hj), List.getElem_map,
        List.getElem_range]
      rfl
    block := fun a ha => by
      rw [hblk a ha]
      exact ⟨rfl, rfl, rfl, rfl, rfl⟩
    wp := rfl
    gcWp := rfl
    curline := fun io => by
      have hwp : (f.restored old log).getWp io = f.getWp io := by cases io <;> rfl
      rw [hwp, hline _ (h.geom.ttLines ▸ h.curline_lt io)]
    maptbl := fun i hi => if_pos hi
    rmap := fun i hi => if_pos hi
    pageCounter := fun i hi => if_pos hi
    lines := hline
    freeLineList := rfl
    fullLineList := rfl
    heap := ⟨rfl, rfl, fun i h1 hi => if_pos ⟨h1, by have := h.homed.victimCnt; omega⟩⟩
    ttLines := rfl
    freeLineCnt := rfl
    victimLineCnt := rfl
    fullLineCnt := rfl }

end ConvFtl

/-- The sizes of a fresh namespace. -/
theorem convInitNamespace_secsPerPg {size : ℕ} {cfg : FtlConfigs} {ns : ConvNs}
    (h : convInitNamespace size cfg = .ok ns) : ns.sp.secsPerPg = 8 := by
  unfold convInitNamespace at h
  simp only [bind_eq_ok] at h
  obtain ⟨spp, hspp, ftl, hftl, h⟩ := h
  cases h
  unfold convInitFtl at hftl
  simp only [bind_eq_ok] at hftl
  obtain ⟨-, -, _, -, _, -, _, -, hftl⟩ := hftl
  cases hftl
  exact (ssdInitParams_sizes hspp).2.1

/-- The instances of a reachable namespace fit their file, and the reverse table names mapped
logical pages. -/
theorem convRun_fits {size : ℕ} {cfg : FtlConfigs} {ns₀ ns : ConvNs}
    (hinit : convInitNamespace size cfg = .ok ns₀) (hfit : ns₀.sp.FitsPpa) {ops : List ConvOp}
    (hrun : runList ConvNs.exec ns₀ ops = .ok ns) {q : ℕ} (hq : q < ns.nrParts) :
    (ns.ftls q).Inv ∧ (ns.ftls q).RmapNames ∧ (ns.ftls q).Fits := by
  have hk := ((convInitNamespace_inv hinit hfit).1.run ops).of_ok hrun
  have hi := hk.inv.ftl q hq
  have hn := (hk.ftl q (hk.nrParts ▸ hq)).named (convInitNamespace_current hinit q).2.2
  refine ⟨hi, hn, hi.fits hn ?_⟩
  rw [hk.inv.sp q hq, hk.sp]
  exact convInitNamespace_secsPerPg hinit

/-- **`d'` is the device `d` brought back:** its tables, pages, blocks, lines, queue and lists are
those of `d`, and so is the data of every mapped page; the rest of the storage is zero. -/
structure ConvDevice.BroughtBack (d d' : ConvDevice) : Prop where
  removed : d'.removed = false
  same : ∀ q, q < d.ns.nrParts → (d.ns.ftls q).SnapshotEq (d'.ns.ftls q)
  data : ∀ q, q < d.ns.nrParts → ∀ l ∈ (d.ns.ftls q).mappedLpns, ∀ x,
    InRecord d.ns.nrParts q l x → d'.storage x = d.storage x
  zero : ∀ x, x < d.storageSize →
    (∀ q, q < d.ns.nrParts → ∀ l ∈ (d.ns.ftls q).mappedLpns, ¬ InRecord d.ns.nrParts q l x) →
      d'.storage x = 0

/-- **A snapshot brings a device back** over any other one of its configuration, if and only if the
other one still has its tables, and the eight bytes read into the `int pos` meet no other object of
the stack frame. -/
theorem convRun_loadDevice_saveDevice_iff (size : ℕ) (cfg : FtlConfigs) {ns₀ ns : ConvNs}
    (hinit : convInitNamespace size cfg = .ok ns₀) (hfit : ns₀.sp.FitsPpa) (ops : List ConvOp)
    (hrun : runList ConvNs.exec ns₀ ops = .ok ns) {calls : FileCalls} (h : calls.Transfers)
    {fuel : ℕ} (hfuel : pageSize < fuel) (fresh : ℕ → UInt8) (posRoom : ℕ)
    (lineAddr lineAddr' : ℕ → ℕ) (logs : ℕ → List FlashEv) {storageSize : ℕ} {storage : Mem}
    {old : ConvDevice} (hcfg : ConvDevice.SameConfig ⟨ns, storageSize, storage, false⟩ old) :
    (∃ o d', ConvDevice.saveDevice calls fuel lineAddr ⟨ns, storageSize, storage, false⟩ (.ok ()) =
        (o, .returns 0) ∧
      old.loadDevice calls fuel fresh posRoom lineAddr' logs (.ok o.bytes) = .ok (d', 0) ∧
      ConvDevice.BroughtBack ⟨ns, storageSize, storage, false⟩ d') ↔
    old.removed = false ∧ 8 ≤ posRoom := by
  obtain ⟨d, hd⟩ : ∃ d, d = (⟨ns, storageSize, storage, false⟩ : ConvDevice) := ⟨_, rfl⟩
  have hns : d.ns = ns := by rw [hd]
  rw [← hd] at hcfg ⊢
  rw [← hns] at hrun
  have hfits := fun q (hq : q < d.ns.nrParts) => convRun_fits hinit hfit hrun hq
  constructor
  · rintro ⟨o, d', hsave, hload, -⟩
    have hparts := (((convInitNamespace_inv hinit hfit).1.run ops).of_ok hrun).inv.parts_pos
    exact ConvDevice.live_of_loadDevice h hfuel (fun q hq => (hfits q hq).2.2) hparts hcfg hsave hload
  rintro ⟨hlive, hroom⟩
  obtain ⟨o, hsave, hload⟩ := ConvDevice.loadDevice_saveDevice h hfuel fresh hroom lineAddr
    lineAddr' logs (fun q hq => (hfits q hq).2.2) hcfg hlive
  refine ⟨o, _, hsave, hload, rfl, fun q hq => ?_, fun q hq l hl x hx => ?_, fun x hx hno => ?_⟩
  · obtain ⟨front, hs⟩ := (hfits q hq).1.sound
    have hftl : (d.restored old logs).ns.ftls q = (d.ns.ftls q).restored (old.ns.ftls q) (logs q) :=
      if_pos hq
    rw [hftl]
    exact hs.restored (hcfg.sp q hq)
  · have hrec : d.Recorded d.ns.nrParts x :=
      ⟨q, hq, l, ((hfits q hq).1.mem_recordLpns_iff (hfits q hq).2.1).2 hl, hx⟩
    exact if_pos hrec
  · have hrec : ¬ d.Recorded d.ns.nrParts x := by
      rintro ⟨q, hq, l, hl, hlx⟩
      exact hno q hq l (((hfits q hq).1.mem_recordLpns_iff (hfits q hq).2.1).1 hl) hlx
    have hzero : old.removeItems.storage x = 0 := if_pos (hcfg.storageSize ▸ hx)
    exact (if_neg hrec).trans hzero

/-- One page is written and saved, and read back over a device full of other bytes. -/
theorem convRun_loadDevice_saveDevice_one : ∃ (d d' : ConvDevice) (o : OpenFile),
    d.saveDevice .whole (pageSize + 1) (fun l => l) (.ok ()) = (o, .returns 0) ∧
      ({ d with storage := fun _ => 7 } : ConvDevice).loadDevice .whole (pageSize + 1) (fun _ => 9)
        8 (fun l => l + 64) (fun _ => []) (.ok o.bytes) = .ok (d', 0) ∧
      d.BroughtBack d' ∧ d'.storage 0 = 5 := by
  obtain ⟨ns₀, hinit, hns₀⟩ := exists_ok_of_any (x := convInitNamespace tinySize tinyConfigs)
    (p := fun ns₀ : ConvNs =>
      decide ((ns₀.sp.nchs ≤ 2 ^ 8 ∧ ns₀.sp.lunsPerCh ≤ 2 ^ 8) ∧
        ns₀.sp.blksPerPl ≤ 2 ^ 16 ∧ ns₀.sp.pgsPerBlk ≤ 2 ^ 16) &&
      (runList ConvNs.exec ns₀ [.write 0 7]).toOption.any fun ns : ConvNs =>
        decide (0 < ns.nrParts ∧ 0 < (ns.ftls 0).ssd.sp.ttPgs ∧ mappedPpa ((ns.ftls 0).maptbl 0) ∧
          InRecord ns.nrParts 0 0 0)) (by decide +kernel)
  obtain ⟨hfits, hns⟩ := Bool.and_eq_true_iff.1 hns₀
  obtain ⟨⟨hnchs, hluns⟩, hblks, hpgs⟩ := of_decide_eq_true hfits
  obtain ⟨ns, hrun, hns⟩ := exists_ok_of_any hns
  obtain ⟨hparts, hlt, hmapped, hrec⟩ := of_decide_eq_true hns
  obtain ⟨o, d', hsave, hload, hback⟩ := (convRun_loadDevice_saveDevice_iff tinySize
    tinyConfigs hinit ⟨hnchs, hluns, hblks, hpgs⟩ _ hrun FileCalls.whole_transfers
    (Nat.lt_succ_self pageSize) (fun _ => 9) 8 (fun l => l) (fun l => l + 64) (fun _ => [])
    (show ConvDevice.SameConfig ⟨ns, tinySize, fun _ => 5, false⟩
      ⟨ns, tinySize, fun _ => 7, false⟩ from ⟨rfl, rfl, fun _ _ => rfl⟩)).2 ⟨rfl, le_rfl⟩
  exact ⟨_, d', o, hsave, hload, hback, hback.data 0 hparts 0 ⟨hlt, hmapped⟩ 0 hrec⟩

/-- A load whose file does not open leaves the tables freed, and the next load frees them again. -/
theorem loadDevice_frees_twice : ∃ (d old : ConvDevice) (o : OpenFile),
    convInitNamespace tinySize tinyConfigs = .ok d.ns ∧ d.ns.sp.FitsPpa ∧
      d.loadDevice .whole (pageSize + 1) (fun _ => 9) 8 (fun l => l) (fun _ => []) (.error (-2)) =
        .ok (old, -1) ∧
      d.SameConfig old ∧
      d.saveDevice .whole (pageSize + 1) (fun l => l) (.ok ()) = (o, .returns 0) ∧
      old.loadDevice .whole (pageSize + 1) (fun _ => 9) 8 (fun l => l) (fun _ => []) (.ok o.bytes) =
        .error .undefined := by
  obtain ⟨ns, hinit, hfits⟩ := exists_ok_of_any (x := convInitNamespace tinySize tinyConfigs)
    (p := fun ns : ConvNs =>
      decide ((ns.sp.nchs ≤ 2 ^ 8 ∧ ns.sp.lunsPerCh ≤ 2 ^ 8) ∧
        ns.sp.blksPerPl ≤ 2 ^ 16 ∧ ns.sp.pgsPerBlk ≤ 2 ^ 16)) (by decide +kernel)
  obtain ⟨⟨hnchs, hluns⟩, hblks, hpgs⟩ := of_decide_eq_true hfits
  obtain ⟨o, hsave, -⟩ := FileCalls.whole_transfers.saveDevice_done (Nat.lt_succ_self pageSize)
    (fun l => l) ⟨ns, tinySize, fun _ => 5, false⟩
  exact ⟨⟨ns, tinySize, fun _ => 5, false⟩, _, o, hinit, ⟨hnchs, hluns, hblks, hpgs⟩, rfl,
    ⟨rfl, rfl, fun _ _ => rfl⟩, hsave, rfl⟩

end NvmeVirt
