/-
# A snapshot of a zoned device is read as it was written

The file `save_zns_device` leaves behind, as a byte string, and what
`load_zns_device` makes of it on a device with the same parameters: descriptors,
counters and buffers are as they were, and of the storage the bytes below the
write pointers, as long as a zone has fewer than 2^31 of them.
-/

import NvmeVirt.Zns.Snapshot
import NvmeVirt.Zns.Zones

namespace NvmeVirt

open LittleEndian

namespace ZnsDevice

variable {calls : FileCalls} {fuel : ℕ} (d e : ZnsDevice)

/-! ### The file -/

/-- The bytes of zone `i` the copy loops move: none if their number is negative as an `int`. -/
def dataLen (i : ℕ) : ℕ := (asInt (d.byteLen i)).toNat

/-- The chunk of zone `i` in the file. -/
def chunk (i : ℕ) : List UInt8 :=
  if d.Saved i then
    leBytes 4 i ++ (leBytes 8 (d.byteLen i) ++ readBytes d.storage (d.storageAddr i) (d.dataLen i))
  else []

/-- The chunk of zone `z` has the byte at `x`. -/
def Covers (z x : ℕ) : Prop :=
  d.Saved z ∧ d.storageAddr z ≤ x ∧ x < d.storageAddr z + d.dataLen z

instance (z x : ℕ) : Decidable (d.Covers z x) := inferInstanceAs (Decidable (_ ∧ _))

/-- One of the optional sections. -/
def remainingBytes (remaining : ℕ → ℕ) (zones : List ℕ) : List UInt8 :=
  zones.flatMap fun i => leBytes 8 (remaining i)

/-- The two optional sections. -/
def buffersBytes : List UInt8 :=
  (if d.header.zrwaBufEn ≠ 0 then remainingBytes d.zwraRemaining (List.range d.zoneRounds)
    else []) ++
  if d.header.zoneWbEn ≠ 0 then remainingBytes d.zoneWbRemaining (List.range d.zoneRounds) else []

/-- **The file.** -/
def snapshot : List UInt8 :=
  d.header.bytes ++ (d.zoneDescs ++ (d.resInfos ++ (d.buffersBytes ++
    ((List.range d.zoneRounds).flatMap d.chunk ++ leBytes 4 znsZoneSentinel))))

/-- **A device whose snapshot has its parts in their places:** the arrays have their sizes, the
numbers fit their types, and a zone has fewer than 2^32 bytes below its write pointer. -/
structure Snapshotable : Prop where
  zoneDescs : d.zoneDescs.length = zoneDescriptorSize * d.zp.nrZones
  resInfos : d.resInfos.length = resInfosSize
  nrZones : d.zp.nrZones < 2 ^ 31
  zoneSize : d.zp.zoneSize < 2 ^ 32
  zwra : ∀ i, i < d.zp.nrZones → d.zwraRemaining i < 2 ^ 64
  zoneWb : ∀ i, i < d.zp.nrZones → d.zoneWbRemaining i < 2 ^ 64
  byteLen : ∀ i, i < d.zp.nrZones → d.byteLen i < 2 ^ 32

variable {d e}

theorem Snapshotable.zoneRounds (h : d.Snapshotable) : d.zoneRounds = d.zp.nrZones := by
  unfold ZnsDevice.zoneRounds
  rw [asInt_of_lt h.nrZones, Int.toNat_natCast]

/-! ### Saving -/

theorem bytes_saveRemaining (h : calls.Transfers) (remaining : ℕ → ℕ) (zones : List ℕ)
    (o : OpenFile) :
    (zones.foldl (fun o i => o.kernelWrite calls (leBytes 8 (remaining i))) o).bytes =
      o.bytes ++ remainingBytes remaining zones := by
  induction zones generalizing o with
  | nil => exact (List.append_nil _).symm
  | cons i zones ih =>
    rw [List.foldl_cons, ih, h.bytes_kernelWrite, List.append_assoc]
    rfl

theorem saveZone_done (h : calls.Transfers) {i : ℕ} (hlen : d.byteLen i < 2 ^ 32)
    (hfuel : 2 ^ 32 ≤ fuel) (o : OpenFile) :
    ∃ o', d.saveZone calls fuel i o = (o', .done) ∧ o'.bytes = o.bytes ++ d.chunk i := by
  unfold saveZone chunk
  by_cases hs : d.Saved i
  · rw [if_neg (not_not.2 hs), if_pos hs]
    dsimp only
    obtain ⟨s', hs', -, hbytes⟩ := h.copyOut_whole hlen (d.storageAddr i) fuel (by omega)
      { file := (o.kernelWrite calls (leBytes 4 i)).kernelWrite calls (leBytes 8 (d.byteLen i))
        mem := d.storage }
    rw [hs']
    refine ⟨s'.file, rfl, ?_⟩
    rw [hbytes]
    dsimp only
    rw [h.bytes_kernelWrite, h.bytes_kernelWrite, List.append_assoc, List.append_assoc]
    rfl
  · rw [if_pos hs, if_neg hs]
    exact ⟨o, rfl, (List.append_nil _).symm⟩

theorem saveZones_done (h : calls.Transfers) (hfuel : 2 ^ 32 ≤ fuel) {zones : List ℕ}
    (hlen : ∀ i ∈ zones, d.byteLen i < 2 ^ 32) (o : OpenFile) :
    ∃ o', d.saveZones calls fuel zones o = (o', .done) ∧
      o'.bytes = o.bytes ++ zones.flatMap d.chunk := by
  induction zones generalizing o with
  | nil => exact ⟨o, rfl, (List.append_nil _).symm⟩
  | cons i zones ih =>
    obtain ⟨o₁, h₁, hb₁⟩ := saveZone_done h (hlen i (by simp)) hfuel o
    obtain ⟨o₂, h₂, hb₂⟩ := ih (fun j hj => hlen j (List.mem_cons_of_mem i hj)) o₁
    refine ⟨o₂, ?_, ?_⟩
    · unfold saveZones
      rw [h₁]
      exact h₂
    · rw [hb₂, hb₁, List.append_assoc, List.flatMap_cons]

theorem bytes_saveSections (h : calls.Transfers) (hd : d.Snapshotable) :
    (d.saveSections calls).bytes =
      d.header.bytes ++ (d.zoneDescs ++ (d.resInfos ++ d.buffersBytes)) := by
  unfold saveSections
  extract_lets o o₁ o₂ o₃ o₄
  have hb₃ : o₃.bytes = d.header.bytes ++ (d.zoneDescs ++ d.resInfos) := by
    have ho : o.bytes = [] := rfl
    unfold o₃ o₂ o₁
    rw [h.bytes_kernelWrite, h.bytes_kernelWrite, h.bytes_kernelWrite, ← hd.zoneDescs,
      List.take_length, List.append_assoc, ho, List.nil_append]
  have hb₄ : o₄.bytes = o₃.bytes ++ if d.header.zrwaBufEn ≠ 0 then
      remainingBytes d.zwraRemaining (List.range d.zoneRounds) else [] := by
    unfold o₄
    split_ifs
    · exact bytes_saveRemaining h _ _ _
    · exact (List.append_nil _).symm
  have hb₅ : (if d.header.zoneWbEn ≠ 0 then d.saveRemaining calls d.zoneWbRemaining o₄
      else o₄).bytes = o₄.bytes ++ if d.header.zoneWbEn ≠ 0 then
        remainingBytes d.zoneWbRemaining (List.range d.zoneRounds) else [] := by
    split_ifs
    · exact bytes_saveRemaining h _ _ _
    · exact (List.append_nil _).symm
  rw [hb₅, hb₄, hb₃]
  unfold buffersBytes
  simp only [List.append_assoc]

/-- **`save_zns_device` writes the snapshot.** -/
theorem saveZnsDevice_done (h : calls.Transfers) (hd : d.Snapshotable) (hfuel : 2 ^ 32 ≤ fuel) :
    ∃ o, d.saveZnsDevice calls fuel (.ok ()) = (o, .returns 0) ∧ o.bytes = d.snapshot := by
  obtain ⟨o, ho, hb⟩ := saveZones_done (d := d) h hfuel
    (fun i hi => hd.byteLen i (by rw [← hd.zoneRounds]; exact List.mem_range.1 hi))
    (d.saveSections calls)
  refine ⟨o.kernelWrite calls (leBytes 4 znsZoneSentinel), ?_, ?_⟩
  · unfold saveZnsDevice
    rw [ho, saveSentinel]
  · rw [h.bytes_kernelWrite, hb, bytes_saveSections h hd]
    unfold snapshot
    simp only [List.append_assoc]

end ZnsDevice

/-! ### Loading -/

/-- A header is read as it was written, up to the widths of its fields. -/
theorem ZnsDumpHeader.ofBytes_bytes (h : ZnsDumpHeader) : ofBytes h.bytes = {
    magic := h.magic % 256 ^ 4, nrZones := h.nrZones % 256 ^ 4, zoneSize := h.zoneSize % 256 ^ 4
    nchs := h.nchs % 256 ^ 4, lunsPerCh := h.lunsPerCh % 256 ^ 4
    zrwaBufEn := h.zrwaBufEn % 256 ^ 1, zoneWbEn := h.zoneWbEn % 256 ^ 1 } := by
  unfold ofBytes ZnsDumpHeader.bytes
  simp (disch := omega) only [drop_leBytes_append, take_leBytes_append, leNat_leBytes, Nat.reduceSub,
    List.drop_zero]

theorem ZnsDumpHeader.length_bytes (h : ZnsDumpHeader) : h.bytes.length = znsDumpHeaderSize := by
  unfold ZnsDumpHeader.bytes
  simp only [List.length_append, length_leBytes, List.length_cons, List.length_nil]
  rfl

namespace ZnsDevice

variable {calls : FileCalls} {fuel : ℕ} {d e : ZnsDevice}

/-- **A device with the parameters of another one,** in any state. -/
structure Twin (d e : ZnsDevice) : Prop where
  zp : e.zp = d.zp
  sp : e.sp = d.sp
  storageSize : e.storageSize = d.storageSize
  zoneDescs : e.zoneDescs.length = zoneDescriptorSize * d.zp.nrZones
  resInfos : e.resInfos.length = resInfosSize

/-- The header `save_zns_device` writes, as it is read. -/
theorem header_passes (hd : d.Snapshotable) (ht : Twin d e) :
    e.HeaderPasses (ZnsDumpHeader.ofBytes d.header.bytes) := by
  have hn := hd.nrZones
  have hz := hd.zoneSize
  rw [ZnsDumpHeader.ofBytes_bytes]
  refine ⟨rfl, ?_, ?_⟩
  · rw [ht.zp]
    exact Nat.mod_eq_of_lt (show d.zp.nrZones < 256 ^ 4 by omega)
  · rw [ht.zp]
    exact Nat.mod_eq_of_lt (show d.zp.zoneSize < 256 ^ 4 by omega)

theorem header_zrwaBufEn (d : ZnsDevice) :
    (ZnsDumpHeader.ofBytes d.header.bytes).zrwaBufEn = d.header.zrwaBufEn := by
  rw [ZnsDumpHeader.ofBytes_bytes]
  unfold header
  dsimp only
  split_ifs <;> rfl

theorem header_zoneWbEn (d : ZnsDevice) :
    (ZnsDumpHeader.ofBytes d.header.bytes).zoneWbEn = d.header.zoneWbEn := by
  rw [ZnsDumpHeader.ofBytes_bytes]
  unfold header
  dsimp only
  split_ifs <;> rfl

end ZnsDevice

namespace ZnsLoad

variable {calls : FileCalls} {fuel : ℕ} {d : ZnsDevice}

/-- The loop over an optional section. -/
theorem readRemaining_done (h : calls.Transfers) {remaining : ℕ → ℕ} {zones : List ℕ}
    (hlt : ∀ i ∈ zones, remaining i < 2 ^ 64) {rest : List UInt8} (s : OpenFile × (ℕ → ℕ))
    (hs : s.1.bytes = ZnsDevice.remainingBytes remaining zones ++ rest) :
    (zones.foldl (readRemaining calls) s).1.bytes = rest ∧
      ∀ i, (zones.foldl (readRemaining calls) s).2 i = if i ∈ zones then remaining i else s.2 i := by
  induction zones generalizing s with
  | nil => exact ⟨hs, fun i => (if_neg (by simp)).symm⟩
  | cons z zones ih =>
    have hs' : s.1.bytes = leBytes 8 (remaining z) ++
        (ZnsDevice.remainingBytes remaining zones ++ rest) := by
      rw [hs]
      unfold ZnsDevice.remainingBytes
      rw [List.flatMap_cons, List.append_assoc]
    obtain ⟨o', hread, hbytes⟩ := h.kernelRead_append s.1 (length_leBytes 8 (remaining z)) hs'
    have hstep : readRemaining calls s z = (o', Function.update s.2 z (remaining z)) := by
      unfold readRemaining
      rw [hread]
      dsimp only
      rw [overlay_of_length (by simp), leNat_leBytes_of_lt (hlt z (by simp))]
    rw [List.foldl_cons, hstep]
    obtain ⟨hb, hr⟩ := ih (fun i hi => hlt i (List.mem_cons_of_mem z hi))
      (o', Function.update s.2 z (remaining z)) hbytes
    refine ⟨hb, fun i => ?_⟩
    rw [hr]
    dsimp only
    by_cases hi : i ∈ zones
    · rw [if_pos hi, if_pos (List.mem_cons_of_mem z hi)]
    · rw [if_neg hi]
      by_cases hiz : i = z
      · subst hiz
        rw [Function.update_self, if_pos (by simp)]
      · rw [Function.update_of_ne hiz, if_neg (by simp [hi, hiz])]

/-- One round of the loop over the chunks, on the chunk of a zone. -/
theorem loadChunks_chunk (h : calls.Transfers) (hfuel : 2 ^ 32 ≤ fuel) {z : ℕ} (hz : z < d.zp.nrZones)
    (hn : d.zp.nrZones < 2 ^ 31) (hlen : d.byteLen z < 2 ^ 32) (rounds : ℕ) (s : ZnsLoad)
    (hzp : s.dev.zp = d.zp) {rest : List UInt8}
    (hs : s.file.bytes = leBytes 4 z ++ (leBytes 8 (d.byteLen z) ++
      (readBytes d.storage (d.storageAddr z) (d.dataLen z) ++ rest))) :
    ∃ s₁, loadChunks calls fuel (rounds + 1) s = loadChunks calls fuel rounds s₁ ∧
      s₁.dev = { s.dev with
        storage := writeBytes s.dev.storage (d.storageAddr z)
          (readBytes d.storage (d.storageAddr z) (d.dataLen z)) } ∧
      s₁.file.bytes = rest := by
  obtain ⟨o₁, hread₁, hb₁⟩ := h.kernelRead_append s.file (length_leBytes 4 z) hs
  obtain ⟨o₂, hread₂, hb₂⟩ := h.kernelRead_append o₁ (length_leBytes 8 (d.byteLen z)) hb₁
  have haddr : s.dev.storageAddr z = d.storageAddr z := by
    unfold ZnsDevice.storageAddr
    rw [hzp]
  obtain ⟨s', hs', hmem, hbytes⟩ := h.copyIn_whole hlen z (d.storageAddr z) fuel (by omega)
    (length_readBytes _ _ _) { file := o₂, mem := s.dev.storage } hb₂
  refine ⟨⟨{ s.dev with storage := s'.mem }, s'.file⟩, ?_, by rw [hmem]; rfl, hbytes⟩
  have hzid : leNat (overlay (leBytes 4 0) (leBytes 4 z)) = z := by
    rw [overlay_of_length (by simp), leNat_leBytes_of_lt (by omega)]
  have hblen : leNat (overlay (leBytes 8 0) (leBytes 8 (d.byteLen z))) = d.byteLen z := by
    rw [overlay_of_length (by simp), leNat_leBytes_of_lt (by omega)]
  have hsent : ¬ (((4 : ℕ) : ℤ) ≤ 0 ∨ z = znsZoneSentinel) := by
    unfold znsZoneSentinel
    omega
  rw [loadChunks, hread₁]
  simp only
  rw [hzid, if_neg hsent, if_neg (by rw [hzp]; omega), hread₂]
  simp only
  rw [hblen, haddr, hs']

/-- **The loop over the chunks** leaves in the storage what the chunks have. -/
theorem loadChunks_done (h : calls.Transfers) (hfuel : 2 ^ 32 ≤ fuel) (hn : d.zp.nrZones < 2 ^ 31)
    {zones : List ℕ} (hz : ∀ z ∈ zones, z < d.zp.nrZones)
    (hlen : ∀ z ∈ zones, d.byteLen z < 2 ^ 32) {rounds : ℕ} (hrounds : zones.length < rounds)
    (s : ZnsLoad) (hzp : s.dev.zp = d.zp)
    (hs : s.file.bytes = zones.flatMap d.chunk ++ leBytes 4 znsZoneSentinel) :
    ∃ s', loadChunks calls fuel rounds s = (s', .done) ∧
      s'.dev = { s.dev with storage := s'.dev.storage } ∧
      ∀ x, s'.dev.storage x =
        if ∃ z ∈ zones, d.Covers z x then d.storage x else s.dev.storage x := by
  induction zones generalizing rounds s with
  | nil =>
    obtain ⟨rounds, rfl⟩ := Nat.exists_eq_add_one_of_ne_zero (show rounds ≠ 0 by omega)
    obtain ⟨o, hread, -⟩ := h.kernelRead_append s.file (length_leBytes 4 znsZoneSentinel)
      (by rw [hs, List.append_nil]; rfl)
    have hzid : leNat (overlay (leBytes 4 0) (leBytes 4 znsZoneSentinel)) = znsZoneSentinel := by
      rw [overlay_of_length (by simp), leNat_leBytes_of_lt (by unfold znsZoneSentinel; omega)]
    refine ⟨{ s with file := o }, ?_, rfl, fun x => (if_neg (by simp)).symm⟩
    rw [loadChunks, hread]
    simp only
    rw [if_pos (.inr hzid)]
  | cons z zones ih =>
    have htail := fun (i : ℕ) (hi : i ∈ zones) => List.mem_cons_of_mem z hi
    rw [List.length_cons] at hrounds
    by_cases hsaved : d.Saved z
    · have hchunk : d.chunk z = leBytes 4 z ++ (leBytes 8 (d.byteLen z) ++
          readBytes d.storage (d.storageAddr z) (d.dataLen z)) := if_pos hsaved
      obtain ⟨rounds, rfl⟩ := Nat.exists_eq_add_one_of_ne_zero (show rounds ≠ 0 by omega)
      have hfirst : s.file.bytes = leBytes 4 z ++ (leBytes 8 (d.byteLen z) ++
          (readBytes d.storage (d.storageAddr z) (d.dataLen z) ++
            (zones.flatMap d.chunk ++ leBytes 4 znsZoneSentinel))) := by
        rw [hs, List.flatMap_cons, hchunk]
        simp only [List.append_assoc]
      obtain ⟨s₁, hstep, hdev₁, hb⟩ := loadChunks_chunk h hfuel (hz z (by simp)) hn
        (hlen z (by simp)) rounds s hzp hfirst
      obtain ⟨s', hs', hdev, hst⟩ := ih (fun i hi => hz i (htail i hi))
        (fun i hi => hlen i (htail i hi)) (show zones.length < rounds by omega) s₁
        (by rw [hdev₁]; exact hzp) hb
      refine ⟨s', hstep.trans hs', by rw [hdev, hdev₁], fun x => ?_⟩
      rw [hst, hdev₁]
      dsimp only
      rw [writeBytes_readBytes]
      by_cases hx : ∃ i ∈ zones, d.Covers i x
      · obtain ⟨i, hi, hc⟩ := hx
        rw [if_pos ⟨i, hi, hc⟩, if_pos ⟨i, htail i hi, hc⟩]
      · rw [if_neg hx]
        by_cases hzx : d.Covers z x
        · rw [if_pos hzx.2, if_pos ⟨z, by simp, hzx⟩]
        · rw [if_neg fun hr => hzx ⟨hsaved, hr⟩, if_neg]
          rintro ⟨i, hi, hc⟩
          rcases List.mem_cons.1 hi with rfl | hi
          · exact hzx hc
          · exact hx ⟨i, hi, hc⟩
    · have hchunk : d.chunk z = [] := if_neg hsaved
      obtain ⟨s', hs', hdev, hst⟩ := ih (fun i hi => hz i (htail i hi))
        (fun i hi => hlen i (htail i hi)) (show zones.length < rounds by omega) s hzp (by
          rw [hs, List.flatMap_cons, hchunk, List.nil_append])
      refine ⟨s', hs', hdev, fun x => ?_⟩
      rw [hst]
      refine if_congr ?_ rfl rfl
      constructor
      · rintro ⟨i, hi, hc⟩
        exact ⟨i, htail i hi, hc⟩
      · rintro ⟨i, hi, hc⟩
        rcases List.mem_cons.1 hi with rfl | hi
        · exact absurd hc.1 hsaved
        · exact ⟨i, hi, hc⟩

variable {e : ZnsDevice}

/-- The storage of `e` after `memset_io`. -/
def cleared (e : ZnsDevice) (x : ℕ) : UInt8 := if x < e.storageSize then 0 else e.storage x

/-- The descriptors and the counters are read. -/
theorem loadArrays_done (h : calls.Transfers) (hd : d.Snapshotable) (ht : d.Twin e) {s : ZnsLoad}
    (hdev : s.dev = e) {rest : List UInt8}
    (hs : s.file.bytes = d.zoneDescs ++ (d.resInfos ++ rest)) :
    (s.loadArrays calls).dev =
        { e with zoneDescs := d.zoneDescs, resInfos := d.resInfos, storage := cleared e } ∧
      (s.loadArrays calls).file.bytes = rest := by
  have hzp : s.clearStorage.dev.zp = d.zp := by
    show s.dev.zp = d.zp
    rw [hdev, ht.zp]
  have hlen : d.zoneDescs.length = zoneDescriptorSize * s.clearStorage.dev.zp.nrZones := by
    rw [hzp]
    exact hd.zoneDescs
  obtain ⟨o₁, hread₁, hb₁⟩ := h.kernelRead_append s.clearStorage.file hlen hs
  obtain ⟨o₂, hread₂, hb₂⟩ := h.kernelRead_append o₁ hd.resInfos hb₁
  have h₁ : s.clearStorage.loadZoneDescs calls =
      ⟨{ s.clearStorage.dev with zoneDescs := d.zoneDescs }, o₁⟩ := by
    unfold loadZoneDescs
    rw [hread₁]
    simp only
    rw [overlay_of_length]
    show s.dev.zoneDescs.length = _
    rw [hdev, ht.zoneDescs, hd.zoneDescs]
  have h₂ : s.loadArrays calls =
      ⟨{ s.clearStorage.dev with zoneDescs := d.zoneDescs, resInfos := d.resInfos }, o₂⟩ := by
    unfold loadArrays
    rw [h₁]
    unfold loadResInfos
    simp only
    rw [hread₂]
    simp only
    rw [overlay_of_length]
    show s.dev.resInfos.length = _
    rw [hdev, ht.resInfos, hd.resInfos]
  rw [h₂]
  refine ⟨?_, hb₂⟩
  subst hdev
  rfl

/-- The loop over an optional section reads what the loop that saved it wrote. -/
theorem readRemaining_range (h : calls.Transfers) (hd : d.Snapshotable) {remaining : ℕ → ℕ}
    (hlt : ∀ i, i < d.zp.nrZones → remaining i < 2 ^ 64) {rest : List UInt8} {o : OpenFile}
    (old : ℕ → ℕ) (ho : o.bytes =
      ZnsDevice.remainingBytes remaining (List.range d.zoneRounds) ++ rest) :
    ∃ o' r, (List.range d.zoneRounds).foldl (readRemaining calls) (o, old) = (o', r) ∧
      o'.bytes = rest ∧ ∀ i, i < d.zp.nrZones → r i = remaining i := by
  rw [hd.zoneRounds] at ho ⊢
  obtain ⟨hb, hr⟩ := readRemaining_done h (fun i hi => hlt i (List.mem_range.1 hi)) (o, old) ho
  exact ⟨_, _, rfl, hb, fun i hi => by rw [hr, if_pos (List.mem_range.2 hi)]⟩

/-- The section for the random write areas is read. -/
theorem loadZwraIf_done (h : calls.Transfers) (hd : d.Snapshotable) {s : ZnsLoad}
    (hzp : s.dev.zp = d.zp) {hdr : ZnsDumpHeader} (hhdr : hdr.zrwaBufEn = d.header.zrwaBufEn)
    {rest : List UInt8}
    (hs : s.file.bytes = (if d.header.zrwaBufEn ≠ 0 then
      ZnsDevice.remainingBytes d.zwraRemaining (List.range d.zoneRounds) else []) ++ rest) :
    ∃ r o, s.loadZwraIf calls hdr = ⟨{ s.dev with zwraRemaining := r }, o⟩ ∧ o.bytes = rest ∧
      (d.header.zrwaBufEn ≠ 0 → ∀ i, i < d.zp.nrZones → r i = d.zwraRemaining i) := by
  have hrounds : s.dev.zoneRounds = d.zoneRounds := by
    unfold ZnsDevice.zoneRounds
    rw [hzp]
  unfold loadZwraIf
  rw [hhdr]
  by_cases hen : d.header.zrwaBufEn ≠ 0
  · rw [if_pos hen] at hs ⊢
    obtain ⟨o, r, hfold, hb, hr⟩ := readRemaining_range h hd hd.zwra s.dev.zwraRemaining hs
    refine ⟨r, o, ?_, hb, fun _ => hr⟩
    unfold loadZwra
    rw [hrounds, hfold]
  · rw [if_neg hen] at hs ⊢
    exact ⟨s.dev.zwraRemaining, s.file, rfl, hs, fun hc => absurd hc hen⟩

/-- The section for the write buffers of the zones is read. -/
theorem loadZoneWbIf_done (h : calls.Transfers) (hd : d.Snapshotable) {s : ZnsLoad}
    (hzp : s.dev.zp = d.zp) {hdr : ZnsDumpHeader} (hhdr : hdr.zoneWbEn = d.header.zoneWbEn)
    {rest : List UInt8}
    (hs : s.file.bytes = (if d.header.zoneWbEn ≠ 0 then
      ZnsDevice.remainingBytes d.zoneWbRemaining (List.range d.zoneRounds) else []) ++ rest) :
    ∃ r o, s.loadZoneWbIf calls hdr = ⟨{ s.dev with zoneWbRemaining := r }, o⟩ ∧ o.bytes = rest ∧
      (d.header.zoneWbEn ≠ 0 → ∀ i, i < d.zp.nrZones → r i = d.zoneWbRemaining i) := by
  have hrounds : s.dev.zoneRounds = d.zoneRounds := by
    unfold ZnsDevice.zoneRounds
    rw [hzp]
  unfold loadZoneWbIf
  rw [hhdr]
  by_cases hen : d.header.zoneWbEn ≠ 0
  · rw [if_pos hen] at hs ⊢
    obtain ⟨o, r, hfold, hb, hr⟩ := readRemaining_range h hd hd.zoneWb s.dev.zoneWbRemaining hs
    refine ⟨r, o, ?_, hb, fun _ => hr⟩
    unfold loadZoneWb
    rw [hrounds, hfold]
  · rw [if_neg hen] at hs ⊢
    exact ⟨s.dev.zoneWbRemaining, s.file, rfl, hs, fun hc => absurd hc hen⟩

end ZnsLoad

namespace ZnsDevice

variable {calls : FileCalls} {fuel : ℕ} {d e : ZnsDevice}

/-- What a device has of another one after a snapshot of it was loaded, but for the storage and the
write buffer of the SSD. -/
structure Restored (d e : ZnsDevice) : Prop where
  zoneDescs : e.zoneDescs = d.zoneDescs
  resInfos : e.resInfos = d.resInfos
  zwra : 0 < d.zp.zrwaBufferSize → ∀ z, z < d.zp.nrZones → e.zwraRemaining z = d.zwraRemaining z
  zoneWb : 0 < d.zp.zoneWbSize → ∀ z, z < d.zp.nrZones → e.zoneWbRemaining z = d.zoneWbRemaining z

/-- **`load_zns_device` reads the snapshot.**  Of the storage it restores what the chunks have; the
rest is zero. -/
theorem loadZnsDevice_snapshot (h : calls.Transfers) (hd : d.Snapshotable) (ht : d.Twin e)
    (hfuel : 2 ^ 32 ≤ fuel) {stack : List UInt8} (hstack : stack.length = znsDumpHeaderSize) :
    ∃ s, e.loadZnsDevice calls fuel stack (.ok d.snapshot) = (s, .returns 0) ∧
      d.Restored s.dev ∧ s.dev.writeBufferRemaining = e.writeBufferRemaining ∧
      ∀ x, s.dev.storage x =
        if ∃ z ∈ List.range d.zp.nrZones, d.Covers z x then d.storage x
        else if x < d.storageSize then 0 else e.storage x := by
  set hdr := ZnsDumpHeader.ofBytes d.header.bytes with hhdr
  obtain ⟨o, hread, hb⟩ := h.kernelRead_append { bytes := d.snapshot } d.header.length_bytes
    (show d.snapshot = d.header.bytes ++ _ from rfl)
  have hheader : e.loadHeader calls stack d.snapshot = (hdr, ⟨e, o⟩) := by
    unfold loadHeader
    rw [hread]
    simp only
    rw [overlay_of_length (by rw [hstack, ZnsDumpHeader.length_bytes])]
  obtain ⟨hdev₁, hb₁⟩ := ZnsLoad.loadArrays_done h hd ht (s := ⟨e, o⟩) rfl hb
  have hzp₁ : (ZnsLoad.loadArrays calls ⟨e, o⟩).dev.zp = d.zp := by
    rw [hdev₁]
    exact ht.zp
  unfold buffersBytes at hb₁
  rw [List.append_assoc] at hb₁
  obtain ⟨r, o₂, h₂, hb₂, hr⟩ := ZnsLoad.loadZwraIf_done h hd hzp₁ (header_zrwaBufEn d) hb₁
  have hzp₂ : (ZnsLoad.loadZwraIf calls (ZnsLoad.loadArrays calls ⟨e, o⟩) hdr).dev.zp = d.zp := by
    rw [h₂]
    exact hzp₁
  obtain ⟨r', o₃, h₃, hb₃, hr'⟩ := ZnsLoad.loadZoneWbIf_done h hd hzp₂ (header_zoneWbEn d)
    (by rw [h₂]; exact hb₂)
  have hzones : ∀ z ∈ List.range d.zoneRounds, z < d.zp.nrZones := fun z hz => by
    rw [← hd.zoneRounds]
    exact List.mem_range.1 hz
  obtain ⟨s, hs, hdev, hst⟩ := ZnsLoad.loadChunks_done h hfuel hd.nrZones hzones
    (fun z hz => hd.byteLen z (hzones z hz))
    (show (List.range d.zoneRounds).length < fuel by
      have := hd.nrZones
      rw [List.length_range, hd.zoneRounds]
      omega)
    (ZnsLoad.loadZoneWbIf calls (ZnsLoad.loadZwraIf calls (ZnsLoad.loadArrays calls ⟨e, o⟩) hdr) hdr)
    (by rw [h₃]; exact hzp₂) (by rw [h₃]; exact hb₃)
  have hbuffered : ¬ (ZnsLoad.loadArrays calls ⟨e, o⟩).Unbuffered hdr := by
    rintro ⟨-, ⟨hen, hsize⟩ | ⟨hen, hsize⟩⟩
    · rw [header_zrwaBufEn] at hen
      rw [hzp₁] at hsize
      exact hen (if_neg (by omega))
    · rw [header_zoneWbEn] at hen
      rw [hzp₁] at hsize
      exact hen (if_neg (by omega))
  have hload : e.loadZnsDevice calls fuel stack (.ok d.snapshot) = (s.fillReport, .returns 0) := by
    rw [loadZnsDevice, hheader]
    simp only
    rw [if_pos (header_passes hd ht), ZnsLoad.loadSections, if_neg hbuffered, hs, ZnsLoad.finish]
  rw [h₃, h₂, hdev₁] at hdev
  rw [h₃, h₂, hdev₁, hd.zoneRounds] at hst
  refine ⟨_, hload, ⟨?_, ?_, fun hsize => ?_, fun hsize => ?_⟩, ?_, fun x => ?_⟩
  · show s.dev.zoneDescs = _
    rw [hdev]
  · show s.dev.resInfos = _
    rw [hdev]
  · show ∀ z, _ → s.dev.zwraRemaining z = _
    rw [hdev]
    exact hr (by unfold header; simp only; rw [if_pos hsize]; exact one_ne_zero)
  · show ∀ z, _ → s.dev.zoneWbRemaining z = _
    rw [hdev]
    exact hr' (by unfold header; simp only; rw [if_pos hsize]; exact one_ne_zero)
  · show s.dev.writeBufferRemaining = _
    rw [hdev]
  · show s.dev.storage x = _
    rw [hst]
    simp only [ZnsLoad.cleared, ht.storageSize]

end ZnsDevice

end NvmeVirt
