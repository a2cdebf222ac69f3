/-
# Loading that fails

`load_zns_device` opens the file and looks at the header first; but a chunk for a
zone the device does not have, or a read of zone data that fails, makes it return
when the storage is cleared and the arrays are overwritten.
-/

import NvmeVirt.Zns.SnapshotChecks

namespace NvmeVirt

open LittleEndian Outcome

variable {calls : FileCalls} {fuel : ℕ}

/-! ### Copy loops that read -/

section

variable {goes : ℤ → Prop} [DecidablePred goes] {checked : Bool} {owner dst total : ℕ}

/-- One round of a copy loop. -/
theorem copyLoop_succ (call : ℤ → Copying → Copying × ℤ) (rounds : ℕ) (cur : ℤ) (s : Copying) :
    copyLoop goes checked call (rounds + 1) cur s =
      if ¬ goes cur then (s, .done)
      else if checked ∧ (call cur s).2 < 0 then ((call cur s).1, .failed (call cur s).2)
      else copyLoop goes checked call rounds (asInt (cur + (call cur s).2))
        { (call cur s).1 with
          file.cursors := (call cur s).1.file.cursors ++ [asInt (cur + (call cur s).2)] } := rfl

/-- Which bytes are read, and how the loop is left, does not depend on the memory. -/
theorem copyLoop_copyIn_mem (rounds : ℕ) (cur : ℤ) (s : Copying) (m : Mem) :
    (copyLoop goes checked (copyIn calls owner dst total) rounds cur ⟨s.file, m⟩).1.file =
        (copyLoop goes checked (copyIn calls owner dst total) rounds cur s).1.file ∧
      (copyLoop goes checked (copyIn calls owner dst total) rounds cur ⟨s.file, m⟩).2 =
        (copyLoop goes checked (copyIn calls owner dst total) rounds cur s).2 := by
  induction rounds generalizing cur s m with
  | zero => exact ⟨rfl, rfl⟩
  | succ rounds ih =>
    have hfile : (copyIn calls owner dst total cur ⟨s.file, m⟩).1.file =
        (copyIn calls owner dst total cur s).1.file := rfl
    have hret : (copyIn calls owner dst total cur ⟨s.file, m⟩).2 =
        (copyIn calls owner dst total cur s).2 := rfl
    rw [copyLoop_succ, copyLoop_succ, hret, hfile]
    by_cases hgo : goes cur
    · rw [if_neg (not_not.2 hgo), if_neg (not_not.2 hgo)]
      by_cases hneg : checked ∧ (copyIn calls owner dst total cur s).2 < 0
      · rw [if_pos hneg, if_pos hneg]
        exact ⟨hfile, rfl⟩
      · rw [if_neg hneg, if_neg hneg]
        exact ih _ { (copyIn calls owner dst total cur s).1 with
          file.cursors := (copyIn calls owner dst total cur s).1.file.cursors ++
            [asInt (cur + (copyIn calls owner dst total cur s).2)] } _
    · rw [if_pos hgo, if_pos hgo]
      exact ⟨rfl, rfl⟩

/-- A loop never puts bytes back. -/
theorem copyLoop_copyIn_length (rounds : ℕ) (cur : ℤ) (s : Copying) :
    (copyLoop goes checked (copyIn calls owner dst total) rounds cur s).1.file.bytes.length ≤
      s.file.bytes.length := by
  induction rounds generalizing cur s with
  | zero => exact le_rfl
  | succ rounds ih =>
    have hcall : (copyIn calls owner dst total cur s).1.file.bytes.length ≤ s.file.bytes.length := by
      unfold copyIn
      simp
    rw [copyLoop_succ]
    by_cases hgo : goes cur
    · rw [if_neg (not_not.2 hgo)]
      by_cases hneg : checked ∧ (copyIn calls owner dst total cur s).2 < 0
      · rw [if_pos hneg]
        exact hcall
      · rw [if_neg hneg]
        exact (ih _ _).trans hcall
    · rw [if_pos hgo]

/-- The error handed on is negative. -/
theorem copyLoop_failed_neg {call : ℤ → Copying → Copying × ℤ} (rounds : ℕ) (cur : ℤ)
    (s : Copying) {ret : ℤ} (h : (copyLoop goes checked call rounds cur s).2 = .failed ret) :
    ret < 0 := by
  induction rounds generalizing cur s with
  | zero => cases h
  | succ rounds ih =>
    rw [copyLoop_succ] at h
    by_cases hgo : goes cur
    · rw [if_neg (not_not.2 hgo)] at h
      by_cases hneg : checked ∧ (call cur s).2 < 0
      · rw [if_pos hneg] at h
        cases h
        exact hneg.2
      · rw [if_neg hneg] at h
        exact ih _ _ h
    · rw [if_pos hgo] at h
      cases h

end

/-- A section that is read takes bytes off the file and puts none back. -/
theorem OpenFile.length_kernelRead (calls : FileCalls) (o : OpenFile) (size : ℕ) :
    (o.kernelRead calls size).1.bytes.length ≤ o.bytes.length := by
  unfold OpenFile.kernelRead
  simp

/-- A call that returns a positive number has taken bytes off the file. -/
theorem OpenFile.length_kernelRead_lt (o : OpenFile) (size : ℕ)
    (h : 0 < (o.kernelRead calls size).2.2) :
    (o.kernelRead calls size).1.bytes.length < o.bytes.length := by
  have hle := calls.single_le o.singles (min size o.bytes.length)
  unfold OpenFile.kernelRead at h ⊢
  simp only [List.length_drop] at h ⊢
  omega

namespace ZnsLoad

variable (calls) (s : ZnsLoad) (hdr : ZnsDumpHeader)

/-- The arrays are read off the file. -/
theorem length_loadArrays : (s.loadArrays calls).file.bytes.length ≤ s.file.bytes.length :=
  (OpenFile.length_kernelRead calls _ _).trans (OpenFile.length_kernelRead calls _ _)

/-- The rounds over the buffers read off the file. -/
theorem length_readRemaining (zones : List ℕ) (r : OpenFile × (ℕ → ℕ)) :
    (zones.foldl (readRemaining calls) r).1.bytes.length ≤ r.1.bytes.length := by
  induction zones generalizing r with
  | nil => exact le_rfl
  | cons i zones ih => exact (ih _).trans (OpenFile.length_kernelRead calls _ _)

theorem length_loadZwraIf : (s.loadZwraIf calls hdr).file.bytes.length ≤ s.file.bytes.length := by
  obtain ⟨n, hn⟩ : ∃ n, s.dev.zoneRounds = n := ⟨_, rfl⟩
  unfold loadZwraIf loadZwra
  rw [hn]
  split_ifs
  · exact length_readRemaining calls (List.range n) (s.file, s.dev.zwraRemaining)
  · exact le_rfl

theorem length_loadZoneWbIf :
    (s.loadZoneWbIf calls hdr).file.bytes.length ≤ s.file.bytes.length := by
  obtain ⟨n, hn⟩ : ∃ n, s.dev.zoneRounds = n := ⟨_, rfl⟩
  unfold loadZoneWbIf loadZoneWb
  rw [hn]
  split_ifs
  · exact length_readRemaining calls (List.range n) (s.file, s.dev.zoneWbRemaining)
  · exact le_rfl

end ZnsLoad

/-! ### Chunks the loader returns at -/

namespace ZnsDevice

/-- The loop that reads the data of the chunk of zone `zid`. -/
def chunkLoop (calls : FileCalls) (fuel : ℕ) (d : ZnsDevice) (zid byteLen : ℕ) (s : Copying) :
    Copying × LoopEnd :=
  copyLoop (fun cur => cur < asInt byteLen) true (copyIn calls zid (d.storageAddr zid) byteLen)
    fuel 0 s

/-- Which bytes it reads, and how it is left, does not depend on the memory. -/
theorem chunkLoop_mem (calls : FileCalls) (fuel : ℕ) (d : ZnsDevice) (zid byteLen : ℕ)
    (s : Copying) (m : Mem) :
    (d.chunkLoop calls fuel zid byteLen ⟨s.file, m⟩).1.file =
        (d.chunkLoop calls fuel zid byteLen s).1.file ∧
      (d.chunkLoop calls fuel zid byteLen ⟨s.file, m⟩).2 =
        (d.chunkLoop calls fuel zid byteLen s).2 :=
  copyLoop_copyIn_mem fuel 0 s m

theorem chunkLoop_length (calls : FileCalls) (fuel : ℕ) (d : ZnsDevice) (zid byteLen : ℕ)
    (s : Copying) :
    (d.chunkLoop calls fuel zid byteLen s).1.file.bytes.length ≤ s.file.bytes.length :=
  copyLoop_copyIn_length fuel 0 s

/-- **Some chunk of the file is bad:** it is for a zone the device does not have, or a read of its
data fails. -/
inductive BadChunk (calls : FileCalls) (fuel : ℕ) (d : ZnsDevice) : OpenFile → Prop
  | zone {o o₁ : OpenFile} {got : List UInt8} {ret : ℤ} : o.kernelRead calls 4 = (o₁, got, ret) →
      0 < ret → leNat (overlay (leBytes 4 0) got) ≠ znsZoneSentinel →
      d.zp.nrZones ≤ leNat (overlay (leBytes 4 0) got) → BadChunk calls fuel d o
  | data {o o₁ o₂ : OpenFile} {got len : List UInt8} {ret ret' e : ℤ} {m : Mem} {c : Copying} :
      o.kernelRead calls 4 = (o₁, got, ret) → 0 < ret →
      leNat (overlay (leBytes 4 0) got) ≠ znsZoneSentinel →
      leNat (overlay (leBytes 4 0) got) < d.zp.nrZones → o₁.kernelRead calls 8 = (o₂, len, ret') →
      d.chunkLoop calls fuel (leNat (overlay (leBytes 4 0) got))
        (leNat (overlay (leBytes 8 0) len)) ⟨o₂, m⟩ = (c, .failed e) → BadChunk calls fuel d o
  | next {o o₁ o₂ : OpenFile} {got len : List UInt8} {ret ret' : ℤ} {m : Mem} {c : Copying} :
      o.kernelRead calls 4 = (o₁, got, ret) → 0 < ret →
      leNat (overlay (leBytes 4 0) got) ≠ znsZoneSentinel →
      leNat (overlay (leBytes 4 0) got) < d.zp.nrZones → o₁.kernelRead calls 8 = (o₂, len, ret') →
      d.chunkLoop calls fuel (leNat (overlay (leBytes 4 0) got))
        (leNat (overlay (leBytes 8 0) len)) ⟨o₂, m⟩ = (c, .done) → BadChunk calls fuel d c.file →
      BadChunk calls fuel d o

/-- The first chunk is for a zone the device does not have. -/
theorem BadChunk.of_zone {d : ZnsDevice} {o : OpenFile} (hret : 0 < (o.kernelRead calls 4).2.2)
    (hsent : leNat (overlay (leBytes 4 0) (o.kernelRead calls 4).2.1) ≠ znsZoneSentinel)
    (hzid : d.zp.nrZones ≤ leNat (overlay (leBytes 4 0) (o.kernelRead calls 4).2.1)) :
    d.BadChunk calls fuel o := by
  obtain ⟨⟨o₁, got, ret⟩, h4⟩ : ∃ r, o.kernelRead calls 4 = r := ⟨_, rfl⟩
  rw [h4] at hret hsent hzid
  exact .zone h4 hret hsent hzid

end ZnsDevice

namespace ZnsLoad

variable {d : ZnsDevice} {s : ZnsLoad} {rounds : ℕ}

/-- One round of the loop over the chunks. -/
theorem loadChunks_round {o₁ o₂ : OpenFile} {got len : List UInt8} {ret ret' : ℤ}
    (hzp : s.dev.zp = d.zp) (h4 : s.file.kernelRead calls 4 = (o₁, got, ret))
    (h8 : o₁.kernelRead calls 8 = (o₂, len, ret')) :
    loadChunks calls fuel (rounds + 1) s =
      if ret ≤ 0 ∨ leNat (overlay (leBytes 4 0) got) = znsZoneSentinel then (⟨s.dev, o₁⟩, .done)
      else if d.zp.nrZones ≤ leNat (overlay (leBytes 4 0) got) then
        (⟨s.dev, o₁⟩, .failed (-einval))
      else
        let r := d.chunkLoop calls fuel (leNat (overlay (leBytes 4 0) got))
          (leNat (overlay (leBytes 8 0) len)) ⟨o₂, s.dev.storage⟩
        if r.2 = .done then
          loadChunks calls fuel rounds ⟨{ s.dev with storage := r.1.mem }, r.1.file⟩
        else (⟨{ s.dev with storage := r.1.mem }, r.1.file⟩, r.2) := by
  have haddr : s.dev.storageAddr (leNat (overlay (leBytes 4 0) got)) =
      d.storageAddr (leNat (overlay (leBytes 4 0) got)) := by
    unfold ZnsDevice.storageAddr
    rw [hzp]
  rw [loadChunks, h4]
  simp only [h8, hzp, haddr]
  obtain ⟨⟨c, e⟩, hloop⟩ : ∃ r, d.chunkLoop calls fuel (leNat (overlay (leBytes 4 0) got))
    (leNat (overlay (leBytes 8 0) len)) ⟨o₂, s.dev.storage⟩ = r := ⟨_, rfl⟩
  unfold ZnsDevice.chunkLoop at hloop
  unfold ZnsDevice.chunkLoop
  rw [hloop]
  cases e <;> rfl

/-- **At a bad chunk the loader returns an error.** -/
theorem failed_of_badChunk {o : OpenFile} (hbad : d.BadChunk calls fuel o) (hzp : s.dev.zp = d.zp)
    (ho : s.file = o) (hrounds : o.bytes.length < rounds) :
    ∃ t e, loadChunks calls fuel rounds s = (t, .failed e) ∧ e < 0 := by
  induction hbad generalizing s rounds with
  | @zone o o₁ got ret h4 hret hsent hzid =>
    obtain ⟨k, rfl⟩ := Nat.exists_eq_add_one_of_ne_zero (show rounds ≠ 0 by omega)
    rw [loadChunks_round hzp (ho ▸ h4) rfl, if_neg fun h => h.elim (not_le.2 hret) hsent,
      if_pos hzid]
    exact ⟨_, _, rfl, by decide⟩
  | @data o o₁ o₂ got len ret ret' e m c h4 hret hsent hzid h8 hloop =>
    obtain ⟨k, rfl⟩ := Nat.exists_eq_add_one_of_ne_zero (show rounds ≠ 0 by omega)
    rw [loadChunks_round hzp (ho ▸ h4) h8, if_neg fun h => h.elim (not_le.2 hret) hsent,
      if_neg (not_le.2 hzid)]
    have hend := (d.chunkLoop_mem calls fuel (leNat (overlay (leBytes 4 0) got))
      (leNat (overlay (leBytes 8 0) len)) ⟨o₂, m⟩ s.dev.storage).2
    rw [hloop] at hend
    dsimp only at hend ⊢
    rw [hend, if_neg (by simp)]
    exact ⟨_, _, rfl, copyLoop_failed_neg fuel 0 _ (congrArg Prod.snd hloop)⟩
  | @next o o₁ o₂ got len ret ret' m c h4 hret hsent hzid h8 hloop hbad ih =>
    obtain ⟨k, rfl⟩ := Nat.exists_eq_add_one_of_ne_zero (show rounds ≠ 0 by omega)
    rw [loadChunks_round hzp (ho ▸ h4) h8, if_neg fun h => h.elim (not_le.2 hret) hsent,
      if_neg (not_le.2 hzid)]
    obtain ⟨hfile, hend⟩ := d.chunkLoop_mem calls fuel (leNat (overlay (leBytes 4 0) got))
      (leNat (overlay (leBytes 8 0) len)) ⟨o₂, m⟩ s.dev.storage
    rw [hloop] at hfile hend
    dsimp only at hfile hend ⊢
    rw [hend, if_pos rfl, hfile]
    refine ih hzp rfl ?_
    have h1 := o.length_kernelRead_lt 4 (by rw [h4]; exact hret)
    have h2 := o₁.length_kernelRead calls 8
    have h3 := d.chunkLoop_length calls fuel (leNat (overlay (leBytes 4 0) got))
      (leNat (overlay (leBytes 8 0) len)) ⟨o₂, m⟩
    rw [h4] at h1
    rw [h8] at h2
    rw [hloop] at h3
    dsimp only at h1 h2 h3
    omega

/-- The loader returns an error at a bad chunk only. -/
theorem badChunk_of_failed {e : ℤ} (hzp : s.dev.zp = d.zp)
    (h : (loadChunks calls fuel rounds s).2 = .failed e) : d.BadChunk calls fuel s.file := by
  induction rounds generalizing s with
  | zero => cases h
  | succ rounds ih =>
    obtain ⟨⟨o₁, got, ret⟩, h4⟩ : ∃ r, s.file.kernelRead calls 4 = r := ⟨_, rfl⟩
    obtain ⟨⟨o₂, len, ret'⟩, h8⟩ : ∃ r, o₁.kernelRead calls 8 = r := ⟨_, rfl⟩
    rw [loadChunks_round hzp h4 h8] at h
    by_cases hstop : ret ≤ 0 ∨ leNat (overlay (leBytes 4 0) got) = znsZoneSentinel
    · rw [if_pos hstop] at h
      cases h
    rw [if_neg hstop] at h
    have hret : 0 < ret := not_le.1 fun hle => hstop (.inl hle)
    have hsent : leNat (overlay (leBytes 4 0) got) ≠ znsZoneSentinel := fun hz => hstop (.inr hz)
    by_cases hzid : d.zp.nrZones ≤ leNat (overlay (leBytes 4 0) got)
    · exact .zone h4 hret hsent hzid
    rw [if_neg hzid] at h
    obtain ⟨⟨c, e'⟩, hloop⟩ : ∃ r, d.chunkLoop calls fuel (leNat (overlay (leBytes 4 0) got))
      (leNat (overlay (leBytes 8 0) len)) ⟨o₂, s.dev.storage⟩ = r := ⟨_, rfl⟩
    rw [hloop] at h
    dsimp only at h
    by_cases hdone : e' = .done
    · subst hdone
      rw [if_pos rfl] at h
      exact .next h4 hret hsent (not_le.1 hzid) h8 hloop
        (ih (s := ⟨{ s.dev with storage := c.mem }, c.file⟩) hzp h)
    · rw [if_neg hdone] at h
      dsimp only at h
      subst h
      exact .data h4 hret hsent (not_le.1 hzid) h8 hloop

/-- What the loader does behind the header does not depend on the storage. -/
theorem loadSections_storage (s : ZnsLoad) (m : Mem) (hdr : ZnsDumpHeader)
    (hm : ∀ x, s.dev.storageSize ≤ x → m x = s.dev.storage x) :
    loadSections calls fuel { s with dev.storage := m } hdr = loadSections calls fuel s hdr := by
  have hclear : ({ s with dev.storage := m } : ZnsLoad).clearStorage = s.clearStorage := by
    unfold clearStorage
    have : (fun a => if a < s.dev.storageSize then (0 : UInt8) else m a) =
        fun a => if a < s.dev.storageSize then 0 else s.dev.storage a := by
      funext x
      by_cases hx : x < s.dev.storageSize
      · rw [if_pos hx, if_pos hx]
      · rw [if_neg hx, if_neg hx, hm x (not_lt.1 hx)]
    simp only [this]
  unfold loadSections loadArrays
  rw [hclear]

end ZnsLoad

namespace ZnsDevice

variable (calls) (d : ZnsDevice) (stack bytes : List UInt8)

/-- The device once the sections before the chunks are read, and the file where its chunks
begin. -/
def beforeChunks : ZnsLoad :=
  ((((d.loadHeader calls stack bytes).2.loadArrays calls).loadZwraIf calls
    (d.loadHeader calls stack bytes).1).loadZoneWbIf calls (d.loadHeader calls stack bytes).1)

/-- **The loader gets past the header** of the file: it matches the device, and the device has the
buffers it announces. -/
def PastHeader : Prop :=
  d.HeaderPasses (d.loadHeader calls stack bytes).1 ∧
    ¬ (d.loadHeader calls stack bytes).2.Unbuffered (d.loadHeader calls stack bytes).1

/-- The sections leave the parameters alone and are read from the same places whatever the storage
holds. -/
theorem beforeChunks_with_storage (m : Mem) :
    (beforeChunks calls { d with storage := m } stack bytes).dev.zp = d.zp ∧
      (beforeChunks calls { d with storage := m } stack bytes).file =
        (beforeChunks calls d stack bytes).file := by
  unfold beforeChunks ZnsLoad.loadZoneWbIf ZnsLoad.loadZwraIf
  constructor
  · split_ifs <;> rfl
  · have hhdr : (loadHeader calls { d with storage := m } stack bytes).1 =
        (d.loadHeader calls stack bytes).1 := rfl
    rw [hhdr]
    split_ifs <;> rfl

/-- The sections take bytes off the file. -/
theorem beforeChunks_length :
    (d.beforeChunks calls stack bytes).file.bytes.length ≤ bytes.length := by
  have h₁ : (d.loadHeader calls stack bytes).2.file.bytes.length ≤ bytes.length :=
    OpenFile.length_kernelRead calls ⟨bytes, 0, 0, [], []⟩ _
  have h₂ := (d.loadHeader calls stack bytes).2.length_loadArrays calls
  have h₃ := ((d.loadHeader calls stack bytes).2.loadArrays calls).length_loadZwraIf calls
    (d.loadHeader calls stack bytes).1
  have h₄ := (((d.loadHeader calls stack bytes).2.loadArrays calls).loadZwraIf calls
    (d.loadHeader calls stack bytes).1).length_loadZoneWbIf calls
    (d.loadHeader calls stack bytes).1
  exact h₄.trans (h₃.trans (h₂.trans h₁))

variable {calls d stack bytes}

/-- The loader on a file that opens. -/
theorem loadZnsDevice_ok : loadZnsDevice calls fuel d stack (.ok bytes) =
    if d.HeaderPasses (d.loadHeader calls stack bytes).1 then
      (d.loadHeader calls stack bytes).2.loadSections calls fuel (d.loadHeader calls stack bytes).1
    else ((d.loadHeader calls stack bytes).2, .returns (-einval)) := rfl

/-- The loader behind the header of a file. -/
theorem loadZnsDevice_pastHeader (h : d.PastHeader calls stack bytes) :
    loadZnsDevice calls fuel d stack (.ok bytes) =
      ZnsLoad.finish (ZnsLoad.loadChunks calls fuel fuel (d.beforeChunks calls stack bytes)) := by
  rw [loadZnsDevice_ok, if_pos h.1]
  unfold ZnsLoad.loadSections
  exact if_neg h.2

/-- A loader that does not get past the header leaves the device as it is or has no meaning. -/
theorem loadZnsDevice_not_pastHeader (fuel : ℕ) (h : ¬ d.PastHeader calls stack bytes) :
    (loadZnsDevice calls fuel d stack (.ok bytes)).1.dev = d ∨
      (loadZnsDevice calls fuel d stack (.ok bytes)).2 = .undefined := by
  rw [loadZnsDevice_ok]
  by_cases hpass : d.HeaderPasses (d.loadHeader calls stack bytes).1
  · right
    have hbuf : (d.loadHeader calls stack bytes).2.Unbuffered (d.loadHeader calls stack bytes).1 :=
      not_not.1 fun hn => h ⟨hpass, hn⟩
    rw [if_pos hpass]
    unfold ZnsLoad.loadSections
    exact congrArg Prod.snd (if_pos hbuf)
  · left
    rw [if_neg hpass]
    rfl

/-- Behind the header the outcome does not depend on the storage. -/
theorem loadZnsDevice_storage (h : d.PastHeader calls stack bytes) {m : Mem}
    (hm : ∀ x, d.storageSize ≤ x → m x = d.storage x) :
    loadZnsDevice calls fuel { d with storage := m } stack (.ok bytes) =
      loadZnsDevice calls fuel d stack (.ok bytes) := by
  have hpass : HeaderPasses { d with storage := m }
    (loadHeader calls { d with storage := m } stack bytes).1 := h.1
  rw [loadZnsDevice_ok, loadZnsDevice_ok, if_pos hpass, if_pos h.1]
  exact ZnsLoad.loadSections_storage (d.loadHeader calls stack bytes).2 m _ hm

/-- **`load_zns_device` is atomic** on a file, whatever the storage holds, unless it gets past the
header to a bad chunk. -/
theorem loadZnsDevice_atomic_iff (hsize : 0 < d.storageSize) (file : Except ℤ (List UInt8))
    (hfuel : ∀ bytes, file = .ok bytes → bytes.length < fuel) :
    (∀ m ret, (loadZnsDevice calls fuel { d with storage := m } stack file).2 = .returns ret →
      ret < 0 → (loadZnsDevice calls fuel { d with storage := m } stack file).1.dev =
        { d with storage := m }) ↔
      ¬ ∃ bytes, file = .ok bytes ∧ d.PastHeader calls stack bytes ∧
        d.BadChunk calls fuel (d.beforeChunks calls stack bytes).file := by
  constructor
  · rintro hatomic ⟨bytes, rfl, hpast, hbad⟩
    -- The loader fails alike on two devices that differ in a byte of the storage.
    have hzp := (d.beforeChunks_with_storage calls stack bytes d.storage).1
    have hlen : (d.beforeChunks calls stack bytes).file.bytes.length < fuel :=
      (d.beforeChunks_length calls stack bytes).trans_lt (hfuel bytes rfl)
    obtain ⟨t, e, hloop, he⟩ := ZnsLoad.failed_of_badChunk hbad hzp rfl hlen
    have hrun : loadZnsDevice calls fuel d stack (.ok bytes) = (t, .returns e) := by
      rw [loadZnsDevice_pastHeader hpast, hloop]
      rfl
    have hother : loadZnsDevice calls fuel
        { d with storage := Function.update d.storage 0 (d.storage 0 + 1) } stack (.ok bytes) =
          (t, .returns e) := by
      rw [loadZnsDevice_storage hpast fun x hx => Function.update_of_ne (by omega) _ _, hrun]
    have h₁ := hatomic d.storage e (congrArg Prod.snd hrun) he
    have h₂ := hatomic _ e (congrArg Prod.snd hother) he
    rw [hother] at h₂
    rw [hrun] at h₁
    have hbyte := congrFun (congrArg storage (h₁.symm.trans h₂)) 0
    simp at hbyte
  · intro hgood m ret hret hneg
    cases file with
    | error e => rfl
    | ok bytes =>
      by_cases hpast : d.PastHeader calls stack bytes
      · exfalso
        have hpast' : PastHeader calls { d with storage := m } stack bytes := hpast
        rw [loadZnsDevice_pastHeader hpast'] at hret
        obtain ⟨⟨t, e⟩, hloop⟩ : ∃ r, ZnsLoad.loadChunks calls fuel fuel
          (beforeChunks calls { d with storage := m } stack bytes) = r := ⟨_, rfl⟩
        obtain ⟨hzp, hfile⟩ := d.beforeChunks_with_storage calls stack bytes m
        rw [hloop] at hret
        cases e with
        | failed e =>
          refine hgood ⟨bytes, rfl, hpast, ?_⟩
          rw [← hfile]
          exact ZnsLoad.badChunk_of_failed hzp (congrArg Prod.snd hloop)
        | done =>
          have hzero : (0 : ℤ) = ret := CallEnd.returns.inj hret
          omega
        | running => cases hret
        | undefined => cases hret
      · have hpast' : ¬ PastHeader calls { d with storage := m } stack bytes := hpast
        rcases loadZnsDevice_not_pastHeader fuel hpast' with hsame | hundef
        · exact hsame
        · rw [hundef] at hret
          cases hret

/-- A snapshot with the header of the device, no zone written, and then a chunk for the zone behind
the last. -/
def strayChunk (d : ZnsDevice) : List UInt8 :=
  d.header.bytes ++ (List.replicate (d.chunksStart d.header - znsDumpHeaderSize) 0 ++
    leBytes 4 d.zp.nrZones)

/-- **A chunk for a zone that is not there** makes the loader return when the device is
overwritten. -/
theorem loadZnsDevice_atomic_stray : ∃ f fuel, twoZones = .ok f ∧
    ∃ m ret, (loadZnsDevice .whole fuel { f.device 16384 with storage := m } zeroStack
        (.ok (f.device 16384).strayChunk)).2 = .returns ret ∧ ret < 0 ∧
      (loadZnsDevice .whole fuel { f.device 16384 with storage := m } zeroStack
        (.ok (f.device 16384).strayChunk)).1.dev ≠ { f.device 16384 with storage := m } := by
  have hcheck : twoZones.toOption.any (fun f => decide (
      ((f.device 16384).HeaderPasses
          ((f.device 16384).loadHeader .whole zeroStack (f.device 16384).strayChunk).1 ∧
        ¬ ((f.device 16384).loadHeader .whole zeroStack (f.device 16384).strayChunk).2.Unbuffered
          ((f.device 16384).loadHeader .whole zeroStack (f.device 16384).strayChunk).1) ∧
      0 < (((f.device 16384).beforeChunks .whole zeroStack
          (f.device 16384).strayChunk).file.kernelRead .whole 4).2.2 ∧
      leNat (overlay (leBytes 4 0) (((f.device 16384).beforeChunks .whole zeroStack
          (f.device 16384).strayChunk).file.kernelRead .whole 4).2.1) ≠ znsZoneSentinel ∧
      f.zp.nrZones ≤ leNat (overlay (leBytes 4 0) (((f.device 16384).beforeChunks .whole zeroStack
          (f.device 16384).strayChunk).file.kernelRead .whole 4).2.1))) = true := by
    decide +kernel
  obtain ⟨f, hinit, hp⟩ := exists_ok_of_any hcheck
  obtain ⟨hpast, hret, hsent, hzid⟩ := of_decide_eq_true hp
  refine ⟨f, (f.device 16384).strayChunk.length + 1, hinit, ?_⟩
  obtain ⟨d, hd⟩ : ∃ d, d = f.device 16384 := ⟨_, rfl⟩
  have hsize : 0 < d.storageSize := hd ▸ (show 0 < 16384 by decide)
  have hzp : d.zp = f.zp := hd ▸ rfl
  rw [← hd] at hpast hret hsent hzid ⊢
  rw [← hzp] at hzid
  have hiff := @loadZnsDevice_atomic_iff .whole (d.strayChunk.length + 1) d zeroStack hsize
    (.ok d.strayChunk) fun bytes h => by cases h; exact Nat.lt_succ_self _
  have hbad := mt hiff.1 (not_not.2 ⟨_, rfl, hpast, BadChunk.of_zone hret hsent hzid⟩)
  push Not at hbad
  exact hbad

end ZnsDevice

end NvmeVirt
