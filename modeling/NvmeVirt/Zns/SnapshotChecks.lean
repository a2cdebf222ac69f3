/-
# What `load_zns_device` checks of a snapshot

The header of a snapshot has the number and the size of the zones, the numbers
of channels and dies and two flags that say which sections follow; the first two
are compared with the device.  The length of a chunk is taken from the file, so
its data may run over the end of the zone it names.
-/

import NvmeVirt.Zns.SnapshotRoundTrip
import NvmeVirt.Zns.ZoneMachine

namespace NvmeVirt

open LittleEndian Outcome

/-! ### Where a copy loop writes -/

/-- The range lies in the zone it was read for. -/
def CopiedRange.InZone (r : CopiedRange) (zoneSize : ℕ) : Prop :=
  r.size = 0 ∨
    ((r.owner * zoneSize : ℕ) : ℤ) ≤ r.addr ∧ r.addr + r.size ≤ ((r.owner + 1) * zoneSize : ℕ)

instance (r : CopiedRange) (zoneSize : ℕ) : Decidable (r.InZone zoneSize) :=
  inferInstanceAs (Decidable (_ ∨ _))

/-- **Calls that move a section fully;** in a copy loop they may do anything. -/
def FileCalls.FullSections (calls : FileCalls) : Prop := ∀ k n, calls.single k n = n

namespace FileCalls.FullSections

variable {calls : FileCalls}

/-- A section is read up to the end of the file. -/
theorem kernelRead (h : calls.FullSections) (o : OpenFile) (size : ℕ) :
    ∃ o', o.kernelRead calls size
        = (o', o.bytes.take size, ((min size o.bytes.length : ℕ) : ℤ)) ∧
      o'.bytes = o.bytes.drop size ∧ o'.copied = o.copied := by
  unfold OpenFile.kernelRead
  dsimp only
  rw [h, Int.toNat_natCast, ← List.take_eq_take_min, ← List.drop_eq_drop_min]
  exact ⟨_, rfl, rfl, rfl⟩

end FileCalls.FullSections

/-- What a copy loop that reads has written: ranges that begin at `dst` or behind and end at
`dst + bound` or before. -/
structure Copying.Within (owner dst bound : ℕ) (s t : Copying) : Prop where
  copied : ∀ r ∈ t.file.copied, r ∈ s.file.copied ∨ r.owner = owner ∧
    (r.size = 0 ∨ (dst : ℤ) ≤ r.addr ∧ r.addr + r.size ≤ dst + bound)
  length : t.file.bytes.length ≤ s.file.bytes.length

/-- One call of the loop that reads. -/
theorem copyIn_call (calls : FileCalls) (owner dst total : ℕ) {bound cur : ℕ}
    (hbound : bound < 2 ^ 31) (hcur : cur ≤ bound) (s : Copying)
    (hs : total = bound ∨ cur + s.file.bytes.length ≤ bound) :
    ∃ s₁ ret, copyIn calls owner dst total cur s = (s₁, ret) ∧ cur + ret ≤ bound ∧
      s₁.file.bytes = s.file.bytes.drop ret.toNat ∧
      s₁.file.copied = s.file.copied ++ [⟨owner, dst + cur, ret.toNat⟩] := by
  refine ⟨_, _, rfl, ?_, rfl, rfl⟩
  have hle := calls.copy_le s.file.copies
    (min (min (((total : ℤ) - cur) % 2 ^ 64).toNat maxRwCount) s.file.bytes.length)
  have hroom : min (min (((total : ℤ) - cur) % 2 ^ 64).toNat maxRwCount) s.file.bytes.length
      ≤ bound - cur := by
    rcases hs with rfl | hs <;> omega
  omega

/-- **The loop that reads** stays in the range its length gives it, or in what is left of the
file. -/
theorem copyIn_within (calls : FileCalls) (owner dst total fuel : ℕ) {bound cur : ℕ}
    (hbound : bound < 2 ^ 31) (hcur : cur ≤ bound) (s : Copying)
    (hs : total = bound ∨ cur + s.file.bytes.length ≤ bound) {t : Copying} {e : LoopEnd}
    (ht : copyLoop (fun c => c < asInt total) true (copyIn calls owner dst total) fuel cur s
      = (t, e)) :
    s.Within owner dst bound t ∧
      (total = bound → e = .done → t.file.bytes = s.file.bytes.drop (bound - cur)) := by
  induction fuel generalizing cur s with
  | zero =>
    rw [copyLoop] at ht
    cases ht
    exact ⟨⟨fun r hr => .inl hr, le_rfl⟩, fun _ h => by cases h⟩
  | succ fuel ih =>
    rw [copyLoop] at ht
    by_cases hgo : (cur : ℤ) < asInt total
    · rw [if_neg (not_not.2 hgo)] at ht
      obtain ⟨s₁, ret, hcall, hroom, hbytes, hcopied⟩ :=
        copyIn_call calls owner dst total hbound hcur s hs
      rw [hcall] at ht
      dsimp only at ht
      have hone : ∀ r ∈ s₁.file.copied, r ∈ s.file.copied ∨ r.owner = owner ∧
          (r.size = 0 ∨ (dst : ℤ) ≤ r.addr ∧ r.addr + r.size ≤ dst + bound) := by
        intro r hr
        rw [hcopied] at hr
        rcases List.mem_append.1 hr with hr | hr
        · exact .inl hr
        · obtain rfl := List.mem_singleton.1 hr
          refine .inr ⟨rfl, .inr ⟨?_, ?_⟩⟩ <;> dsimp only <;> omega
      have hlen : s₁.file.bytes.length ≤ s.file.bytes.length := by
        rw [hbytes, List.length_drop]
        exact Nat.sub_le _ _
      by_cases hneg : ret < 0
      · rw [if_pos ⟨rfl, hneg⟩] at ht
        obtain ⟨rfl, rfl⟩ := Prod.mk.inj ht
        exact ⟨⟨hone, hlen⟩, fun _ h => by cases h⟩
      · rw [if_neg fun h => hneg h.2] at ht
        obtain ⟨r, rfl⟩ := Int.eq_ofNat_of_zero_le (not_lt.1 hneg)
        rw [Int.toNat_natCast] at hbytes
        have hnext : cur + r ≤ bound := by omega
        rw [← Nat.cast_add, asInt_of_lt (hnext.trans_lt hbound)] at ht
        have hs' : total = bound ∨ cur + r + s₁.file.bytes.length ≤ bound := by
          rw [hbytes, List.length_drop]
          omega
        obtain ⟨⟨hc, hl⟩, hdone⟩ := ih hnext
          { s₁ with file.cursors := s₁.file.cursors ++ [((cur + r : ℕ) : ℤ)] } hs' ht
        refine ⟨⟨fun x hx => ?_, hl.trans hlen⟩, fun h he => ?_⟩
        · rcases hc x hx with hx | hx
          · exact hone x hx
          · exact .inr hx
        · rw [hdone h he]
          dsimp only
          rw [hbytes, List.drop_drop, show r + (bound - (cur + r)) = bound - cur by omega]
    · rw [if_pos hgo] at ht
      cases ht
      refine ⟨⟨fun r hr => .inl hr, le_rfl⟩, fun h _ => ?_⟩
      subst h
      rw [asInt_of_lt hbound] at hgo
      rw [show total - cur = 0 by omega, List.drop_zero]

/-! ### The chunks -/

namespace ZnsDevice

variable (d : ZnsDevice)

/-- The next chunk of a file: its number, its length and what follows. -/
def nextChunk (bytes : List UInt8) : ℕ × ℕ × List UInt8 :=
  (leNat (overlay (leBytes 4 0) (bytes.take 4)),
    leNat (overlay (leBytes 8 0) ((bytes.drop 4).take 8)), bytes.drop 12)

/-- The length has 64 bits. -/
theorem nextChunk_byteLen_lt (bytes : List UInt8) : (nextChunk bytes).2.1 < 2 ^ 64 := by
  have hlt := leNat_lt (overlay (leBytes 8 0) ((bytes.drop 4).take 8))
  rw [length_overlay (by rw [length_leBytes, List.length_take]; exact min_le_left _ _),
    length_leBytes] at hlt
  exact hlt.trans_eq (by norm_num)

/-- **The first chunks of a file fit their zones:** the file ends, or the chunk is the sentinel or
has a number of no zone, or what is left of the file fits in a zone, or the length of the chunk is
not positive as an `int`, or it is at most the size of a zone. -/
def FitsFor : ℕ → List UInt8 → Prop
  | 0, _ => True
  | rounds + 1, bytes =>
    let (zid, byteLen, rest) := nextChunk bytes
    bytes = [] ∨ zid = znsZoneSentinel ∨ d.zp.nrZones ≤ zid ∨
      rest.length ≤ min d.zp.zoneSize (2 ^ 31 - 1) ∨
      asInt byteLen ≤ 0 ∧ FitsFor rounds rest ∨
      0 < asInt byteLen ∧ byteLen ≤ d.zp.zoneSize ∧ FitsFor rounds (rest.drop byteLen)

/-- **The chunks fit their zones.** -/
def ChunksFit (bytes : List UInt8) : Prop := ∀ rounds, d.FitsFor rounds bytes

variable {d}

theorem storageAddr_eq (d : ZnsDevice) {zid : ℕ} (hzid : zid < 2 ^ 32)
    (hsize : d.zp.zoneSize < 2 ^ 32) : d.storageAddr zid = zid * d.zp.zoneSize := by
  have : zid * d.zp.zoneSize < 2 ^ 32 * 2 ^ 32 := Nat.mul_lt_mul'' hzid hsize
  unfold storageAddr u64
  omega

/-- A short file cannot fill more than a zone. -/
theorem fitsFor_of_length (rounds : ℕ) {bytes : List UInt8}
    (h : bytes.length ≤ min d.zp.zoneSize (2 ^ 31 - 1)) : d.FitsFor rounds bytes := by
  cases rounds with
  | zero => trivial
  | succ rounds =>
    refine .inr (.inr (.inr (.inl ?_)))
    show (bytes.drop 12).length ≤ _
    rw [List.length_drop]
    omega

end ZnsDevice

namespace ZnsLoad

variable {calls : FileCalls} {fuel : ℕ} {d : ZnsDevice}

/-- All ranges lie in their zones. -/
def InZones (d : ZnsDevice) (s : ZnsLoad) : Prop := ∀ r ∈ s.file.copied, r.InZone d.zp.zoneSize

/-- One round of the loop over the chunks: it ends, or it goes on behind the data of a chunk. -/
theorem loadChunks_succ (h : calls.FullSections) (fuel rounds : ℕ) (s : ZnsLoad)
    (hzp : s.dev.zp = d.zp) :
    ∃ o, o.copied = s.file.copied ∧ (
      ((s.file.bytes = [] ∨ (ZnsDevice.nextChunk s.file.bytes).1 = znsZoneSentinel) ∧
        loadChunks calls fuel (rounds + 1) s = (⟨s.dev, o⟩, .done) ∨
      d.zp.nrZones ≤ (ZnsDevice.nextChunk s.file.bytes).1 ∧
        loadChunks calls fuel (rounds + 1) s = (⟨s.dev, o⟩, .failed (-einval))) ∨
      ∃ zid byteLen rest t e, ZnsDevice.nextChunk s.file.bytes = (zid, byteLen, rest) ∧
        s.file.bytes ≠ [] ∧ zid ≠ znsZoneSentinel ∧ zid < d.zp.nrZones ∧ o.bytes = rest ∧
        copyLoop (fun c => c < asInt byteLen) true
          (copyIn calls zid (d.storageAddr zid) byteLen) fuel 0 ⟨o, s.dev.storage⟩ = (t, e) ∧
        loadChunks calls fuel (rounds + 1) s =
          if e = .done then loadChunks calls fuel rounds ⟨{ s.dev with storage := t.mem }, t.file⟩
          else (⟨{ s.dev with storage := t.mem }, t.file⟩, e)) := by
  obtain ⟨o₁, hread₁, hb₁, hc₁⟩ := h.kernelRead s.file 4
  obtain ⟨o₂, hread₂, hb₂, hc₂⟩ := h.kernelRead o₁ 8
  rw [loadChunks, hread₁]
  simp only
  by_cases hend : s.file.bytes = [] ∨ (ZnsDevice.nextChunk s.file.bytes).1 = znsZoneSentinel
  · refine ⟨o₁, hc₁, .inl (.inl ⟨hend, if_pos ?_⟩)⟩
    refine hend.imp_left fun hnil => ?_
    rw [hnil]
    rfl
  · have hne : s.file.bytes ≠ [] := fun hnil => hend (.inl hnil)
    have hret : ¬ (((min 4 s.file.bytes.length : ℕ) : ℤ) ≤ 0 ∨
        leNat (overlay (leBytes 4 0) (s.file.bytes.take 4)) = znsZoneSentinel) := by
      rintro (hle | hz)
      · have := List.length_pos_iff.2 hne
        omega
      · exact hend (.inr hz)
    rw [if_neg hret, hzp]
    by_cases hzid : d.zp.nrZones ≤ (ZnsDevice.nextChunk s.file.bytes).1
    · exact ⟨o₁, hc₁, .inl (.inr ⟨hzid, if_pos hzid⟩)⟩
    · rw [if_neg (show ¬ d.zp.nrZones ≤ leNat (overlay (leBytes 4 0) (s.file.bytes.take 4)) from hzid),
        hread₂]
      have haddr : ∀ z, s.dev.storageAddr z = d.storageAddr z := fun z => by
        unfold ZnsDevice.storageAddr
        rw [hzp]
      set zid := leNat (overlay (leBytes 4 0) (s.file.bytes.take 4)) with hzid'
      set byteLen := leNat (overlay (leBytes 8 0) (o₁.bytes.take 8)) with hbyteLen
      obtain ⟨t, e, hte⟩ : ∃ t e, copyLoop (fun c => c < asInt byteLen) true
          (copyIn calls zid (d.storageAddr zid) byteLen) fuel 0 ⟨o₂, s.dev.storage⟩ = (t, e) :=
        ⟨_, _, rfl⟩
      simp only [haddr]
      rw [hte]
      refine ⟨o₂, hc₂.trans hc₁, .inr ⟨zid, byteLen, s.file.bytes.drop 12, t, e, ?_, hne,
        fun hz => hend (.inr hz), not_le.1 hzid, ?_, hte, ?_⟩⟩
      · rw [hbyteLen, hb₁]
        rfl
      · rw [hb₂, hb₁, List.drop_drop]
      · cases e <;> rfl

/-- What a copy loop has written for a zone lies in it, if the loop stays in `bound` bytes. -/
theorem InZones.copied {s : ZnsLoad} {o : OpenFile} {t : Copying} {zid bound : ℕ}
    (hs : InZones d s) (ho : o.copied = s.file.copied) (hzid : zid < 2 ^ 32)
    (hsize : d.zp.zoneSize < 2 ^ 32) (hbound : bound ≤ d.zp.zoneSize)
    (ht : Copying.Within zid (d.storageAddr zid) bound ⟨o, s.dev.storage⟩ t) (dev : ZnsDevice) :
    InZones d ⟨dev, t.file⟩ := by
  have haddr := d.storageAddr_eq hzid hsize
  intro r hr
  rcases ht.copied r hr with hr | ⟨hown, hr⟩
  · exact hs r (ho ▸ hr)
  · rw [haddr] at hr
    refine hr.imp_right fun ⟨h1, h2⟩ => ?_
    rw [hown, Nat.succ_mul]
    exact ⟨h1, by push_cast at h2 ⊢; omega⟩

/-- **Chunks that fit their zones are written into them,** whatever the calls in the copy loops
do. -/
theorem loadChunks_inZones (h : calls.FullSections) (hn : d.zp.nrZones ≤ 2 ^ 32)
    (hsize : d.zp.zoneSize < 2 ^ 32) {rounds : ℕ} {s : ZnsLoad} (hzp : s.dev.zp = d.zp)
    (hfit : d.FitsFor rounds s.file.bytes) (hs : InZones d s) :
    InZones d (loadChunks calls fuel rounds s).1 := by
  induction rounds generalizing s with
  | zero => exact hs
  | succ rounds ih =>
    obtain ⟨o, ho, (⟨-, hstep⟩ | ⟨-, hstep⟩) | ⟨zid, byteLen, rest, t, e, hnext, hne, hsent, hzid, hb,
      hloop, hstep⟩⟩ := loadChunks_succ h fuel rounds s hzp
    · rw [hstep]
      exact fun r hr => hs r (ho ▸ hr)
    · rw [hstep]
      exact fun r hr => hs r (ho ▸ hr)
    -- A chunk: how far its loop gets, and that the next chunks fit if it ends.
    have hdone : ∀ bound, bound ≤ d.zp.zoneSize →
        Copying.Within zid (d.storageAddr zid) bound ⟨o, s.dev.storage⟩ t →
        (e = .done → d.FitsFor rounds t.file.bytes) →
        InZones d (loadChunks calls fuel (rounds + 1) s).1 := by
      intro bound hbound ht hrest
      have hin := hs.copied ho (by omega) hsize hbound ht { s.dev with storage := t.mem }
      rw [hstep]
      split_ifs with he
      · exact ih hzp (hrest he) hin
      · exact hin
    unfold ZnsDevice.FitsFor at hfit
    rw [hnext] at hfit
    dsimp only at hfit
    rcases hfit with hnil | hz | hz | hlen | ⟨hle, hrest⟩ | ⟨hpos, hle, hrest⟩
    · exact absurd hnil hne
    · exact absurd hz hsent
    · omega
    · obtain ⟨hw, -⟩ := copyIn_within calls zid (d.storageAddr zid) byteLen fuel
        (show min d.zp.zoneSize (2 ^ 31 - 1) < 2 ^ 31 by omega) (Nat.zero_le _) _
        (.inr (by rw [Nat.zero_add]; exact hb ▸ hlen)) hloop
      refine hdone _ (min_le_left _ _) hw fun _ => ZnsDevice.fitsFor_of_length rounds ?_
      exact hw.length.trans (hb ▸ hlen)
    · have ht : t = ⟨o, s.dev.storage⟩ := by
        cases fuel with
        | zero =>
          rw [copyLoop] at hloop
          cases hloop
          rfl
        | succ fuel =>
          rw [copyLoop, if_pos (not_lt.2 hle)] at hloop
          cases hloop
          rfl
      refine hdone 0 (Nat.zero_le _) (ht ▸ ⟨fun r hr => .inl hr, le_rfl⟩) fun _ => ?_
      rw [ht]
      exact hb ▸ hrest
    · have hlt : byteLen < 2 ^ 31 := by
        by_contra hge
        have := asInt_neg (not_lt.1 hge) (by omega)
        omega
      obtain ⟨hw, hend⟩ := copyIn_within calls zid (d.storageAddr zid) byteLen fuel hlt
        (Nat.zero_le _) _ (.inl rfl) hloop
      refine hdone _ hle hw fun he => ?_
      rw [hend rfl he, Nat.sub_zero]
      exact hb ▸ hrest

/-! ### Chunks that do not fit -/

theorem mem_copied_copyLoop {owner dst total : ℕ} (fuel : ℕ) {cur : ℤ} {s t : Copying} {e : LoopEnd}
    (ht : copyLoop (fun c => c < asInt total) true (copyIn calls owner dst total) fuel cur s
      = (t, e)) {r : CopiedRange} (hr : r ∈ s.file.copied) : r ∈ t.file.copied := by
  induction fuel generalizing cur s with
  | zero =>
    rw [copyLoop] at ht
    cases ht
    exact hr
  | succ fuel ih =>
    rw [copyLoop] at ht
    split_ifs at ht
    · dsimp only at ht
      have hmem : r ∈ (copyIn calls owner dst total cur s).1.file.copied :=
        List.mem_append_left _ hr
      split_ifs at ht
      · cases ht
        exact hmem
      · exact ih ht hmem
    · cases ht
      exact hr

/-- What was copied stays in the history. -/
theorem mem_copied_loadChunks (h : calls.FullSections) (rounds : ℕ) {s : ZnsLoad}
    (hzp : s.dev.zp = d.zp) {r : CopiedRange} (hr : r ∈ s.file.copied) :
    r ∈ (loadChunks calls fuel rounds s).1.file.copied := by
  induction rounds generalizing s with
  | zero => exact hr
  | succ rounds ih =>
    obtain ⟨o, ho, (⟨-, hstep⟩ | ⟨-, hstep⟩) | ⟨zid, byteLen, rest, t, e, -, -, -, -, -, hloop,
      hstep⟩⟩ := loadChunks_succ h fuel rounds s hzp
    · rw [hstep]
      exact ho ▸ hr
    · rw [hstep]
      exact ho ▸ hr
    · have hmem : r ∈ t.file.copied := mem_copied_copyLoop fuel hloop (ho ▸ hr)
      rw [hstep]
      split_ifs
      · exact ih hzp hmem
      · exact hmem

/-- The first range of a loop whose calls move what they are asked for. -/
theorem mem_copied_first {owner dst total : ℕ} (hfuel : fuel ≠ 0) {s t : Copying} {e : LoopEnd}
    (htotal : total < 2 ^ 64) (hpos : 0 < asInt total)
    (ht : copyLoop (fun c => c < asInt total) true (copyIn .whole owner dst total) fuel 0 s
      = (t, e)) :
    ⟨owner, dst, min (min total maxRwCount) s.file.bytes.length⟩ ∈ t.file.copied := by
  obtain ⟨fuel, rfl⟩ := Nat.exists_eq_add_one_of_ne_zero hfuel
  obtain ⟨s₁, hcall, hcopied⟩ : ∃ s₁, copyIn .whole owner dst total 0 s
      = (s₁, ((min (min total maxRwCount) s.file.bytes.length : ℕ) : ℤ)) ∧ s₁.file.copied
      = s.file.copied ++ [⟨owner, dst, min (min total maxRwCount) s.file.bytes.length⟩] := by
    unfold copyIn FileCalls.whole
    dsimp only
    rw [sub_zero, add_zero, Int.toNat_natCast, Int.emod_eq_of_lt (by omega) (by exact_mod_cast htotal),
      Int.toNat_natCast]
    exact ⟨_, rfl, rfl⟩
  rw [copyLoop, if_neg (not_not.2 hpos), hcall] at ht
  dsimp only at ht
  rw [if_neg (by omega)] at ht
  refine mem_copied_copyLoop fuel ht ?_
  dsimp only
  rw [hcopied]
  exact List.mem_append_right _ (List.mem_singleton_self _)

/-- **A chunk that does not fit its zone** is written over its end if the calls move what they are
asked for. -/
theorem exists_not_inZone (hn : d.zp.nrZones ≤ 2 ^ 32) (hsize : d.zp.zoneSize < maxRwCount)
    (hfuel : 2 ^ 32 ≤ fuel) {rounds k : ℕ} (hk : rounds ≤ k) {s : ZnsLoad}
    (hzp : s.dev.zp = d.zp) (hfit : ¬ d.FitsFor rounds s.file.bytes) :
    ∃ r ∈ (loadChunks .whole fuel k s).1.file.copied, ¬ r.InZone d.zp.zoneSize := by
  have hfull : FileCalls.whole.FullSections := fun _ _ => rfl
  have hmax : maxRwCount < 2 ^ 31 := by decide
  induction rounds generalizing s k with
  | zero => exact absurd trivial hfit
  | succ rounds ih =>
    obtain ⟨k, rfl⟩ := Nat.exists_eq_add_one_of_ne_zero (show k ≠ 0 by omega)
    unfold ZnsDevice.FitsFor at hfit
    obtain ⟨o, ho, (⟨hend, -⟩ | ⟨hend, -⟩) | ⟨zid, byteLen, rest, t, e, hnext, hne, hsent, hzid, hb,
      hloop, hstep⟩⟩ := loadChunks_succ hfull fuel k s hzp
    · exact absurd (hend.elim .inl fun hz => .inr (.inl hz)) hfit
    · exact absurd (.inr (.inr (.inl hend))) hfit
    rw [hnext] at hfit
    dsimp only at hfit
    push Not at hfit
    obtain ⟨-, -, -, hlen, hneg, hpos⟩ := hfit
    -- The loop over the next chunks, if this one is read whole.
    have hnextChunks : e = .done → ¬ d.FitsFor rounds t.file.bytes →
        ∃ r ∈ (loadChunks .whole fuel (k + 1) s).1.file.copied, ¬ r.InZone d.zp.zoneSize := by
      intro he hno
      rw [hstep, if_pos he]
      exact ih (by omega) hzp hno
    rcases le_or_gt (asInt byteLen) 0 with hle | hgt
    · have ht : t = ⟨o, s.dev.storage⟩ ∧ e = .done := by
        obtain ⟨fuel, rfl⟩ := Nat.exists_eq_add_one_of_ne_zero (show fuel ≠ 0 by omega)
        rw [copyLoop, if_pos (not_lt.2 hle)] at hloop
        cases hloop
        exact ⟨rfl, rfl⟩
      refine hnextChunks ht.2 ?_
      rw [ht.1]
      exact hb ▸ hneg hle
    · rcases le_or_gt byteLen d.zp.zoneSize with hin | hout
      · have hlt : byteLen < 2 ^ 31 := by omega
        have hdata : (o.bytes.take byteLen).length = (asInt byteLen).toNat := by
          rw [asInt_of_lt hlt, Int.toNat_natCast, List.length_take, hb]
          omega
        obtain ⟨t', ht', -, hbytes⟩ := FileCalls.whole_transfers.copyIn_whole (show byteLen < 2 ^ 32 by omega) zid
          (d.storageAddr zid) fuel (by omega) hdata ⟨o, s.dev.storage⟩
          (List.take_append_drop byteLen o.bytes).symm
        obtain ⟨rfl, rfl⟩ := Prod.mk.inj (hloop.symm.trans ht')
        refine hnextChunks rfl ?_
        rw [hbytes, hb]
        exact hpos hgt hin
      · have hbyteLen : byteLen < 2 ^ 64 := by
          have := ZnsDevice.nextChunk_byteLen_lt s.file.bytes
          rwa [hnext] at this
        have hmem := mem_copied_first (show fuel ≠ 0 by omega) hbyteLen hgt hloop
        have hsize' : d.zp.zoneSize < min (min byteLen maxRwCount) o.bytes.length := by
          rw [hb]
          omega
        refine ⟨⟨zid, d.storageAddr zid, min (min byteLen maxRwCount) o.bytes.length⟩, ?_,
          fun hin => ?_⟩
        · rw [hstep]
          split_ifs
          · apply mem_copied_loadChunks hfull k
            · exact hzp
            · exact hmem
          · exact hmem
        · have haddr := d.storageAddr_eq (show zid < 2 ^ 32 by omega) (by omega)
          generalize min (min byteLen maxRwCount) o.bytes.length = m at hin hsize'
          rcases hin with hzero | ⟨-, hle⟩
          · dsimp only at hzero
            omega
          · dsimp only at hle
            rw [haddr, Nat.succ_mul] at hle
            push_cast at hle
            omega

end ZnsLoad

/-! ### The header and the sections -/

namespace ZnsDevice

variable (d : ZnsDevice)

/-- The header as it is read: what the file does not have is what `hdr` held before. -/
def headerOf (stack file : List UInt8) : ZnsDumpHeader :=
  .ofBytes (overlay stack (file.take znsDumpHeaderSize))

/-- **The header is that of the device:** the sections it announces are those the device has. -/
structure Matches (hdr : ZnsDumpHeader) : Prop where
  nchs : hdr.nchs = d.sp.nchs
  lunsPerCh : hdr.lunsPerCh = d.sp.lunsPerCh
  zrwaBufEn : hdr.zrwaBufEn ≠ 0 ↔ 0 < d.zp.zrwaBufferSize
  zoneWbEn : hdr.zoneWbEn ≠ 0 ↔ 0 < d.zp.zoneWbSize

/-- Where the chunks begin. -/
def chunksStart (hdr : ZnsDumpHeader) : ℕ :=
  znsDumpHeaderSize + zoneDescriptorSize * d.zp.nrZones + resInfosSize +
    (if hdr.zrwaBufEn ≠ 0 then 8 * d.zoneRounds else 0) +
    if hdr.zoneWbEn ≠ 0 then 8 * d.zoneRounds else 0

/-- **The file is one for the device,** if its header passes the checks: the header is that of the
device and the chunks fit their zones. -/
def FileFits (stack file : List UInt8) : Prop :=
  d.HeaderPasses (headerOf stack file) →
    d.Matches (headerOf stack file) ∧
      d.ChunksFit (file.drop (d.chunksStart (headerOf stack file)))

/-- **The snapshot is validated:** a header that passes the checks is that of the device, and what
the chunks have is written to the zones they name. -/
structure Validated (calls : FileCalls) (fuel : ℕ) (stack file : List UInt8) : Prop where
  header : d.HeaderPasses (d.loadHeader calls stack file).1 →
    d.Matches (d.loadHeader calls stack file).1
  chunks : ∀ r ∈ (d.loadZnsDevice calls fuel stack (.ok file)).1.file.copied,
    r.InZone d.zp.zoneSize

variable {d} {calls : FileCalls}

/-- The header `save_zns_device` writes is that of the device. -/
theorem matches_header (d : ZnsDevice) : d.Matches d.header := by
  refine ⟨rfl, rfl, ?_, ?_⟩
  · unfold header
    dsimp only
    split_ifs with h <;> simp [h]
  · unfold header
    dsimp only
    split_ifs with h <;> simp [h]

theorem loadHeader_eq (h : calls.FullSections) (stack file : List UInt8) :
    ∃ o, d.loadHeader calls stack file = (headerOf stack file, ⟨d, o⟩) ∧
      o.bytes = file.drop znsDumpHeaderSize ∧ o.copied = [] := by
  obtain ⟨o, hread, hb, hc⟩ := h.kernelRead { bytes := file } znsDumpHeaderSize
  refine ⟨o, ?_, hb, hc⟩
  unfold loadHeader
  rw [hread]
  rfl

end ZnsDevice

namespace ZnsLoad

variable {calls : FileCalls} {d : ZnsDevice}

/-- **A section was read:** the device has its parameters, the file is `n` bytes shorter. -/
structure Reads (n : ℕ) (s t : ZnsLoad) : Prop where
  zp : t.dev.zp = s.dev.zp
  bytes : t.file.bytes = s.file.bytes.drop n
  copied : t.file.copied = s.file.copied

theorem Reads.trans {n k : ℕ} {s t u : ZnsLoad} (h : Reads n s t) (h' : Reads k t u) :
    Reads (n + k) s u :=
  ⟨h'.zp.trans h.zp, by rw [h'.bytes, h.bytes, List.drop_drop], h'.copied.trans h.copied⟩

theorem reads_loadArrays (h : calls.FullSections) (s : ZnsLoad) :
    Reads (zoneDescriptorSize * s.dev.zp.nrZones + resInfosSize) s (s.loadArrays calls) := by
  have hdescs : Reads (zoneDescriptorSize * s.dev.zp.nrZones) s
      (s.clearStorage.loadZoneDescs calls) := by
    obtain ⟨o, hread, hb, hc⟩ := h.kernelRead s.clearStorage.file
      (zoneDescriptorSize * s.clearStorage.dev.zp.nrZones)
    unfold loadZoneDescs
    rw [hread]
    exact ⟨rfl, hb, hc⟩
  refine hdescs.trans ?_
  obtain ⟨o, hread, hb, hc⟩ := h.kernelRead (s.clearStorage.loadZoneDescs calls).file resInfosSize
  unfold loadArrays loadResInfos
  rw [hread]
  exact ⟨rfl, hb, hc⟩

/-- The loop over an optional section. -/
theorem readRemaining_reads (h : calls.FullSections) (zones : List ℕ) (s : OpenFile × (ℕ → ℕ)) :
    (zones.foldl (readRemaining calls) s).1.bytes = s.1.bytes.drop (8 * zones.length) ∧
      (zones.foldl (readRemaining calls) s).1.copied = s.1.copied := by
  induction zones generalizing s with
  | nil => exact ⟨rfl, rfl⟩
  | cons z zones ih =>
    obtain ⟨o, hread, hb, hc⟩ := h.kernelRead s.1 8
    have hstep : (readRemaining calls s z).1 = o := by
      unfold readRemaining
      rw [hread]
    obtain ⟨h1, h2⟩ := ih (readRemaining calls s z)
    rw [List.foldl_cons, h1, h2, hstep, hb, List.drop_drop, List.length_cons]
    exact ⟨by rw [show 8 + 8 * zones.length = 8 * (zones.length + 1) by ring], hc⟩

theorem reads_loadZwraIf (h : calls.FullSections) {s : ZnsLoad} {n : ℕ}
    (hn : s.dev.zoneRounds = n) (hdr : ZnsDumpHeader) :
    Reads (if hdr.zrwaBufEn ≠ 0 then 8 * n else 0) s (s.loadZwraIf calls hdr) := by
  unfold loadZwraIf loadZwra
  rw [hn]
  split_ifs
  · obtain ⟨h1, h2⟩ := readRemaining_reads h (List.range n) (s.file, s.dev.zwraRemaining)
    rw [List.length_range] at h1
    exact ⟨rfl, h1, h2⟩
  · exact ⟨rfl, rfl, rfl⟩

theorem reads_loadZoneWbIf (h : calls.FullSections) {s : ZnsLoad} {n : ℕ}
    (hn : s.dev.zoneRounds = n) (hdr : ZnsDumpHeader) :
    Reads (if hdr.zoneWbEn ≠ 0 then 8 * n else 0) s (s.loadZoneWbIf calls hdr) := by
  unfold loadZoneWbIf loadZoneWb
  rw [hn]
  split_ifs
  · obtain ⟨h1, h2⟩ := readRemaining_reads h (List.range n) (s.file, s.dev.zoneWbRemaining)
    rw [List.length_range] at h1
    exact ⟨rfl, h1, h2⟩
  · exact ⟨rfl, rfl, rfl⟩

/-- A header of the device announces no section for buffers the device does not have. -/
theorem not_unbuffered {s : ZnsLoad} {hdr : ZnsDumpHeader} (hm : d.Matches hdr)
    (hzp : s.dev.zp = d.zp) : ¬ s.Unbuffered hdr := by
  unfold Unbuffered
  rw [hzp]
  rintro ⟨-, ⟨hen, hsize⟩ | ⟨hen, hsize⟩⟩
  · have := hm.zrwaBufEn.1 hen
    omega
  · have := hm.zoneWbEn.1 hen
    omega

theorem file_finish (r : ZnsLoad × LoopEnd) : (finish r).1.file = r.1.file := by
  obtain ⟨s, e⟩ := r
  cases e <;> rfl

end ZnsLoad

namespace ZnsDevice

variable {d : ZnsDevice} {calls : FileCalls}

/-- **Behind the header** the chunks are read from where they begin. -/
theorem loadZnsDevice_chunks (h : calls.FullSections) (fuel : ℕ) {stack file : List UInt8}
    (hpass : d.HeaderPasses (headerOf stack file)) (hm : d.Matches (headerOf stack file)) :
    ∃ s : ZnsLoad, s.dev.zp = d.zp ∧ s.file.copied = [] ∧
      s.file.bytes = file.drop (d.chunksStart (headerOf stack file)) ∧
      (d.loadZnsDevice calls fuel stack (.ok file)).1.file
        = (ZnsLoad.loadChunks calls fuel fuel s).1.file := by
  obtain ⟨o, ho, hb, hc⟩ := loadHeader_eq (d := d) h stack file
  set hdr := headerOf stack file
  have hrounds : ∀ s : ZnsLoad, s.dev.zp = d.zp → s.dev.zoneRounds = d.zoneRounds := by
    intro s hs
    unfold zoneRounds
    rw [hs]
  have h₁ := ZnsLoad.reads_loadArrays h ⟨d, o⟩
  have h₂ := h₁.trans (ZnsLoad.reads_loadZwraIf h (hrounds _ h₁.zp) hdr)
  have h₃ := h₂.trans (ZnsLoad.reads_loadZoneWbIf h (hrounds _ h₂.zp) hdr)
  refine ⟨_, h₃.zp, h₃.copied.trans hc, ?_, ?_⟩
  · rw [h₃.bytes, hb, List.drop_drop]
    congr 1
    unfold chunksStart
    ring
  · rw [loadZnsDevice, ho]
    simp only
    rw [if_pos hpass, ZnsLoad.loadSections, if_neg (ZnsLoad.not_unbuffered hm h₁.zp)]
    exact ZnsLoad.file_finish _

end ZnsDevice

/-- **What `load_zns_device` validates:** with any results of the copy loops, a file for the device
is loaded into the zones it names; a file that is none is not, if the zones are smaller than what a
call may move. -/
theorem loadZnsDevice_validated_iff (d : ZnsDevice) (hn : d.zp.nrZones < 2 ^ 32)
    (hsize : d.zp.zoneSize < 2 ^ 32) (stack file : List UInt8) :
    (d.FileFits stack file →
      ∀ calls fuel, FileCalls.FullSections calls → d.Validated calls fuel stack file) ∧
    (d.zp.zoneSize < maxRwCount →
      (∀ calls fuel, FileCalls.FullSections calls → d.Validated calls fuel stack file) →
      d.FileFits stack file) := by
  constructor
  · intro hfits calls fuel h
    obtain ⟨o, ho, hb, hc⟩ := ZnsDevice.loadHeader_eq (d := d) h stack file
    refine ⟨fun hpass => ?_, ?_⟩
    · rw [ho] at hpass ⊢
      exact (hfits hpass).1
    · by_cases hpass : d.HeaderPasses (ZnsDevice.headerOf stack file)
      · obtain ⟨hm, hchunks⟩ := hfits hpass
        obtain ⟨s, hzp, hcopied, hbytes, hload⟩ := ZnsDevice.loadZnsDevice_chunks h fuel hpass hm
        rw [hload]
        refine ZnsLoad.loadChunks_inZones h hn.le hsize hzp (hbytes ▸ hchunks fuel) fun r hr => ?_
        rw [hcopied] at hr
        cases hr
      · intro r hr
        rw [ZnsDevice.loadZnsDevice, ho] at hr
        simp only at hr
        rw [if_neg hpass, hc] at hr
        cases hr
  · intro hmax hvalid hpass
    have hfull : FileCalls.whole.FullSections := fun _ _ => rfl
    obtain ⟨o, ho, -, -⟩ := ZnsDevice.loadHeader_eq (d := d) hfull stack file
    have hm : d.Matches (ZnsDevice.headerOf stack file) := by
      have := (hvalid .whole 0 hfull).header
      rw [ho] at this
      exact this hpass
    refine ⟨hm, fun rounds => ?_⟩
    by_contra hno
    obtain ⟨s, hzp, -, hbytes, hload⟩ :=
      ZnsDevice.loadZnsDevice_chunks hfull (2 ^ 32 + rounds) hpass hm
    obtain ⟨r, hr, hout⟩ := ZnsLoad.exists_not_inZone hn.le hmax (Nat.le_add_right _ rounds)
      (Nat.le_add_left rounds (2 ^ 32)) hzp (hbytes ▸ hno)
    exact hout ((hvalid .whole (2 ^ 32 + rounds) hfull).chunks r (hload ▸ hr))

/-! ### Three files for the small namespace -/

/-- What the stack holds where the header is read to. -/
def zeroStack : List UInt8 := List.replicate znsDumpHeaderSize 0

/-- A snapshot with the header `hdr`, no zone written, and then a chunk for zone 0. -/
def ZnsDevice.oneChunk (d : ZnsDevice) (hdr : ZnsDumpHeader) (data : List UInt8) : List UInt8 :=
  hdr.bytes ++ (List.replicate (d.chunksStart hdr - znsDumpHeaderSize) 0 ++
    (leBytes 4 0 ++ (leBytes 8 data.length ++ (data ++ leBytes 4 znsZoneSentinel))))

/-- The chunk of a snapshot, as it is read. -/
structure ZnsDevice.Reads (d : ZnsDevice) (hdr : ZnsDumpHeader) (data : List UInt8) : Prop where
  header : headerOf zeroStack (d.oneChunk hdr data) = hdr
  passes : d.HeaderPasses hdr
  zid : (nextChunk ((d.oneChunk hdr data).drop (d.chunksStart hdr))).1 = 0
  byteLen : (nextChunk ((d.oneChunk hdr data).drop (d.chunksStart hdr))).2.1 = data.length
  rest : (nextChunk ((d.oneChunk hdr data).drop (d.chunksStart hdr))).2.2.length = data.length + 4

instance (d : ZnsDevice) (hdr : ZnsDumpHeader) (data : List UInt8) : Decidable (d.Reads hdr data) :=
  decidable_of_iff (_ ∧ _ ∧ _ ∧ _ ∧ _)
    ⟨fun ⟨h1, h2, h3, h4, h5⟩ => ⟨h1, h2, h3, h4, h5⟩,
      fun ⟨h1, h2, h3, h4, h5⟩ => ⟨h1, h2, h3, h4, h5⟩⟩

/-- A chunk of three bytes is loaded into its zone. -/
theorem loadZnsDevice_validated_three : ∃ f, twoZones = .ok f ∧
    ∀ calls fuel, FileCalls.FullSections calls → (f.device 16384).Validated calls fuel zeroStack
      ((f.device 16384).oneChunk (f.device 16384).header [1, 2, 3]) := by
  have hcheck : twoZones.toOption.any (fun f => decide (
      (f.device 16384).Reads (f.device 16384).header [1, 2, 3] ∧
      f.zp.nrZones < 2 ^ 32 ∧ f.zp.zoneSize = 8192)) = true := by
    decide +kernel
  obtain ⟨f, hinit, hp⟩ := exists_ok_of_any hcheck
  obtain ⟨hreads, hn, hsize⟩ := of_decide_eq_true hp
  refine ⟨f, hinit, (loadZnsDevice_validated_iff (f.device 16384) hn
    (show f.zp.zoneSize < 2 ^ 32 by omega) _ _).1 fun _ => ?_⟩
  rw [hreads.header]
  refine ⟨ZnsDevice.matches_header _, fun rounds => ?_⟩
  cases rounds with
  | zero => trivial
  | succ rounds =>
    refine .inr (.inr (.inr (.inl (hreads.rest.le.trans ?_))))
    show 3 + 4 ≤ min f.zp.zoneSize _
    omega

/-- The header of the device but for the flag of the write buffers. -/
def ZnsDevice.otherFlag (d : ZnsDevice) : ZnsDumpHeader := { d.header with zoneWbEn := 1 }

/-- **A chunk with a byte more than a zone** runs over the end of the zone, and **a header with a
flag of another device** passes the checks; then a section is read into buffers that do not
exist. -/
theorem oneChunk_not_validated : ∃ f fuel, twoZones = .ok f ∧
    ¬ (f.device 16384).Validated .whole fuel zeroStack
      ((f.device 16384).oneChunk (f.device 16384).header (List.replicate 8193 1)) ∧
    ¬ (f.device 16384).Validated .whole fuel zeroStack
      ((f.device 16384).oneChunk (f.device 16384).otherFlag []) ∧
    ((f.device 16384).loadZnsDevice .whole fuel zeroStack
      (.ok ((f.device 16384).oneChunk (f.device 16384).otherFlag []))).2 = .undefined := by
  have hcheck : twoZones.toOption.any (fun f => decide (
      (f.device 16384).Reads (f.device 16384).header (List.replicate 8193 1) ∧
      (f.device 16384).Reads (f.device 16384).otherFlag [] ∧
      f.zp.nrZones = 2 ∧ f.zp.zoneSize = 8192 ∧ f.zp.zoneWbSize = 0)) = true := by
    decide +kernel
  obtain ⟨f, hinit, hp⟩ := exists_ok_of_any hcheck
  obtain ⟨hlong, hflag, hn, hsize, hwb⟩ := of_decide_eq_true hp
  obtain ⟨data, hdata⟩ : ∃ data, data = List.replicate 8193 (1 : UInt8) := ⟨_, rfl⟩
  have hlen : data.length = 8193 := hdata ▸ List.length_replicate
  rw [← hdata] at hlong ⊢
  have hfull : FileCalls.whole.FullSections := fun _ _ => rfl
  obtain ⟨o, ho, -, -⟩ := ZnsDevice.loadHeader_eq (d := f.device 16384) hfull zeroStack
    ((f.device 16384).oneChunk (f.device 16384).otherFlag [])
  have hzp : (f.device 16384).zp = f.zp := rfl
  rw [hflag.header] at ho
  refine ⟨f, 2 ^ 32 + 1, hinit, fun hv => ?_, fun hv => ?_, ?_⟩
  · obtain ⟨s, hs, -, hbytes, hload⟩ := ZnsDevice.loadZnsDevice_chunks hfull (2 ^ 32 + 1)
      (hlong.header.symm ▸ hlong.passes) (hlong.header.symm ▸ ZnsDevice.matches_header _)
    rw [hlong.header] at hbytes
    have hno : ¬ (f.device 16384).FitsFor 1 s.file.bytes := by
      rw [hbytes]
      have hrest := hlong.rest
      have hzid := hlong.zid
      have hbyteLen := hlong.byteLen
      rw [hlen] at hrest hbyteLen
      have hne : ((f.device 16384).oneChunk (f.device 16384).header data).drop
          ((f.device 16384).chunksStart (f.device 16384).header) ≠ [] := by
        intro hnil
        rw [hnil] at hrest
        exact absurd hrest (by decide)
      unfold ZnsDevice.FitsFor
      generalize ZnsDevice.nextChunk _ = c at hrest hzid hbyteLen ⊢
      obtain ⟨zid, byteLen, rest⟩ := c
      dsimp only at hrest hzid hbyteLen ⊢
      rw [hzp, hzid, hbyteLen, hn, hsize]
      rintro (hnil | hz | hz | hle | ⟨hle, -⟩ | ⟨-, hle, -⟩)
      · exact hne hnil
      · cases hz
      · omega
      · omega
      · exact absurd hle (by decide)
      · omega
    obtain ⟨r, hr, hout⟩ := ZnsLoad.exists_not_inZone (by rw [hzp]; omega)
      (by rw [hzp, hsize]; decide) (Nat.le_add_right (2 ^ 32) 1) (Nat.le_add_left 1 _) hs hno
    exact hout (hv.chunks r (hload ▸ hr))
  · have hm := hv.header
    rw [ho] at hm
    have hen := (hm hflag.passes).zoneWbEn.1 one_ne_zero
    rw [hzp] at hen
    omega
  · rw [ZnsDevice.loadZnsDevice, ho]
    simp only
    have hun : (ZnsLoad.loadArrays .whole ⟨f.device 16384, o⟩).Unbuffered
        (f.device 16384).otherFlag := by
      refine ⟨?_, .inr ⟨one_ne_zero, hwb⟩⟩
      show 0 < (asInt f.zp.nrZones).toNat
      rw [hn]
      decide
    rw [if_pos hflag.passes, ZnsLoad.loadSections, if_pos hun]

end NvmeVirt
