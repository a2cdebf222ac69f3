/-
# What a snapshot of a zoned device keeps of the data of the host

Runs of a device with a zoned namespace beside the history of what the host has
written: the bytes of the accepted writes whose zone was not reset since.  A
snapshot has the bytes below the write pointer of a zone, if they are fewer than
2^31.  It does not have what a random write area holds behind the write pointer,
nor what is left of the write buffer of the SSD.
-/

import NvmeVirt.Zns.Protection
import NvmeVirt.Zns.SnapshotRoundTrip
import NvmeVirt.Zns.WriteBuffers

namespace NvmeVirt

open LittleEndian Outcome

/-! ### Descriptors in memory -/

theorem map_leByte (k n : ℕ) : (List.range k).map (leByte n) = leBytes k n := by
  induction k generalizing n with
  | zero => rfl
  | succ k ih =>
    rw [List.range_succ_eq_map, List.map_cons, List.map_map, leBytes, ← ih (n / 256)]
    congr 1
    · unfold leByte
      rw [pow_zero, Nat.div_one]
      exact UInt8.ofNat_mod_size
    · refine List.map_congr_left fun i _ => ?_
      show UInt8.ofNat (n / 256 ^ (i + 1) % 256) = UInt8.ofNat (n / 256 / 256 ^ i % 256)
      rw [Nat.div_div_eq_div_mul, ← pow_succ']

namespace ZoneDescriptor

variable (d : ZoneDescriptor)

theorem length_bytes : d.bytes.length = zoneDescriptorSize := by
  rw [bytes, List.length_map, List.length_range]

/-- A field of eight bytes. -/
theorem field_bytes {a n : ℕ}
    (hslice : ((List.range zoneDescriptorSize).drop a).take 8 = (List.range 8).map (a + ·))
    (hfield : ∀ i, i < 8 → d.byte (a + i) = leByte n i) :
    leNat ((d.bytes.drop a).take 8) = n % 256 ^ 8 := by
  have hmap : (d.bytes.drop a).take 8 = leBytes 8 n := by
    rw [bytes, ← List.map_drop, ← List.map_take, hslice, List.map_map, ← map_leByte]
    exact List.map_congr_left fun i hi => hfield i (List.mem_range.1 hi)
  rw [hmap, leNat_leBytes]

theorem zslbaOf_bytes : zslbaOf d.bytes = d.zslba % 256 ^ 8 := by
  refine d.field_bytes (by decide) fun i hi => ?_
  unfold byte
  simp (disch := omega) only [if_neg, if_pos, Nat.add_sub_cancel_left]

theorem wpOf_bytes : wpOf d.bytes = d.wp % 256 ^ 8 := by
  refine d.field_bytes (by decide) fun i hi => ?_
  unfold byte
  simp (disch := omega) only [if_neg, if_pos, Nat.add_sub_cancel_left]

theorem zoneCapacityOf_bytes : zoneCapacityOf d.bytes = d.zoneCapacity % 256 ^ 8 := by
  refine d.field_bytes (by decide) fun i hi => ?_
  unfold byte
  simp (disch := omega) only [if_neg, if_pos, Nat.add_sub_cancel_left]

theorem getD_bytes {i : ℕ} (hi : i < zoneDescriptorSize) : d.bytes.getD i 0 = d.byte i := by
  rw [bytes, List.getD_eq_getElem _ _ (by rwa [List.length_map, List.length_range]),
    List.getElem_map, List.getElem_range]

theorem stateOf_bytes : stateOf d.bytes = d.state.code := by
  unfold stateOf
  rw [getD_bytes d (by decide)]
  unfold byte
  rw [if_neg (by decide), if_pos rfl]
  cases d.state <;> rfl

/-- **A descriptor is read as it was written** if its numbers fit their fields. -/
theorem ofBytes_bytes (htype : d.type < 16) (hcap : d.zoneCapacity < 2 ^ 64)
    (hzslba : d.zslba < 2 ^ 64) (hwp : d.wp < 2 ^ 64) : ofBytes d.bytes = some d := by
  have hcode : ZoneState.ofCode d.state.code = some d.state := by cases d.state <;> rfl
  have h0 : (d.bytes.getD 0 0).toNat % 16 = d.type := by
    rw [getD_bytes d (by decide)]
    unfold byte
    rw [if_pos rfl, UInt8.toNat_ofNat']
    omega
  have h2 : decide ((d.bytes.getD 2 0).toNat / 8 % 2 = 1) = d.zrwav := by
    rw [getD_bytes d (by decide)]
    unfold byte
    rw [if_neg (by decide), if_neg (by decide), if_pos rfl]
    cases d.zrwav <;> rfl
  have hpow : 256 ^ 8 = 2 ^ 64 := by norm_num
  unfold ofBytes
  rw [stateOf_bytes, hcode, zoneCapacityOf_bytes, zslbaOf_bytes, wpOf_bytes, h0, h2, hpow,
    Nat.mod_eq_of_lt hcap, Nat.mod_eq_of_lt hzslba, Nat.mod_eq_of_lt hwp]
  rfl

end ZoneDescriptor

/-! ### The device of a namespace -/

namespace ZnsFtl

variable {τ : Type} {f g : ZnsFtl τ} {size z x : ℕ}

/-- **The device can be numbered as the snapshot does:** there are fewer than 2^31 zones, and their
write pointers lie in them. -/
structure InRange (f : ZnsFtl τ) : Prop where
  nrZones : f.zp.nrZones < 2 ^ 31
  wp_ge : ∀ z, z < f.zp.nrZones → (f.zoneDescs z).zslba ≤ (f.zoneDescs z).wp
  wp_le : ∀ z, z < f.zp.nrZones →
    (f.zoneDescs z).wp ≤ (f.zoneDescs z).zslba + (f.zoneDescs z).zoneCapacity

/-- The invariant of the zones puts a namespace of fewer than 2^32 blocks in this range. -/
theorem ZonesOk.inRange (h : f.ZonesOk) (hlow : ∀ z, z < f.zp.nrZones → f.zp.Low z) :
    f.InRange := by
  have hin := fun z hz => (h.zones z hz).inside (.inl (hlow z hz))
  refine ⟨?_, fun z hz => (hin z hz).wp_ge, fun z hz => (hin z hz).wp_le⟩
  have h8 := h.geometry.eight_le
  by_contra hge
  have hlast := hlow (2 ^ 29) (by omega)
  unfold Znsparams.Low at hlast
  have := Nat.mul_le_mul_left (2 ^ 29) h8
  omega

/-- The byte at `x` is in the snapshot: it lies below the write pointer of a zone that is neither
empty nor offline and has fewer than 2^31 bytes there. -/
def InSnapshot (f : ZnsFtl τ) (x : ℕ) : Prop :=
  ∃ z, z < f.zp.nrZones ∧ (f.zoneDescs z).state ≠ .empty ∧ (f.zoneDescs z).state ≠ .offline ∧
    z * f.zp.zoneSize ≤ x ∧
    x < z * f.zp.zoneSize + ((f.zoneDescs z).wp - (f.zoneDescs z).zslba) * 512 ∧
    ((f.zoneDescs z).wp - (f.zoneDescs z).zslba) * 512 < 2 ^ 31

theorem zd_device (hz : z < f.zp.nrZones) : (f.device size).zd z = (f.zoneDescs z).bytes :=
  take_drop_flatMap (fun z => (f.zoneDescs z).length_bytes) hz

/-- The bytes below the write pointer. -/
theorem Placed.byteLen_device (h : f.Placed) (hr : f.InRange) (hz : z < f.zp.nrZones) :
    (f.device size).byteLen z = ((f.zoneDescs z).wp - (f.zoneDescs z).zslba) * 512 ∧
      ((f.zoneDescs z).wp - (f.zoneDescs z).zslba) * 512 ≤ f.zp.zoneSize := by
  have hge := hr.wp_ge z hz
  have hs := h.geometry.slba_lt hz
  have hl := h.geometry.zoneLbas_lt
  have hlbas : f.zp.zoneLbas * 512 ≤ f.zp.zoneSize := Nat.div_mul_le_self _ _
  have hle : (f.zoneDescs z).wp - (f.zoneDescs z).zslba ≤ f.zp.zoneLbas := by
    have := hr.wp_le z hz
    have := h.capacity z hz
    omega
  have hwp : (f.zoneDescs z).wp < 2 ^ 64 := by
    have := h.zslba z hz
    omega
  have hzslba : (f.zoneDescs z).zslba < 2 ^ 64 := hge.trans_lt hwp
  have hbytes : ((f.zoneDescs z).wp - (f.zoneDescs z).zslba) * 512 ≤ f.zp.zoneSize :=
    (Nat.mul_le_mul_right _ hle).trans hlbas
  refine ⟨?_, hbytes⟩
  have hpow : 256 ^ 8 = 2 ^ 64 := by norm_num
  unfold ZnsDevice.byteLen
  rw [zd_device hz, ZoneDescriptor.wpOf_bytes, ZoneDescriptor.zslbaOf_bytes, hpow,
    Nat.mod_eq_of_lt hwp, Nat.mod_eq_of_lt hzslba]
  show u64 (u64 _ * f.sp.secsz) = _
  rw [h.geometry.secsz]
  have := h.geometry.zoneSize_lt
  clear hle
  unfold u64
  omega

/-- **The chunks** have the bytes of the snapshot. -/
theorem Placed.covers_iff (h : f.Placed) (hr : f.InRange) :
    (∃ z ∈ List.range f.zp.nrZones, (f.device size).Covers z x) ↔ f.InSnapshot x := by
  have hzs := h.geometry.zoneSize_lt
  have hn := h.geometry.nrZones
  unfold InSnapshot
  refine exists_congr fun z => ?_
  rw [List.mem_range]
  refine and_congr_right fun hz => ?_
  obtain ⟨hlen, hle⟩ := h.byteLen_device hr hz
  have haddr : (f.device size).storageAddr z = z * f.zp.zoneSize := by
    have : z * f.zp.zoneSize < 2 ^ 32 * 2 ^ 32 := Nat.mul_lt_mul'' (by omega) hzs
    show u64 (z * f.zp.zoneSize) = _
    unfold u64
    omega
  unfold ZnsDevice.Covers ZnsDevice.Saved ZnsDevice.dataLen
  rw [zd_device hz, ZoneDescriptor.stateOf_bytes, hlen, haddr]
  have hstate : ∀ s : ZoneState,
      (¬ (s.code = ZoneState.empty.code ∨ s.code = ZoneState.offline.code)) ↔
        s ≠ .empty ∧ s ≠ .offline := by
    intro s
    cases s <;> decide
  rw [hstate]
  generalize ((f.zoneDescs z).wp - (f.zoneDescs z).zslba) * 512 = n at hle ⊢
  rcases lt_or_ge n (2 ^ 31) with hlt | hge
  · rw [asInt_of_lt hlt, Int.toNat_natCast]
    constructor
    · rintro ⟨⟨⟨h1, h2⟩, -⟩, h3, h4⟩
      exact ⟨h1, h2, h3, h4, hlt⟩
    · rintro ⟨h1, h2, h3, h4, -⟩
      exact ⟨⟨⟨h1, h2⟩, by omega⟩, h3, h4⟩
  · have hneg := asInt_neg hge (by omega)
    rw [Int.toNat_of_nonpos hneg.le]
    constructor
    · rintro ⟨-, h3, h4⟩
      omega
    · rintro ⟨-, -, -, -, h5⟩
      omega

/-- A namespace in this range has a snapshot with its parts in their places. -/
theorem Placed.snapshotable (h : f.Placed) (hr : f.InRange) : (f.device size).Snapshotable := by
  refine ⟨length_flatMap (fun z => (f.zoneDescs z).length_bytes) _, ?_, hr.nrZones,
    h.geometry.zoneSize_lt, fun z _ => Nat.mod_lt _ (by norm_num),
    fun z _ => Nat.mod_lt _ (by norm_num), fun z hz => ?_⟩
  · show ((f.resInfos .active).bytes ++ ((f.resInfos .open).bytes ++
      (f.resInfos .zrwa).bytes)).length = _
    unfold ZoneResourceInfo.bytes
    simp only [List.length_append, length_leBytes]
    rfl
  · obtain ⟨hlen, hle⟩ := h.byteLen_device hr hz
    have := h.geometry.zoneSize_lt
    rw [hlen]
    omega

end ZnsFtl

/-! ### The round trip -/

/-- **The snapshot of `d` restores it on `e`,** whatever the calls transfer: both functions return
0, and the descriptors, the counters, what remains of the buffers and what the host has written are
as they were. -/
def ZnsDevice.RoundTrips (d e : ZnsDevice) (written : ℕ → Prop) : Prop :=
  ∀ save load : FileCalls, save.Transfers → load.Transfers → ∀ fuel, 2 ^ 32 ≤ fuel →
    ∀ stack : List UInt8, stack.length = znsDumpHeaderSize →
    ∃ o s, d.saveZnsDevice save fuel (.ok ()) = (o, .returns 0) ∧
      e.loadZnsDevice load fuel stack (.ok o.bytes) = (s, .returns 0) ∧ d.Restored s.dev ∧
      s.dev.writeBufferRemaining = d.writeBufferRemaining ∧
      ∀ x, written x → x < d.storageSize → s.dev.storage x = d.storage x

/-- **What the snapshot restores:** everything if the write buffers of the SSDs have as much left,
and each byte the host has written is in the snapshot or zero. -/
theorem ZnsFtl.Placed.roundTrips_iff {τ : Type} {f : ZnsFtl τ} (h : f.Placed) (hr : f.InRange)
    {size : ℕ} {e : ZnsDevice} (ht : (f.device size).Twin e) (written : ℕ → Prop) :
    (f.device size).RoundTrips e written ↔
      e.writeBufferRemaining = (f.device size).writeBufferRemaining ∧
      ∀ x, written x → x < size → f.storage x ≠ 0 → f.InSnapshot x := by
  have hsnap : (f.device size).Snapshotable := h.snapshotable hr
  constructor
  · intro hround
    have hstack : (List.replicate znsDumpHeaderSize (0 : UInt8)).length = znsDumpHeaderSize :=
      List.length_replicate
    obtain ⟨o, s, hsave, hload, -, hwb, hbytes⟩ := hround _ _ FileCalls.whole_transfers
      FileCalls.whole_transfers (2 ^ 32) le_rfl _ hstack
    obtain ⟨o', hsave', ho⟩ := ZnsDevice.saveZnsDevice_done (d := f.device size)
      FileCalls.whole_transfers hsnap (le_refl (2 ^ 32))
    obtain ⟨s', hload', -, hwb', hst⟩ := ZnsDevice.loadZnsDevice_snapshot (d := f.device size)
      FileCalls.whole_transfers hsnap ht (le_refl (2 ^ 32)) hstack
    obtain ⟨rfl, -⟩ := Prod.mk.inj (hsave.symm.trans hsave')
    rw [ho] at hload
    obtain ⟨rfl, -⟩ := Prod.mk.inj (hload.symm.trans hload')
    refine ⟨hwb'.symm.trans hwb, fun x hx hlt hne => ?_⟩
    by_contra hno
    have hzero := (hst x).trans (if_neg fun hc => hno ((h.covers_iff hr).1 hc))
    rw [if_pos (show x < (f.device size).storageSize from hlt), hbytes x hx hlt] at hzero
    exact hne hzero
  · rintro ⟨hwb, hcond⟩ save load hs hl fuel hfuel stack hstack
    obtain ⟨o, hsave, ho⟩ := ZnsDevice.saveZnsDevice_done (d := f.device size) hs hsnap hfuel
    obtain ⟨s, hload, hres, hwb', hst⟩ :=
      ZnsDevice.loadZnsDevice_snapshot (d := f.device size) hl hsnap ht hfuel hstack
    refine ⟨o, s, hsave, by rw [ho, hload], hres, hwb'.trans hwb, fun x hx hlt => ?_⟩
    rw [hst]
    by_cases hc : ∃ z ∈ List.range (f.device size).zp.nrZones, (f.device size).Covers z x
    · rw [if_pos hc]
    · rw [if_neg hc, if_pos hlt]
      by_contra hne
      exact hc ((h.covers_iff hr).2 (hcond x hx hlt fun hzero => hne hzero.symm))

/-! ### Runs -/

/-- **The device is at rest:** every command that was taken is answered, and every release of buffer
space has run. -/
def NvmevDev.AtRest {σ : Type} (d : NvmevDev σ) : Prop :=
  d.call = none ∧ d.history.posted.length = d.history.dispatched.length ∧
    d.history.released.length = d.history.scheduled.length

instance {σ : Type} (d : NvmevDev σ) : Decidable d.AtRest :=
  decidable_of_iff (d.call.isNone = true ∧ _) (by rw [Option.isNone_iff_eq_none]; rfl)

/-- A device with a zoned namespace; `written` is a history variable: the bytes the host has written
since their zones were reset. -/
structure WrittenDev (τ : Type) where
  dev : NvmevDev (ZnsNs τ)
  written : ℕ → Bool

namespace WrittenDev

variable {τ : Type} (cfg : IoConfig) (clk : SsdClock τ) (s : WrittenDev τ)

/-- What has been written after a command: an accepted write adds its blocks, a reset takes away the
zones it leaves empty. -/
def writtenAfter (req : NvmevRequest) (out : IoOutcome (ZnsNs τ)) (x : ℕ) : Bool :=
  if req.cmd.Writes then
    s.written x || decide (¬ out.Rejected ∧ out.cmd.slba * 512 ≤ x ∧
      x < (out.cmd.slba + out.cmd.nrLbas) * 512)
  else
    s.written x && !decide (req.cmd.Resets ∧
      x / out.ns.ftl.zp.zoneSize ∈ s.dev.ns.ftl.addressed req.cmd ∧
      (out.ns.ftl.zoneDescs (x / out.ns.ftl.zp.zoneSize)).state = .empty)

/-- One step. -/
def exec (op : IoOp) : Except Fault (WrittenDev τ) := do
  let d ← s.dev.exec cfg (znsTarget clk) op
  match s.dev.taken op with
  | none => .ok { s with dev := d }
  | some req => do
    let out ← s.dev.ns.znsProcNvmeIoCmd clk req
    .ok { dev := d, written := s.writtenAfter req out }

/-- Nothing is written. -/
def start (d : NvmevDev (ZnsNs τ)) : WrittenDev τ where
  dev := d
  written := fun _ => false

variable {cfg clk s} {op : IoOp}

/-- The history is beside the device. -/
theorem exec_dev {s' : WrittenDev τ} (h : s.exec cfg clk op = .ok s') :
    s.dev.exec cfg (znsTarget clk) op = .ok s'.dev := by
  unfold exec at h
  obtain ⟨d, hd, h⟩ := bind_eq_ok.1 h
  rw [hd]
  cases htaken : s.dev.taken op with
  | none =>
    rw [htaken] at h
    cases h
    rfl
  | some req =>
    rw [htaken] at h
    obtain ⟨out, -, h⟩ := bind_eq_ok.1 h
    cases h
    rfl

/-- **No run moves a zone.** -/
theorem placed_run (h : s.dev.ns.ftl.Placed) (ops : List IoOp) :
    Ends (runList (exec cfg clk) s ops) (fun s' => s'.dev.ns.ftl.Placed) fun _ => True := by
  refine Ends.runList (fun op _ s hs => ?_) h
  refine (Ends.trivial (s.exec cfg clk op)).with_eq.mono (fun s' h => ?_) fun _ _ => trivial
  exact hs.frame (NvmevDev.frame_exec (exec_dev h.2))

end WrittenDev

/-- **The snapshot of a zoned device,** at rest or not: it restores the device if the write buffers
of the SSDs have as much left, and each byte the host has written is in the snapshot or zero. -/
theorem znsRun_roundTrips_iff {τ : Type} (cfg : IoConfig) (clk : SsdClock τ) {size : ℕ}
    {fcfg : FtlConfigs} {zcfg : ZnsConfigs} {prior : Znsparams} {clock : τ}
    {storage reportBuffer : Mem} {f : ZnsFtl τ}
    (hinit : znsInitNamespace size fcfg zcfg prior clock storage reportBuffer = .ok f)
    {d : NvmevDev (ZnsNs τ)} (hd : d.ns.ftl = f) {ops : List IoOp} {s : WrittenDev τ}
    (hrun : runList (WrittenDev.exec cfg clk) (.start d) ops = .ok s)
    (hrange : s.dev.ns.ftl.InRange) {storageSize : ℕ} {e : ZnsDevice}
    (htwin : (s.dev.ns.ftl.device storageSize).Twin e) :
    (s.dev.ns.ftl.device storageSize).RoundTrips e (fun x => s.written x = true) ↔
      e.writeBufferRemaining = u64 s.dev.ns.ftl.writeBuffer.remaining ∧
      ∀ x, s.written x = true → x < storageSize → s.dev.ns.ftl.storage x ≠ 0 →
        s.dev.ns.ftl.InSnapshot x := by
  have hplaced : d.ns.ftl.Placed := hd ▸ (znsInitNamespace_zonesOk hinit).1.placed
  exact ((WrittenDev.placed_run (s := .start d) hplaced ops).of_ok hrun).roundTrips_iff hrange
    htwin _

/-! ### Two snapshots of the small namespace -/

instance {τ : Type} (f : ZnsFtl τ) (x : ℕ) : Decidable (f.InSnapshot x) :=
  inferInstanceAs (Decidable (∃ z, z < _ ∧ _))

instance {τ : Type} (f : ZnsFtl τ) : Decidable f.InRange :=
  decidable_of_iff (f.zp.nrZones < 2 ^ 31 ∧
    (∀ z, z < f.zp.nrZones → (f.zoneDescs z).zslba ≤ (f.zoneDescs z).wp) ∧
    ∀ z, z < f.zp.nrZones →
      (f.zoneDescs z).wp ≤ (f.zoneDescs z).zslba + (f.zoneDescs z).zoneCapacity)
    ⟨fun h => ⟨h.1, h.2.1, h.2.2⟩, fun h => ⟨h.nrZones, h.wp_ge, h.wp_le⟩⟩

/-- A device is in a state of itself. -/
theorem ZnsDevice.Snapshotable.twin {d : ZnsDevice} (h : d.Snapshotable) : d.Twin d :=
  ⟨rfl, rfl, rfl, h.zoneDescs, h.resInfos⟩

/-- A run on the two zones behind a queue, whose bytes of the host are all `7`. -/
def runWritten (ops : List IoOp) : Except Fault (ZnsFtl Unit × WrittenDev Unit) := do
  let f ← twoZones
  let s ← runList (WrittenDev.exec oneWorker idleClock) (.start (zonedStart f)) ops
  .ok (f, s)

/-- What a check of the last state of a run says. -/
theorem runWritten_spec (ops : List IoOp) (p : WrittenDev Unit → Bool)
    (h : (runWritten ops).toOption.any (fun s => p s.2) = true) :
    ∃ f s, twoZones = .ok f ∧
      runList (WrittenDev.exec oneWorker idleClock) (.start (zonedStart f)) ops = .ok s ∧
      s.dev.ns.ftl.Placed ∧ p s = true := by
  obtain ⟨⟨f, s⟩, hrun, hp⟩ := exists_ok_of_any h
  obtain ⟨f₀, hinit, hrun⟩ := bind_eq_ok.1 hrun
  obtain ⟨s₁, hrun, heq⟩ := bind_eq_ok.1 hrun
  cases heq
  have hplaced : (WrittenDev.start (zonedStart f)).dev.ns.ftl.Placed :=
    (znsInitNamespace_zonesOk hinit).1.placed
  exact ⟨f, s, hinit, hrun, (WrittenDev.placed_run hplaced ops).of_ok hrun, hp⟩

/-- Both zones are written up to their ends and the data is copied. -/
def writeZones : List IoOp :=
  [.submit 1 0 (znsRequest .write 0 15 0).cmd, .submit 1 1 (znsRequest .write 16 15 0).cmd,
    .ring 1 2, .poll 1, .dispatch 0, .reclaim, .dispatch 0, .reclaim, .dispatch 0, .enter 0] ++
    List.replicate 9 (.visit 0 0)

/-- Every byte of the full zones survives. -/
theorem znsRun_roundTrips_full : ∃ f s, twoZones = .ok f ∧
    runList (WrittenDev.exec oneWorker idleClock) (.start (zonedStart f)) writeZones = .ok s ∧
    s.dev.AtRest ∧ s.written 16383 = true ∧ s.dev.ns.ftl.storage 16383 = 7 ∧
    (s.dev.ns.ftl.device 16384).RoundTrips (s.dev.ns.ftl.device 16384)
      (fun x => s.written x = true) := by
  obtain ⟨f, s, hinit, hrun, hplaced, hp⟩ := runWritten_spec writeZones
    (fun s => decide (s.dev.ns.ftl.InRange ∧ s.dev.AtRest ∧ s.written 16383 = true ∧
      s.dev.ns.ftl.storage 16383 = 7) && decide (s.dev.ns.ftl.zp.nrZones = 2 ∧
        s.dev.ns.ftl.zp.zoneSize = 8192 ∧ ∀ z : ℕ, z < 2 →
          (s.dev.ns.ftl.zoneDescs z).state = .full ∧
            (s.dev.ns.ftl.zoneDescs z).wp - (s.dev.ns.ftl.zoneDescs z).zslba = 16))
    (by decide +kernel)
  obtain ⟨hstart, hzones⟩ := Bool.and_eq_true_iff.1 hp
  obtain ⟨hrange, hrest, hwritten, hbyte⟩ := of_decide_eq_true hstart
  obtain ⟨hnr, hsize, hfull⟩ := of_decide_eq_true hzones
  refine ⟨f, s, hinit, hrun, hrest, hwritten, hbyte, (znsRun_roundTrips_iff oneWorker idleClock
    hinit rfl hrun hrange (hplaced.snapshotable hrange).twin).2 ⟨rfl, fun x _ hx _ => ?_⟩⟩
  -- the byte lies in one of the two zones
  obtain ⟨hstate, hwp⟩ := hfull (x / 8192) (by omega)
  unfold ZnsFtl.InSnapshot
  rw [hnr, hsize]
  refine ⟨x / 8192, by omega, by rw [hstate]; decide, by rw [hstate]; decide, ?_⟩
  rw [hwp]
  omega

/-- A zone is opened with a random write area, and its first page is written there. -/
def writeZrwaPage : List IoOp :=
  [.submit 1 0 (znsRequest .zoneMgmtSend 0 0 0x203).cmd,
    .submit 1 1 (znsRequest .write 0 7 0).cmd, .ring 1 2, .poll 1, .dispatch 0, .reclaim,
    .dispatch 0, .reclaim, .dispatch 0, .enter 0, .visit 0 0, .visit 0 0, .visit 0 0, .visit 0 0]

/-- **The snapshot loses what a random write area holds,** although the host has the status of a
successful write. -/
theorem writeZrwaPage_not_roundTrips : ∃ f s, twoZones = .ok f ∧
    runList (WrittenDev.exec oneWorker idleClock) (.start (zonedStart f)) writeZrwaPage = .ok s ∧
    s.dev.AtRest ∧ s.written 0 = true ∧ s.dev.ns.ftl.storage 0 = 7 ∧
    ¬ (s.dev.ns.ftl.device 16384).RoundTrips (s.dev.ns.ftl.device 16384)
      (fun x => s.written x = true) := by
  obtain ⟨f, s, hinit, hrun, hplaced, hp⟩ := runWritten_spec writeZrwaPage
    (fun s => decide (s.dev.ns.ftl.InRange ∧ s.dev.AtRest ∧ s.written 0 = true ∧
      s.dev.ns.ftl.storage 0 = 7 ∧ ¬ s.dev.ns.ftl.InSnapshot 0)) (by decide +kernel)
  obtain ⟨hrange, hrest, hwritten, hbyte, hsnap⟩ := of_decide_eq_true hp
  refine ⟨f, s, hinit, hrun, hrest, hwritten, hbyte, fun h => hsnap ?_⟩
  have hcond := (hplaced.roundTrips_iff hrange (hplaced.snapshotable hrange).twin _).1 h
  refine hcond.2 0 hwritten (by norm_num) ?_
  rw [hbyte]
  decide

end NvmeVirt
