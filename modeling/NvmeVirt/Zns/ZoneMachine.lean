/-
# The zone state machine

Runs of writes, zone management sends and buffer releases on a zoned namespace.  In every state
a run reaches the counters of the open and the active resources are the numbers
of the zones that hold one, and the write pointer of every zone lies where its
state says.
-/

import NvmeVirt.Zns.WriteSteps

namespace NvmeVirt

open Outcome

/-- A command that changes zones. -/
inductive ZnsOp
  | write (req : NvmevRequest)
  | mgmtSend (req : NvmevRequest)

/-- The request of a command. -/
def ZnsOp.req : ZnsOp → NvmevRequest
  | .write req => req
  | .mgmtSend req => req

/-- The command opens zones with a random write area. -/
def ZnsOp.WithZrwa : ZnsOp → Prop
  | .write _ => False
  | .mgmtSend req =>
    ZoneSendAction.ofZsa req.cmd.zsa = some .openZone ∧ req.cmd.zsaso = true

instance : DecidablePred ZnsOp.WithZrwa := fun op => by
  cases op <;> unfold ZnsOp.WithZrwa <;> infer_instance

/-- A command, or a release of buffer space as the writes schedule them. -/
inductive ZnsStep
  | command (op : ZnsOp)
  | release (op : InternalOp)

/-- The length of a command has 16 bits. -/
def ZnsStep.LengthOk : ZnsStep → Prop
  | .command op => op.req.cmd.length < 2 ^ 16
  | .release _ => True

instance : DecidablePred ZnsStep.LengthOk := fun s => by
  cases s <;> unfold ZnsStep.LengthOk <;> infer_instance

namespace ZnsFtl

variable {τ : Type} (clk : SsdClock τ) {f f' : ZnsFtl τ} {zid slba : ℕ}

/-- A command is processed; `write` is `zns_write`, `mgmtSend` is `zns_zmgmt_send`. -/
def exec (f : ZnsFtl τ) : ZnsOp → Except Fault (ZnsFtl τ)
  | .write req => do
    let o ← f.znsWrite clk req
    .ok o.ns
  | .mgmtSend req => do
    let o ← f.znsZmgmtSend clk req
    .ok o.ns

/-- A scheduled release runs. -/
def releaseBuffer (f : ZnsFtl τ) (op : InternalOp) : ZnsFtl τ :=
  let b := ZnsBuffer.ofNat op.writeBuffer
  f.setBuffer b (bufferRelease (f.buffer b) op.buffsToRelease)

/-- A step is taken. -/
def step (f : ZnsFtl τ) : ZnsStep → Except Fault (ZnsFtl τ)
  | .command op => f.exec clk op
  | .release op => .ok (f.releaseBuffer op)

/-- The command is a write that fills its zone out of the random write area. -/
def LosesZrwa (f : ZnsFtl τ) : ZnsOp → Prop
  | .write req => f.FillsZrwa (f.zp.lbaToZone f.sp req.cmd.slba) req.cmd.slba req.cmd.nrLbas
  | .mgmtSend _ => False

instance (f : ZnsFtl τ) (op : ZnsOp) : Decidable (f.LosesZrwa op) := by
  cases op <;> unfold LosesZrwa <;> infer_instance

/-- A release never does. -/
def StepLosesZrwa (f : ZnsFtl τ) : ZnsStep → Prop
  | .command op => f.LosesZrwa op
  | .release _ => False

instance (f : ZnsFtl τ) (s : ZnsStep) : Decidable (f.StepLosesZrwa s) := by
  cases s <;> unfold StepLosesZrwa <;> infer_instance

/-- What a command keeps: the invariant of the zones, and the counter of the random write areas
unless `L`. -/
structure Kept (L : Prop) (f f' : ZnsFtl τ) : Prop where
  zp : f'.zp = f.zp
  zonesOk : f'.ZonesOk
  zrwa : f.Balanced .zrwa → ¬ L → f'.Balanced .zrwa

theorem Keeps.kept {L : Prop} (hk : Keeps L f f' zid) (h : f.ZonesOk) (hz : zid < f.zp.nrZones) :
    Kept L f f' :=
  ⟨hk.moves.zp, hk.zonesOk h hz, fun hb hL => hk.zrwa hz hb hL⟩

theorem Kept.trans {g : ZnsFtl τ} (h : Kept False f g) (h' : Kept False g f') : Kept False f f' :=
  ⟨h'.zp.trans h.zp, h'.zonesOk, fun hb hL => h'.zrwa (h.zrwa hb hL) hL⟩

/-! ### One command -/

/-- `zns_write`: the page of the first block and the block itself find the same zone. -/
theorem ZonesOk.write (h : f.ZonesOk) (req : NvmevRequest) (hlength : req.cmd.length < 2 ^ 16) :
    Ends (f.znsWrite clk req) (fun o => Kept (f.LosesZrwa (.write req)) f o.ns) fun _ => True := by
  unfold znsWrite
  dsimp only
  rw [h.geometry.lpnToZone_lbaToLpn]
  refine (Ends.trivial _).bind fun _ _ => ?_
  split_ifs with hv
  · exact (h.writeSeq clk req hlength hv).mono
      (fun o ⟨hz, hk⟩ => (hk.mono False.elim).kept h hz) fun _ _ => trivial
  · exact (h.writeZrwa clk req (Bool.not_eq_false _ ▸ hv)).mono
      (fun o ⟨hz, hk⟩ => hk.kept h hz) fun _ _ => trivial

/-- The action of a zone management send on one zone. -/
theorem ZonesOk.action (h : f.ZonesOk) (hz : f.zp.lbaToZone f.sp slba < f.zp.nrZones)
    (action : ZoneSendAction) (option : Bool)
    (hsizes : action = .openZone → option = true → f.zp.ZrwaSizes) :
    Ends (f.zmgmtAction slba action option)
      (fun r => Keeps False f r.1 (f.zp.lbaToZone f.sp slba)) fun _ => True := by
  cases action with
  | closeZone => exact h.closeZone hz
  | finishZone => exact h.finishZone hz
  | openZone => exact h.openZone hz option (hsizes rfl)
  | resetZone => exact h.resetZone hz
  | offlineZone => exact h.offlineZone hz
  | flushExplZrwa => exact h.flushExplicitZrwa hz

/-- **The rule of `__zmgmt_send`:** what the action leaves on the zone, and what does not depend on
the timing model, the command leaves. -/
theorem zmgmtSendZone_rule {I : ZnsFtl τ → Prop} {action : ZoneSendAction} {option : Bool}
    (hclock : ∀ g clock, I g → I { g with clock := clock })
    (haction : f.zp.lbaToZone f.sp slba < f.zp.nrZones →
      Ends (f.zmgmtAction slba action option) (fun r => I r.1) fun _ => True)
    (req : NvmevRequest) (nsecsTarget : ℕ) :
    Ends (f.zmgmtSendZone clk slba action option req nsecsTarget)
      (fun r => I r.1) fun _ => True := by
  unfold zmgmtSendZone
  dsimp only
  refine ends_zoneExists.bind fun _ hz => (haction hz).bind ?_
  rintro ⟨g, status⟩ hg
  dsimp only
  split_ifs
  · unfold resetTimes
    dsimp only
    simp only [bind_assoc]
    exact (Ends.trivial _).bind fun c _ => hclock g c.clock hg
  · exact hg

/-- **The rule of `zns_zmgmt_send`:** what the action keeps on every zone, the command keeps, on one
zone or on all of them. -/
theorem zmgmtSend_rule {I : ZnsFtl τ → Prop} {action : ZoneSendAction} {req : NvmevRequest}
    (hclock : ∀ g clock, I g → I { g with clock := clock })
    (haction : ∀ g slba, I g → g.zp.lbaToZone g.sp slba < g.zp.nrZones →
      Ends (g.zmgmtAction slba action req.cmd.zsaso) (fun r => I r.1) fun _ => True) (h : I f) :
    Ends (f.zmgmtSend clk action req) (fun r => I r.1) fun _ => True := by
  have hzone : ∀ (g : ZnsFtl τ) slba t, I g → Ends (g.zmgmtSendZone clk slba action req.cmd.zsaso
      req t) (fun r => I r.1) fun _ => True :=
    fun g slba t hg => zmgmtSendZone_rule clk hclock (haction g slba hg) req t
  unfold zmgmtSend
  split_ifs
  · refine (Ends.forRange (fun _ s => I s.1) h fun zid _ s hs => ?_).bind fun s hs => by exact hs
    exact (hzone s.1 _ s.2 hs).bind fun r hr => hr
  · exact hzone f _ _ h

/-- What a command keeps does not depend on the timing model. -/
theorem Kept.withClock {g : ZnsFtl τ} (h : Kept False f g) (clock : τ) :
    Kept False f { g with clock := clock } :=
  ⟨h.zp, h.zonesOk.congr rfl rfl rfl rfl, fun hb hL => (h.zrwa hb hL).congr rfl rfl rfl⟩

/-- `__zmgmt_send`. -/
theorem ZonesOk.sendZone (h : f.ZonesOk) (slba : ℕ) (action : ZoneSendAction) (option : Bool)
    (hsizes : action = .openZone → option = true → f.zp.ZrwaSizes) (req : NvmevRequest)
    (nsecsTarget : ℕ) :
    Ends (f.zmgmtSendZone clk slba action option req nsecsTarget)
      (fun r => Kept False f r.1) fun _ => True :=
  zmgmtSendZone_rule (I := Kept False f) clk (fun _ clock hg => hg.withClock clock)
    (fun hz => (h.action hz action option hsizes).mono (fun _ hk => hk.kept h hz)
      fun _ _ => trivial) req nsecsTarget

/-- `zns_zmgmt_send`, on one zone or on all. -/
theorem ZonesOk.send (h : f.ZonesOk) (action : ZoneSendAction) (req : NvmevRequest)
    (hsizes : action = .openZone → req.cmd.zsaso = true → f.zp.ZrwaSizes) :
    Ends (f.zmgmtSend clk action req) (fun r => Kept False f r.1) fun _ => True := by
  refine zmgmtSend_rule (I := Kept False f) clk (fun _ clock hg => hg.withClock clock)
    (fun g slba hg hz => ?_) ⟨rfl, h, fun hb _ => hb⟩
  exact (hg.zonesOk.action hz action _ (hg.zp ▸ hsizes)).mono
    (fun r hk => hg.trans (hk.kept hg.zonesOk hz)) fun _ _ => trivial

/-- **What one command keeps.** -/
theorem ZonesOk.exec (h : f.ZonesOk) (op : ZnsOp) (hlength : op.req.cmd.length < 2 ^ 16)
    (hsizes : op.WithZrwa → f.zp.ZrwaSizes) :
    Ends (f.exec clk op) (Kept (f.LosesZrwa op) f) fun _ => True := by
  cases op with
  | write req => exact (h.write clk req hlength).bind fun o ho => ho
  | mgmtSend req =>
    show Ends (f.znsZmgmtSend clk req >>= fun o => .ok o.ns) _ _
    unfold znsZmgmtSend
    cases ha : ZoneSendAction.ofZsa req.cmd.zsa with
    | none => exact trivial
    | some action =>
      dsimp only
      simp only [bind_assoc]
      refine (h.send clk action req ?_).bind fun r hr => hr
      rintro rfl hopt
      exact hsizes ⟨ha, hopt⟩

/-- A step that opens a zone with a random write area only if their sizes go together. -/
structure StepOk (f : ZnsFtl τ) (s : ZnsStep) : Prop where
  length : s.LengthOk
  sizes : ∀ op, s = .command op → op.WithZrwa → f.zp.ZrwaSizes

/-- **What one step keeps.** -/
theorem ZonesOk.step (h : f.ZonesOk) {s : ZnsStep} (hs : f.StepOk s) :
    Ends (f.step clk s) (Kept (f.StepLosesZrwa s) f) fun _ => True := by
  cases s with
  | command op => exact h.exec clk op hs.length (hs.sizes op rfl)
  | release op =>
    exact ⟨zp_setBuffer .., h.congr (by simp [releaseBuffer]) (by simp [releaseBuffer])
      (by simp [releaseBuffer]) (by simp [releaseBuffer]), fun hb _ => hb.congr
      (by simp [releaseBuffer]) (by simp [releaseBuffer]) (by simp [releaseBuffer])⟩

end ZnsFtl

/-! ### The start -/

section Start

variable {τ : Type} {size : ℕ} {cfg : FtlConfigs} {zcfg : ZnsConfigs} {prior : Znsparams}
  {clock : τ} {storage reportBuffer : Mem} {f : ZnsFtl τ}

/-- What `zns_init_namespace` takes over from the size, the configuration and the structure the
parameters were in before. -/
theorem znsInitNamespace_eq
    (h : znsInitNamespace size cfg zcfg prior clock storage reportBuffer = .ok f) :
    ∃ spp, ssdInitParams size 1 cfg = .ok spp ∧ znsInitParams prior spp size zcfg = .ok f.zp ∧
      f = znsInitFtl f.zp spp clock storage reportBuffer := by
  unfold znsInitNamespace at h
  simp only [bind_eq_ok] at h
  obtain ⟨spp, hspp, zpp, hzpp, h⟩ := h
  cases h
  exact ⟨spp, hspp, hzpp, rfl⟩

/-- **`zns_init_params` checks the geometry.** -/
theorem znsInitParams_geometry {spp : Ssdparams} {zpp : Znsparams}
    (hspp : ssdInitParams size 1 cfg = .ok spp) (h : znsInitParams prior spp size zcfg = .ok zpp) :
    ZnsGeometry zpp spp ∧ zpp.nrZones * zpp.zoneSize ≤ size := by
  obtain ⟨h1, h2, h3⟩ := ssdInitParams_sizes hspp
  unfold znsInitParams at h
  simp only [bind_eq_ok, defined_eq_ok, nvmevAssert_eq_ok] at h
  obtain ⟨_, ⟨hz, -⟩, _, ⟨hpos, -⟩, _, -, _, hal, h⟩ := h
  cases h
  rw [h3] at hal
  refine ⟨⟨h1, h2, h3, hpos, Nat.mod_lt _ (by norm_num), hal, Nat.mod_lt _ (by norm_num)⟩, ?_⟩
  calc u32 (size / zcfg.zoneSize) * u32 zcfg.zoneSize
      ≤ size / zcfg.zoneSize * zcfg.zoneSize := Nat.mul_le_mul (Nat.mod_le _ _) (Nat.mod_le _ _)
    _ ≤ size := Nat.div_mul_le_self _ _

/-- All zones of a namespace of fewer than 2^32 blocks begin below block 2^32. -/
theorem znsInitNamespace_low
    (h : znsInitNamespace size cfg zcfg prior clock storage reportBuffer = .ok f)
    (hsize : size < 2 ^ 41) {z : ℕ} (hz : z < f.zp.nrZones) : f.zp.Low z := by
  obtain ⟨spp, hspp, hzpp, -⟩ := znsInitNamespace_eq h
  have hle := (znsInitParams_geometry hspp hzpp).2
  have hmul : z * f.zp.zoneSize ≤ f.zp.nrZones * f.zp.zoneSize := Nat.mul_le_mul_right _ hz.le
  have hdiv : z * (f.zp.zoneSize / 512) * 512 ≤ z * f.zp.zoneSize := by
    rw [mul_assoc]
    exact Nat.mul_le_mul_left _ (Nat.div_mul_le_self _ _)
  show z * (f.zp.zoneSize / 512) < 2 ^ 32
  omega

/-- The window of a random write area comes from the structure before its assignment. -/
theorem znsInitParams_window {spp : Ssdparams} {zpp : Znsparams}
    (hspp : ssdInitParams size 1 cfg = .ok spp) (h : znsInitParams prior spp size zcfg = .ok zpp) :
    zpp.lbasPerZrwa = prior.zrwaSize / 512 := by
  obtain ⟨h1, -, -⟩ := ssdInitParams_sizes hspp
  unfold znsInitParams at h
  simp only [bind_eq_ok, defined_eq_ok, nvmevAssert_eq_ok] at h
  obtain ⟨_, -, _, -, _, -, _, -, h⟩ := h
  cases h
  rw [← h1]

/-- **The namespace begins with the invariant.** -/
theorem znsInitNamespace_zonesOk
    (h : znsInitNamespace size cfg zcfg prior clock storage reportBuffer = .ok f) :
    f.ZonesOk ∧ f.Balanced .zrwa := by
  obtain ⟨spp, hspp, hzpp, hf⟩ := znsInitNamespace_eq h
  have hsp : f.sp = spp := by rw [hf]; rfl
  have hg : ZnsGeometry f.zp f.sp := hsp ▸ (znsInitParams_geometry hspp hzpp).1
  have hres : ∀ ty, f.resInfos ty = initResource f.zp := fun ty => by
    rw [hf]
    rfl
  have hdesc : ∀ z, f.zoneDescs z = initDescriptor f.zp z := fun z => by
    rw [hf]
    rfl
  have hbalanced : ∀ ty, f.Balanced ty := by
    intro ty
    unfold ZnsFtl.Balanced ZnsFtl.held
    rw [hres]
    refine (Finset.sum_eq_zero fun z _ => ?_).symm
    rw [hdesc]
    refine ZoneDescriptor.units_eq_zero ?_
    cases ty <;> simp [initDescriptor]
  refine ⟨⟨hg, fun z _ => ?_, fun ty => ?_, fun ty _ => hbalanced ty⟩, hbalanced .zrwa⟩
  · have hlbas : byteToLba f.zp.zoneSize = f.zp.zoneLbas := Nat.shiftRight_eq_div_pow _ 9
    rw [hdesc]
    unfold initDescriptor
    rw [hlbas]
    refine ⟨rfl, rfl, fun _ => ⟨rfl, rfl⟩, nofun, fun _ => ZoneDescriptor.inside_of_wp rfl ?_⟩
    exact lt_of_lt_of_le (by norm_num) hg.eight_le
  · rw [hres]
    rfl

end Start

/-! ### Runs -/

namespace ZnsFtl

variable {τ : Type} {f : ZnsFtl τ}

/-- **The zone state machine:** the counters are the numbers of the zones that hold an open and an
active resource, and the write pointers lie where the states say. -/
structure ZoneMachine (f : ZnsFtl τ) : Prop where
  openCnt : (f.resInfos .open).acquiredCnt
    = ((Finset.range f.zp.nrZones).filter fun z => (f.zoneDescs z).state.Opened).card
  activeCnt : (f.resInfos .active).acquiredCnt
    = ((Finset.range f.zp.nrZones).filter fun z => (f.zoneDescs z).state.Opened).card
      + ((Finset.range f.zp.nrZones).filter fun z => (f.zoneDescs z).state = .closed).card
  openTotal : (f.resInfos .open).acquiredCnt ≤ (f.resInfos .open).totalCnt
  activeTotal : (f.resInfos .active).acquiredCnt ≤ (f.resInfos .active).totalCnt
  wp : ∀ z, z < f.zp.nrZones → (f.zoneDescs z).zslba ≤ (f.zoneDescs z).wp ∧
    (f.zoneDescs z).wp ≤ (f.zoneDescs z).zslba + (f.zoneDescs z).zoneCapacity
  empty : ∀ z, z < f.zp.nrZones → (f.zoneDescs z).state = .empty →
    (f.zoneDescs z).wp = (f.zoneDescs z).zslba ∧ (f.zoneDescs z).zrwav = false
  notFull : ∀ z, z < f.zp.nrZones → (f.zoneDescs z).state.Active →
    (f.zoneDescs z).wp < (f.zoneDescs z).zslba + (f.zoneDescs z).zoneCapacity

/-- The active zones are the opened and the closed ones. -/
theorem held_active (f : ZnsFtl τ) :
    f.held .active
      = ((Finset.range f.zp.nrZones).filter fun z => (f.zoneDescs z).state.Opened).card
        + ((Finset.range f.zp.nrZones).filter fun z => (f.zoneDescs z).state = .closed).card := by
  unfold held
  rw [Finset.card_filter, Finset.card_filter, ← Finset.sum_add_distrib]
  refine Finset.sum_congr rfl fun z _ => ?_
  cases hs : (f.zoneDescs z).state <;> simp [ZoneDescriptor.units, hs]

/-- What the invariant says of a namespace whose zones all begin below block 2^32. -/
theorem ZonesOk.zoneMachine (h : f.ZonesOk) (hlow : ∀ z, z < f.zp.nrZones → f.zp.Low z) :
    f.ZoneMachine := by
  have hopen := h.balanced .open (by decide)
  have hactive := h.balanced .active (by decide)
  refine ⟨?_, ?_, ?_, ?_, fun z hz => ?_, fun z hz => (h.zones z hz).empty, fun z hz => ?_⟩
  · rw [hopen, held_eq_card]
    rfl
  · rw [hactive, held_active]
  · rw [hopen, h.total]
    exact f.held_le .open
  · rw [hactive, h.total]
    exact f.held_le .active
  · have hin := (h.zones z hz).inside (.inl (hlow z hz))
    exact ⟨hin.wp_ge, hin.wp_le⟩
  · exact ((h.zones z hz).inside (.inl (hlow z hz))).active

/-- **Every run keeps the invariant,** and the counter of the random write areas as long as no
write fills a zone out of one. -/
theorem ZonesOk.run (clk : SsdClock τ) (h : f.ZonesOk) {steps : List ZnsStep}
    (hsteps : ∀ s ∈ steps, f.StepOk s) :
    Ends (runList (ZnsFtl.step clk) f steps) (fun f' => f'.ZonesOk ∧ f'.zp = f.zp)
      fun _ => True := by
  refine Ends.runList (fun s hs g ⟨hg, hzp⟩ => ?_) ⟨h, rfl⟩
  have hok : g.StepOk s := ⟨(hsteps s hs).length, fun op hop hw => hzp ▸ (hsteps s hs).sizes op hop hw⟩
  exact (hg.step clk hok).mono (fun g' hk => ⟨hk.zonesOk, hk.zp.trans hzp⟩) fun _ _ => trivial

theorem ZonesOk.run_zrwa (clk : SsdClock τ) (h : f.ZonesOk) (hb : f.Balanced .zrwa)
    {steps : List ZnsStep} (hsteps : ∀ s ∈ steps, f.StepOk s)
    (hkeep : Along (ZnsFtl.step clk) (fun g s => ¬ g.StepLosesZrwa s) f steps) :
    Ends (runList (ZnsFtl.step clk) f steps)
      (fun f' => f'.ZonesOk ∧ f'.zp = f.zp ∧ f'.Balanced .zrwa) fun _ => True := by
  refine Ends.runList_along ?_ ⟨h, rfl, hb⟩ (hkeep.and_forall hsteps)
  rintro g s ⟨hg, hzp, hb⟩ ⟨hno, hs⟩
  have hok : g.StepOk s := ⟨hs.length, fun op hop hw => hzp ▸ hs.sizes op hop hw⟩
  exact (hg.step clk hok).mono
    (fun g' hk => ⟨hk.zonesOk, hk.zp.trans hzp, hk.zrwa hb hno⟩) fun _ _ => trivial

end ZnsFtl

/-- **The zone state machine of every run:** in every state a run on a namespace of fewer than
2^32 blocks reaches, the counters and the write pointers are right. -/
theorem znsRun_zoneMachine {τ : Type} (clk : SsdClock τ) {size : ℕ} {cfg : FtlConfigs}
    {zcfg : ZnsConfigs} {prior : Znsparams} {clock : τ} {storage reportBuffer : Mem}
    {f f' : ZnsFtl τ}
    (hinit : znsInitNamespace size cfg zcfg prior clock storage reportBuffer = .ok f)
    (hsize : size < 2 ^ 41) (hprior : prior.zrwaSize < 2 ^ 32) {steps : List ZnsStep}
    (hlength : ∀ s ∈ steps, s.LengthOk)
    (hzrwa : (∃ op, .command op ∈ steps ∧ op.WithZrwa) → 0 < f.zp.lbasPerZrwafg ∧
      0 < f.zp.lbasPerZrwa ∧ f.zp.lbasPerZrwafg ∣ f.zp.lbasPerZrwa)
    (hrun : runList (ZnsFtl.step clk) f steps = .ok f') : f'.ZoneMachine := by
  obtain ⟨spp, hspp, hzpp, -⟩ := znsInitNamespace_eq hinit
  have hwindow := znsInitParams_window hspp hzpp
  have hsteps : ∀ s ∈ steps, f.StepOk s := by
    refine fun s hs => ⟨hlength s hs, fun op hop hw => ?_⟩
    obtain ⟨hfg, hwin, hdvd⟩ := hzrwa ⟨op, hop ▸ hs, hw⟩
    exact ⟨hfg, hwin, by omega, hdvd⟩
  obtain ⟨h, hzp⟩ := ((znsInitNamespace_zonesOk hinit).1.run clk hsteps).of_ok hrun
  refine h.zoneMachine fun z hz => ?_
  rw [hzp] at hz ⊢
  exact znsInitNamespace_low hinit hsize hz

/-! ### A small namespace -/

/-- A timing model in which nothing takes time. -/
def idleClock : SsdClock Unit where
  fw4kbRdLat := 0
  fwRdLat := 0
  advanceWriteBuffer := fun _ t _ => ((), t)
  advanceNand := fun _ c => ((), c.stime)
  advancePcie := fun _ t _ => ((), t)
  nextIdleTime := fun _ => ((), 0)
  ioclock := fun _ => ((), 0)
  nextLunAvailTime := fun _ _ => 0
  setNextLunAvailTime := fun _ _ _ => ()

/-- An SSD of one die with pages of 4 KiB. -/
def oneDie : FtlConfigs where
  maxCon := 1
  ssdPartitions := 1
  nandChannels := 1
  lunsPerNandCh := 1
  plnsPerLun := 1
  flashPageSize := 4096
  oneshotPageSize := 4096
  blksPerPln := 1
  blkSize := 0
  writeUnitSize := 4096
  globalWbSize := 65536
  writeEarlyCompletion := true

/-- Zones of two pages, with random write areas of one page. -/
def twoPageZones : ZnsConfigs where
  zoneSize := 8192
  diesPerZone := 1
  zoneWbSize := 0
  maxZrwaZones := 2
  zrwafgSize := 4096
  zrwaSize := 4096
  zrwaBufferSize := 65536

/-- `zns_params` before `zns_init_params`, with the sizes of the random write areas in it. -/
def zrwaPrior : Znsparams where
  nrZones := 2
  nrActiveZones := 2
  nrOpenZones := 2
  diesPerZone := 1
  zoneSize := 8192
  zoneWbSize := 0
  nrZrwaZones := 2
  zrwafgSize := 4096
  zrwaSize := 4096
  zrwaBufferSize := 65536
  lbasPerZrwafg := 8
  lbasPerZrwa := 8

/-- A namespace of two zones of two pages. -/
def twoZones : Except Fault (ZnsFtl Unit) :=
  znsInitNamespace 16384 oneDie twoPageZones zrwaPrior () (fun _ => 0) fun _ => 0

/-- A request without a time. -/
def znsRequest (opcode : NvmeOpcode) (slba length dsmgmt : ℕ) : NvmevRequest where
  cmd := {
    opcode := opcode, commandId := 0, nsid := 1, prp1 := 4096, prp2 := 8192, slba := slba
    length := length, control := 0, dsmgmt := dsmgmt }
  sqId := 1
  nsecsStart := 0

/-- A run on the namespace of two zones, with its first and its last state. -/
def runTwoZones (steps : List ZnsStep) : Except Fault (ZnsFtl Unit × ZnsFtl Unit) := do
  let f ← twoZones
  let f' ← runList (ZnsFtl.step idleClock) f steps
  .ok (f, f')

/-- What a check of the two states of a run says. -/
theorem runTwoZones_spec (steps : List ZnsStep) (p : ZnsFtl Unit × ZnsFtl Unit → Bool)
    (h : (runTwoZones steps).toOption.any p = true) :
    ∃ f f', twoZones = .ok f ∧ runList (ZnsFtl.step idleClock) f steps = .ok f' ∧
      p (f, f') = true := by
  obtain ⟨⟨f, f'⟩, hrun, hp⟩ := exists_ok_of_any h
  obtain ⟨f₀, hinit, hrun⟩ := bind_eq_ok.1 hrun
  obtain ⟨f₁, hrun, heq⟩ := bind_eq_ok.1 hrun
  cases heq
  exact ⟨f, f', hinit, hrun, hp⟩

/-- A zone is opened with a random write area and written, another one gets an append, the page of
the append is released, and then all zones are closed. -/
def writeAndClose : List ZnsStep :=
  [.command (.mgmtSend (znsRequest .zoneMgmtSend 0 0 0x203)),
    .command (.write (znsRequest .write 0 15 0)), .command (.write (znsRequest .zoneAppend 16 7 0)),
    .release ⟨0, ZnsBuffer.ssd.toNat, 4096⟩,
    .command (.mgmtSend (znsRequest .zoneMgmtSend 0 0 0x101))]

/-- The zones of the small namespace over a run. -/
theorem znsRun_zoneMachine_two : ∃ f f', twoZones = .ok f ∧
    runList (ZnsFtl.step idleClock) f writeAndClose = .ok f' ∧
    (f'.resInfos .active).acquiredCnt = 2 ∧ f'.ZoneMachine := by
  obtain ⟨f, f', hinit, hrun, hp⟩ := runTwoZones_spec writeAndClose
    (fun s => decide ((0 < s.1.zp.lbasPerZrwafg ∧ 0 < s.1.zp.lbasPerZrwa ∧
      s.1.zp.lbasPerZrwafg ∣ s.1.zp.lbasPerZrwa) ∧ (s.2.resInfos .active).acquiredCnt = 2))
    (by decide +kernel)
  obtain ⟨hsizes, hcnt⟩ := of_decide_eq_true hp
  exact ⟨f, f', hinit, hrun, hcnt, znsRun_zoneMachine idleClock hinit (by norm_num)
    (by decide) (by decide) (fun _ => hsizes) hrun⟩

end NvmeVirt
