/-
# The random write areas of a zoned namespace

A zone acquires a `ZRWA_ZONE` resource when it is opened with a random write
area and gives it back when it is finished or reset or an explicit flush fills
it.  `__increase_write_ptr` gives back the open and the active resource only:
its `ASSERT(0)` for a zone with a random write area is compiled to nothing, and
`__zns_write_zrwa` calls it for the last blocks of a zone.
-/

import NvmeVirt.Zns.ZoneMachine

namespace NvmeVirt

open Outcome

/-- The counter of the random write areas is the number of the active zones that have one. -/
def ZnsFtl.ZrwaCounted {τ : Type} (f : ZnsFtl τ) : Prop :=
  (f.resInfos .zrwa).acquiredCnt = ((Finset.range f.zp.nrZones).filter fun z =>
    (f.zoneDescs z).state.Active ∧ (f.zoneDescs z).zrwav = true).card

instance {τ : Type} (f : ZnsFtl τ) : Decidable f.ZrwaCounted :=
  inferInstanceAs (Decidable (_ = _))

/-- **The random write areas of every run:** as long as no write fills its zone out of the random
write area, the counter is the number of the zones that have one. -/
theorem znsRun_zrwaCounted {τ : Type} (clk : SsdClock τ) {size : ℕ} {cfg : FtlConfigs}
    {zcfg : ZnsConfigs} {prior : Znsparams} {clock : τ} {storage reportBuffer : Mem}
    {f f' : ZnsFtl τ}
    (hinit : znsInitNamespace size cfg zcfg prior clock storage reportBuffer = .ok f)
    (hprior : prior.zrwaSize < 2 ^ 32) {steps : List ZnsStep}
    (hlength : ∀ s ∈ steps, s.LengthOk)
    (hzrwa : 0 < f.zp.lbasPerZrwafg ∧ 0 < f.zp.lbasPerZrwa ∧
      f.zp.lbasPerZrwafg ∣ f.zp.lbasPerZrwa)
    (hkeep : Along (ZnsFtl.step clk) (fun g s => ¬ g.StepLosesZrwa s) f steps)
    (hrun : runList (ZnsFtl.step clk) f steps = .ok f') : f'.ZrwaCounted := by
  obtain ⟨spp, hspp, hzpp, -⟩ := znsInitNamespace_eq hinit
  have hwindow := znsInitParams_window hspp hzpp
  obtain ⟨hfg, hwin, hdvd⟩ := hzrwa
  obtain ⟨h, hb⟩ := znsInitNamespace_zonesOk hinit
  have hsteps : ∀ s ∈ steps, f.StepOk s := fun s hs =>
    ⟨hlength s hs, fun _ _ _ => ⟨hfg, hwin, by omega, hdvd⟩⟩
  obtain ⟨-, -, hb'⟩ := (h.run_zrwa clk hb hsteps hkeep).of_ok hrun
  unfold ZnsFtl.ZrwaCounted
  rw [hb', f'.held_eq_card]
  rfl

/-- A zone is opened with a random write area, written through it by half and closed, with a release
in between. -/
def openAndWrite : List ZnsStep :=
  [.command (.mgmtSend (znsRequest .zoneMgmtSend 0 0 0x203)),
    .command (.write (znsRequest .write 0 7 0)), .release ⟨0, (ZnsBuffer.zrwa 0).toNat, 4096⟩,
    .command (.mgmtSend (znsRequest .zoneMgmtSend 0 0 1))]

/-- A zone is opened with a random write area and its last blocks are written through it. -/
def writeToTheEnd : List ZnsStep :=
  [.command (.mgmtSend (znsRequest .zoneMgmtSend 0 0 0x203)),
    .command (.write (znsRequest .write 0 15 0)), .command (.write (znsRequest .write 8 7 0))]

/-- The counter of the small namespace over a run. -/
theorem znsRun_zrwaCounted_one : ∃ f f', twoZones = .ok f ∧
    runList (ZnsFtl.step idleClock) f openAndWrite = .ok f' ∧
    (f'.resInfos .zrwa).acquiredCnt = 1 ∧ f'.ZrwaCounted := by
  obtain ⟨f, f', hinit, hrun, hp⟩ := runTwoZones_spec openAndWrite
    (fun s => decide ((0 < s.1.zp.lbasPerZrwafg ∧ 0 < s.1.zp.lbasPerZrwa ∧
      s.1.zp.lbasPerZrwafg ∣ s.1.zp.lbasPerZrwa) ∧
      Along (ZnsFtl.step idleClock) (fun g s => ¬ g.StepLosesZrwa s) s.1 openAndWrite ∧
      (s.2.resInfos .zrwa).acquiredCnt = 1)) (by decide +kernel)
  obtain ⟨hsizes, hkeep, hcnt⟩ := of_decide_eq_true hp
  exact ⟨f, f', hinit, hrun, hcnt,
    znsRun_zrwaCounted idleClock hinit (by decide) (by decide) hsizes hkeep hrun⟩

/-- **The last blocks of a zone leak its random write area:** the zone is full, and the counter
still counts it. -/
theorem writeToTheEnd_not_zrwaCounted : ∃ f f', twoZones = .ok f ∧
    (0 < f.zp.lbasPerZrwafg ∧ 0 < f.zp.lbasPerZrwa ∧ f.zp.lbasPerZrwafg ∣ f.zp.lbasPerZrwa) ∧
    runList (ZnsFtl.step idleClock) f writeToTheEnd = .ok f' ∧
    (f'.resInfos .zrwa).acquiredCnt = 1 ∧ (f'.zoneDescs 0).state = .full ∧ ¬ f'.ZrwaCounted := by
  obtain ⟨f, f', hinit, hrun, hp⟩ := runTwoZones_spec writeToTheEnd
    (fun s => decide ((0 < s.1.zp.lbasPerZrwafg ∧ 0 < s.1.zp.lbasPerZrwa ∧
      s.1.zp.lbasPerZrwafg ∣ s.1.zp.lbasPerZrwa) ∧ (s.2.resInfos .zrwa).acquiredCnt = 1 ∧
      (s.2.zoneDescs 0).state = .full ∧ ¬ s.2.ZrwaCounted)) (by decide +kernel)
  obtain ⟨hsizes, h1, h2, h3⟩ := of_decide_eq_true hp
  exact ⟨f, f', hinit, hsizes, hrun, h1, h2, h3⟩

end NvmeVirt
