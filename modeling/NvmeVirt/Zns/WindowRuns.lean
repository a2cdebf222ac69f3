/-
# The windows of the random write areas in every run

A zone with a random write area that is not reset slides its window with every
command and every visit of a worker: writes and explicit flushes move its write
pointer forward, within the zone, and by whole granules until the zone is full.
The only writes that break this are admitted through an empty window.
-/

import NvmeVirt.Zns.ZrwaWindow

namespace NvmeVirt

open Outcome

/-- The command resets zone `z`, or all zones. -/
def ZnsFtl.ResetsZone {τ : Type} (f : ZnsFtl τ) (cmd : NvmeRwCommand) (z : ℕ) : Prop :=
  cmd.Resets ∧ (cmd.selectAll = true ∨ z = f.zp.lbaToZone f.sp cmd.slba)

instance {τ : Type} (f : ZnsFtl τ) (cmd : NvmeRwCommand) (z : ℕ) : Decidable (f.ResetsZone cmd z) :=
  inferInstanceAs (Decidable (_ ∧ (_ ∨ _)))

namespace ZnsFtl

variable {τ : Type} (clk : SsdClock τ) {f f' g : ZnsFtl τ} {zid slba nrLba : ℕ}

/-! ### Commands -/

theorem zrwav_openForWrite (f : ZnsFtl τ) (zid slba : ℕ) :
    ((f.openForWrite zid slba).1.zoneDescs zid).zrwav = (f.zoneDescs zid).zrwav := by
  have hopen : ∀ g : ZnsFtl τ, g.zoneDescs = f.zoneDescs →
      ((g.openClosed zid).1.zoneDescs zid).zrwav = (f.zoneDescs zid).zrwav := by
    intro g hg
    unfold openClosed acquireZoneResource
    split_ifs
    · show (((g.setAcquiredCnt .open _).changeZoneState zid _).zoneDescs zid).zrwav = _
      rw [zoneDescs_changeZoneState, zoneDescs_setAcquiredCnt, hg]
    · show (g.zoneDescs zid).zrwav = _
      rw [hg]
  have hacq : (f.acquireZoneResource .active).1.zoneDescs = f.zoneDescs := by
    unfold acquireZoneResource
    split_ifs <;> rfl
  unfold openForWrite
  cases (f.zoneDescs zid).state with
  | empty =>
    dsimp only
    split_ifs
    · rfl
    · rfl
    · rfl
    · exact hopen _ hacq
  | closed => exact hopen f rfl
  | _ => rfl

/-- The checks of `__zns_write` do not give a zone a random write area. -/
theorem zrwav_checkWrite (f : ZnsFtl τ) (zid slba nrLba : ℕ) :
    ((f.checkWrite zid slba nrLba).1.zoneDescs zid).zrwav = (f.zoneDescs zid).zrwav := by
  unfold checkWrite
  split_ifs
  all_goals first | rfl | exact f.zrwav_openForWrite zid slba

/-- `__zns_write` does not give a zone a random write area. -/
theorem zrwav_writeSeq (f : ZnsFtl τ) (req : NvmevRequest) :
    Ends (f.znsWriteSeq clk req) (fun o =>
      (o.ns.zoneDescs (f.zp.lbaToZone f.sp req.cmd.slba)).zrwav
        = (f.zoneDescs (f.zp.lbaToZone f.sp req.cmd.slba)).zrwav) fun _ => True := by
  by_cases hz : f.zp.lbaToZone f.sp req.cmd.slba < f.zp.nrZones
  swap
  · unfold znsWriteSeq
    exact ends_zoneExists.bind fun _ hz' => absurd hz' hz
  rw [znsWriteSeq_eq clk hz]
  dsimp only
  set zid := f.zp.lbaToZone f.sp req.cmd.slba
  set g := f.setBuffer (f.writeBufferOf zid) (bufferAllocate (f.buffer (f.writeBufferOf zid))
    (lbaToByte req.cmd.nrLbas)).1 with hg
  have hdescs : g.zoneDescs = f.zoneDescs := by rw [hg, zoneDescs_setBuffer]
  have hcheck := g.zrwav_checkWrite zid (f.rewritten req.cmd).slba req.cmd.nrLbas
  rw [hdescs] at hcheck
  split_ifs
  · rw [ends_ok, hdescs]
  · refine (Ends.trivial _).bind fun _ _ => ?_
    generalize g.checkWrite zid (f.rewritten req.cmd).slba req.cmd.nrLbas = r at hcheck ⊢
    obtain ⟨g', status⟩ := r
    cases status with
    | success =>
      dsimp only
      unfold writeAdmitted
      refine (Ends.trivial _).bind fun c _ => ?_
      show ((g'.increaseWritePtr zid _).zoneDescs zid).zrwav = _
      rw [zoneDescs_increaseWritePtr]
      exact hcheck
    | _ => exact hcheck

/-- **`zns_write` slides the windows.** -/
theorem WindowsOk.write (h : f.WindowsOk) (hsizes : f.zp.WindowSizes) (req : NvmevRequest)
    (hslba : req.cmd.slba < 2 ^ 64) (hlength : req.cmd.length < 2 ^ 16)
    (hno : (f.zoneDescs (f.zp.lbaToZone f.sp req.cmd.slba)).zrwav = true →
      ¬ f.OverrunsZone (f.zp.lbaToZone f.sp req.cmd.slba) req.cmd.slba req.cmd.nrLbas) :
    Ends (f.znsWrite clk req) (fun o => SlidesFrom (fun _ => False) f o.ns ∧
      ((f.zoneDescs (f.zp.lbaToZone f.sp req.cmd.slba)).zrwav = true → ¬ o.Rejected →
        f.WritesInWindow o.ns (f.zp.lbaToZone f.sp req.cmd.slba) req.cmd.slba req.cmd.nrLbas))
      fun _ => True := by
  unfold znsWrite
  dsimp only
  rw [h.placed.geometry.lpnToZone_lbaToLpn]
  set zid := f.zp.lbaToZone f.sp req.cmd.slba with hzid
  refine (Ends.trivial _).bind fun _ _ => ?_
  by_cases hv : (f.zoneDescs zid).zrwav = false
  · rw [if_pos hv]
    refine (((f.frame_znsWriteSeq (R := True) clk req).and_ok
      (h.counted.writeSeq clk req)).and_ok (f.zrwav_writeSeq clk req)).mono ?_ fun _ _ => trivial
    rintro o ⟨⟨hframe, hcounts⟩, hzrwav⟩
    have hno : ¬ (f.zoneDescs zid).zrwav = true := by simp [hv]
    refine ⟨.of_zone h hframe.1 hcounts (fun _ hv' => absurd hv' hno) fun hv' _ => ?_,
      fun hv' => absurd hv' hno⟩
    exact absurd (hzrwav.symm.trans hv') hno
  · have hv : (f.zoneDescs zid).zrwav = true := Bool.not_eq_false _ ▸ hv
    rw [if_neg (by simp [hv])]
    exact (h.writeZrwa clk hsizes req hslba hlength hv (hno hv)).mono
      (fun o ho => ⟨ho.1, fun _ => ho.2⟩) fun _ _ => trivial

/-- **`zns_zmgmt_send` slides the windows** of the zones it does not reset. -/
theorem WindowsOk.send (h : f.WindowsOk) (req : NvmevRequest)
    (hop : req.cmd.opcode = .zoneMgmtSend) :
    Ends (f.znsZmgmtSend clk req) (fun o => SlidesFrom (f.ResetsZone req.cmd) f o.ns)
      fun _ => True := by
  unfold znsZmgmtSend
  cases ha : ZoneSendAction.ofZsa req.cmd.zsa with
  | none => exact trivial
  | some action =>
    dsimp only
    suffices hsend : Ends (f.zmgmtSend clk action req)
        (fun r => SlidesFrom (f.ResetsZone req.cmd) f r.1) fun _ => True from
      hsend.bind fun r hr => hr
    have hclock : ∀ (g : ZnsFtl τ) (clock : τ), SlidesFrom (f.ResetsZone req.cmd) f g →
        SlidesFrom (f.ResetsZone req.cmd) f { g with clock := clock } :=
      fun g clock hg => hg.congr rfl rfl rfl rfl
    have haction : ∀ (g : ZnsFtl τ) (slba : ℕ), SlidesFrom (f.ResetsZone req.cmd) f g →
        g.zp.lbaToZone g.sp slba < g.zp.nrZones →
        (action = .resetZone → f.ResetsZone req.cmd (g.zp.lbaToZone g.sp slba)) →
        Ends (g.zmgmtAction slba action req.cmd.zsaso)
          (fun r => SlidesFrom (f.ResetsZone req.cmd) f r.1) fun _ => True := by
      intro g slba hg hz hreset
      refine (hg.ok.action hz action req.cmd.zsaso).mono (fun r hr => ?_) fun _ _ => trivial
      refine hg.trans (hr.mono ?_)
      rintro z ⟨hact, rfl⟩
      exact hreset hact
    by_cases hone : action = .resetZone ∧ req.cmd.selectAll = false
    · -- only the zone of the command is reset
      unfold zmgmtSend
      rw [if_neg (by simp [hone.2])]
      refine zmgmtSendZone_rule clk hclock (fun hz => ?_) req _
      refine haction f _ h.slidesFrom hz fun _ => ⟨⟨hop, ?_⟩, .inr rfl⟩
      rw [ha, hone.1]
    · refine zmgmtSend_rule clk hclock (fun g slba hg hz => ?_) h.slidesFrom
      refine haction g slba hg hz fun hact => ⟨⟨hop, ?_⟩, .inl ?_⟩
      · rw [ha, hact]
      · exact Bool.not_eq_false _ ▸ fun hall => hone ⟨hact, hall⟩

end ZnsFtl

/-- The write of the command overruns its zone. -/
def ZnsFtl.Overruns {τ : Type} (f : ZnsFtl τ) (cmd : NvmeRwCommand) : Prop :=
  cmd.Writes ∧ (f.zoneDescs (f.zp.lbaToZone f.sp cmd.slba)).zrwav = true ∧
    f.OverrunsZone (f.zp.lbaToZone f.sp cmd.slba) cmd.slba cmd.nrLbas

instance {τ : Type} (f : ZnsFtl τ) (cmd : NvmeRwCommand) : Decidable (f.Overruns cmd) :=
  inferInstanceAs (Decidable (_ ∧ _ ∧ _))

/-- **A command of the dispatcher** slides the windows of the zones it does not reset, and accepts
writes to a zone with a random write area in the window only. -/
theorem ZnsNs.slidesFrom_procNvmeIoCmd {τ : Type} (clk : SsdClock τ) (ns : ZnsNs τ)
    (h : ns.ftl.WindowsOk) (hsizes : ns.ftl.zp.WindowSizes) (req : NvmevRequest)
    (hslba : req.cmd.slba < 2 ^ 64) (hlength : req.cmd.length < 2 ^ 16)
    (hno : ¬ ns.ftl.Overruns req.cmd) :
    Ends (ns.znsProcNvmeIoCmd clk req) (fun o =>
      ZnsFtl.SlidesFrom (ns.ftl.ResetsZone req.cmd) ns.ftl o.ns.ftl ∧ (req.cmd.Writes →
        (ns.ftl.zoneDescs (ns.ftl.zp.lbaToZone ns.ftl.sp req.cmd.slba)).zrwav = true →
        ¬ o.Rejected → ns.ftl.WritesInWindow o.ns.ftl
          (ns.ftl.zp.lbaToZone ns.ftl.sp req.cmd.slba) req.cmd.slba req.cmd.nrLbas))
      fun _ => True := by
  have hrefl : ZnsFtl.SlidesFrom (ns.ftl.ResetsZone req.cmd) ns.ftl ns.ftl := h.slidesFrom
  by_cases hw : req.cmd.Writes
  · rw [ns.znsProcNvmeIoCmd_of_writes clk hw]
    refine (h.write clk hsizes req hslba hlength fun hv hover => hno ⟨hw, hv, hover⟩).bind ?_
    exact fun o ho => ⟨ho.1.mono fun _ => False.elim, fun _ => ho.2⟩
  · suffices hslides : Ends (ns.znsProcNvmeIoCmd clk req) (fun o =>
        ZnsFtl.SlidesFrom (ns.ftl.ResetsZone req.cmd) ns.ftl o.ns.ftl) fun _ => True from
      hslides.mono (fun o ho => ⟨ho, fun hw' => absurd hw' hw⟩) fun _ _ => trivial
    unfold znsProcNvmeIoCmd
    cases hop : req.cmd.opcode with
    | write => exact absurd (.inl hop) hw
    | zoneAppend => exact absurd (.inr hop) hw
    | read =>
      dsimp only
      unfold ZnsFtl.znsRead
      simp only [bind_assoc]
      exact (Ends.trivial _).bind fun _ _ => (Ends.trivial _).bind fun c _ =>
        hrefl.congr rfl rfl rfl rfl
    | flush => exact hrefl.congr rfl rfl rfl rfl
    | zoneMgmtSend => exact (h.send clk req hop).bind fun o ho => ho
    | zoneMgmtRecv =>
      dsimp only
      unfold ZnsFtl.znsZmgmtRecv
      split_ifs
      · simp only [bind_assoc]
        have hfill : Ends (ns.ftl.fillZoneReport req.cmd)
            (fun f => ZnsFtl.SlidesFrom (ns.ftl.ResetsZone req.cmd) ns.ftl f) fun _ => True := by
          unfold ZnsFtl.fillZoneReport
          exact (Ends.trivial _).bind fun _ _ => hrefl.congr rfl rfl rfl rfl
        exact hfill.bind fun f hf => (Ends.trivial _).bind fun _ _ => hf
      · exact hrefl
    | other code => exact hrefl

/-! ### Steps of the device -/

namespace NvmevDev

variable {τ : Type} (cfg : IoConfig) (clk : SsdClock τ)

/-- **A step that keeps to the windows:** it takes no write that overruns its zone.  The fields of
the command it takes have their widths. -/
structure InWindows (d : NvmevDev (ZnsNs τ)) (op : IoOp) : Prop where
  fields : ∀ req ∈ d.taken op, req.cmd.slba < 2 ^ 64 ∧ req.cmd.length < 2 ^ 16
  within : ∀ req ∈ d.taken op, ¬ d.ns.ftl.Overruns req.cmd

instance (d : NvmevDev (ZnsNs τ)) (op : IoOp) : Decidable (InWindows d op) :=
  decidable_of_iff ((∀ req ∈ d.taken op, req.cmd.slba < 2 ^ 64 ∧ req.cmd.length < 2 ^ 16) ∧
      ∀ req ∈ d.taken op, ¬ d.ns.ftl.Overruns req.cmd)
    ⟨fun h => ⟨h.1, h.2⟩, fun h => ⟨h.fields, h.within⟩⟩

/-- The step does not reset zone `z`. -/
def Spares (z : ℕ) (d : NvmevDev (ZnsNs τ)) (op : IoOp) : Prop :=
  ∀ req ∈ d.taken op, ¬ d.ns.ftl.ResetsZone req.cmd z

instance (z : ℕ) (d : NvmevDev (ZnsNs τ)) (op : IoOp) : Decidable (Spares z d op) :=
  inferInstanceAs (Decidable (∀ req ∈ d.taken op, _))

/-- **The law of the window** of zone `z` in one step. -/
structure WindowLaw (z : ℕ) (d : NvmevDev (ZnsNs τ)) (op : IoOp) : Prop where
  /-- The write pointer does not go back. -/
  forward : ∀ d', d.exec cfg (znsTarget clk) op = .ok d' →
    (d.ns.ftl.zoneDescs z).wp ≤ (d'.ns.ftl.zoneDescs z).wp
  /-- It does not pass the end of the zone. -/
  inside : ∀ d', d.exec cfg (znsTarget clk) op = .ok d' →
    (d'.ns.ftl.zoneDescs z).wp ≤ (d.ns.ftl.zoneDescs z).zend
  /-- It advances by whole granules, but where the zone becomes full. -/
  granules : ∀ d', d.exec cfg (znsTarget clk) op = .ok d' →
    d.ns.ftl.zp.lbasPerZrwafg ∣ (d'.ns.ftl.zoneDescs z).wp - (d.ns.ftl.zoneDescs z).wp ∨
      (d.ns.ftl.zoneDescs z).state ≠ .full ∧ (d'.ns.ftl.zoneDescs z).state = .full
  /-- A write that is accepted lies in the zone, behind the old write pointer and up to its last
  block in the new window. -/
  writes : ∀ req out, d.taken op = some req → d.ns.znsProcNvmeIoCmd clk req = .ok out →
    req.cmd.Writes → d.ns.ftl.zp.lbaToZone d.ns.ftl.sp req.cmd.slba = z → ¬ out.Rejected →
      d.ns.ftl.WritesInWindow out.ns.ftl z req.cmd.slba req.cmd.nrLbas

variable {cfg clk} {d d' : NvmevDev (ZnsNs τ)} {op : IoOp} {z : ℕ}

/-- **A step slides the windows** of the zones it does not reset. -/
theorem slidesFrom_exec (h : d.ns.ftl.WindowsOk) (hsizes : d.ns.ftl.zp.WindowSizes)
    (hin : InWindows d op) (hd' : d.exec cfg (znsTarget clk) op = .ok d') :
    ZnsFtl.SlidesFrom (fun z => ¬ Spares z d op) d.ns.ftl d'.ns.ftl := by
  rcases (exec_ns d op).of_ok hd' with ⟨c, req, out, htaken, htook⟩ | ⟨-, ⟨ns₁, hcopy, hrel⟩, -⟩
  · obtain ⟨hslba, hlength⟩ := hin.fields req htaken
    have hs := ((d.ns.slidesFrom_procNvmeIoCmd clk h hsizes req hslba hlength
      (hin.within req htaken)).of_ok htook.proc).1
    rw [htook.ns]
    exact hs.mono fun z hz hspares => hspares req htaken hz
  · have hns₁ : ZnsFtl.SlidesFrom (fun z => ¬ Spares z d op) d.ns.ftl ns₁.ftl := by
      rcases hcopy with ⟨-, rfl⟩ | ⟨w, cmd, -, hio⟩
      · exact h.slidesFrom
      · obtain ⟨c, -, heq⟩ := bind_eq_ok.1 hio
        cases heq
        exact h.slidesFrom.congr rfl rfl rfl rfl
    rcases hrel with hrel | ⟨buf, bytes, hrel⟩
    · rw [hrel]
      exact hns₁
    · rw [hrel]
      exact hns₁.congr (ZnsFtl.zp_setBuffer ..) (ZnsFtl.sp_setBuffer ..)
        (ZnsFtl.zoneDescs_setBuffer ..) (ZnsFtl.resInfos_setBuffer ..)

/-- **The law of the window** holds in every step that keeps to the windows. -/
theorem InWindows.windowLaw (hin : InWindows d op) (h : d.ns.ftl.WindowsOk)
    (hsizes : d.ns.ftl.zp.WindowSizes) (hz : z < d.ns.ftl.zp.nrZones)
    (hv : (d.ns.ftl.zoneDescs z).zrwav = true) (hspares : Spares z d op) :
    WindowLaw cfg clk z d op := by
  have hslides := fun d' (hd' : d.exec cfg (znsTarget clk) op = .ok d') =>
    (slidesFrom_exec h hsizes hin hd').slides z hz (not_not.2 hspares) hv
  refine ⟨fun d' hd' => (hslides d' hd').wp_ge, fun d' hd' => ?_, fun d' hd' => ?_,
    fun req out htaken hout hw hzone hacc => ?_⟩
  · have hs := hslides d' hd'
    have hend : (d'.ns.ftl.zoneDescs z).zend = (d.ns.ftl.zoneDescs z).zend := by
      unfold ZoneDescriptor.zend
      rw [hs.zslba, hs.capacity]
    exact hend ▸ hs.wp_le
  · have hs := hslides d' hd'
    by_cases hfull : (d.ns.ftl.zoneDescs z).state = .full
    · rw [(hs.full hfull).1, Nat.sub_self]
      exact .inl (Nat.dvd_zero _)
    · exact hs.granules.imp_right fun hfull' => ⟨hfull, hfull'⟩
  · obtain ⟨hslba, hlength⟩ := hin.fields req htaken
    have hwrites := ((d.ns.slidesFrom_procNvmeIoCmd clk h hsizes req hslba hlength
      (hin.within req htaken)).of_ok hout).2 hw
    rw [hzone] at hwrites
    exact hwrites hv hacc

end NvmevDev

/-- **The law of the window in every run:** from any state a run that keeps to the windows reaches,
it holds in every step of a zone with a random write area until the zone is reset. -/
theorem znsRun_windowLaw {τ : Type} (clk : SsdClock τ) {size : ℕ} {cfg : FtlConfigs}
    {zcfg : ZnsConfigs} {prior : Znsparams} {clock : τ} {storage reportBuffer host : Mem}
    {f : ZnsFtl τ} {iocfg : IoConfig} {sqes : ℕ → Option SubmissionQueue}
    {cqes : ℕ → Option CompletionQueue} {before after : List IoOp} {d : NvmevDev (ZnsNs τ)}
    (hinit : znsInitNamespace size cfg zcfg prior clock storage reportBuffer = .ok f)
    (hprior : prior.zrwaSize < 2 ^ 32) (hfg : 0 < f.zp.lbasPerZrwafg)
    (hdvd : f.zp.lbasPerZrwafg ∣ f.zp.lbasPerZrwa)
    (hbefore : Along (NvmevDev.exec iocfg (znsTarget clk)) NvmevDev.InWindows
      (NvmevDev.start sqes cqes { ftl := f, host := host }) before)
    (hrun : runList (NvmevDev.exec iocfg (znsTarget clk))
      (NvmevDev.start sqes cqes { ftl := f, host := host }) before = .ok d)
    {z : ℕ} (hz : z < d.ns.ftl.zp.nrZones) (hv : (d.ns.ftl.zoneDescs z).zrwav = true)
    (hafter : Along (NvmevDev.exec iocfg (znsTarget clk))
      (fun d op => NvmevDev.InWindows d op ∧ NvmevDev.Spares z d op) d after) :
    Along (NvmevDev.exec iocfg (znsTarget clk)) (NvmevDev.WindowLaw iocfg clk z) d after := by
  obtain ⟨spp, hspp, hzpp, -⟩ := znsInitNamespace_eq hinit
  have hwindow := znsInitParams_window hspp hzpp
  have hsizes : f.zp.WindowSizes := ⟨hfg, hdvd, by omega⟩
  have hok := (znsInitNamespace_zonesOk hinit).1
  have hstart : f.WindowsOk := by
    refine ⟨hok.counted, hok.placed, fun z hz hv => ?_⟩
    have hin := (hok.zones z hz).inside (.inr hv)
    exact ⟨hin.wp_ge, hin.wp_le⟩
  have hd : d.ns.ftl.WindowsOk ∧ d.ns.ftl.zp = f.zp := by
    refine (Ends.runList_along (I := fun d => d.ns.ftl.WindowsOk ∧ d.ns.ftl.zp = f.zp)
      (E := fun _ => True) (fun d op h hin => ?_) ⟨hstart, rfl⟩ hbefore).of_ok hrun
    refine (Ends.trivial (d.exec iocfg (znsTarget clk) op)).with_eq.mono ?_ fun _ _ => trivial
    rintro d' ⟨-, hd'⟩
    have hs := NvmevDev.slidesFrom_exec h.1 (h.2 ▸ hsizes) hin hd'
    exact ⟨hs.ok, hs.zp.trans h.2⟩
  refine Along.of_invariant (I := fun d => d.ns.ftl.WindowsOk ∧ d.ns.ftl.zp = f.zp ∧
    (d.ns.ftl.zoneDescs z).zrwav = true) ?_ ⟨hd.1, hd.2, hv⟩ hafter
  rw [hd.2] at hz
  rintro d op ⟨h, hzp, hv⟩ ⟨hin, hspares⟩
  have hz' : z < d.ns.ftl.zp.nrZones := by rwa [hzp]
  refine ⟨hin.windowLaw h (hzp ▸ hsizes) hz' hv hspares, fun d' hd' => ?_⟩
  have hs := NvmevDev.slidesFrom_exec h (hzp ▸ hsizes) hin hd'
  exact ⟨hs.ok, hs.zp.trans hzp, (hs.slides z hz' (not_not.2 hspares) hv).zrwav.trans hv⟩

/-- Zone 0 is opened with a random write area, and a write of both its pages is submitted. -/
def openAndSubmit (length : ℕ) : List IoOp :=
  [.submit 1 0 (znsRequest .zoneMgmtSend 0 0 0x203).cmd,
    .submit 1 1 (znsRequest .write 0 length 0).cmd, .ring 1 2, .poll 1, .dispatch 0, .reclaim]

/-- A write of both pages of a zone, with a window of one page. -/
theorem znsRun_windowLaw_two : ∃ f d, twoZones = .ok f ∧
    runList zonedExec (zonedStart f) (openAndSubmit 15) = .ok d ∧
    Along zonedExec (NvmevDev.WindowLaw oneWorker idleClock 0) d [.dispatch 0] := by
  have hcheck : twoZones.toOption.any (fun f =>
      decide (0 < f.zp.lbasPerZrwafg ∧ f.zp.lbasPerZrwafg ∣ f.zp.lbasPerZrwa ∧
        Along zonedExec NvmevDev.InWindows (zonedStart f) (openAndSubmit 15)) &&
      (runList zonedExec (zonedStart f) (openAndSubmit 15)).toOption.any fun d =>
        decide (0 < d.ns.ftl.zp.nrZones ∧ (d.ns.ftl.zoneDescs 0).zrwav = true ∧
          Along zonedExec (fun d op => NvmevDev.InWindows d op ∧ NvmevDev.Spares 0 d op) d
            [.dispatch 0])) = true := by
    decide +kernel
  obtain ⟨f, hinit, hp⟩ := exists_ok_of_any hcheck
  obtain ⟨hp, hp'⟩ := (Bool.and_eq_true _ _).mp hp
  obtain ⟨hfg, hdvd, hbefore⟩ := of_decide_eq_true hp
  obtain ⟨d, hrun, hp'⟩ := exists_ok_of_any hp'
  obtain ⟨hz, hv, hafter⟩ := of_decide_eq_true hp'
  exact ⟨f, d, hinit, hrun, znsRun_windowLaw idleClock hinit (by decide) hfg hdvd hbefore hrun hz hv
    hafter⟩

/-- Two zones of two pages whose windows are empty and whose granules are three pages. -/
def emptyWindows : Except Fault (ZnsFtl Unit) :=
  znsInitNamespace 16384 oneDie twoPageZones { zrwaPrior with zrwafgSize := 12288, zrwaSize := 0 }
    () (fun _ => 0) fun _ => 0

/-- **A write through an empty window** moves the write pointer of the first zone beyond the end of
the zone. -/
theorem emptyWindow_not_windowLaw : ∃ f d d', emptyWindows = .ok f ∧
    f.zp.lbasPerZrwafg = 24 ∧ f.zp.lbasPerZrwa = 0 ∧
    runList zonedExec (zonedStart f) (openAndSubmit 7) = .ok d ∧
    (d.ns.ftl.zoneDescs 0).zrwav = true ∧ (d.ns.ftl.zoneDescs 0).zend = 16 ∧
    zonedExec d (.dispatch 0) = .ok d' ∧ (d'.ns.ftl.zoneDescs 0).wp = 24 ∧
    ¬ NvmevDev.WindowLaw oneWorker idleClock 0 d (.dispatch 0) := by
  have hcheck : emptyWindows.toOption.any (fun f =>
      decide (f.zp.lbasPerZrwafg = 24 ∧ f.zp.lbasPerZrwa = 0) &&
      (runList zonedExec (zonedStart f) (openAndSubmit 7)).toOption.any fun d =>
        (zonedExec d (.dispatch 0)).toOption.any fun d' =>
          decide ((d.ns.ftl.zoneDescs 0).zrwav = true ∧ (d.ns.ftl.zoneDescs 0).zend = 16 ∧
            (d'.ns.ftl.zoneDescs 0).wp = 24)) = true := by
    decide +kernel
  obtain ⟨f, hinit, hp⟩ := exists_ok_of_any hcheck
  obtain ⟨hp, hp'⟩ := (Bool.and_eq_true _ _).mp hp
  obtain ⟨hfg, hwin⟩ := of_decide_eq_true hp
  obtain ⟨d, hrun, hp'⟩ := exists_ok_of_any hp'
  obtain ⟨d', hstep, hp'⟩ := exists_ok_of_any hp'
  obtain ⟨hv, hend, hwp⟩ := of_decide_eq_true hp'
  refine ⟨f, d, d', hinit, hfg, hwin, hrun, hv, hend, hstep, hwp, fun h => ?_⟩
  have hle := h.inside d' hstep
  rw [hwp, hend] at hle
  exact absurd hle (by decide)

end NvmeVirt
