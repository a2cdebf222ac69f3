/-
# The counters of the resources in every run

The counters of the open and the active resources are the numbers of the zones
that hold one in every state a zoned namespace reaches behind the dispatcher and
the workers, whatever the sizes of the random write areas and wherever the write
pointers are.  A resource that is not used up is then one that is left.
-/

import NvmeVirt.Zns.Protection

namespace NvmeVirt

open Outcome

namespace ZnsFtl

variable {τ : Type} (clk : SsdClock τ) {f f' g : ZnsFtl τ} {zid slba nrLba : ℕ}

/-! ### The counters behind a command -/

/-- The counters are right, and the parameters are those of `f`. -/
structure CountsFrom (f g : ZnsFtl τ) : Prop where
  zp : g.zp = f.zp
  sp : g.sp = f.sp
  counted : g.Counted

theorem Counted.countsFrom (h : f.Counted) : f.CountsFrom f := ⟨rfl, rfl, h⟩

theorem CountsFrom.trans (h : f.CountsFrom g) (h' : g.CountsFrom f') : f.CountsFrom f' :=
  ⟨h'.zp.trans h.zp, h'.sp.trans h.sp, h'.counted⟩

theorem KeepsCounts.countsFrom (k : KeepsCounts (· ≠ .zrwa) f g zid) (h : f.Counted)
    (hz : zid < f.zp.nrZones) : f.CountsFrom g :=
  ⟨k.moves.zp, k.moves.sp, k.counted h hz⟩

/-- What the counters are not about may change. -/
theorem CountsFrom.congr (h : f.CountsFrom g) (hzp : f'.zp = g.zp) (hsp : f'.sp = g.sp)
    (hd : f'.zoneDescs = g.zoneDescs) (hr : f'.resInfos = g.resInfos) : f.CountsFrom f' := by
  obtain ⟨h1, h2, c1, c2, c3, c4⟩ := h
  refine ⟨hzp.trans h1, hsp.trans h2, by rwa [hzp], ?_, fun ty hty => ?_, ?_⟩
  · rwa [hzp, hr]
  · exact (c3 ty hty).congr hzp hd hr
  · rwa [hzp, hd]

/-- `__zns_write` behind the checks. -/
theorem Counted.writeAdmitted (h : f.Counted) (hz : zid < f.zp.nrZones)
    (hs : (f.zoneDescs zid).state.Opened) (cmd : NvmeRwCommand) (nsecsStart : ℕ) :
    Ends (f.writeAdmitted clk cmd nsecsStart zid) (fun o => f.CountsFrom o.ns) fun _ => True := by
  have hk := (h.increaseWritePtr (P := (· ≠ .zrwa)) hz hs (n := cmd.nrLbas)
    fun hno => absurd rfl hno).countsFrom h hz
  unfold ZnsFtl.writeAdmitted
  dsimp only
  exact (Ends.trivial _).bind fun c _ => hk.congr rfl rfl rfl rfl

/-- **`__zns_write` keeps the counters.** -/
theorem Counted.writeSeq (h : f.Counted) (req : NvmevRequest) :
    Ends (f.znsWriteSeq clk req) (fun o => f.CountsFrom o.ns) fun _ => True := by
  by_cases hz : f.zp.lbaToZone f.sp req.cmd.slba < f.zp.nrZones
  swap
  · unfold znsWriteSeq
    exact ends_zoneExists.bind fun _ hz' => absurd hz' hz
  rw [znsWriteSeq_eq clk hz]
  dsimp only
  set zid := f.zp.lbaToZone f.sp req.cmd.slba
  set g := f.setBuffer (f.writeBufferOf zid) (bufferAllocate (f.buffer (f.writeBufferOf zid))
    (lbaToByte req.cmd.nrLbas)).1 with hg
  have hfg : f.CountsFrom g := h.countsFrom.congr (by simp [hg]) (by simp [hg]) (by simp [hg])
    (by simp [hg])
  split_ifs
  · exact hfg
  · refine (Ends.trivial _).bind fun _ _ => ?_
    have hzg : zid < g.zp.nrZones := by rwa [hfg.zp]
    by_cases ha : g.Admits zid (f.rewritten req.cmd).slba req.cmd.nrLbas
    · obtain ⟨g', hg', ho⟩ := hfg.counted.checkWrite (P := (· ≠ .zrwa)) hzg ha
      have hgg' := ho.keepsCounts.countsFrom hfg.counted hzg
      rw [hg']
      refine (hgg'.counted.writeAdmitted clk (by rwa [hgg'.zp]) ho.opened _ _).mono
        (fun o ho => (hfg.trans hgg').trans ho) fun _ _ => trivial
    · obtain ⟨status, hne, hg'⟩ := checkWrite_of_not ha
      rw [hg']
      cases status <;> first | exact absurd rfl hne | exact hfg

/-- The implicit flush keeps the counters. -/
theorem Counted.implicitFlush (h : f.Counted) (hz : zid < f.zp.nrZones)
    (hs : (f.zoneDescs zid).state.Opened) (n : ℕ) :
    Ends (f.implicitFlush zid n) (fun o => ∀ g, o = some g → f.CountsFrom g) fun _ => True := by
  unfold ZnsFtl.implicitFlush
  split_ifs
  · rintro g ⟨⟩
    exact h.countsFrom
  · refine (Ends.trivial _).bind fun _ _ => ?_
    dsimp only
    split_ifs
    · exact nofun
    · rintro g ⟨⟩
      set b := (bufferAllocate (f.zwraBuffer zid) (lbaToByte n)).1
      have hfg : f.CountsFrom (f.setBuffer (.zrwa zid) b) :=
        h.countsFrom.congr (by simp) (by simp) (by simp) (by simp)
      have hz' : zid < (f.setBuffer (.zrwa zid) b).zp.nrZones := by rwa [hfg.zp]
      exact hfg.trans ((hfg.counted.increaseWritePtr (P := (· ≠ .zrwa)) hz'
        (by rwa [zoneDescs_setBuffer]) fun hno => absurd rfl hno).countsFrom hfg.counted hz')

/-- **`__zns_write_zrwa` keeps the counters.** -/
theorem Counted.writeZrwa (h : f.Counted) (req : NvmevRequest)
    (hv : (f.zoneDescs (f.zp.lbaToZone f.sp req.cmd.slba)).zrwav = true) :
    Ends (f.znsWriteZrwa clk req) (fun o => f.CountsFrom o.ns) fun _ => True := by
  unfold znsWriteZrwa
  dsimp only
  set zid := f.zp.lbaToZone f.sp req.cmd.slba
  refine ends_zoneExists.bind fun _ hz => ?_
  refine (Ends.trivial _).bind fun _ _ =>
    (h.checkZrwaWrite (P := (· ≠ .zrwa)) hz hv).bind ?_
  rintro ⟨g, status⟩ (⟨hne, hg⟩ | ⟨hsucc, -, ho, -⟩)
  · have hfg : f.CountsFrom g := by
      rw [show g = f from hg]
      exact h.countsFrom
    cases status <;> first | exact absurd rfl hne | exact hfg
  · obtain rfl : status = .success := hsucc
    have hfg : f.CountsFrom g := ho.keepsCounts.countsFrom h hz
    unfold writeZrwaAdmitted
    dsimp only
    refine (Ends.trivial _).bind fun n _ =>
      (hfg.counted.implicitFlush (by rwa [hfg.zp]) ho.opened n).bind fun r hr => ?_
    cases r with
    | none => exact hfg
    | some g' =>
      exact (Ends.trivial _).bind fun c _ => (hfg.trans (hr g' rfl)).congr rfl rfl rfl rfl

/-- The action of a zone management send keeps the counters. -/
theorem Counted.action (h : f.Counted) (hz : f.zp.lbaToZone f.sp slba < f.zp.nrZones)
    (action : ZoneSendAction) (option : Bool) :
    Ends (f.zmgmtAction slba action option) (fun r => f.CountsFrom r.1) fun _ => True := by
  have hkeep : ∀ g : ZnsFtl τ, KeepsCounts (· ≠ .zrwa) f g (f.zp.lbaToZone f.sp slba) →
      f.CountsFrom g := fun g hk => hk.countsFrom h hz
  cases action with
  | closeZone => exact hkeep _ (h.closeZone hz)
  | finishZone => exact hkeep _ (h.finishZone hz)
  | openZone => exact hkeep _ ((h.openZone hz option).keepsCounts h hz)
  | resetZone => exact hkeep _ (h.resetZone hz)
  | offlineZone => exact hkeep _ (h.offlineZone hz)
  | flushExplZrwa => exact (h.flushExplicitZrwa hz).mono (fun r hr => hkeep _ hr) fun _ _ => trivial

end ZnsFtl

/-- **The counters behind a command** of the dispatcher. -/
theorem ZnsNs.countsFrom_procNvmeIoCmd {τ : Type} (clk : SsdClock τ) (ns : ZnsNs τ)
    (h : ns.ftl.Counted) (g : ZnsGeometry ns.ftl.zp ns.ftl.sp) (req : NvmevRequest) :
    Ends (ns.znsProcNvmeIoCmd clk req) (fun o => ns.ftl.CountsFrom o.ns.ftl) fun _ => True := by
  have hrefl := h.countsFrom
  have hwrite : Ends (ns.ftl.znsWrite clk req) (fun o => ns.ftl.CountsFrom o.ns)
      fun _ => True := by
    unfold ZnsFtl.znsWrite
    dsimp only
    rw [g.lpnToZone_lbaToLpn]
    refine (Ends.trivial _).bind fun _ _ => ?_
    split_ifs with hv
    · exact h.writeSeq clk req
    · exact h.writeZrwa clk req (Bool.not_eq_false _ ▸ hv)
  unfold znsProcNvmeIoCmd
  cases req.cmd.opcode with
  | write => exact hwrite.bind fun o ho => ho
  | zoneAppend => exact hwrite.bind fun o ho => ho
  | read =>
    dsimp only
    unfold ZnsFtl.znsRead
    simp only [bind_assoc]
    exact (Ends.trivial _).bind fun _ _ => (Ends.trivial _).bind fun c _ =>
      hrefl.congr rfl rfl rfl rfl
  | flush => exact hrefl.congr rfl rfl rfl rfl
  | zoneMgmtSend =>
    dsimp only
    unfold ZnsFtl.znsZmgmtSend
    cases ZoneSendAction.ofZsa req.cmd.zsa with
    | none => exact trivial
    | some action =>
      dsimp only
      simp only [bind_assoc]
      refine (ZnsFtl.zmgmtSend_rule (I := ns.ftl.CountsFrom) clk
        (fun f clock hf => hf.congr rfl rfl rfl rfl) (fun f slba hf hz => ?_) hrefl).bind
        fun r hr => hr
      exact (hf.counted.action hz action _).mono (fun r hr => hf.trans hr) fun _ _ => trivial
  | zoneMgmtRecv =>
    dsimp only
    unfold ZnsFtl.znsZmgmtRecv
    split_ifs
    · simp only [bind_assoc]
      have hfill : Ends (ns.ftl.fillZoneReport req.cmd) (fun f => ns.ftl.CountsFrom f)
          fun _ => True := by
        unfold ZnsFtl.fillZoneReport
        exact (Ends.trivial _).bind fun _ _ => hrefl.congr rfl rfl rfl rfl
      exact hfill.bind fun f hf => (Ends.trivial _).bind fun _ _ => hf
    · exact hrefl
  | other code => exact hrefl

/-- **The counters in every run:** they are right in every state a zoned namespace reaches behind
the dispatcher and the workers. -/
theorem znsRun_counted {τ : Type} (clk : SsdClock τ) {size : ℕ} {cfg : FtlConfigs}
    {zcfg : ZnsConfigs} {prior : Znsparams} {clock : τ} {storage reportBuffer host : Mem}
    {f : ZnsFtl τ} {iocfg : IoConfig} {sqes : ℕ → Option SubmissionQueue}
    {cqes : ℕ → Option CompletionQueue} {ops : List IoOp} {d : NvmevDev (ZnsNs τ)}
    (hinit : znsInitNamespace size cfg zcfg prior clock storage reportBuffer = .ok f)
    (hrun : runList (NvmevDev.exec iocfg (znsTarget clk))
      (NvmevDev.start sqes cqes { ftl := f, host := host }) ops = .ok d) :
    f.CountsFrom d.ns.ftl ∧ ZnsGeometry d.ns.ftl.zp d.ns.ftl.sp := by
  have hok := (znsInitNamespace_zonesOk hinit).1
  have hstep : ∀ (d d' : NvmevDev (ZnsNs τ)) (op : IoOp), f.CountsFrom d.ns.ftl →
      d.exec iocfg (znsTarget clk) op = .ok d' → f.CountsFrom d'.ns.ftl := by
    intro d d' op h hd'
    have hg : ZnsGeometry d.ns.ftl.zp d.ns.ftl.sp := by
      rw [h.zp, h.sp]
      exact hok.geometry
    rcases (NvmevDev.exec_ns d op).of_ok hd' with ⟨c, req, out, -, htook⟩ | ⟨-, ⟨ns₁, hcopy, hrel⟩, -⟩
    · rw [htook.ns]
      exact h.trans ((d.ns.countsFrom_procNvmeIoCmd clk h.counted hg req).of_ok htook.proc)
    · have hns₁ : f.CountsFrom ns₁.ftl := by
        rcases hcopy with ⟨-, rfl⟩ | ⟨w, cmd, -, hio⟩
        · exact h
        · obtain ⟨c, -, heq⟩ := bind_eq_ok.1 hio
          cases heq
          exact h.congr rfl rfl rfl rfl
      rcases hrel with hrel | ⟨buf, bytes, hrel⟩
      · rw [hrel]
        exact hns₁
      · rw [hrel]
        exact hns₁.congr (ZnsFtl.zp_setBuffer ..) (ZnsFtl.sp_setBuffer ..)
          (ZnsFtl.zoneDescs_setBuffer ..) (ZnsFtl.resInfos_setBuffer ..)
  have hall : Ends (runList (NvmevDev.exec iocfg (znsTarget clk))
      (NvmevDev.start sqes cqes { ftl := f, host := host }) ops)
      (fun d => f.CountsFrom d.ns.ftl) fun _ => True := by
    refine Ends.runList (fun op _ d h => ?_) hok.counted.countsFrom
    refine (Ends.trivial (d.exec iocfg (znsTarget clk) op)).with_eq.mono ?_ fun _ _ => trivial
    exact fun d' hd' => hstep d d' op h hd'.2
  have h := hall.of_ok hrun
  refine ⟨h, ?_⟩
  rw [h.zp, h.sp]
  exact hok.geometry

end NvmeVirt
