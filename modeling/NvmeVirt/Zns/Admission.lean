/-
# Which writes a zone admits

The status `__zns_write` ends a write with, beside the first condition the write
violates.  The switch on the state of the zone falls through from the status of a
full zone to those of a read-only and of an offline one, so that the last of them
is what the host sees.
-/

import NvmeVirt.Zns.CounterRuns

namespace NvmeVirt

open Outcome

namespace ZnsFtl

variable {τ : Type} (clk : SsdClock τ) {f f' g : ZnsFtl τ} {zid slba nrLba : ℕ}

/-! ### The conditions on a write -/

/-- The blocks of a write lie in one zone; they are numbered in 64 bits. -/
def InOneZone (f : ZnsFtl τ) (slba nrLba : ℕ) : Prop :=
  slba + nrLba ≤ 2 ^ 64 ∧ slba / f.zp.zoneLbas = (slba + nrLba - 1) / f.zp.zoneLbas

instance : Decidable (f.InOneZone slba nrLba) := inferInstanceAs (Decidable (_ ∧ _))

/-- **The status of the first condition a write violates:** its size is a multiple of
`write_unit_size`, its blocks lie in one zone, it begins at the write pointer, and the zone is
opened or can be opened with the resources left. -/
def admission (f : ZnsFtl τ) (zid slba nrLba : ℕ) : NvmeStatus :=
  if ¬ f.unitOk nrLba then .znsInvalidWrite
  else if ¬ f.InOneZone slba nrLba then .znsErrBoundary
  else if slba ≠ (f.zoneDescs zid).wp then .znsInvalidWrite
  else match (f.zoneDescs zid).state with
    | .openedImpl | .openedExpl => .success
    | .closed => if f.isZoneResourceAvail .open then .success else .znsNoOpenZone
    | .empty =>
      if ¬ f.isZoneResourceAvail .active then .znsNoActiveZone
      else if ¬ f.isZoneResourceAvail .open then .znsNoOpenZone
      else .success
    | .full => .znsErrFull
    | .readOnly => .znsErrReadOnly
    | .offline => .znsErrOffline

/-- **The write falls through the switch:** it passes the checks in front of the switch, and its
zone is full or read-only. -/
structure FallsThrough (f : ZnsFtl τ) (zid slba nrLba : ℕ) : Prop where
  unit : f.unitOk nrLba
  inside : f.InOneZone slba nrLba
  wp : slba = (f.zoneDescs zid).wp
  state : (f.zoneDescs zid).state = .full ∨ (f.zoneDescs zid).state = .readOnly

instance : Decidable (f.FallsThrough zid slba nrLba) :=
  decidable_of_iff (f.unitOk nrLba ∧ f.InOneZone slba nrLba ∧ slba = (f.zoneDescs zid).wp ∧
      ((f.zoneDescs zid).state = .full ∨ (f.zoneDescs zid).state = .readOnly))
    ⟨fun ⟨h1, h2, h3, h4⟩ => ⟨h1, h2, h3, h4⟩, fun ⟨h1, h2, h3, h4⟩ => ⟨h1, h2, h3, h4⟩⟩

/-- **`__check_boundary_error` says whether the blocks lie in one zone.** -/
theorem checkBoundaryError_iff (g : ZnsGeometry f.zp f.sp) (hslba : slba < 2 ^ 64)
    (hpos : 0 < nrLba) (hlba : nrLba ≤ 2 ^ 16) :
    f.checkBoundaryError slba nrLba ↔ f.InOneZone slba nrLba := by
  have h8 := g.eight_le
  unfold checkBoundaryError InOneZone Znsparams.lbaToZone
  rw [g.secsz]
  change slba / f.zp.zoneLbas % 2 ^ 32 = u64 (slba + nrLba - 1) / f.zp.zoneLbas % 2 ^ 32 ↔ _
  by_cases hwrap : slba + nrLba ≤ 2 ^ 64
  · rw [u64_of_lt (by omega)]
    -- the two zone numbers differ by less than 2^32
    have hle : slba / f.zp.zoneLbas ≤ (slba + nrLba - 1) / f.zp.zoneLbas :=
      Nat.div_le_div_right (by omega)
    have hlt : (slba + nrLba - 1) / f.zp.zoneLbas ≤ slba / f.zp.zoneLbas + 2 ^ 16 := by
      calc (slba + nrLba - 1) / f.zp.zoneLbas ≤ (slba + 2 ^ 16 * f.zp.zoneLbas) / f.zp.zoneLbas :=
            Nat.div_le_div_right (by omega)
        _ = slba / f.zp.zoneLbas + 2 ^ 16 := Nat.add_mul_div_right _ _ (by omega)
    omega
  · have hu : u64 (slba + nrLba - 1) = slba + nrLba - 1 - 2 ^ 64 := by
      unfold u64
      omega
    rw [hu]
    constructor
    · intro heq
      exact absurd heq (g.wrapped_zone_ne hslba hlba (by omega))
    · rintro ⟨hno, -⟩
      exact absurd hno hwrap

/-- A resource is left unless it is used up. -/
theorem Counted.not_full_iff (h : f.Counted) {ty : ZoneResourceType} (hty : ty ≠ .zrwa) :
    ¬ f.isZoneResourceFull ty ↔ f.isZoneResourceAvail ty := by
  have hle : (f.resInfos ty).acquiredCnt ≤ (f.resInfos ty).totalCnt := by
    rw [h.balanced ty hty, h.total]
    exact f.held_le ty
  unfold isZoneResourceFull isZoneResourceAvail
  omega

theorem openClosed_status (f : ZnsFtl τ) (zid : ℕ) :
    (f.openClosed zid).2 = if f.isZoneResourceAvail .open then .success else .znsNoOpenZone := by
  unfold openClosed acquireZoneResource
  split_ifs <;> rfl

/-- **The status of the checks:** the one of the first condition the write violates, except that a
full or a read-only zone is taken for an offline one. -/
theorem Counted.checkWrite_status (h : f.Counted) (g : ZnsGeometry f.zp f.sp)
    (hz : zid < f.zp.nrZones) (hslba : slba < 2 ^ 64) (hpos : 0 < nrLba) (hlba : nrLba ≤ 2 ^ 16) :
    (f.checkWrite zid slba nrLba).2 =
      if f.FallsThrough zid slba nrLba then .znsErrOffline else f.admission zid slba nrLba := by
  have hbound := checkBoundaryError_iff g hslba hpos hlba
  have hactive := h.not_full_iff (show ZoneResourceType.active ≠ .zrwa by decide)
  have hopen := h.not_full_iff (show ZoneResourceType.open ≠ .zrwa by decide)
  unfold ZnsFtl.checkWrite admission
  by_cases hunit : f.unitOk nrLba
  swap
  · rw [if_pos hunit, if_neg fun hf => hunit hf.unit, if_pos hunit]
  rw [if_neg (not_not.2 hunit), if_neg (not_not.2 hunit)]
  by_cases hin : f.InOneZone slba nrLba
  swap
  · rw [if_pos (mt hbound.1 hin), if_neg fun hf => hin hf.inside, if_pos hin]
  rw [if_neg (not_not.2 (hbound.2 hin)), if_neg (not_not.2 hin)]
  by_cases hwp : slba = (f.zoneDescs zid).wp
  swap
  · rw [if_pos hwp, if_neg fun hf => hwp hf.wp, if_pos hwp]
  rw [if_neg (not_not.2 hwp), if_neg (not_not.2 hwp)]
  have hthrough : f.FallsThrough zid slba nrLba ↔
      (f.zoneDescs zid).state = .full ∨ (f.zoneDescs zid).state = .readOnly :=
    ⟨fun hf => hf.state, fun hs => ⟨hunit, hin, hwp, hs⟩⟩
  rw [if_congr hthrough rfl rfl]
  unfold ZnsFtl.openForWrite
  cases hs : (f.zoneDescs zid).state with
  | empty =>
    have hstart : slba = (f.zoneDescs zid).zslba := hwp.trans (h.empty zid hz hs).1
    have hacq : (f.acquireZoneResource .active).1.isZoneResourceAvail .open ↔
        f.isZoneResourceAvail .open := by
      unfold acquireZoneResource
      split_ifs
      · rfl
      · rfl
    dsimp only
    rw [if_neg (not_not.2 hstart),
      if_neg (show ¬ (ZoneState.empty = .full ∨ ZoneState.empty = .readOnly) by decide)]
    by_cases ha : f.isZoneResourceFull .active
    · rw [if_pos ha, if_pos (mt hactive.2 (not_not.2 ha))]
    rw [if_neg ha, if_neg (not_not.2 (hactive.1 ha))]
    by_cases ho : f.isZoneResourceFull .open
    · rw [if_pos ho, if_pos (mt hopen.2 (not_not.2 ho))]
    · rw [if_neg ho, if_neg (not_not.2 (hopen.1 ho)), openClosed_status,
        if_pos (hacq.2 (hopen.1 ho))]
  | closed => simp [openClosed_status]
  | openedImpl => simp
  | openedExpl => simp
  | full => simp
  | readOnly => simp
  | offline => simp

/-! ### The command -/

/-- **A write ends as its admission says:** the first condition it violates gives the status, and a
write that violates none is accepted.  Nothing else stops it but a divisor that is zero. -/
def AdmittedRight (f : ZnsFtl τ) (req : NvmevRequest) : Prop :=
  Ends (f.znsWrite clk req) (fun o => ∃ r, o.ret = some r ∧ r.status
      = (f.admission (f.zp.lbaToZone f.sp req.cmd.slba) req.cmd.slba req.cmd.nrLbas).code)
    fun _ => f.sp.writeUnitSize = 0 ∨ f.zp.diesPerZone = 0

/-- `__lpn_to_ppa` stops at a zone without dies only. -/
theorem lpnToPpa_dies {spp : Ssdparams} (hd : spp.Divisors) (zpp : Znsparams) (lpn : ℕ) :
    Ends (zpp.lpnToPpa spp lpn) (fun _ => True) fun _ => zpp.diesPerZone = 0 := by
  unfold Znsparams.lpnToPpa
  by_cases hdies : 0 < zpp.diesPerZone
  · rw [defined_bind ⟨hd.ttLuns, hdies, hd.nchs, hd.oneshotpg⟩]
    trivial
  · rw [defined_bind_of_not fun h => hdies h.2.1]
    exact Nat.eq_zero_of_not_pos hdies

/-- The loop of `__zns_write` stops at a zone without dies only. -/
theorem writePages_dies (hd : f.sp.Divisors) (stime : ℕ) (buf : ZnsBuffer)
    (elpn zoneElpn fuel lpn : ℕ) (c : FlashCursor τ) :
    Ends (f.writePages clk stime buf elpn zoneElpn fuel lpn c) (fun _ => True)
      fun _ => f.zp.diesPerZone = 0 := by
  induction fuel generalizing lpn c with
  | zero => trivial
  | succ fuel ih =>
    unfold ZnsFtl.writePages
    split_ifs
    · trivial
    · exact (lpnToPpa_dies hd f.zp lpn).bind fun ppa _ => ih _ _

/-- `__zns_write` behind the checks ends without an error. -/
theorem writeAdmitted_dies (hd : f.sp.Divisors) (cmd : NvmeRwCommand) (nsecsStart zid : ℕ) :
    Ends (f.writeAdmitted clk cmd nsecsStart zid) (fun o => ∃ r, o.ret = some r ∧ r.status = 0)
      fun _ => f.zp.diesPerZone = 0 := by
  have hframe := f.frame_increaseWritePtr (R := True) zid cmd.nrLbas
  unfold ZnsFtl.writeAdmitted
  dsimp only
  rw [← hframe.zp]
  rw [← hframe.sp] at hd
  exact (writePages_dies clk hd _ _ _ _ _ _ _).bind fun c _ => ⟨_, rfl, rfl⟩

/-- The buffers do not admit a write. -/
theorem admission_setBuffer (b : ZnsBuffer) (buf : Buffer) :
    (f.setBuffer b buf).admission zid slba nrLba = f.admission zid slba nrLba := by
  cases b <;> rfl

theorem fallsThrough_setBuffer (b : ZnsBuffer) (buf : Buffer) :
    (f.setBuffer b buf).FallsThrough zid slba nrLba ↔ f.FallsThrough zid slba nrLba := by
  cases b <;> exact ⟨fun ⟨h1, h2, h3, h4⟩ => ⟨h1, h2, h3, h4⟩,
    fun ⟨h1, h2, h3, h4⟩ => ⟨h1, h2, h3, h4⟩⟩

/-- **The status a write ends with** that finds room in its buffer. -/
theorem Counted.znsWrite_status (h : f.Counted) (g : ZnsGeometry f.zp f.sp) (hd : f.sp.Divisors)
    {req : NvmevRequest} (hop : req.cmd.opcode = .write) (hslba : req.cmd.slba < 2 ^ 64)
    (hlength : req.cmd.length < 2 ^ 16) {zid : ℕ} (hzid : f.zp.lbaToZone f.sp req.cmd.slba = zid)
    (hz : zid < f.zp.nrZones) (hv : (f.zoneDescs zid).zrwav = false) (hroom : f.HasRoom req.cmd) :
    Ends (f.znsWrite clk req) (fun o => ∃ r, o.ret = some r ∧ r.status =
        (if f.FallsThrough zid req.cmd.slba req.cmd.nrLbas then NvmeStatus.znsErrOffline
          else f.admission zid req.cmd.slba req.cmd.nrLbas).code)
      fun _ => ¬ f.FallsThrough zid req.cmd.slba req.cmd.nrLbas ∧
        (f.sp.writeUnitSize = 0 ∨ f.zp.diesPerZone = 0) := by
  have hroom : lbaToByte req.cmd.nrLbas ≤ (f.buffer (f.writeBufferOf zid)).remaining := hzid ▸ hroom
  have hcmd : f.rewritten req.cmd = req.cmd := if_neg (by rw [hop]; decide)
  set b : Buffer := { f.buffer (f.writeBufferOf zid) with
    remaining := (f.buffer (f.writeBufferOf zid)).remaining - lbaToByte req.cmd.nrLbas }
  have halloc : bufferAllocate (f.buffer (f.writeBufferOf zid)) (lbaToByte req.cmd.nrLbas)
      = (b, lbaToByte req.cmd.nrLbas) := by
    unfold bufferAllocate
    rw [if_neg (not_lt.2 hroom)]
  set f' := f.setBuffer (f.writeBufferOf zid) b with hf'
  have hfrom : f.CountsFrom f' :=
    h.countsFrom.congr (by simp [hf']) (by simp [hf']) (by simp [hf']) (by simp [hf'])
  have hz' : zid < f'.zp.nrZones := by rwa [hfrom.zp]
  have hpos : 0 < req.cmd.nrLbas := Nat.succ_pos _
  have hlba : req.cmd.nrLbas ≤ 2 ^ 16 := hlength
  have hgeo : ZnsGeometry f'.zp f'.sp := by rwa [hfrom.zp, hfrom.sp]
  have hstatus := hfrom.counted.checkWrite_status hgeo hz' hslba hpos hlba
  rw [hf', admission_setBuffer, if_congr (fallsThrough_setBuffer ..) rfl rfl, ← hf'] at hstatus
  have hframe := f'.frame_checkWrite (R := True) zid req.cmd.slba req.cmd.nrLbas
  -- the zone is found by its page and by its block
  unfold znsWrite
  rw [g.lpnToZone_lbaToLpn, hzid]
  rw [zoneExists_bind hz, if_pos hv, znsWriteSeq_eq clk (by rwa [hzid])]
  dsimp only
  rw [hzid, hcmd, halloc, if_neg (lt_irrefl _)]
  by_cases hunit : 0 < f.sp.writeUnitSize
  swap
  · rw [defined_bind_of_not hunit]
    have hzero : f.sp.writeUnitSize = 0 := Nat.eq_zero_of_not_pos hunit
    refine ⟨fun hf => ?_, .inl hzero⟩
    have hmod : lbaToByte req.cmd.nrLbas % f.sp.writeUnitSize = 0 := hf.unit
    rw [hzero, Nat.mod_zero] at hmod
    exact absurd hmod (lbaToByte_nrLbas_pos _).ne'
  rw [defined_bind hunit]
  generalize f'.checkWrite zid req.cmd.slba req.cmd.nrLbas = r at hstatus hframe ⊢
  obtain ⟨f₁, status⟩ := r
  have hstatus : status = _ := hstatus
  rw [← hstatus]
  have hzp : f₁.zp = f.zp := hframe.zp.trans hfrom.zp
  have hsp : f₁.sp = f.sp := hframe.sp.trans hfrom.sp
  cases status with
  | success =>
    refine (writeAdmitted_dies clk (hsp ▸ hd) _ _ _).mono (fun _ ho => ho) fun _ he => ?_
    rw [hzp] at he
    refine ⟨fun hf => ?_, .inr he⟩
    rw [if_pos hf] at hstatus
    cases hstatus
  | _ => exact ⟨_, rfl, rfl⟩

/-- A write that falls through is admitted with the status of its full or read-only zone. -/
theorem FallsThrough.admission_ne (hf : f.FallsThrough zid slba nrLba) :
    (f.admission zid slba nrLba).code ≠ NvmeStatus.znsErrOffline.code := by
  unfold admission
  rw [if_neg (not_not.2 hf.unit), if_neg (not_not.2 hf.inside), if_neg (not_not.2 hf.wp)]
  rcases hf.state with hs | hs
  · rw [hs]
    show NvmeStatus.znsErrFull.code ≠ _
    decide
  · rw [hs]
    show NvmeStatus.znsErrReadOnly.code ≠ _
    decide

/-- **Exactly when a write ends as its admission says:** it does not fall through the switch. -/
theorem Counted.admittedRight_iff (h : f.Counted) (g : ZnsGeometry f.zp f.sp) (hd : f.sp.Divisors)
    {req : NvmevRequest} (hop : req.cmd.opcode = .write) (hslba : req.cmd.slba < 2 ^ 64)
    (hlength : req.cmd.length < 2 ^ 16) {zid : ℕ} (hzid : f.zp.lbaToZone f.sp req.cmd.slba = zid)
    (hz : zid < f.zp.nrZones) (hv : (f.zoneDescs zid).zrwav = false) (hroom : f.HasRoom req.cmd) :
    f.AdmittedRight clk req ↔ ¬ f.FallsThrough zid req.cmd.slba req.cmd.nrLbas := by
  have hends := h.znsWrite_status clk g hd hop hslba hlength hzid hz hv hroom
  unfold AdmittedRight
  rw [hzid]
  by_cases hf : f.FallsThrough zid req.cmd.slba req.cmd.nrLbas
  · rw [if_pos hf] at hends
    obtain ⟨o, ho, r, hr, hstatus⟩ := (hends.mono (fun _ h => h) fun _ he => he.1 hf).exists_ok
    rw [ho, ends_ok]
    refine ⟨?_, fun hno => absurd hf hno⟩
    rintro ⟨r', hr', hstatus'⟩
    cases hr.symm.trans hr'
    exact absurd (hstatus'.symm.trans hstatus) hf.admission_ne
  · rw [if_neg hf] at hends
    exact ⟨fun _ => hf, fun _ => hends.mono (fun _ h => h) fun _ he => he.2⟩

end ZnsFtl

/-- **Exactly which writes end as their admission says,** in every state a zoned namespace reaches
behind the dispatcher and the workers. -/
theorem znsRun_admittedRight_iff {τ : Type} (clk : SsdClock τ) {size : ℕ} {cfg : FtlConfigs}
    {zcfg : ZnsConfigs} {prior : Znsparams} {clock : τ} {storage reportBuffer host : Mem}
    {f : ZnsFtl τ} {iocfg : IoConfig} {sqes : ℕ → Option SubmissionQueue}
    {cqes : ℕ → Option CompletionQueue} {ops : List IoOp} {d : NvmevDev (ZnsNs τ)}
    (hinit : znsInitNamespace size cfg zcfg prior clock storage reportBuffer = .ok f)
    (hrun : runList (NvmevDev.exec iocfg (znsTarget clk))
      (NvmevDev.start sqes cqes { ftl := f, host := host }) ops = .ok d)
    {req : NvmevRequest} (hop : req.cmd.opcode = .write) (hslba : req.cmd.slba < 2 ^ 64)
    (hlength : req.cmd.length < 2 ^ 16) {zid : ℕ}
    (hzid : d.ns.ftl.zp.lbaToZone d.ns.ftl.sp req.cmd.slba = zid)
    (hz : zid < d.ns.ftl.zp.nrZones) (hv : (d.ns.ftl.zoneDescs zid).zrwav = false)
    (hroom : d.ns.ftl.HasRoom req.cmd) :
    d.ns.ftl.AdmittedRight clk req ↔
      ¬ d.ns.ftl.FallsThrough zid req.cmd.slba req.cmd.nrLbas := by
  obtain ⟨hcounts, hgeo⟩ := znsRun_counted clk hinit hrun
  obtain ⟨spp, hspp, -, hf⟩ := znsInitNamespace_eq hinit
  have hsp : f.sp = spp := by
    rw [hf]
    rfl
  have hd : d.ns.ftl.sp.Divisors := by
    rw [hcounts.sp, hsp]
    exact ssdInitParams_divisors hspp
  exact hcounts.counted.admittedRight_iff clk hgeo hd hop hslba hlength hzid hz hv hroom

/-- A write of the second page of a zone behind a write of the first one. -/
theorem znsRun_admittedRight_iff_two : ∃ f d, twoZones = .ok f ∧
    runList zonedExec (zonedStart f) writeTwice = .ok d ∧
    (d.ns.ftl.AdmittedRight idleClock (znsRequest .write 8 7 0) ↔
      ¬ d.ns.ftl.FallsThrough 0 8 8) := by
  have hcheck : twoZones.toOption.any (fun f =>
      (runList zonedExec (zonedStart f) writeTwice).toOption.any fun d =>
        decide (d.ns.ftl.zp.lbaToZone d.ns.ftl.sp 8 = 0 ∧ 0 < d.ns.ftl.zp.nrZones ∧
          (d.ns.ftl.zoneDescs 0).zrwav = false ∧
          d.ns.ftl.HasRoom (znsRequest .write 8 7 0).cmd)) = true := by
    decide +kernel
  obtain ⟨f, hinit, hp⟩ := exists_ok_of_any hcheck
  obtain ⟨d, hrun, hp⟩ := exists_ok_of_any hp
  obtain ⟨hzid, hz, hv, hroom⟩ := of_decide_eq_true hp
  exact ⟨f, d, hinit, hrun, znsRun_admittedRight_iff idleClock hinit hrun rfl
    (by decide) (by decide) hzid hz hv hroom⟩

/-- An empty zone is finished. -/
def finishFirst : List IoOp :=
  [.submit 1 0 (znsRequest .zoneMgmtSend 0 0 2).cmd, .ring 1 1, .poll 1, .dispatch 0]

/-- **A write to a full zone** whose write pointer is behind its end is told that the zone is
offline. -/
theorem finishedZone_not_admittedRight : ∃ f d, twoZones = .ok f ∧
    runList zonedExec (zonedStart f) finishFirst = .ok d ∧
    d.ns.ftl.zp.lbaToZone d.ns.ftl.sp 0 = 0 ∧ (d.ns.ftl.zoneDescs 0).zrwav = false ∧
    d.ns.ftl.HasRoom (znsRequest .write 0 7 0).cmd ∧
    (d.ns.ftl.zoneDescs 0).state = .full ∧ d.ns.ftl.admission 0 0 8 = .znsErrFull ∧
    ¬ d.ns.ftl.AdmittedRight idleClock (znsRequest .write 0 7 0) := by
  have hcheck : twoZones.toOption.any (fun f =>
      (runList zonedExec (zonedStart f) finishFirst).toOption.any fun d =>
        (d.ns.ftl.znsWrite idleClock (znsRequest .write 0 7 0)).toOption.any fun o =>
          decide (d.ns.ftl.zp.lbaToZone d.ns.ftl.sp 0 = 0 ∧
            (d.ns.ftl.zoneDescs 0).zrwav = false ∧
            d.ns.ftl.HasRoom (znsRequest .write 0 7 0).cmd ∧
            (d.ns.ftl.zoneDescs 0).state = .full ∧ d.ns.ftl.admission 0 0 8 = .znsErrFull ∧
            o.ret.map NvmevResult.status = some NvmeStatus.znsErrOffline.code)) = true := by
    decide +kernel
  obtain ⟨f, hinit, hp⟩ := exists_ok_of_any hcheck
  obtain ⟨d, hrun, hp⟩ := exists_ok_of_any hp
  obtain ⟨o, ho, hp⟩ := exists_ok_of_any hp
  obtain ⟨hzid, hv, hroom, hfull, hadm, hret⟩ := of_decide_eq_true hp
  refine ⟨f, d, hinit, hrun, hzid, hv, hroom, hfull, hadm, fun h => ?_⟩
  obtain ⟨r, hr, hstatus⟩ := h.of_ok ho
  rw [hr] at hret
  have hstatus : r.status = (d.ns.ftl.admission (d.ns.ftl.zp.lbaToZone d.ns.ftl.sp 0) 0 8).code :=
    hstatus
  rw [hzid, hadm] at hstatus
  exact absurd (hstatus.symm.trans (Option.some.inj hret)) (by decide)

end NvmeVirt
