/-
# Handlers that stay in the arrays of the zones

The functions of `zns_ftl.c` compute a zone and go to `zone_descs`,
`zone_write_buffer` and `zwra_buffer` with it.  Behind this first access nothing
they do is out of the bounds of these arrays: what stops a handler then is an
assertion, a division by zero, an unknown action or a walk off a PRP list.
-/

import NvmeVirt.Zns.Frames

namespace NvmeVirt

open Outcome

/-- The program does not stop with an index past the arrays of the zones. -/
def InArrays {α : Type} (x : Except Fault α) : Prop :=
  Ends x (fun _ => True) fun e => e ≠ .zoneIndex

namespace InArrays

variable {α β : Type} {x : Except Fault α}

theorem of_ok (a : α) : InArrays (.ok a) := trivial

theorem of_undefined : InArrays (.error .undefined : Except Fault α) := nofun

theorem bind {k : α → Except Fault β} (hx : InArrays x) (hk : ∀ a, InArrays (k a)) :
    InArrays (x >>= k) :=
  Ends.bind hx fun a _ => hk a

theorem of_defined {p : Prop} [Decidable p] : InArrays (defined p) := by
  unfold defined
  split_ifs
  · exact of_ok _
  · exact of_undefined

theorem of_nvmevAssert {fn : Fn} {p : Prop} [Decidable p] : InArrays (nvmevAssert fn p) := by
  unfold nvmevAssert
  split_ifs
  · exact of_ok _
  · exact fun h => nomatch h

theorem ne (h : InArrays x) : x ≠ .error .zoneIndex := fun hx => h.of_error hx rfl

end InArrays

namespace ZnsFtl

variable {τ : Type} (clk : SsdClock τ) (f : ZnsFtl τ) (zid slba : ℕ)

/-- The blocks of the namespace. -/
def nrLbas : ℕ := f.zp.nrZones * f.zp.zoneLbas

variable {f} in
/-- The zone of a block of the namespace. -/
theorem lbaToZone_of_lt (g : ZnsGeometry f.zp f.sp) {lba : ℕ} (h : lba < f.nrLbas) :
    f.zp.lbaToZone f.sp lba = lba / f.zp.zoneLbas ∧ lba / f.zp.zoneLbas < f.zp.nrZones := by
  have hn := g.nrZones
  have hdiv : lba / f.zp.zoneLbas < f.zp.nrZones := Nat.div_lt_of_lt_mul (by
    rw [mul_comm]
    exact h)
  refine ⟨?_, hdiv⟩
  unfold Znsparams.lbaToZone
  rw [g.secsz]
  exact u32_of_lt (by show lba / f.zp.zoneLbas < 2 ^ 32; omega)

variable {f} in
/-- `zone_to_slba` finds a block of the namespace, in 32 bits. -/
theorem zoneToSlba_lt (g : ZnsGeometry f.zp f.sp) {z : ℕ} (hz : z < f.zp.nrZones) :
    f.zp.zoneToSlba f.sp z < f.nrLbas := by
  have hpos : 0 < f.zp.zoneLbas := lt_of_lt_of_le (by norm_num) g.eight_le
  unfold Znsparams.zoneToSlba
  rw [g.secsz]
  calc u32 (z * f.zp.zoneLbas) ≤ z * f.zp.zoneLbas := Nat.mod_le _ _
    _ < f.zp.nrZones * f.zp.zoneLbas := Nat.mul_lt_mul_of_pos_right hz hpos

/-! ### Writes -/

theorem inArrays_lpnToPpa (lpn : ℕ) : InArrays (f.zp.lpnToPpa f.sp lpn) := by
  unfold Znsparams.lpnToPpa
  exact .bind .of_defined fun _ => .of_ok _

theorem inArrays_writePages (stime elpn zoneElpn fuel lpn : ℕ) (buf : ZnsBuffer)
    (c : FlashCursor τ) :
    InArrays (f.writePages clk stime buf elpn zoneElpn fuel lpn c) := by
  induction fuel generalizing lpn c with
  | zero => exact .of_ok _
  | succ fuel ih =>
    unfold writePages
    split_ifs
    · exact .of_ok _
    · exact (f.inArrays_lpnToPpa lpn).bind fun _ => ih _ _

theorem inArrays_writeAdmitted (cmd : NvmeRwCommand) (nsecsStart : ℕ) :
    InArrays (f.writeAdmitted clk cmd nsecsStart zid) := by
  unfold writeAdmitted
  exact (inArrays_writePages clk _ _ _ _ _ _ _ _).bind fun _ => .of_ok _

/-- `__zns_write` on a zone that exists. -/
theorem inArrays_znsWriteSeq {req : NvmevRequest}
    (hz : f.zp.lbaToZone f.sp req.cmd.slba < f.zp.nrZones) : InArrays (f.znsWriteSeq clk req) := by
  rw [znsWriteSeq_eq clk hz]
  dsimp only
  split_ifs
  · exact .of_ok _
  · refine .bind .of_defined fun _ => ?_
    generalize ZnsFtl.checkWrite _ _ _ _ = r
    obtain ⟨g, status⟩ := r
    cases status with
    | success => exact g.inArrays_writeAdmitted clk _ _ _
    | _ => exact .of_ok _

theorem inArrays_openForZrwa : InArrays (f.openForZrwa zid) := by
  have htake : ∀ g : ZnsFtl τ, InArrays (do
      g.zwraExists
      let r := bufferAllocate (g.zwraBuffer zid) g.zp.zrwaSize
      nvmevAssert .znsWriteZrwa (r.2 ≠ 0)
      Except.ok ((g.setBuffer (.zrwa zid) r.1).changeZoneState zid .openedImpl,
        NvmeStatus.success)) := fun g =>
    .bind .of_defined fun _ => .bind .of_nvmevAssert fun _ => .of_ok _
  unfold openForZrwa
  generalize f.acquireZoneResource .open = r
  obtain ⟨g, ok⟩ := r
  cases (f.zoneDescs zid).state with
  | closed =>
    cases ok with
    | true => exact htake g
    | false => exact .of_ok _
  | empty =>
    cases ok with
    | true => exact htake g
    | false => exact .of_ok _
  | _ => exact .of_ok _

theorem inArrays_checkZrwaWrite (nrLba : ℕ) : InArrays (f.checkZrwaWrite zid slba nrLba) := by
  unfold ZnsFtl.checkZrwaWrite
  dsimp only
  split_ifs
  all_goals first | exact .of_ok _ | exact f.inArrays_openForZrwa zid

theorem inArrays_nrLbasFlush (wp elba : ℕ) : InArrays (f.nrLbasFlush zid wp elba) := by
  unfold ZnsFtl.nrLbasFlush
  split_ifs
  · exact .bind .of_defined fun _ => .of_ok _
  · exact .of_ok _
  · exact .of_ok _

theorem inArrays_implicitFlush (nrLbas : ℕ) : InArrays (f.implicitFlush zid nrLbas) := by
  unfold implicitFlush
  split_ifs
  · exact .of_ok _
  · refine .bind .of_defined fun _ => ?_
    dsimp only
    split_ifs
    · exact .of_ok _
    · exact .of_ok _

theorem inArrays_flushPages (stime fuel lpn remaining : ℕ) (c : FlashCursor τ) :
    InArrays (f.flushPages clk stime zid fuel lpn remaining c) := by
  induction fuel generalizing lpn remaining c with
  | zero => exact .of_ok _
  | succ fuel ih =>
    unfold flushPages
    split_ifs
    · exact .of_ok _
    · exact (f.inArrays_lpnToPpa lpn).bind fun _ => ih _ _ _

theorem inArrays_writeZrwaAdmitted (cmd : NvmeRwCommand) (nsecsStart : ℕ) :
    InArrays (f.writeZrwaAdmitted clk cmd nsecsStart zid) := by
  unfold writeZrwaAdmitted
  refine (f.inArrays_nrLbasFlush zid _ _).bind fun n => (f.inArrays_implicitFlush zid n).bind ?_
  rintro (_ | g)
  · exact .of_ok _
  · exact (g.inArrays_flushPages clk zid _ _ _ _ _).bind fun _ => .of_ok _

/-- `__zns_write_zrwa` on a zone that exists. -/
theorem inArrays_znsWriteZrwa {req : NvmevRequest}
    (hz : f.zp.lbaToZone f.sp req.cmd.slba < f.zp.nrZones) : InArrays (f.znsWriteZrwa clk req) := by
  unfold znsWriteZrwa
  dsimp only
  rw [zoneExists_bind hz]
  refine .bind .of_defined fun _ => (f.inArrays_checkZrwaWrite _ _ _).bind ?_
  rintro ⟨g, status⟩
  cases status with
  | success => exact g.inArrays_writeZrwaAdmitted clk _ _ _
  | _ => exact .of_ok _

/-- **`zns_write`** finds the same zone by page and by block. -/
theorem inArrays_znsWrite (g : ZnsGeometry f.zp f.sp) {req : NvmevRequest}
    (hz : f.zp.lbaToZone f.sp req.cmd.slba < f.zp.nrZones) : InArrays (f.znsWrite clk req) := by
  unfold znsWrite
  rw [g.lpnToZone_lbaToLpn, zoneExists_bind hz]
  split_ifs
  · exact f.inArrays_znsWriteSeq clk hz
  · exact f.inArrays_znsWriteZrwa clk hz

/-! ### Reads -/

theorem inArrays_readPages (stime elpn fuel lpn : ℕ) (c : FlashCursor τ) :
    InArrays (f.readPages clk stime elpn fuel lpn c) := by
  induction fuel generalizing lpn c with
  | zero => exact .of_ok _
  | succ fuel ih =>
    unfold readPages
    split_ifs
    · exact .of_ok _
    · exact .bind .of_defined fun _ => (f.inArrays_lpnToPpa lpn).bind fun _ => ih _ _

/-- **`zns_read`.** -/
theorem inArrays_znsRead (g : ZnsGeometry f.zp f.sp) {req : NvmevRequest}
    (hz : f.zp.lbaToZone f.sp req.cmd.slba < f.zp.nrZones) : InArrays (f.znsRead clk req) := by
  unfold znsRead
  dsimp only
  rw [g.lpnToZone_lbaToLpn, zoneExists_bind hz]
  exact (f.inArrays_readPages clk _ _ _ _ _).bind fun _ => .of_ok _

/-! ### Zone management -/

theorem inArrays_zmgmtAction (action : ZoneSendAction) (option : Bool) :
    InArrays (f.zmgmtAction slba action option) := by
  unfold zmgmtAction
  cases action with
  | flushExplZrwa =>
    dsimp only
    unfold zmgmtSendFlushExplicitZrwa
    dsimp only
    split_ifs
    · exact .of_ok _
    · exact .bind .of_defined fun _ => .of_ok _
    · refine .bind .of_defined fun _ => ?_
      cases (f.zoneDescs (f.zp.lbaToZone f.sp slba)).state <;> exact .of_ok _
    · exact .of_ok _
  | _ => exact .of_ok _

theorem inArrays_resetDies (elpn zoneElpn fuel lpn : ℕ) (c : ResetCursor τ) :
    InArrays (f.resetDies clk elpn zoneElpn fuel lpn c) := by
  induction fuel generalizing lpn c with
  | zero => exact .of_ok _
  | succ fuel ih =>
    unfold resetDies
    split_ifs
    · exact .of_ok _
    · exact (f.inArrays_lpnToPpa lpn).bind fun _ => ih _ _

/-- **`__zmgmt_send`** on a zone that exists. -/
theorem inArrays_zmgmtSendZone (hz : f.zp.lbaToZone f.sp slba < f.zp.nrZones)
    (action : ZoneSendAction) (option : Bool) (req : NvmevRequest) (t : ℕ) :
    InArrays (f.zmgmtSendZone clk slba action option req t) := by
  unfold zmgmtSendZone
  dsimp only
  rw [zoneExists_bind hz]
  refine (f.inArrays_zmgmtAction slba action option).bind ?_
  rintro ⟨g, status⟩
  dsimp only
  split_ifs
  · unfold resetTimes
    exact .bind ((g.inArrays_resetDies clk _ _ _ _ _).bind fun _ => .of_ok _) fun _ => .of_ok _
  · exact .of_ok _

/-- **`zns_zmgmt_send`** for all zones, or for a zone that exists. -/
theorem inArrays_znsZmgmtSend (g : ZnsGeometry f.zp f.sp) {req : NvmevRequest}
    (hz : req.cmd.selectAll = false → f.zp.lbaToZone f.sp req.cmd.slba < f.zp.nrZones) :
    InArrays (f.znsZmgmtSend clk req) := by
  unfold znsZmgmtSend
  cases ZoneSendAction.ofZsa req.cmd.zsa with
  | none => exact .of_undefined
  | some action =>
    refine .bind ?_ fun _ => .of_ok _
    unfold zmgmtSend
    split_ifs with hall
    · -- the loop comes by the first blocks of the zones, with the parameters it began with
      refine Ends.bind (Ends.forRange
        (fun _ (s : ZnsFtl τ × ℕ) => s.1.zp = f.zp ∧ s.1.sp = f.sp) ⟨rfl, rfl⟩ ?_) fun _ _ => trivial
      rintro z hz ⟨h, t⟩ ⟨hzp, hsp⟩
      dsimp only at hzp hsp ⊢
      obtain ⟨h1, h2⟩ := lbaToZone_of_lt g (zoneToSlba_lt g hz)
      have hexists : h.zp.lbaToZone h.sp (h.zp.zoneToSlba h.sp z) < h.zp.nrZones := by
        rw [hzp, hsp, h1]
        exact h2
      refine Ends.bind ((h.inArrays_zmgmtSendZone clk _ hexists action _ req t).and_ok
        (h.frame_zmgmtSendZone clk _ action _ req t)) ?_
      rintro r ⟨-, hr⟩
      exact ⟨hr.zp.trans hzp, hr.sp.trans hsp⟩
    · exact f.inArrays_zmgmtSendZone clk _ (hz (Bool.eq_false_iff.2 hall)) action _ req _

/-- **`zns_zmgmt_recv`** of descriptors that exist. -/
theorem inArrays_znsZmgmtRecv {req : NvmevRequest} (host : Mem)
    (hexist : req.cmd.ReportSupported → zoneDescriptorSize * f.startZid req.cmd +
      f.reportBytes req.cmd ≤ zoneDescriptorSize * f.zp.nrZones) :
    InArrays (f.znsZmgmtRecv host req) := by
  unfold znsZmgmtRecv
  split_ifs with hsup
  · have hfill : InArrays (f.fillZoneReport req.cmd) := by
      unfold fillZoneReport descriptorsExist
      rw [if_pos (hexist hsup)]
      exact .of_ok _
    have htransfer : ∀ g : ZnsFtl τ, InArrays (g.transferReport req.cmd host) := by
      intro g
      unfold transferReport
      refine .bind .of_defined fun _ => .bind ?_ fun _ => .of_ok _
      exact (IoCursor.ends_loop _ _ _).mono (fun _ _ => trivial) fun e he => by
        rw [he]
        exact nofun
    exact hfill.bind fun g => (htransfer g).bind fun _ => .of_ok _
  · exact .of_ok _

end ZnsFtl

end NvmeVirt
