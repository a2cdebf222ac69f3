/-
# What a command of a zoned namespace leaves alone

A handler of `zns_read_write.c` or `zns_mgmt_send.c` works on one zone: the
descriptors of the others and the parameters stay as they are.  The bytes of the
namespace are written by the reset of a zone alone; the data of a command is
moved by `__do_perform_io`.  A write the FTL accepts does not begin below the
write pointer of its zone.
-/

import NvmeVirt.Io.Perform
import NvmeVirt.Zns.Namespace
import NvmeVirt.Zns.Rejections

namespace NvmeVirt

open Outcome

namespace ZnsFtl

variable {τ : Type}

/-- **Only zones in `Z` differ,** they begin where they did with as many blocks, and the storage
differs only if `R`. -/
structure Frame (Z : ℕ → Prop) (R : Prop) (f g : ZnsFtl τ) : Prop where
  zp : g.zp = f.zp
  sp : g.sp = f.sp
  others : ∀ y, ¬ Z y → g.zoneDescs y = f.zoneDescs y
  place : ∀ y, (g.zoneDescs y).zslba = (f.zoneDescs y).zslba ∧
    (g.zoneDescs y).zoneCapacity = (f.zoneDescs y).zoneCapacity
  storage : ¬ R → g.storage = f.storage

namespace Frame

variable {Z Z' : ℕ → Prop} {R R' : Prop} {f g h : ZnsFtl τ}

theorem refl (f : ZnsFtl τ) : Frame Z R f f :=
  ⟨rfl, rfl, fun _ _ => rfl, fun _ => ⟨rfl, rfl⟩, fun _ => rfl⟩

theorem trans (h₁ : Frame Z R f g) (h₂ : Frame Z R g h) : Frame Z R f h :=
  ⟨h₂.zp.trans h₁.zp, h₂.sp.trans h₁.sp, fun y hy => (h₂.others y hy).trans (h₁.others y hy),
    fun y => ⟨(h₂.place y).1.trans (h₁.place y).1, (h₂.place y).2.trans (h₁.place y).2⟩,
    fun hr => (h₂.storage hr).trans (h₁.storage hr)⟩

theorem mono (h₁ : Frame Z R f g) (hZ : ∀ y, Z y → Z' y) (hR : R → R') : Frame Z' R' f g :=
  ⟨h₁.zp, h₁.sp, fun y hy => h₁.others y (hy ∘ hZ y), h₁.place, fun hr => h₁.storage (hr ∘ hR)⟩

/-- What the frame is not about may change behind an operation. -/
theorem congr (h₁ : Frame Z R f g) (hzp : h.zp = g.zp) (hsp : h.sp = g.sp)
    (hd : h.zoneDescs = g.zoneDescs) (hs : h.storage = g.storage) : Frame Z R f h :=
  h₁.trans ⟨hzp, hsp, fun y _ => congrFun hd y, fun y => by rw [hd]; exact ⟨rfl, rfl⟩, fun _ => hs⟩

end Frame

/-- No command moves a zone. -/
theorem Placed.frame {Z : ℕ → Prop} {R : Prop} {f g : ZnsFtl τ} (h : f.Placed)
    (hf : Frame Z R f g) : g.Placed := by
  obtain ⟨h1, h2, h3⟩ := h
  refine ⟨by rwa [hf.zp, hf.sp], fun z hz => ?_, fun z hz => ?_⟩
  · rw [hf.zp] at hz ⊢
    rw [(hf.place z).1, h2 z hz]
  · rw [hf.zp] at hz ⊢
    rw [(hf.place z).2, h3 z hz]

variable (clk : SsdClock τ) (f : ZnsFtl τ) (zid slba : ℕ) {R : Prop}

/-! ### The small functions -/

theorem frame_setAcquiredCnt {Z : ℕ → Prop} (type : ZoneResourceType) (cnt : ℕ) :
    Frame Z R f (f.setAcquiredCnt type cnt) :=
  ⟨rfl, rfl, fun _ _ => rfl, fun _ => ⟨rfl, rfl⟩, fun _ => rfl⟩

theorem frame_acquireZoneResource {Z : ℕ → Prop} (type : ZoneResourceType) :
    Frame Z R f (f.acquireZoneResource type).1 := by
  unfold acquireZoneResource
  split_ifs
  · exact f.frame_setAcquiredCnt type _
  · exact .refl f

theorem frame_releaseZoneResource {Z : ℕ → Prop} (type : ZoneResourceType) :
    Frame Z R f (f.releaseZoneResource type) := f.frame_setAcquiredCnt type _

theorem frame_setZone {g : ZoneDescriptor → ZoneDescriptor}
    (hg : ∀ d, (g d).zslba = d.zslba ∧ (g d).zoneCapacity = d.zoneCapacity) :
    Frame (· = zid) R f (f.setZone zid g) := by
  refine ⟨rfl, rfl, fun _ hy => zoneDescs_setZone_of_ne hy g, fun y => ?_, fun _ => rfl⟩
  by_cases hy : y = zid
  · subst hy
    rw [zoneDescs_setZone]
    exact hg _
  · rw [zoneDescs_setZone_of_ne hy]
    exact ⟨rfl, rfl⟩

theorem frame_changeZoneState (state : ZoneState) :
    Frame (· = zid) R f (f.changeZoneState zid state) := f.frame_setZone zid (by simp)

theorem frame_setBuffer {Z : ℕ → Prop} (b : ZnsBuffer) (buf : Buffer) :
    Frame Z R f (f.setBuffer b buf) := by
  cases b <;> exact ⟨rfl, rfl, fun _ _ => rfl, fun _ => ⟨rfl, rfl⟩, fun _ => rfl⟩

theorem frame_increaseWritePtr (nrLba : ℕ) :
    Frame (· = zid) R f (f.increaseWritePtr zid nrLba) := by
  unfold increaseWritePtr
  dsimp only
  split_ifs
  · exact (((f.frame_setZone zid (by simp)).trans (frame_releaseZoneResource _ _)).trans
      (frame_releaseZoneResource _ _)).trans (frame_changeZoneState _ _ _)
  · exact f.frame_setZone zid (by simp)

/-! ### Writes and reads -/

theorem frame_openClosed : Frame (· = zid) R f (f.openClosed zid).1 := by
  have hacq := f.frame_acquireZoneResource (Z := (· = zid)) (R := R) .open
  unfold openClosed
  generalize f.acquireZoneResource .open = r at hacq ⊢
  obtain ⟨g, ok⟩ := r
  cases ok with
  | true => exact hacq.trans (g.frame_changeZoneState zid _)
  | false => exact hacq

theorem frame_openForWrite : Frame (· = zid) R f (f.openForWrite zid slba).1 := by
  unfold openForWrite
  cases (f.zoneDescs zid).state with
  | empty =>
    dsimp only
    split_ifs
    · exact .refl f
    · exact .refl f
    · exact .refl f
    · exact (f.frame_acquireZoneResource .active).trans (frame_openClosed _ zid)
  | closed => exact f.frame_openClosed zid
  | openedImpl => exact .refl f
  | openedExpl => exact .refl f
  | readOnly => exact .refl f
  | full => exact .refl f
  | offline => exact .refl f

theorem frame_checkWrite (nrLba : ℕ) :
    Frame (· = zid) R f (f.checkWrite zid slba nrLba).1 := by
  unfold ZnsFtl.checkWrite
  split_ifs
  all_goals first | exact .refl f | exact f.frame_openForWrite zid slba

theorem frame_writeAdmitted (cmd : NvmeRwCommand) (nsecsStart : ℕ) :
    Ends (f.writeAdmitted clk cmd nsecsStart zid)
      (fun o => Frame (· = zid) R f o.ns ∧ o.cmd = cmd) fun _ => True := by
  unfold writeAdmitted
  dsimp only
  refine (Ends.trivial _).bind fun c _ => ⟨?_, rfl⟩
  exact (f.frame_increaseWritePtr zid _).congr rfl rfl rfl rfl

/-- **`__zns_write`** works on the zone of the command, and a write it accepts begins at the write
pointer of that zone. -/
theorem frame_znsWriteSeq (req : NvmevRequest) :
    Ends (f.znsWriteSeq clk req) (fun o =>
      Frame (· = f.zp.lbaToZone f.sp req.cmd.slba) R f o.ns ∧
      (¬ o.Rejected → o.cmd.slba = (f.zoneDescs (f.zp.lbaToZone f.sp req.cmd.slba)).wp) ∧
      o.cmd = f.rewritten req.cmd) fun _ => True := by
  by_cases hz : f.zp.lbaToZone f.sp req.cmd.slba < f.zp.nrZones
  · rw [znsWriteSeq_eq clk hz]
    dsimp only
    set zid := f.zp.lbaToZone f.sp req.cmd.slba
    set g := f.setBuffer (f.writeBufferOf zid) (bufferAllocate (f.buffer (f.writeBufferOf zid))
      (lbaToByte req.cmd.nrLbas)).1 with hg
    have hframe : Frame (· = zid) R f g := f.frame_setBuffer _ _
    have hdescs : g.zoneDescs = f.zoneDescs := by rw [hg, zoneDescs_setBuffer]
    split_ifs
    · exact ⟨hframe, fun hno => absurd (by simp [IoOutcome.Rejected]) hno, rfl⟩
    · refine ends_defined.bind fun _ _ => ?_
      have hpass := (checkWrite_success_iff g zid (f.rewritten req.cmd).slba req.cmd.nrLbas).1
      have hcheck := g.frame_checkWrite (R := R) zid (f.rewritten req.cmd).slba req.cmd.nrLbas
      generalize g.checkWrite zid (f.rewritten req.cmd).slba req.cmd.nrLbas = r at hpass hcheck ⊢
      obtain ⟨g', status⟩ := r
      have hframe' : Frame (· = zid) R f g' := hframe.trans hcheck
      have hturned : status ≠ .success → (⟨g', f.rewritten req.cmd, [], some (g'.writeResult
          (f.rewritten req.cmd) status req.nsecsStart req.nsecsStart)⟩ :
            IoOutcome (ZnsFtl τ)).Rejected := by
        rintro hne r ⟨⟩
        exact fun h => hne (NvmeStatus.code_eq_zero.1 h)
      cases status with
      | success =>
        refine (g'.frame_writeAdmitted (R := R) clk zid _ _).mono ?_ fun _ _ => trivial
        rintro o ⟨hs, hc⟩
        refine ⟨hframe'.trans hs, fun _ => ?_, hc⟩
        rw [hc, (hpass rfl).wp, hdescs]
      | _ => exact ⟨hframe', fun hno => absurd (hturned (by decide)) hno, rfl⟩
  · unfold znsWriteSeq
    exact ends_zoneExists.bind fun _ hz' => absurd hz' hz

theorem frame_openForZrwa :
    Ends (f.openForZrwa zid) (fun r => Frame (· = zid) R f r.1) fun _ => True := by
  have hacq := f.frame_acquireZoneResource (Z := (· = zid)) (R := R) .open
  unfold openForZrwa
  generalize f.acquireZoneResource .open = r at hacq ⊢
  obtain ⟨g, ok⟩ := r
  have htake : Ends (do
      g.zwraExists
      let r := bufferAllocate (g.zwraBuffer zid) g.zp.zrwaSize
      nvmevAssert .znsWriteZrwa (r.2 ≠ 0)
      Except.ok ((g.setBuffer (.zrwa zid) r.1).changeZoneState zid .openedImpl, NvmeStatus.success))
      (fun r => Frame (· = zid) R f r.1) fun _ => True := by
    refine (Ends.trivial _).bind fun _ _ => (Ends.trivial _).bind fun _ _ => ?_
    exact (hacq.trans (g.frame_setBuffer _ _)).trans (frame_changeZoneState _ zid _)
  cases (f.zoneDescs zid).state with
  | closed =>
    cases ok with
    | true => exact htake
    | false => exact hacq
  | empty =>
    cases ok with
    | true => exact htake
    | false => exact hacq
  | openedImpl => exact .refl f
  | openedExpl => exact .refl f
  | readOnly => exact .refl f
  | full => exact .refl f
  | offline => exact .refl f

/-- A write that passes the checks of `__zns_write_zrwa` begins at the write pointer or behind it. -/
theorem frame_checkZrwaWrite (nrLba : ℕ) :
    Ends (f.checkZrwaWrite zid slba nrLba) (fun r => Frame (· = zid) R f r.1 ∧
      (r.2 = .success → (f.zoneDescs zid).wp ≤ slba)) fun _ => True := by
  unfold ZnsFtl.checkZrwaWrite
  dsimp only
  split_ifs with h1 h2 h3
  · exact ⟨.refl f, nofun⟩
  · refine (f.frame_openForZrwa (R := R) zid).mono (fun r hr => ⟨hr, fun _ => ?_⟩) fun _ _ => trivial
    omega
  · exact ⟨.refl f, nofun⟩
  · exact ⟨.refl f, nofun⟩

theorem frame_implicitFlush (nrLbas : ℕ) :
    Ends (f.implicitFlush zid nrLbas) (fun r => ∀ g, r = some g → Frame (· = zid) R f g)
      fun _ => True := by
  unfold implicitFlush
  split_ifs
  · rintro g ⟨⟩
    exact .refl f
  · refine (Ends.trivial _).bind fun _ _ => ?_
    dsimp only
    split_ifs
    · exact nofun
    · rintro g ⟨⟩
      exact (f.frame_setBuffer _ _).trans (frame_increaseWritePtr _ zid _)

theorem frame_writeZrwaAdmitted (cmd : NvmeRwCommand) (nsecsStart : ℕ) :
    Ends (f.writeZrwaAdmitted clk cmd nsecsStart zid)
      (fun o => Frame (· = zid) R f o.ns ∧ o.cmd = cmd) fun _ => True := by
  unfold writeZrwaAdmitted
  refine (Ends.trivial _).bind fun n _ => (f.frame_implicitFlush (R := R) zid n).bind fun r hr => ?_
  cases r with
  | none => exact ⟨.refl f, rfl⟩
  | some g => exact (Ends.trivial _).bind fun c _ => ⟨(hr g rfl).congr rfl rfl rfl rfl, rfl⟩

/-- **`__zns_write_zrwa`** works on the zone of the command, and a write it accepts does not begin
below the write pointer of that zone. -/
theorem frame_znsWriteZrwa (req : NvmevRequest) :
    Ends (f.znsWriteZrwa clk req) (fun o =>
      Frame (· = f.zp.lbaToZone f.sp req.cmd.slba) R f o.ns ∧
      (¬ o.Rejected → (f.zoneDescs (f.zp.lbaToZone f.sp req.cmd.slba)).wp ≤ o.cmd.slba) ∧
      o.cmd = req.cmd) fun _ => True := by
  unfold znsWriteZrwa
  refine (Ends.trivial _).bind fun _ _ => (Ends.trivial _).bind fun _ _ =>
    (f.frame_checkZrwaWrite (R := R) _ _ _).bind ?_
  rintro ⟨g, status⟩ ⟨hs, hwp⟩
  have hturned : status ≠ .success → (⟨g, req.cmd, [], some (g.writeResult req.cmd status
      req.nsecsStart req.nsecsStart)⟩ : IoOutcome (ZnsFtl τ)).Rejected := by
    rintro hne r ⟨⟩
    exact fun h => hne (NvmeStatus.code_eq_zero.1 h)
  cases status with
  | success =>
    refine (g.frame_writeZrwaAdmitted (R := R) clk _ _ _).mono ?_ fun _ _ => trivial
    rintro o ⟨hs', hc⟩
    refine ⟨hs.trans hs', fun _ => ?_, hc⟩
    rw [hc]
    exact hwp rfl
  | _ => exact ⟨hs, fun hno => absurd (hturned (by decide)) hno, rfl⟩

/-- **`zns_write`.** -/
theorem frame_znsWrite (req : NvmevRequest) :
    Ends (f.znsWrite clk req) (fun o =>
      Frame (· = f.zp.lbaToZone f.sp req.cmd.slba) R f o.ns ∧
      (¬ o.Rejected → (f.zoneDescs (f.zp.lbaToZone f.sp req.cmd.slba)).wp ≤ o.cmd.slba) ∧
      (req.cmd.opcode ≠ .zoneAppend → o.cmd = req.cmd)) fun _ => True := by
  unfold znsWrite
  refine (Ends.trivial _).bind fun _ _ => ?_
  split_ifs
  · refine (f.frame_znsWriteSeq (R := R) clk req).mono (fun o ho => ⟨ho.1, fun h => (ho.2.1 h).ge,
      fun hop => ho.2.2.trans (if_neg hop)⟩) fun _ _ => trivial
  · exact (f.frame_znsWriteZrwa (R := R) clk req).mono
      (fun o ho => ⟨ho.1, ho.2.1, fun _ => ho.2.2⟩) fun _ _ => trivial

theorem frame_znsRead {Z : ℕ → Prop} (req : NvmevRequest) :
    Ends (f.znsRead clk req) (fun o => Frame Z R f o.ns ∧ o.cmd = req.cmd) fun _ => True := by
  unfold znsRead
  exact (Ends.trivial _).bind fun _ _ => (Ends.trivial _).bind fun c _ =>
    ⟨⟨rfl, rfl, fun _ _ => rfl, fun _ => ⟨rfl, rfl⟩, fun _ => rfl⟩, rfl⟩

/-! ### Zone management -/

theorem frame_releaseActive {Z : ℕ → Prop} : Frame Z R f (f.releaseActive zid) := by
  have hclosed : ∀ g : ZnsFtl τ, Frame Z R g (g.releaseClosed zid) := by
    intro g
    unfold releaseClosed
    dsimp only
    split_ifs
    · exact (g.frame_releaseZoneResource _).trans (frame_releaseZoneResource _ _)
    · exact g.frame_releaseZoneResource _
  unfold releaseActive
  cases (f.zoneDescs zid).state with
  | openedImpl => exact (f.frame_releaseZoneResource _).trans (hclosed _)
  | openedExpl => exact (f.frame_releaseZoneResource _).trans (hclosed _)
  | closed => exact hclosed f
  | empty => exact .refl f
  | readOnly => exact .refl f
  | full => exact .refl f
  | offline => exact .refl f

theorem frame_closeZone : Frame (· = zid) R f (f.zmgmtSendCloseZone zid).1 := by
  unfold zmgmtSendCloseZone
  cases (f.zoneDescs zid).state with
  | openedImpl => exact (f.frame_changeZoneState zid _).trans (frame_releaseZoneResource _ _)
  | openedExpl => exact (f.frame_changeZoneState zid _).trans (frame_releaseZoneResource _ _)
  | _ => exact .refl f

theorem frame_finishZone : Frame (· = zid) R f (f.zmgmtSendFinishZone zid).1 := by
  have hactive : Frame (· = zid) R f ((f.releaseActive zid).changeZoneState zid .full) :=
    (f.frame_releaseActive zid).trans (frame_changeZoneState _ zid _)
  unfold zmgmtSendFinishZone
  cases (f.zoneDescs zid).state with
  | openedImpl => exact hactive
  | openedExpl => exact hactive
  | closed => exact hactive
  | empty => exact f.frame_changeZoneState zid _
  | _ => exact .refl f

theorem frame_openClosedExpl : Frame (· = zid) R f (f.openClosedExpl zid).1 := by
  have hacq := f.frame_acquireZoneResource (Z := (· = zid)) (R := R) .open
  unfold openClosedExpl
  generalize f.acquireZoneResource .open = r at hacq ⊢
  obtain ⟨g, ok⟩ := r
  cases ok with
  | true => exact hacq.trans (g.frame_changeZoneState zid _)
  | false => exact hacq

theorem frame_openZone (zrwa : Bool) : Frame (· = zid) R f (f.zmgmtSendOpenZone zid zrwa).1 := by
  unfold zmgmtSendOpenZone
  cases (f.zoneDescs zid).state with
  | empty =>
    dsimp only
    split_ifs
    · exact .refl f
    · exact .refl f
    · exact .refl f
    · exact (((f.frame_acquireZoneResource _).trans (frame_setZone _ zid (by simp))).trans
        (frame_acquireZoneResource _ _)).trans (frame_openClosedExpl _ zid)
    · exact (f.frame_acquireZoneResource _).trans (frame_openClosedExpl _ zid)
  | closed => exact f.frame_openClosedExpl zid
  | openedImpl => exact f.frame_changeZoneState zid _
  | _ => exact .refl f

theorem frame_offlineZone : Frame (· = zid) R f (f.zmgmtSendOfflineZone zid).1 := by
  unfold zmgmtSendOfflineZone
  cases (f.zoneDescs zid).state with
  | readOnly => exact f.frame_changeZoneState zid _
  | _ => exact .refl f

/-- The reset clears the storage. -/
theorem frame_resetZone (hR : R) : Frame (· = zid) R f (f.zmgmtSendResetZone zid).1 := by
  have hclear : ∀ g : ZnsFtl τ, Frame (· = zid) R g (g.resetZone zid) := by
    intro g
    have hc : Frame (· = zid) R g (g.clearZone zid) :=
      ⟨rfl, rfl, fun _ _ => rfl, fun _ => ⟨rfl, rfl⟩, fun hno => absurd hR hno⟩
    unfold resetZone refillZwra
    dsimp only
    split_ifs
    · exact (hc.trans (frame_setZone _ zid (by simp))).trans (frame_setBuffer _ _ _)
    · exact hc.trans (frame_setZone _ zid (by simp))
  have hreset : Frame (· = zid) R f
      (((f.releaseActive zid).changeZoneState zid .empty).resetZone zid) :=
    ((f.frame_releaseActive zid).trans (frame_changeZoneState _ zid _)).trans (hclear _)
  unfold zmgmtSendResetZone
  cases (f.zoneDescs zid).state with
  | readOnly => exact .refl f
  | offline => exact .refl f
  | _ => exact hreset

theorem frame_flushTo : Frame (· = zid) R f (f.flushTo zid slba) := by
  unfold flushTo
  dsimp only
  split_ifs
  · exact ((((f.frame_setZone zid (by simp)).trans (frame_releaseZoneResource _ _)).trans
      (frame_releaseZoneResource _ _)).trans (frame_releaseZoneResource _ _)).trans
      (frame_changeZoneState _ zid _)
  · exact (((f.frame_setZone zid (by simp)).trans (frame_releaseZoneResource _ _)).trans
      (frame_releaseZoneResource _ _)).trans (frame_changeZoneState _ zid _)
  · exact f.frame_setZone zid (by simp)

/-- **An action** works on the zone of its block, and only the reset writes to the storage. -/
theorem frame_zmgmtAction (action : ZoneSendAction) (option : Bool) :
    Ends (f.zmgmtAction slba action option) (fun r =>
      Frame (· = f.zp.lbaToZone f.sp slba) (action = .resetZone) f r.1) fun _ => True := by
  unfold zmgmtAction
  cases action with
  | closeZone => exact f.frame_closeZone _
  | finishZone => exact f.frame_finishZone _
  | openZone => exact f.frame_openZone _ option
  | resetZone => exact f.frame_resetZone _ rfl
  | offlineZone => exact f.frame_offlineZone _
  | flushExplZrwa =>
    dsimp only
    unfold zmgmtSendFlushExplicitZrwa
    dsimp only
    split_ifs
    · exact .refl f
    · exact (Ends.trivial _).bind fun _ _ => .refl f
    · refine (Ends.trivial _).bind fun _ _ => ?_
      cases (f.zoneDescs (f.zp.lbaToZone f.sp slba)).state <;>
        first | exact Frame.refl f | exact f.frame_flushTo _ _
    · exact .refl f

/-- **`__zmgmt_send`.** -/
theorem frame_zmgmtSendZone (action : ZoneSendAction) (option : Bool) (req : NvmevRequest) (t : ℕ) :
    Ends (f.zmgmtSendZone clk slba action option req t) (fun r =>
      Frame (· = f.zp.lbaToZone f.sp slba) (action = .resetZone) f r.1) fun _ => True := by
  unfold zmgmtSendZone
  refine (Ends.trivial _).bind fun _ _ => (f.frame_zmgmtAction slba action option).bind ?_
  rintro ⟨g, status⟩ hg
  dsimp only
  split_ifs
  · unfold resetTimes
    refine Ends.bind (Q := fun r => Frame (· = f.zp.lbaToZone f.sp slba) (action = .resetZone) f r.1)
      ((Ends.trivial _).bind fun c _ => hg.congr rfl rfl rfl rfl) ?_
    rintro ⟨g', t'⟩ hg'
    exact hg'
  · exact hg

/-- **`zns_zmgmt_send`.** -/
theorem frame_znsZmgmtSend (req : NvmevRequest) :
    Ends (f.znsZmgmtSend clk req) (fun o => Frame (fun _ => True)
      (ZoneSendAction.ofZsa req.cmd.zsa = some .resetZone) f o.ns ∧ o.cmd = req.cmd)
      fun _ => True := by
  unfold znsZmgmtSend
  cases ZoneSendAction.ofZsa req.cmd.zsa with
  | none => exact trivial
  | some action =>
    have hzone : ∀ (g : ZnsFtl τ) (lba t : ℕ), Ends (g.zmgmtSendZone clk lba action req.cmd.zsaso
        req t) (fun r => Frame (fun _ => True) (some action = some .resetZone) g r.1)
        fun _ => True := fun g lba t => (g.frame_zmgmtSendZone clk lba action _ req t).mono
          (fun r hr => hr.mono (fun _ _ => trivial) (congrArg some)) fun _ _ => trivial
    refine Ends.bind (Q := fun r => Frame (fun _ => True) (some action = some .resetZone) f r.1) ?_
      fun ⟨g, status, t⟩ hg => ⟨by exact hg, rfl⟩
    unfold zmgmtSend
    split_ifs
    · refine Ends.bind (Ends.forRange
        (fun _ s => Frame (fun _ => True) (some action = some .resetZone) f s.1) (.refl f)
        fun i _ s hs => ?_) fun ⟨g, t⟩ hg => by exact hg
      exact (hzone s.1 _ s.2).bind fun r hr => hs.trans hr
    · exact hzone f _ _

/-- The report goes to the host. -/
theorem frame_znsZmgmtRecv {Z : ℕ → Prop} (host : Mem) (req : NvmevRequest) :
    Ends (f.znsZmgmtRecv host req) (fun r => Frame Z R f r.1) fun _ => True := by
  unfold znsZmgmtRecv
  split_ifs
  · refine Ends.bind (Q := fun g => Frame Z R f g) ?_ fun g hg =>
      (Ends.trivial _).bind fun _ _ => by exact hg
    unfold fillZoneReport
    exact (Ends.trivial _).bind fun _ _ =>
      ⟨rfl, rfl, fun _ _ => rfl, fun _ => ⟨rfl, rfl⟩, fun _ => rfl⟩
  · exact .refl f

end ZnsFtl

/-! ### A command of the namespace -/

/-- The command resets zones. -/
def NvmeRwCommand.Resets (cmd : NvmeRwCommand) : Prop :=
  cmd.opcode = .zoneMgmtSend ∧ ZoneSendAction.ofZsa cmd.zsa = some .resetZone

instance : DecidablePred NvmeRwCommand.Resets := fun _ => inferInstanceAs (Decidable (_ ∧ _))

namespace ZnsNs

variable {τ : Type} (clk : SsdClock τ) (ns : ZnsNs τ)

/-- What a write leaves behind is what `zns_write` does. -/
theorem znsProcNvmeIoCmd_of_writes {req : NvmevRequest} (hw : req.cmd.Writes) :
    ns.znsProcNvmeIoCmd clk req
      = ns.ftl.znsWrite clk req >>= fun o => .ok (ns.ofFtl o) := by
  unfold znsProcNvmeIoCmd
  rcases hw with hw | hw <;> rw [hw]

/-- **What the FTL leaves alone:** the parameters, and the storage unless it resets zones. -/
theorem frame_procNvmeIoCmd (req : NvmevRequest) :
    Ends (ns.znsProcNvmeIoCmd clk req) (fun o =>
      ZnsFtl.Frame (fun _ => True) req.cmd.Resets ns.ftl o.ns.ftl) fun _ => True := by
  have hwrite := (ns.ftl.frame_znsWrite (R := req.cmd.Resets) clk req).mono
    (fun _ h => h.1.mono (fun _ _ => trivial) id) fun _ _ => trivial
  have hof : ∀ {x : Except Fault (IoOutcome (ZnsFtl τ))},
      Ends x (fun o => ZnsFtl.Frame (fun _ => True) req.cmd.Resets ns.ftl o.ns) (fun _ => True) →
      Ends (x >>= fun o => .ok (ns.ofFtl o))
        (fun o => ZnsFtl.Frame (fun _ => True) req.cmd.Resets ns.ftl o.ns.ftl)
        fun _ => True := fun hx => hx.bind fun o ho => ho
  unfold znsProcNvmeIoCmd
  cases hop : req.cmd.opcode with
  | write => exact hof hwrite
  | zoneAppend => exact hof hwrite
  | read =>
    exact hof ((ns.ftl.frame_znsRead clk req).mono (fun _ h => h.1) fun _ _ => trivial)
  | flush => exact ⟨rfl, rfl, fun _ _ => rfl, fun _ => ⟨rfl, rfl⟩, fun _ => rfl⟩
  | zoneMgmtSend =>
    refine hof ((ns.ftl.frame_znsZmgmtSend clk req).mono (fun _ h => ?_) fun _ _ => trivial)
    exact h.1.mono (fun _ _ => trivial) fun hr => ⟨hop, hr⟩
  | zoneMgmtRecv =>
    refine (ns.ftl.frame_znsZmgmtRecv (Z := fun _ => True) (R := req.cmd.Resets) ns.host req).bind ?_
    rintro ⟨g, host, ret⟩ hg
    exact hg
  | other code => exact .refl _

/-- **A write or an append the FTL accepts** does not begin below the write pointer of its zone. -/
theorem wp_le_of_accepted {req : NvmevRequest} {o : IoOutcome (ZnsNs τ)}
    (ho : ns.znsProcNvmeIoCmd clk req = .ok o) (hw : req.cmd.Writes) (hacc : ¬ o.Rejected) :
    (ns.ftl.zoneDescs (ns.ftl.zp.lbaToZone ns.ftl.sp req.cmd.slba)).wp ≤ o.cmd.slba := by
  rw [znsProcNvmeIoCmd_of_writes clk ns hw] at ho
  obtain ⟨p, hp, hpo⟩ := bind_eq_ok.1 ho
  cases hpo
  exact ((ns.ftl.frame_znsWrite (R := False) clk req).of_ok hp).2.1 hacc

/-- Only an append is rewritten in its slot. -/
theorem cmd_procNvmeIoCmd (req : NvmevRequest) (hop : req.cmd.opcode ≠ .zoneAppend) :
    Ends (ns.znsProcNvmeIoCmd clk req) (fun o => o.cmd = req.cmd) fun _ => True := by
  unfold znsProcNvmeIoCmd
  cases h : req.cmd.opcode with
  | write => exact (ns.ftl.frame_znsWrite (R := False) clk req).bind fun o ho => ho.2.2 hop
  | zoneAppend => exact absurd h hop
  | read =>
    exact (ns.ftl.frame_znsRead (Z := fun _ => True) (R := False) clk req).bind fun o ho => ho.2
  | flush => exact rfl
  | zoneMgmtSend => exact (ns.ftl.frame_znsZmgmtSend clk req).bind fun o ho => ho.2
  | zoneMgmtRecv => exact (Ends.trivial _).bind fun ⟨g, host, ret⟩ _ => rfl
  | other code => exact rfl

/-- `buffer_release` is about the buffers. -/
theorem frame_bufferRelease {Z : ℕ → Prop} {R : Prop} (buf bytes : ℕ) :
    ZnsFtl.Frame Z R ns.ftl (ns.bufferRelease buf bytes).ftl := ZnsFtl.frame_setBuffer _ _ _

end ZnsNs

end NvmeVirt
