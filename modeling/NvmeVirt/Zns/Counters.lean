/-
# The counters of the open and the active resources

What each operation of `zns_read_write.c` and `zns_mgmt_send.c` does to the
counters of `res_infos`, wherever the write pointers are: a zone changes its
state, and the counter of a resource follows if it was right before.  A zone
that does not hold a resource finds one left, since `__init_resource` provides
as many as there are zones.
-/

import NvmeVirt.Zns.Zones

namespace NvmeVirt

open Outcome

namespace ZnsFtl

variable {τ : Type} {f f' g : ZnsFtl τ} {zid slba : ℕ} {ty : ZoneResourceType}
  {P : ZoneResourceType → Prop}

/-- **The counters are right:** they are the numbers of the zones that hold an open and an active
resource, and an empty zone has nothing written and no random write area. -/
structure Counted (f : ZnsFtl τ) : Prop where
  nrZones : f.zp.nrZones < 2 ^ 32
  total : ∀ ty, (f.resInfos ty).totalCnt = f.zp.nrZones
  balanced : ∀ ty, ty ≠ .zrwa → f.Balanced ty
  empty : ∀ z, z < f.zp.nrZones → (f.zoneDescs z).state = .empty →
    (f.zoneDescs z).wp = (f.zoneDescs z).zslba ∧ (f.zoneDescs z).zrwav = false

/-- **An operation on a zone keeps the counters** in `P`. -/
structure KeepsCounts (P : ZoneResourceType → Prop) (f f' : ZnsFtl τ) (zid : ℕ) : Prop where
  moves : Moves P f f' zid
  empty : (f'.zoneDescs zid).state = .empty →
    (f'.zoneDescs zid).wp = (f'.zoneDescs zid).zslba ∧ (f'.zoneDescs zid).zrwav = false

theorem ZonesOk.counted (h : f.ZonesOk) : f.Counted :=
  ⟨h.geometry.nrZones, h.total, h.balanced, fun z hz => (h.zones z hz).empty⟩

/-- Two operations on one zone. -/
theorem Moves.trans (m : Moves P f g zid) (m' : Moves P g f' zid) (hz : zid < f.zp.nrZones) :
    Moves P f f' zid := by
  refine ⟨m'.zp.trans m.zp, m'.sp.trans m.sp, fun z hne => ?_, fun ty => ?_, fun ty hP hb => ?_⟩
  · rw [m'.others z hne, m.others z hne]
  · rw [m'.total, m.total]
  · have h1 := m.counts ty hP hb
    have h2 := m'.counts ty hP (m.balanced hz hb hP)
    omega

/-- What the counters are not about may change behind an operation. -/
theorem Moves.congr (m : Moves P f g zid) (hzp : f'.zp = g.zp) (hsp : f'.sp = g.sp)
    (hd : f'.zoneDescs = g.zoneDescs) (hr : f'.resInfos = g.resInfos) : Moves P f f' zid := by
  obtain ⟨m1, m2, m3, m4, m5⟩ := m
  rw [← hzp] at m1
  rw [← hsp] at m2
  simp only [← hd, ← hr] at m3 m4 m5
  exact ⟨m1, m2, m3, m4, m5⟩

namespace KeepsCounts

theorem nrZones (k : KeepsCounts P f f' zid) : f'.zp.nrZones = f.zp.nrZones := by
  rw [k.moves.zp]

/-- **The counters after an operation.** -/
theorem counted (k : KeepsCounts (· ≠ .zrwa) f f' zid) (h : f.Counted) (hz : zid < f.zp.nrZones) :
    f'.Counted := by
  refine ⟨k.nrZones ▸ h.nrZones, fun ty => ?_, fun ty hty => ?_, fun z hlt => ?_⟩
  · rw [k.moves.total, k.moves.zp]
    exact h.total ty
  · exact k.moves.balanced hz (h.balanced ty hty) hty
  · rw [k.nrZones] at hlt
    by_cases hne : z = zid
    · rw [hne]
      exact k.empty
    · rw [k.moves.others z hne]
      exact h.empty z hlt

end KeepsCounts

namespace Counted

theorem refl (h : f.Counted) (hz : zid < f.zp.nrZones) : KeepsCounts P f f zid :=
  ⟨.refl P f zid, h.empty zid hz⟩

/-- A counter that is right fits into 32 bits. -/
theorem acquiredCnt_lt (h : f.Counted) (hb : f.Balanced ty) :
    (f.resInfos ty).acquiredCnt < 2 ^ 32 := by
  have h1 := f.held_le ty
  have h2 := h.nrZones
  rw [hb]
  omega

/-- **A zone that does not hold a resource finds one left.** -/
theorem avail (h : f.Counted) (hb : f.Balanced ty) (hz : zid < f.zp.nrZones)
    (hno : ¬ (f.zoneDescs zid).Holds ty) : f.isZoneResourceAvail ty := by
  have hlt := held_lt hz hno
  unfold isZoneResourceAvail
  rw [h.total, hb]
  exact hlt

theorem not_full (h : f.Counted) (hb : f.Balanced ty) (hz : zid < f.zp.nrZones)
    (hno : ¬ (f.zoneDescs zid).Holds ty) : ¬ f.isZoneResourceFull ty :=
  Nat.ne_of_lt (h.avail hb hz hno)

/-- The counter a zone finds that does not hold a resource. -/
theorem resInfos_eq (h : f.Counted) (hb : f.Balanced ty) (hz : zid < f.zp.nrZones)
    (hno : ¬ (f.zoneDescs zid).Holds ty) :
    ∃ c, f.resInfos ty = ⟨c, f.zp.nrZones⟩ ∧ c < f.zp.nrZones := by
  have havail : (f.resInfos ty).acquiredCnt < (f.resInfos ty).totalCnt := h.avail hb hz hno
  refine ⟨(f.resInfos ty).acquiredCnt, ?_, ?_⟩
  · rw [← h.total ty]
  · rwa [h.total] at havail

/-- The counter after a zone has given back what it held. -/
theorem release (h : f.Counted) (hb : f.Balanced ty) (hz : zid < f.zp.nrZones)
    (hold : (f.zoneDescs zid).Holds ty) :
    u32Pred (f.resInfos ty).acquiredCnt + 1 = (f.resInfos ty).acquiredCnt := by
  have hlt := h.acquiredCnt_lt hb
  have hle := units_le_held hz ty
  rw [ZoneDescriptor.units_eq_one hold, ← hb] at hle
  rw [u32Pred_of_pos hle hlt]
  omega

end Counted

/-- A resource that is left is taken. -/
theorem acquire_of_avail {c t : ℕ} (h : f.resInfos ty = ⟨c, t⟩) (hlt : c < t) (ht : t < 2 ^ 32) :
    f.acquireZoneResource ty = (f.setAcquiredCnt ty (c + 1), true) := by
  have havail : f.isZoneResourceAvail ty := by
    unfold isZoneResourceAvail
    rw [h]
    exact hlt
  unfold acquireZoneResource
  rw [if_pos havail, h]
  show (f.setAcquiredCnt ty (u32 (c + 1)), true) = _
  rw [u32_of_lt (by omega)]

theorem totalCnt_acquireZoneResource (ty ty' : ZoneResourceType) :
    ((f.acquireZoneResource ty).1.resInfos ty').totalCnt = (f.resInfos ty').totalCnt := by
  unfold acquireZoneResource
  split_ifs
  · exact totalCnt_setAcquiredCnt _ _
  · rfl

/-! ### Zone management -/

/-- `__zmgmt_send_close_zone`. -/
theorem Counted.closeZone (h : f.Counted) (hz : zid < f.zp.nrZones) :
    KeepsCounts P f (f.zmgmtSendCloseZone zid).1 zid := by
  have hopened : (f.zoneDescs zid).state.Opened →
      KeepsCounts P f ((f.changeZoneState zid .closed).releaseZoneResource .open) zid := by
    intro hs
    have hactive : (f.zoneDescs zid).state.Active := by
      cases hst : (f.zoneDescs zid).state <;> simp_all
    refine ⟨⟨rfl, rfl, fun z hne => zoneDescs_changeZoneState_of_ne hne _, fun ty => ?_,
      fun ty _ hb => ?_⟩, ?_⟩
    · simp
    · have hrel := h.release hb hz
      cases ty <;> simp_all [ZoneDescriptor.units]
    · simp
  unfold zmgmtSendCloseZone
  split
  · rename_i hs
    exact hopened (by simp [hs])
  · rename_i hs
    exact hopened (by simp [hs])
  · exact h.refl hz
  · exact h.refl hz

/-- What `releaseActive` leaves alone. -/
theorem releaseActive_frame (f : ZnsFtl τ) (zid : ℕ) :
    (f.releaseActive zid).zp = f.zp ∧ (f.releaseActive zid).sp = f.sp ∧
      (f.releaseActive zid).zoneDescs = f.zoneDescs ∧
      ∀ ty, ((f.releaseActive zid).resInfos ty).totalCnt = (f.resInfos ty).totalCnt := by
  have hclosed : ∀ g : ZnsFtl τ, (g.releaseClosed zid).zp = g.zp ∧ (g.releaseClosed zid).sp = g.sp ∧
      (g.releaseClosed zid).zoneDescs = g.zoneDescs ∧
      ∀ ty, ((g.releaseClosed zid).resInfos ty).totalCnt = (g.resInfos ty).totalCnt := by
    intro g
    unfold releaseClosed
    cases (g.zoneDescs zid).zrwav <;> simp
  unfold releaseActive
  cases (f.zoneDescs zid).state <;> simp [hclosed]

/-- **An active zone gives back what it holds.** -/
theorem Counted.releaseActive_count (h : f.Counted) (hz : zid < f.zp.nrZones)
    (hb : f.Balanced ty) :
    ((f.releaseActive zid).resInfos ty).acquiredCnt + (f.zoneDescs zid).units ty
      = (f.resInfos ty).acquiredCnt := by
  have hrel := h.release hb hz
  unfold releaseActive releaseClosed
  cases hs : (f.zoneDescs zid).state <;> cases hv : (f.zoneDescs zid).zrwav <;> cases ty <;>
    simp_all [ZoneDescriptor.units]

/-- A zone leaves the active states. -/
theorem Counted.leave (h : f.Counted) (hz : zid < f.zp.nrZones)
    (hzp : f'.zp = f.zp) (hsp : f'.sp = f.sp)
    (hothers : ∀ z, z ≠ zid → f'.zoneDescs z = f.zoneDescs z)
    (hres : f'.resInfos = (f.releaseActive zid).resInfos)
    (hs : ¬ (f'.zoneDescs zid).state.Active) : Moves P f f' zid := by
  refine ⟨hzp, hsp, hothers, fun ty => ?_, fun ty _ hb => ?_⟩
  · rw [hres]
    exact (releaseActive_frame f zid).2.2.2 ty
  · have hzero : (f'.zoneDescs zid).units ty = 0 := by
      refine ZoneDescriptor.units_eq_zero ?_
      cases hst : (f'.zoneDescs zid).state <;> cases ty <;> simp_all
    rw [hres, hzero, h.releaseActive_count hz hb, add_zero]

/-- `__zmgmt_send_finish_zone`. -/
theorem Counted.finishZone (h : f.Counted) (hz : zid < f.zp.nrZones) :
    KeepsCounts P f (f.zmgmtSendFinishZone zid).1 zid := by
  obtain ⟨hzp, hsp, hdescs, -⟩ := releaseActive_frame f zid
  have hfull : KeepsCounts P f ((f.releaseActive zid).changeZoneState zid .full) zid := by
    refine ⟨h.leave hz hzp hsp (fun z hne => ?_) rfl (by simp), by simp⟩
    rw [zoneDescs_changeZoneState_of_ne hne, hdescs]
  unfold zmgmtSendFinishZone
  cases hs : (f.zoneDescs zid).state with
  | openedImpl => exact hfull
  | openedExpl => exact hfull
  | closed => exact hfull
  | empty =>
    have hnone : f.releaseActive zid = f := by
      unfold releaseActive
      rw [hs]
    rw [hnone] at hfull
    exact hfull
  | full => exact h.refl hz
  | readOnly => exact h.refl hz
  | offline => exact h.refl hz

/-- What a reset leaves of the parameters, the counters and the descriptors. -/
theorem resetZone_frame (f : ZnsFtl τ) (zid : ℕ) :
    (f.resetZone zid).zp = f.zp ∧ (f.resetZone zid).sp = f.sp ∧
      (f.resetZone zid).resInfos = f.resInfos ∧
      (f.resetZone zid).zoneDescs
        = (f.setZone zid fun d => { d with wp := d.zslba, zrwav := false }).zoneDescs := by
  have hrefill : ∀ g : ZnsFtl τ, (g.refillZwra zid).zp = g.zp ∧ (g.refillZwra zid).sp = g.sp ∧
      (g.refillZwra zid).resInfos = g.resInfos ∧ (g.refillZwra zid).zoneDescs = g.zoneDescs := by
    intro g
    unfold refillZwra
    split_ifs <;> simp
  exact hrefill ((f.clearZone zid).setZone zid fun d => { d with wp := d.zslba, zrwav := false })

/-- `__zmgmt_send_reset_zone`. -/
theorem Counted.resetZone (h : f.Counted) (hz : zid < f.zp.nrZones) :
    KeepsCounts P f (f.zmgmtSendResetZone zid).1 zid := by
  obtain ⟨hzp, hsp, hdescs, -⟩ := releaseActive_frame f zid
  set g := (f.releaseActive zid).changeZoneState zid .empty with hg
  obtain ⟨r1, r2, r3, r4⟩ := resetZone_frame g zid
  have hkeeps : KeepsCounts P f (g.resetZone zid) zid := by
    refine ⟨h.leave hz (r1.trans hzp) (r2.trans hsp) (fun z hne => ?_) r3 ?_, fun _ => ?_⟩
    · rw [r4, zoneDescs_setZone_of_ne hne, hg, zoneDescs_changeZoneState_of_ne hne, hdescs]
    · rw [r4, zoneDescs_setZone, hg, zoneDescs_changeZoneState]
      exact id
    · rw [r4, zoneDescs_setZone]
      exact ⟨rfl, rfl⟩
  unfold zmgmtSendResetZone
  split
  all_goals first | exact hkeeps | exact h.refl hz

/-- `__zmgmt_send_offline_zone`. -/
theorem Counted.offlineZone (h : f.Counted) (hz : zid < f.zp.nrZones) :
    KeepsCounts P f (f.zmgmtSendOfflineZone zid).1 zid := by
  unfold zmgmtSendOfflineZone
  split
  · rename_i hs
    refine ⟨⟨rfl, rfl, fun z hne => zoneDescs_changeZoneState_of_ne hne _, fun _ => rfl,
      fun ty _ _ => ?_⟩, by simp⟩
    cases ty <;> simp [ZoneDescriptor.units, hs]
  · exact h.refl hz
  · exact h.refl hz

/-! ### Opening a zone -/

theorem openClosed_of_avail {c t : ℕ} (h : f.resInfos .open = ⟨c, t⟩) (hlt : c < t)
    (ht : t < 2 ^ 32) :
    f.openClosed zid
      = ((f.setAcquiredCnt .open (c + 1)).changeZoneState zid .openedImpl, .success) := by
  unfold openClosed
  rw [acquire_of_avail h hlt ht]

theorem openClosedExpl_of_avail {c t : ℕ} (h : f.resInfos .open = ⟨c, t⟩) (hlt : c < t)
    (ht : t < 2 ^ 32) :
    f.openClosedExpl zid
      = ((f.setAcquiredCnt .open (c + 1)).changeZoneState zid .openedExpl, .success) := by
  unfold openClosedExpl
  rw [acquire_of_avail h hlt ht]

/-- A closed zone is opened. -/
theorem Moves.openOne (hs : (f.zoneDescs zid).state = .closed) {s : ZoneState} (hopened : s.Opened)
    {c : ℕ} (hc : f.resInfos .open = ⟨c, f.zp.nrZones⟩) :
    Moves P f ((f.setAcquiredCnt .open (c + 1)).changeZoneState zid s) zid := by
  refine ⟨rfl, rfl, fun z hne => zoneDescs_changeZoneState_of_ne hne _, fun ty => ?_,
    fun ty _ hb => ?_⟩
  · simp
  · cases s <;> cases ty <;> simp_all [ZoneDescriptor.units]

/-- An empty zone is opened, with or without a random write area. -/
theorem Moves.openTwo (hs : (f.zoneDescs zid).state = .empty) {s : ZoneState} (hopened : s.Opened)
    {a c : ℕ} (ha : f.resInfos .active = ⟨a, f.zp.nrZones⟩)
    (hc : f.resInfos .open = ⟨c, f.zp.nrZones⟩) (hzp : g.zp = f.zp) (hsp : g.sp = f.sp)
    (hothers : ∀ z, z ≠ zid → g.zoneDescs z = f.zoneDescs z) {v : Bool}
    (hdesc : g.zoneDescs zid = { f.zoneDescs zid with zrwav := v })
    (htotal : ∀ ty, (g.resInfos ty).totalCnt = (f.resInfos ty).totalCnt)
    (hzrwa : f.Balanced .zrwa → (g.resInfos .zrwa).acquiredCnt
      = (f.resInfos .zrwa).acquiredCnt + v.toNat) :
    Moves P f (((g.setAcquiredCnt .active (a + 1)).setAcquiredCnt .open (c + 1)).changeZoneState
      zid s) zid := by
  refine ⟨hzp, hsp, fun z hne => ?_, fun ty => ?_, fun ty _ hb => ?_⟩
  · rw [zoneDescs_changeZoneState_of_ne hne]
    exact hothers z hne
  · simp [htotal]
  · cases s <;> cases ty <;> cases v <;> simp_all [ZoneDescriptor.units]

/-- What `takeZrwa` does. -/
theorem takeZrwa_spec (f : ZnsFtl τ) (zid : ℕ) :
    (f.takeZrwa zid).zp = f.zp ∧ (f.takeZrwa zid).sp = f.sp ∧
      (∀ z, z ≠ zid → (f.takeZrwa zid).zoneDescs z = f.zoneDescs z) ∧
      (f.takeZrwa zid).zoneDescs zid = { f.zoneDescs zid with zrwav := true } ∧
      (∀ ty, ty ≠ .zrwa → (f.takeZrwa zid).resInfos ty = f.resInfos ty) ∧
      (f.takeZrwa zid).resInfos .zrwa = (f.acquireZoneResource .zrwa).1.resInfos .zrwa := by
  have hacq : (f.acquireZoneResource .zrwa).1.zp = f.zp ∧
      (f.acquireZoneResource .zrwa).1.sp = f.sp ∧
      (f.acquireZoneResource .zrwa).1.zoneDescs = f.zoneDescs ∧
      ∀ ty, ty ≠ .zrwa → (f.acquireZoneResource .zrwa).1.resInfos ty = f.resInfos ty := by
    unfold acquireZoneResource
    split_ifs
    · exact ⟨rfl, rfl, rfl, fun ty hty => Function.update_of_ne hty ..⟩
    · exact ⟨rfl, rfl, rfl, fun _ _ => rfl⟩
  obtain ⟨h1, h2, h3, h4⟩ := hacq
  refine ⟨h1, h2, fun z hne => ?_, ?_, h4, rfl⟩
  · unfold takeZrwa
    rw [zoneDescs_setZone_of_ne hne, h3]
  · unfold takeZrwa
    rw [zoneDescs_setZone, h3]

/-- What `__zmgmt_send_open_zone` makes of the descriptor, and of the counters in `P`. -/
structure OpenedExpl (P : ZoneResourceType → Prop) (zrwa : Bool) (f f' : ZnsFtl τ) (zid : ℕ) :
    Prop where
  moves : Moves P f f' zid
  desc : f'.zoneDescs zid = f.zoneDescs zid ∨ (f.zoneDescs zid).state.Active ∧
      f'.zoneDescs zid = { f.zoneDescs zid with state := .openedExpl } ∨
    (f.zoneDescs zid).state = .empty ∧
      f'.zoneDescs zid = { f.zoneDescs zid with state := .openedExpl, zrwav := zrwa }

/-- `__zmgmt_send_open_zone`. -/
theorem Counted.openZone (h : f.Counted) (hz : zid < f.zp.nrZones) (zrwa : Bool) :
    OpenedExpl P zrwa f (f.zmgmtSendOpenZone zid zrwa).1 zid := by
  have hn := h.nrZones
  have hba := h.balanced .active (by decide)
  have hbo := h.balanced .open (by decide)
  have hopened : ZoneState.Opened .openedExpl := trivial
  have hrefl : OpenedExpl P zrwa f f zid := ⟨.refl P f zid, .inl rfl⟩
  unfold zmgmtSendOpenZone
  split
  · rename_i hs
    have hnoa : ¬ (f.zoneDescs zid).Holds .active := by simp [hs]
    have hnoo : ¬ (f.zoneDescs zid).Holds .open := by simp [hs]
    obtain ⟨a, ha, halt⟩ := h.resInfos_eq hba hz hnoa
    obtain ⟨c, hc, hclt⟩ := h.resInfos_eq hbo hz hnoo
    rw [if_neg (h.not_full hba hz hnoa), if_neg (h.not_full hbo hz hnoo)]
    by_cases hfull : zrwa ∧ f.isZoneResourceFull .zrwa
    · rw [if_pos hfull]
      exact hrefl
    · rw [if_neg hfull]
      cases zrwa with
      | false =>
        have hv : f.zoneDescs zid = { f.zoneDescs zid with zrwav := false } := by
          rw [← (h.empty zid hz hs).2]
        dsimp only
        rw [if_neg Bool.false_ne_true, acquire_of_avail ha halt hn,
          openClosedExpl_of_avail (by simpa [setAcquiredCnt] using hc) hclt hn]
        refine ⟨.openTwo hs hopened ha hc rfl rfl (fun _ _ => rfl) hv (fun _ => rfl) fun _ => rfl,
          .inr (.inr ⟨hs, ?_⟩)⟩
        rw [zoneDescs_changeZoneState, ← (h.empty zid hz hs).2]
        rfl
      | true =>
        dsimp only
        rw [if_pos rfl]
        obtain ⟨t1, t2, t3, t4, t5, t6⟩ := takeZrwa_spec f zid
        rw [acquire_of_avail ((t5 .active (by decide)).trans ha) halt hn,
          openClosedExpl_of_avail (by simpa [setAcquiredCnt] using (t5 .open (by decide)).trans hc)
            hclt hn]
        refine ⟨.openTwo hs hopened ha hc t1 t2 t3 t4 ?_ ?_, .inr (.inr ⟨hs, ?_⟩)⟩
        · intro ty
          by_cases hty : ty = .zrwa
          · rw [hty, t6]
            exact totalCnt_acquireZoneResource .zrwa .zrwa
          · rw [t5 ty hty]
        · intro hb
          obtain ⟨v, hv, hvlt⟩ := h.resInfos_eq hb hz (by simp [hs])
          rw [t6, acquire_of_avail hv hvlt hn]
          simp [hv]
        · rw [zoneDescs_changeZoneState, zoneDescs_setAcquiredCnt, zoneDescs_setAcquiredCnt, t4]
  · rename_i hs
    obtain ⟨c, hc, hclt⟩ := h.resInfos_eq hbo hz (by simp [hs])
    rw [openClosedExpl_of_avail hc hclt hn]
    refine ⟨.openOne hs hopened hc, .inr (.inl ⟨by simp [hs], ?_⟩)⟩
    rw [zoneDescs_changeZoneState]
    rfl
  · rename_i hs
    refine ⟨⟨rfl, rfl, fun z hne => zoneDescs_changeZoneState_of_ne hne _, fun _ => rfl,
      fun ty _ _ => ?_⟩, .inr (.inl ⟨by simp [hs], zoneDescs_changeZoneState _⟩)⟩
    cases ty <;> simp [ZoneDescriptor.units, hs]
  · exact hrefl
  · exact hrefl

theorem OpenedExpl.keepsCounts {zrwa : Bool} (h : f.Counted) (hz : zid < f.zp.nrZones)
    (ho : OpenedExpl P zrwa f f' zid) : KeepsCounts P f f' zid := by
  refine ⟨ho.moves, ?_⟩
  rcases ho.desc with hd | ⟨-, hd⟩ | ⟨-, hd⟩
  · rw [hd]
    exact h.empty zid hz
  · rw [hd]
    nofun
  · rw [hd]
    nofun

/-! ### The explicit flush -/

/-- An active zone moves its write pointer. -/
theorem KeepsCounts.moveWp (hactive : (f.zoneDescs zid).state.Active) (wp : ℕ) :
    KeepsCounts P f (f.setZone zid fun d => { d with wp := wp }) zid := by
  refine ⟨⟨rfl, rfl, fun z hne => zoneDescs_setZone_of_ne hne _, fun _ => rfl,
    fun ty _ _ => ?_⟩, ?_⟩
  · rw [zoneDescs_setZone]
    cases ty <;> rfl
  · rw [zoneDescs_setZone]
    intro he
    have he : (f.zoneDescs zid).state = .empty := he
    rw [he] at hactive
    exact hactive.elim

/-- A zone is written to its end and gives back what it holds. -/
theorem Moves.fill (hzp : f'.zp = f.zp) (hsp : f'.sp = f.sp)
    (hothers : ∀ z, z ≠ zid → f'.zoneDescs z = f.zoneDescs z)
    (hs : (f'.zoneDescs zid).state = .full)
    (htotal : ∀ ty, (f'.resInfos ty).totalCnt = (f.resInfos ty).totalCnt)
    (hcount : ∀ ty, P ty → f.Balanced ty →
      (f'.resInfos ty).acquiredCnt + (f.zoneDescs zid).units ty = (f.resInfos ty).acquiredCnt) :
    Moves P f f' zid := by
  refine ⟨hzp, hsp, hothers, htotal, fun ty hP hb => ?_⟩
  have hzero : (f'.zoneDescs zid).units ty = 0 := by
    refine ZoneDescriptor.units_eq_zero ?_
    cases ty <;> simp [hs]
  rw [hzero, add_zero]
  exact hcount ty hP hb

/-- **An explicit flush** moves the write pointer behind `slba`, and a zone it fills gives back what
it holds. -/
theorem Counted.flushTo (h : f.Counted) (hz : zid < f.zp.nrZones)
    (hactive : (f.zoneDescs zid).state.Active) (hv : (f.zoneDescs zid).zrwav = true) (slba : ℕ) :
    KeepsCounts P f (f.flushTo zid slba) zid := by
  unfold ZnsFtl.flushTo
  dsimp only
  by_cases hfull : u64 (slba + 1)
      = u64 (f.zp.zoneToSlba f.sp zid + (f.zoneDescs zid).zoneCapacity)
  · rw [if_pos hfull]
    refine ⟨.fill ?_ ?_ (fun z hne => ?_) ?_ (fun ty => ?_) fun ty _ hb => ?_, by simp⟩
    · split_ifs <;> rfl
    · split_ifs <;> rfl
    · rw [zoneDescs_changeZoneState_of_ne hne, zoneDescs_releaseZoneResource,
        zoneDescs_releaseZoneResource]
      split_ifs
      · rw [zoneDescs_releaseZoneResource]
        exact zoneDescs_setZone_of_ne hne _
      · exact zoneDescs_setZone_of_ne hne _
    · split_ifs <;> simp
    · split_ifs <;> simp
    · have hrel := h.release hb hz
      cases hs : (f.zoneDescs zid).state <;> cases ty <;> simp_all [ZoneDescriptor.units]
  · rw [if_neg hfull]
    exact .moveWp hactive _

/-- **What `__zmgmt_send_flush_explicit_zrwa` checks.** -/
structure FlushesExpl (f : ZnsFtl τ) (zid slba : ℕ) : Prop where
  zrwav : (f.zoneDescs zid).zrwav = true
  wp : (f.zoneDescs zid).wp ≤ slba
  last : slba ≤ f.zrwaEnd zid
  granules : u64 (slba + 2 ^ 64 - (f.zoneDescs zid).wp + 1) % f.zp.lbasPerZrwafg = 0
  active : (f.zoneDescs zid).state.Active

/-- **An explicit flush** that is turned away changes nothing, and another one moves the write
pointer behind its block. -/
theorem flushExplicitZrwa_spec (f : ZnsFtl τ) (slba : ℕ) :
    Ends (f.zmgmtSendFlushExplicitZrwa slba) (fun r => r.1 = f ∨
      f.FlushesExpl (f.zp.lbaToZone f.sp slba) slba ∧
        r.1 = f.flushTo (f.zp.lbaToZone f.sp slba) slba) fun _ => True := by
  unfold zmgmtSendFlushExplicitZrwa
  dsimp only
  set zid := f.zp.lbaToZone f.sp slba
  by_cases hv : (f.zoneDescs zid).zrwav = false
  · rw [if_pos hv]
    exact .inl rfl
  rw [if_neg hv]
  by_cases hr : (f.zoneDescs zid).wp ≤ slba ∧ slba ≤ f.zrwaEnd zid
  swap
  · rw [if_pos hr]
    exact .inl rfl
  rw [if_neg (not_not.2 hr)]
  refine (Ends.trivial _).bind fun _ _ => ?_
  split_ifs with hg
  · exact .inl rfl
  · have hflush : (f.zoneDescs zid).state.Active → f.FlushesExpl zid slba := fun hactive =>
      ⟨Bool.not_eq_false _ ▸ hv, hr.1, hr.2, not_not.1 hg, hactive⟩
    cases hs : (f.zoneDescs zid).state with
    | openedExpl => exact .inr ⟨hflush (by simp [hs]), rfl⟩
    | openedImpl => exact .inr ⟨hflush (by simp [hs]), rfl⟩
    | closed => exact .inr ⟨hflush (by simp [hs]), rfl⟩
    | empty => exact .inl rfl
    | readOnly => exact .inl rfl
    | full => exact .inl rfl
    | offline => exact .inl rfl

/-- `__zmgmt_send_flush_explicit_zrwa`. -/
theorem Counted.flushExplicitZrwa (h : f.Counted)
    (hz : f.zp.lbaToZone f.sp slba < f.zp.nrZones) :
    Ends (f.zmgmtSendFlushExplicitZrwa slba)
      (fun r => KeepsCounts P f r.1 (f.zp.lbaToZone f.sp slba)) fun _ => True := by
  refine (flushExplicitZrwa_spec f slba).mono ?_ fun _ _ => trivial
  rintro ⟨g, status⟩ (rfl | ⟨hflush, rfl⟩)
  · exact h.refl hz
  · exact h.flushTo hz hflush.active hflush.zrwav slba

end ZnsFtl

end NvmeVirt
