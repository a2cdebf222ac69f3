/-
# What the operations do to the zones

Each operation of `zns_read_write.c` and `zns_mgmt_send.c` moves one zone, and
the counters of `res_infos` with it.
-/

import NvmeVirt.Zns.Counters

namespace NvmeVirt

open Outcome

/-- A zone that changes its state stays in its place. -/
theorem ZoneDescriptor.InPlace.withState {zpp : Znsparams} {z : ℕ} {d : ZoneDescriptor}
    (h : d.InPlace zpp z) {s : ZoneState} (hempty : s ≠ .empty)
    (hactive : s.Active → d.state.Active) :
    ({ d with state := s } : ZoneDescriptor).InPlace zpp z := by
  refine ⟨h.zslba, h.capacity, fun he => absurd he hempty, h.zrwa, fun hz => ?_⟩
  have hin := h.inside hz
  exact ⟨hin.wp_ge, hin.wp_le, fun ha => hin.active (hactive ha)⟩

namespace ZnsFtl

variable {τ : Type} {f f' : ZnsFtl τ} {zid : ℕ} {ty : ZoneResourceType}

/-- A zone has blocks. -/
theorem Placed.cap_pos (h : f.Placed) (hz : zid < f.zp.nrZones) :
    0 < (f.zoneDescs zid).zoneCapacity := by
  rw [h.capacity zid hz]
  exact lt_of_lt_of_le (by norm_num) h.geometry.eight_le

/-- **An operation on a zone keeps the invariant,** and the counter of the random write areas
unless `L`. -/
structure Keeps (L : Prop) (f f' : ZnsFtl τ) (zid : ℕ) : Prop where
  moves : Moves (fun ty => ty = .zrwa → ¬ L) f f' zid
  place : (f'.zoneDescs zid).InPlace f.zp zid

theorem ZonesOk.keeps_refl (h : f.ZonesOk) (hz : zid < f.zp.nrZones) : Keeps False f f zid :=
  ⟨.refl _ f zid, h.zones zid hz⟩

/-- What the invariant is not about may change. -/
theorem ZonesOk.keeps_of_same (h : f.ZonesOk) (hz : zid < f.zp.nrZones) (hzp : f'.zp = f.zp)
    (hsp : f'.sp = f.sp) (hd : f'.zoneDescs = f.zoneDescs) (hr : f'.resInfos = f.resInfos) :
    Keeps False f f' zid :=
  ⟨⟨hzp, hsp, fun _ _ => by rw [hd], fun _ => by rw [hr], fun _ _ _ => by rw [hd, hr]⟩,
    by rw [hd]; exact h.zones zid hz⟩

namespace Keeps

variable {L : Prop} {g : ZnsFtl τ}

theorem mono {L' : Prop} (h : Keeps L f f' zid) (hL : L → L') : Keeps L' f f' zid :=
  ⟨⟨h.moves.zp, h.moves.sp, h.moves.others, h.moves.total,
    fun ty hP hb => h.moves.counts ty (fun hty => hP hty ∘ hL) hb⟩, h.place⟩

/-- What the invariant is not about may change behind an operation. -/
theorem congr (h : Keeps L f g zid) (hzp : f'.zp = g.zp) (hsp : f'.sp = g.sp)
    (hd : f'.zoneDescs = g.zoneDescs) (hr : f'.resInfos = g.resInfos) : Keeps L f f' zid :=
  ⟨h.moves.congr hzp hsp hd hr, by rw [hd]; exact h.place⟩

/-- Two operations on one zone. -/
theorem trans (h : Keeps L f g zid) (h' : Keeps L g f' zid) (hz : zid < f.zp.nrZones) :
    Keeps L f f' zid :=
  ⟨h.moves.trans h'.moves hz, by rw [← h.moves.zp]; exact h'.place⟩

/-- **The invariant after an operation.** -/
theorem zonesOk (hk : Keeps L f f' zid) (h : f.ZonesOk) (hz : zid < f.zp.nrZones) : f'.ZonesOk :=
  h.moves hk.moves hz (fun _ hne he => absurd he hne) hk.place

/-- The counter of the random write areas after an operation that loses none. -/
theorem zrwa (hk : Keeps L f f' zid) (hz : zid < f.zp.nrZones) (hb : f.Balanced .zrwa)
    (hL : ¬ L) : f'.Balanced .zrwa :=
  hk.moves.balanced hz hb fun _ => hL

theorem nrZones (hk : Keeps L f f' zid) : f'.zp.nrZones = f.zp.nrZones := by rw [hk.moves.zp]

end Keeps

/-! ### Zone management -/

/-- `__zmgmt_send_close_zone`. -/
theorem ZonesOk.closeZone (h : f.ZonesOk) (hz : zid < f.zp.nrZones) :
    Keeps False f (f.zmgmtSendCloseZone zid).1 zid := by
  have hd := h.zones zid hz
  refine ⟨(h.counted.closeZone hz).moves, ?_⟩
  have hclosed : (f.zoneDescs zid).state.Active →
      ((((f.changeZoneState zid .closed).releaseZoneResource .open).zoneDescs zid).InPlace f.zp
        zid) := by
    intro hactive
    simpa using hd.withState (by decide) fun _ => hactive
  unfold zmgmtSendCloseZone
  split
  · rename_i hs
    exact hclosed (by simp [hs])
  · rename_i hs
    exact hclosed (by simp [hs])
  · exact hd
  · exact hd

/-- `__zmgmt_send_finish_zone`. -/
theorem ZonesOk.finishZone (h : f.ZonesOk) (hz : zid < f.zp.nrZones) :
    Keeps False f (f.zmgmtSendFinishZone zid).1 zid := by
  have hd := h.zones zid hz
  have hfull : ({ f.zoneDescs zid with state := .full } : ZoneDescriptor).InPlace f.zp zid :=
    hd.withState (by decide) nofun
  obtain ⟨-, -, hdescs, -⟩ := releaseActive_frame f zid
  refine ⟨(h.counted.finishZone hz).moves, ?_⟩
  unfold zmgmtSendFinishZone
  cases hs : (f.zoneDescs zid).state with
  | openedImpl => rwa [zoneDescs_changeZoneState, hdescs]
  | openedExpl => rwa [zoneDescs_changeZoneState, hdescs]
  | closed => rwa [zoneDescs_changeZoneState, hdescs]
  | empty => rwa [zoneDescs_changeZoneState]
  | full => exact hd
  | readOnly => exact hd
  | offline => exact hd

/-- `__zmgmt_send_reset_zone`. -/
theorem ZonesOk.resetZone (h : f.ZonesOk) (hz : zid < f.zp.nrZones) :
    Keeps False f (f.zmgmtSendResetZone zid).1 zid := by
  have hd := h.zones zid hz
  obtain ⟨-, -, hdescs, -⟩ := releaseActive_frame f zid
  set g := (f.releaseActive zid).changeZoneState zid .empty with hg
  have hplace : (g.resetZone zid).zoneDescs zid
      = { f.zoneDescs zid with state := .empty, wp := (f.zoneDescs zid).zslba, zrwav := false } := by
    rw [(resetZone_frame g zid).2.2.2, zoneDescs_setZone, hg, zoneDescs_changeZoneState, hdescs]
  have hkeeps : ((g.resetZone zid).zoneDescs zid).InPlace f.zp zid := by
    rw [hplace]
    exact ⟨hd.zslba, hd.capacity, fun _ => ⟨rfl, rfl⟩, nofun, fun _ =>
      ZoneDescriptor.inside_of_wp rfl (h.placed.cap_pos hz)⟩
  refine ⟨(h.counted.resetZone hz).moves, ?_⟩
  unfold zmgmtSendResetZone
  split
  all_goals first | exact hkeeps | exact hd

/-- `__zmgmt_send_offline_zone`. -/
theorem ZonesOk.offlineZone (h : f.ZonesOk) (hz : zid < f.zp.nrZones) :
    Keeps False f (f.zmgmtSendOfflineZone zid).1 zid := by
  have hd := h.zones zid hz
  refine ⟨(h.counted.offlineZone hz).moves, ?_⟩
  unfold zmgmtSendOfflineZone
  split
  · rw [zoneDescs_changeZoneState]
    exact hd.withState (by decide) nofun
  · exact hd
  · exact hd

/-! ### Opening a zone -/

/-- An empty zone in its place is opened there. -/
theorem ZonesOk.openEmpty (h : f.ZonesOk) (hz : zid < f.zp.nrZones)
    (hs : (f.zoneDescs zid).state = .empty) {s : ZoneState} (hopened : s.Opened) {v : Bool}
    (hsizes : v = true → f.zp.ZrwaSizes) :
    ({ f.zoneDescs zid with state := s, zrwav := v } : ZoneDescriptor).InPlace f.zp zid := by
  have hd := h.zones zid hz
  refine ⟨hd.zslba, hd.capacity, ?_, hsizes, fun _ =>
    ZoneDescriptor.inside_of_wp (hd.empty hs).1 (h.placed.cap_pos hz)⟩
  rintro rfl
  exact hopened.elim

/-- `__zmgmt_send_open_zone`. -/
theorem ZonesOk.openZone (h : f.ZonesOk) (hz : zid < f.zp.nrZones) (zrwa : Bool)
    (hsizes : zrwa = true → f.zp.ZrwaSizes) :
    Keeps False f (f.zmgmtSendOpenZone zid zrwa).1 zid := by
  have hd := h.zones zid hz
  have hopened : ZoneState.Opened .openedExpl := trivial
  obtain ⟨hmoves, hdesc⟩ := h.counted.openZone (P := fun ty => ty = .zrwa → ¬ False) hz zrwa
  refine ⟨hmoves, ?_⟩
  rcases hdesc with hdesc | ⟨hactive, hdesc⟩ | ⟨hs, hdesc⟩
  · rw [hdesc]
    exact hd
  · rw [hdesc]
    exact hd.withState (by decide) fun _ => hactive
  · rw [hdesc]
    exact h.openEmpty hz hs hopened hsizes

/-! ### The explicit flush -/

/-- The end of a zone as the source computes it. -/
def zoneEnd (f : ZnsFtl τ) (zid : ℕ) : ℕ :=
  u64 (f.zp.zoneToSlba f.sp zid + (f.zoneDescs zid).zoneCapacity)

/-- The blocks of a zone end below 2^56. -/
theorem Placed.end_lt (h : f.Placed) (hz : zid < f.zp.nrZones) :
    (f.zoneDescs zid).zslba + (f.zoneDescs zid).zoneCapacity < 2 ^ 56 := by
  have hlt := h.geometry.slba_lt hz
  have hl := h.geometry.zoneLbas_lt
  rw [h.zslba zid hz, h.capacity zid hz]
  omega

/-- The source finds the end of a zone that begins below block 2^32. -/
theorem Placed.zoneEnd_of_low (h : f.Placed) (hz : zid < f.zp.nrZones) (hlow : f.zp.Low zid) :
    f.zoneEnd zid = (f.zoneDescs zid).zslba + (f.zoneDescs zid).zoneCapacity := by
  have hlt := h.end_lt hz
  unfold zoneEnd
  rw [h.geometry.zoneToSlba_eq hlow, ← h.zslba zid hz]
  exact u64_of_lt (by omega)

/-- For another zone it takes a lower block for the end. -/
theorem Placed.zoneEnd_of_not_low (h : f.Placed) (hz : zid < f.zp.nrZones)
    (hhigh : ¬ f.zp.Low zid) : f.zoneEnd zid < (f.zoneDescs zid).zslba := by
  have hl := h.geometry.zoneLbas_lt
  have hle := h.geometry.zoneToSlba_of_not_low hhigh
  have hlt := h.geometry.slba_lt hz
  unfold zoneEnd
  rw [h.zslba zid hz, h.capacity zid hz, u64_of_lt (by omega)]
  omega

theorem Placed.zoneEnd_le (h : f.Placed) (hz : zid < f.zp.nrZones) :
    f.zoneEnd zid ≤ (f.zoneDescs zid).zslba + (f.zoneDescs zid).zoneCapacity := by
  by_cases hlow : f.zp.Low zid
  · exact (h.zoneEnd_of_low hz hlow).le
  · have := h.zoneEnd_of_not_low hz hlow
    omega

/-- The range of an explicit flush ends in the zone. -/
theorem Placed.zrwaEnd_lt (h : f.Placed) (hz : zid < f.zp.nrZones) :
    f.zrwaEnd zid < f.zoneEnd zid := by
  have hcap := h.cap_pos hz
  have hlt := h.end_lt hz
  have hslba : f.zp.zoneToSlba f.sp zid < 2 ^ 32 := Nat.mod_lt _ (by norm_num)
  refine lt_of_le_of_lt (min_le_right _ _) ?_
  unfold zoneEnd u64
  omega

/-- The write pointer of an active zone moves within the zone. -/
theorem ZonesOk.moveWp (h : f.ZonesOk) (hz : zid < f.zp.nrZones)
    (hactive : (f.zoneDescs zid).state.Active) {wp : ℕ}
    (hwp : f.zp.Low zid ∨ (f.zoneDescs zid).zrwav = true → (f.zoneDescs zid).zslba ≤ wp ∧
      wp < (f.zoneDescs zid).zslba + (f.zoneDescs zid).zoneCapacity) :
    Keeps False f (f.setZone zid fun d => { d with wp := wp }) zid := by
  have hd := h.zones zid hz
  refine ⟨(KeepsCounts.moveWp hactive wp).moves, ?_⟩
  rw [zoneDescs_setZone]
  refine ⟨hd.zslba, hd.capacity, fun he => ?_, hd.zrwa, fun hin => ?_⟩
  · have he : (f.zoneDescs zid).state = .empty := he
    rw [he] at hactive
    exact hactive.elim
  · obtain ⟨hge, hlt⟩ := hwp hin
    exact ⟨hge, hlt.le, fun _ => hlt⟩

/-- **A zone is written to its end** and stays in its place. -/
theorem ZonesOk.fill (h : f.ZonesOk) (hz : zid < f.zp.nrZones) {wp : ℕ}
    (hdesc : f'.zoneDescs zid = { f.zoneDescs zid with state := .full, wp := wp })
    (hwp : f.zp.Low zid ∨ (f.zoneDescs zid).zrwav = true → (f.zoneDescs zid).zslba ≤ wp ∧
      wp ≤ (f.zoneDescs zid).zslba + (f.zoneDescs zid).zoneCapacity) :
    (f'.zoneDescs zid).InPlace f.zp zid := by
  have hd := h.zones zid hz
  rw [hdesc]
  exact ⟨hd.zslba, hd.capacity, nofun, hd.zrwa, fun hin => ⟨(hwp hin).1, (hwp hin).2, nofun⟩⟩

/-- The descriptor an explicit flush leaves. -/
theorem zoneDescs_flushTo (f : ZnsFtl τ) (zid slba : ℕ) :
    (f.flushTo zid slba).zoneDescs zid = { f.zoneDescs zid with
      wp := u64 (slba + 1)
      state := if u64 (slba + 1) = f.zoneEnd zid then .full else (f.zoneDescs zid).state } := by
  unfold ZnsFtl.flushTo zoneEnd
  dsimp only
  split_ifs <;> simp

/-- **An explicit flush moves the write pointer** behind `slba`, and a zone it fills gives back what
it holds. -/
theorem ZonesOk.flushTo {slba : ℕ} (h : f.ZonesOk) (hz : zid < f.zp.nrZones)
    (hflush : f.FlushesExpl zid slba) : Keeps False f (f.flushTo zid slba) zid := by
  have hd := h.zones zid hz
  have hlt := h.placed.end_lt hz
  have hle := h.placed.zoneEnd_le hz
  have hhi := lt_of_le_of_lt hflush.last (h.placed.zrwaEnd_lt hz)
  have hlo := hflush.wp
  have hge := (hd.inside (.inr hflush.zrwav)).wp_ge
  have hdesc := zoneDescs_flushTo f zid slba
  rw [u64_of_lt (by omega)] at hdesc
  refine ⟨(h.counted.flushTo hz hflush.active hflush.zrwav slba).moves, ?_⟩
  by_cases hfull : slba + 1 = f.zoneEnd zid
  · rw [if_pos hfull] at hdesc
    exact h.fill hz hdesc fun _ => by omega
  · rw [if_neg hfull] at hdesc
    have hin : (f.zoneDescs zid).zslba ≤ slba + 1 ∧
        slba + 1 < (f.zoneDescs zid).zslba + (f.zoneDescs zid).zoneCapacity := by omega
    have hmove := (h.moveWp hz hflush.active fun _ => hin).place
    rw [zoneDescs_setZone] at hmove
    rw [hdesc]
    exact hmove

/-- `__zmgmt_send_flush_explicit_zrwa`. -/
theorem ZonesOk.flushExplicitZrwa {slba : ℕ} (h : f.ZonesOk)
    (hz : f.zp.lbaToZone f.sp slba < f.zp.nrZones) :
    Ends (f.zmgmtSendFlushExplicitZrwa slba)
      (fun r => Keeps False f r.1 (f.zp.lbaToZone f.sp slba)) fun _ => True := by
  refine (flushExplicitZrwa_spec f slba).mono ?_ fun _ _ => trivial
  rintro ⟨g, status⟩ (rfl | ⟨hflush, rfl⟩)
  · exact h.keeps_refl hz
  · exact h.flushTo hz hflush

end ZnsFtl

end NvmeVirt
