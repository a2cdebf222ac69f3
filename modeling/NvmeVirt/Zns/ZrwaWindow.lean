/-
# The window of a random write area

`__zns_write_zrwa` and `__zmgmt_send_flush_explicit_zrwa` move the write pointer
of a zone, and with it the window the writes have to lie in.  A zone slides: its
write pointer does not go back, not beyond the end of the zone, and by whole
granules unless it reaches that end.

The window of `lbas_per_zrwa` blocks may be empty.  Then `zrwa_impl_end` is the
block before the write pointer, and for the write pointer 0 it wraps around.
-/

import NvmeVirt.Zns.Admission

namespace NvmeVirt

open Outcome

/-! ### Descriptors -/

namespace ZoneDescriptor

variable {fg : ℕ} {d d' d'' : ZoneDescriptor}

/-- The block behind the zone. -/
def zend (d : ZoneDescriptor) : ℕ := d.zslba + d.zoneCapacity

/-- The write pointer lies in the zone or behind its last block. -/
structure WpWithin (d : ZoneDescriptor) : Prop where
  wp_ge : d.zslba ≤ d.wp
  wp_le : d.wp ≤ d.zend

/-- **The window slides** by granules of `fg` blocks, but to the end of the zone by what is left;
a full zone stays as it is. -/
structure Slides (fg : ℕ) (d d' : ZoneDescriptor) : Prop where
  zslba : d'.zslba = d.zslba
  capacity : d'.zoneCapacity = d.zoneCapacity
  zrwav : d'.zrwav = d.zrwav
  wp_ge : d.wp ≤ d'.wp
  wp_le : d'.wp ≤ d'.zend
  granules : fg ∣ d'.wp - d.wp ∨ d'.state = .full
  full : d.state = .full → d'.wp = d.wp ∧ d'.state = .full

theorem Slides.within (h : Slides fg d d') (hd : d.WpWithin) : d'.WpWithin := by
  refine ⟨?_, h.wp_le⟩
  rw [h.zslba]
  exact hd.wp_ge.trans h.wp_ge

/-- A zone changes its state only, and does not leave the full one. -/
structure Restates (d d' : ZoneDescriptor) : Prop where
  eq : d' = { d with state := d'.state }
  full : d.state = .full → d'.state = .full

theorem Restates.refl (d : ZoneDescriptor) : Restates d d := ⟨rfl, id⟩

theorem Restates.zrwav (h : Restates d d') : d'.zrwav = d.zrwav := by rw [h.eq]

theorem Restates.within (h : Restates d d') (hd : d.WpWithin) : d'.WpWithin := by
  rw [h.eq]
  exact ⟨hd.wp_ge, hd.wp_le⟩

theorem Restates.slides (h : Restates d d') (hd : d.WpWithin) : Slides fg d d' := by
  have hwp : d'.wp = d.wp := by rw [h.eq]
  refine ⟨by rw [h.eq], by rw [h.eq], h.zrwav, hwp.ge, (h.within hd).wp_le, ?_, fun hf =>
    ⟨hwp, h.full hf⟩⟩
  rw [hwp, Nat.sub_self]
  exact .inl (Nat.dvd_zero _)

theorem Slides.refl (hd : d.WpWithin) : Slides fg d d := (Restates.refl d).slides hd

theorem Slides.trans (h : Slides fg d d') (h' : Slides fg d' d'') : Slides fg d d'' := by
  refine ⟨h'.zslba.trans h.zslba, h'.capacity.trans h.capacity, h'.zrwav.trans h.zrwav,
    h.wp_ge.trans h'.wp_ge, h'.wp_le, ?_, fun hf => ?_⟩
  · rcases h'.granules with hdvd' | hfull
    · rcases h.granules with hdvd | hfull
      · have hsum : d''.wp - d.wp = d'.wp - d.wp + (d''.wp - d'.wp) := by
          have := h.wp_ge
          have := h'.wp_ge
          omega
        rw [hsum]
        exact .inl (hdvd.add hdvd')
      · exact .inr (h'.full hfull).2
    · exact .inr hfull
  · obtain ⟨hwp, hfull⟩ := h.full hf
    obtain ⟨hwp', hfull'⟩ := h'.full hfull
    exact ⟨hwp'.trans hwp, hfull'⟩

end ZoneDescriptor

/-- **The sizes of the windows:** the granularity of a flush is not zero and divides the window,
which may be empty. -/
structure Znsparams.WindowSizes (zpp : Znsparams) : Prop where
  fg : 0 < zpp.lbasPerZrwafg
  divides : zpp.lbasPerZrwafg ∣ zpp.lbasPerZrwa
  window_lt : zpp.lbasPerZrwa < 2 ^ 31

namespace ZnsFtl

variable {τ : Type} (clk : SsdClock τ) {f f' g : ZnsFtl τ} {zid slba nrLba : ℕ} {Z : ℕ → Prop}

/-! ### Zones -/

/-- **The windows lie in their zones,** beside the counters and the places of the zones. -/
structure WindowsOk (f : ZnsFtl τ) : Prop where
  counted : f.Counted
  placed : f.Placed
  within : ∀ z, z < f.zp.nrZones → (f.zoneDescs z).zrwav = true → (f.zoneDescs z).WpWithin

/-- **The windows of the zones slide,** but for the zones in `Z`. -/
structure SlidesFrom (Z : ℕ → Prop) (f g : ZnsFtl τ) : Prop where
  zp : g.zp = f.zp
  sp : g.sp = f.sp
  ok : g.WindowsOk
  slides : ∀ z, z < f.zp.nrZones → ¬ Z z → (f.zoneDescs z).zrwav = true →
    ZoneDescriptor.Slides f.zp.lbasPerZrwafg (f.zoneDescs z) (g.zoneDescs z)

theorem WindowsOk.slidesFrom (h : f.WindowsOk) : SlidesFrom Z f f :=
  ⟨rfl, rfl, h, fun z hz _ hv => .refl (h.within z hz hv)⟩

namespace SlidesFrom

theorem trans (h : SlidesFrom Z f g) (h' : SlidesFrom Z g f') : SlidesFrom Z f f' := by
  refine ⟨h'.zp.trans h.zp, h'.sp.trans h.sp, h'.ok, fun z hz hno hv => ?_⟩
  have hs := h.slides z hz hno hv
  have hs' := h'.slides z (by rwa [h.zp]) hno (hs.zrwav.trans hv)
  rw [h.zp] at hs'
  exact hs.trans hs'

theorem mono {Z' : ℕ → Prop} (h : SlidesFrom Z f g) (hZ : ∀ z, Z z → Z' z) : SlidesFrom Z' f g :=
  ⟨h.zp, h.sp, h.ok, fun z hz hno hv => h.slides z hz (mt (hZ z) hno) hv⟩

/-- What the windows are not about may change behind a command. -/
theorem congr (h : SlidesFrom Z f g) (hzp : f'.zp = g.zp) (hsp : f'.sp = g.sp)
    (hd : f'.zoneDescs = g.zoneDescs) (hr : f'.resInfos = g.resInfos) : SlidesFrom Z f f' := by
  refine ⟨hzp.trans h.zp, hsp.trans h.sp, ⟨?_, ?_, ?_⟩, ?_⟩
  · exact (h.ok.counted.countsFrom.congr hzp hsp hd hr).counted
  · obtain ⟨h1, h2, h3⟩ := h.ok.placed
    exact ⟨by rwa [hzp, hsp], by rwa [hzp, hd], by rwa [hzp, hd]⟩
  · rw [hzp, hd]
    exact h.ok.within
  · rw [hd]
    exact h.slides

/-- **An operation on one zone.** -/
theorem of_zone {R : Prop} (h : f.WindowsOk) (hframe : Frame (· = zid) R f g)
    (hcounts : f.CountsFrom g)
    (hslides : ¬ Z zid → (f.zoneDescs zid).zrwav = true → (f.zoneDescs zid).WpWithin →
      ZoneDescriptor.Slides f.zp.lbasPerZrwafg (f.zoneDescs zid) (g.zoneDescs zid))
    (hwithin : (g.zoneDescs zid).zrwav = true →
      ((f.zoneDescs zid).zrwav = true → (f.zoneDescs zid).WpWithin) → (g.zoneDescs zid).WpWithin) :
    SlidesFrom Z f g := by
  refine ⟨hframe.zp, hframe.sp, ⟨hcounts.counted, h.placed.frame hframe, fun z hz hv => ?_⟩,
    fun z hz hno hv => ?_⟩
  · rw [hframe.zp] at hz
    by_cases hzid : z = zid
    · subst hzid
      exact hwithin hv (h.within z hz)
    · rw [hframe.others z hzid] at hv ⊢
      exact h.within z hz hv
  · by_cases hzid : z = zid
    · subst hzid
      exact hslides hno hv (h.within z hz hv)
    · rw [hframe.others z hzid]
      exact .refl (h.within z hz hv)

/-- An operation that changes the state of one zone only. -/
theorem of_restates {R : Prop} (h : f.WindowsOk) (hframe : Frame (· = zid) R f g)
    (hcounts : f.CountsFrom g) (hr : (f.zoneDescs zid).Restates (g.zoneDescs zid)) :
    SlidesFrom Z f g :=
  of_zone h hframe hcounts (fun _ _ hd => hr.slides hd)
    fun hv hd => hr.within (hd (hr.zrwav.symm.trans hv))

end SlidesFrom

/-! ### Zone management -/

theorem restates_closeZone (f : ZnsFtl τ) (zid : ℕ) :
    (f.zoneDescs zid).Restates ((f.zmgmtSendCloseZone zid).1.zoneDescs zid) := by
  unfold zmgmtSendCloseZone
  cases hs : (f.zoneDescs zid).state with
  | openedImpl => exact ⟨by simp, by simp [hs]⟩
  | openedExpl => exact ⟨by simp, by simp [hs]⟩
  | _ => exact .refl _

theorem restates_finishZone (f : ZnsFtl τ) (zid : ℕ) :
    (f.zoneDescs zid).Restates ((f.zmgmtSendFinishZone zid).1.zoneDescs zid) := by
  obtain ⟨-, -, hdescs, -⟩ := releaseActive_frame f zid
  unfold zmgmtSendFinishZone
  cases hs : (f.zoneDescs zid).state with
  | openedImpl => exact ⟨by simp [hdescs], by simp⟩
  | openedExpl => exact ⟨by simp [hdescs], by simp⟩
  | closed => exact ⟨by simp [hdescs], by simp⟩
  | empty => exact ⟨by simp, by simp⟩
  | _ => exact .refl _

theorem restates_offlineZone (f : ZnsFtl τ) (zid : ℕ) :
    (f.zoneDescs zid).Restates ((f.zmgmtSendOfflineZone zid).1.zoneDescs zid) := by
  unfold zmgmtSendOfflineZone
  cases hs : (f.zoneDescs zid).state with
  | readOnly => exact ⟨by simp, by simp [hs]⟩
  | _ => exact .refl _

/-- A zone that is reset has no random write area, one that is not is as it was. -/
theorem desc_resetZone (f : ZnsFtl τ) (zid : ℕ) :
    ((f.zmgmtSendResetZone zid).1.zoneDescs zid).zrwav = false ∨
      (f.zmgmtSendResetZone zid).1 = f := by
  have hreset : ∀ g : ZnsFtl τ, ((g.resetZone zid).zoneDescs zid).zrwav = false := fun g => by
    rw [(resetZone_frame g zid).2.2.2, zoneDescs_setZone]
  unfold zmgmtSendResetZone
  cases (f.zoneDescs zid).state with
  | readOnly => exact .inr rfl
  | offline => exact .inr rfl
  | _ => exact .inl (hreset _)

/-- **An explicit flush slides the window** to the block behind its last one. -/
theorem FlushesExpl.slides (h : f.FlushesExpl zid slba) (hp : f.Placed)
    (hz : zid < f.zp.nrZones) :
    ZoneDescriptor.Slides f.zp.lbasPerZrwafg (f.zoneDescs zid)
      ((f.flushTo zid slba).zoneDescs zid) := by
  have hlo := h.wp
  have hhi := h.last.trans_lt (hp.zrwaEnd_lt hz)
  have hle := hp.zoneEnd_le hz
  have hlt := hp.end_lt hz
  have hwp : u64 (slba + 1) = slba + 1 := u64_of_lt (by omega)
  have hgran : f.zp.lbasPerZrwafg ∣ slba + 1 - (f.zoneDescs zid).wp := by
    have hmod := Nat.dvd_of_mod_eq_zero h.granules
    have hn : u64 (slba + 2 ^ 64 - (f.zoneDescs zid).wp + 1) = slba + 1 - (f.zoneDescs zid).wp := by
      unfold u64
      omega
    rwa [hn] at hmod
  rw [zoneDescs_flushTo, hwp]
  refine ⟨rfl, rfl, rfl, ?_, ?_, .inl hgran, fun hfull => ?_⟩
  · show (f.zoneDescs zid).wp ≤ slba + 1
    omega
  · show slba + 1 ≤ (f.zoneDescs zid).zslba + (f.zoneDescs zid).zoneCapacity
    omega
  · have hactive := h.active
    rw [hfull] at hactive
    exact hactive.elim

/-- **An action of zone management** slides the windows, but the reset of its zone. -/
theorem WindowsOk.action (h : f.WindowsOk) (hz : f.zp.lbaToZone f.sp slba < f.zp.nrZones)
    (action : ZoneSendAction) (option : Bool) :
    Ends (f.zmgmtAction slba action option) (fun r => SlidesFrom
      (fun z => action = .resetZone ∧ z = f.zp.lbaToZone f.sp slba) f r.1) fun _ => True := by
  set zid := f.zp.lbaToZone f.sp slba with hzid
  have hc := h.counted
  cases action with
  | closeZone =>
    exact .of_restates h (f.frame_closeZone zid (R := True)) ((hc.closeZone hz).countsFrom hc hz)
      (f.restates_closeZone zid)
  | finishZone =>
    exact .of_restates h (f.frame_finishZone zid (R := True)) ((hc.finishZone hz).countsFrom hc hz)
      (f.restates_finishZone zid)
  | offlineZone =>
    exact .of_restates h (f.frame_offlineZone zid (R := True))
      ((hc.offlineZone hz).countsFrom hc hz) (f.restates_offlineZone zid)
  | openZone =>
    have ho := hc.openZone (P := (· ≠ .zrwa)) hz option
    have hframe := f.frame_openZone zid (R := True) option
    have hcounts := (ho.keepsCounts hc hz).countsFrom hc hz
    rcases ho.desc with hd | ⟨hactive, hd⟩ | ⟨hs, hd⟩
    · exact .of_restates h hframe hcounts (by rw [hd]; exact .refl _)
    · refine .of_restates h hframe hcounts ⟨by rw [hd], fun hfull => ?_⟩
      rw [hfull] at hactive
      exact hactive.elim
    · obtain ⟨hwp, hv⟩ := hc.empty zid hz hs
      refine .of_zone h hframe hcounts (fun _ hv' => ?_) fun _ _ => ?_
      · rw [hv] at hv'
        cases hv'
      · rw [hd]
        exact ⟨hwp.ge, hwp.le.trans (Nat.le_add_right _ _)⟩
  | resetZone =>
    have hframe := f.frame_resetZone zid (R := True) trivial
    have hcounts := (hc.resetZone hz).countsFrom hc hz
    refine .of_zone h hframe hcounts (fun hno => absurd ⟨rfl, rfl⟩ hno) fun hv hd => ?_
    rcases f.desc_resetZone zid with hno | hsame
    · rw [hno] at hv
      cases hv
    · rw [hsame] at hv ⊢
      exact hd hv
  | flushExplZrwa =>
    refine (flushExplicitZrwa_spec f slba).mono ?_ fun _ _ => trivial
    rintro ⟨g, status⟩ (hsame | ⟨hflush, hg⟩)
    · rw [show g = f from hsame]
      exact h.slidesFrom
    · rw [show g = f.flushTo zid slba from hg]
      have hs := hflush.slides h.placed hz
      exact .of_zone h (f.frame_flushTo zid slba (R := True))
        ((hc.flushTo hz hflush.active hflush.zrwav slba).countsFrom hc hz) (fun _ _ _ => hs)
        fun _ _ => hs.within (h.within zid hz hflush.zrwav)

/-! ### Writes -/

/-- **The write overruns its zone:** the window is empty but admits the write, whose blocks rounded
up to whole granules reach beyond the end of the zone. -/
def OverrunsZone (f : ZnsFtl τ) (zid slba nrLba : ℕ) : Prop :=
  f.zp.lbasPerZrwa = 0 ∧ f.AdmitsZrwa zid slba nrLba ∧ (f.zoneDescs zid).zend
    < (slba + nrLba + f.zp.lbasPerZrwafg - 1) / f.zp.lbasPerZrwafg * f.zp.lbasPerZrwafg

instance : Decidable (f.OverrunsZone zid slba nrLba) :=
  inferInstanceAs (Decidable (_ ∧ _ ∧ _ < _))

/-- **A write that is admitted lies in its zone.** -/
theorem WindowsOk.admits_inside (h : f.WindowsOk) (hsizes : f.zp.WindowSizes)
    (hslba : slba < 2 ^ 64) (hpos : 0 < nrLba) (hlba : nrLba ≤ 2 ^ 16)
    (hzid : f.zp.lbaToZone f.sp slba = zid) (hz : zid < f.zp.nrZones)
    (hv : (f.zoneDescs zid).zrwav = true) (ha : f.AdmitsZrwa zid slba nrLba)
    (hno : ¬ f.OverrunsZone zid slba nrLba) :
    u64 (slba + nrLba - 1) = slba + nrLba - 1 ∧ slba + nrLba ≤ (f.zoneDescs zid).zend ∧
      (f.zp.lbasPerZrwa = 0 → (f.zoneDescs zid).wp = 0 ∧
        (slba + nrLba + f.zp.lbasPerZrwafg - 1) / f.zp.lbasPerZrwafg * f.zp.lbasPerZrwafg
          ≤ (f.zoneDescs zid).zend) := by
  have g := h.placed.geometry
  obtain ⟨hwrap, -⟩ := (checkBoundaryError_iff g hslba hpos hlba).1 ha.boundary
  have hu : u64 (slba + nrLba - 1) = slba + nrLba - 1 := u64_of_lt (by omega)
  have hwp := ha.wp
  have hle : (f.zoneDescs zid).wp ≤ (f.zoneDescs zid).zslba + (f.zoneDescs zid).zoneCapacity :=
    (h.within zid hz hv).wp_le
  have hlt := h.placed.end_lt hz
  have hw := hsizes.window_lt
  have hend : slba + nrLba - 1 ≤ u64 ((f.zoneDescs zid).wp + 2 * f.zp.lbasPerZrwa + 2 ^ 64 - 1) := by
    have hwindow := ha.window
    unfold zrwaImplEnd at hwindow
    rwa [hu, u32_of_lt (by omega)] at hwindow
  refine ⟨hu, ?_⟩
  by_cases hzero : f.zp.lbasPerZrwa = 0
  · have hround : (slba + nrLba + f.zp.lbasPerZrwafg - 1) / f.zp.lbasPerZrwafg
        * f.zp.lbasPerZrwafg ≤ (f.zoneDescs zid).zend :=
      not_lt.1 fun hlt => hno ⟨hzero, ha, hlt⟩
    have hge := Nat.lt_div_mul_add (a := slba + nrLba + f.zp.lbasPerZrwafg - 1) hsizes.fg
    refine ⟨by omega, fun _ => ⟨?_, hround⟩⟩
    -- behind the first block the end of the window is before its start
    rw [hzero] at hend
    unfold u64 at hend
    omega
  · have hu64 : u64 ((f.zoneDescs zid).wp + 2 * f.zp.lbasPerZrwa + 2 ^ 64 - 1)
        = (f.zoneDescs zid).wp + 2 * f.zp.lbasPerZrwa - 1 := by
      unfold u64
      omega
    rw [hu64] at hend
    have hlast : f.zp.lbaToZone f.sp (slba + nrLba - 1) = zid := by
      rw [← hu, ← hzid]
      exact ha.boundary.symm
    obtain ⟨-, hin⟩ := (h.placed.lbaToZone_eq_iff hz (by omega)).1 hlast
    refine ⟨?_, fun h0 => absurd h0 hzero⟩
    show slba + nrLba ≤ (f.zoneDescs zid).zslba + (f.zoneDescs zid).zoneCapacity
    omega

/-- **The blocks an implicit flush writes** are whole granules or what is left of the zone, and
leave the last block of the command in the window. -/
theorem nrLbasFlush_window (hsizes : f.zp.WindowSizes) {wp elba zend : ℕ} (hwp : wp ≤ elba)
    (helba : elba < zend) (hend : zend < 2 ^ 56)
    (hlast : elba = f.zp.zoneToElba f.sp zid → elba + 1 = zend ∧ f.zp.Low zid)
    (hzero : f.zp.lbasPerZrwa = 0 → wp = 0 ∧
      (elba + f.zp.lbasPerZrwafg) / f.zp.lbasPerZrwafg * f.zp.lbasPerZrwafg ≤ zend) :
    Ends (f.nrLbasFlush zid wp elba) (fun n => wp + n ≤ zend ∧
      (f.zp.lbasPerZrwafg ∣ n ∨ wp + n = zend ∧ f.zp.Low zid) ∧
      (elba < wp + n + f.zp.lbasPerZrwa ∨ wp + n = zend ∧ f.zp.Low zid)) fun _ => True := by
  have hw := hsizes.window_lt
  have hfg := hsizes.fg
  have hstart : f.zrwaImplStart wp = wp + f.zp.lbasPerZrwa := u64_of_lt (by omega)
  have hround : f.zp.lbasPerZrwafg ≤ 2 ^ 56 := by
    by_cases h0 : f.zp.lbasPerZrwa = 0
    · have hle := (hzero h0).2
      have hone := Nat.div_pos (show f.zp.lbasPerZrwafg ≤ elba + f.zp.lbasPerZrwafg by omega) hfg
      have := Nat.le_mul_of_pos_left f.zp.lbasPerZrwafg hone
      omega
    · have := Nat.le_of_dvd (Nat.pos_of_ne_zero h0) hsizes.divides
      omega
  unfold nrLbasFlush
  rw [hstart]
  split_ifs with himpl hz
  · refine (Ends.trivial _).bind fun _ _ => ?_
    set m := elba - (wp + f.zp.lbasPerZrwa) + 1 with hm
    have hdiv : divRoundUp m f.zp.lbasPerZrwafg
        = (m + f.zp.lbasPerZrwafg - 1) / f.zp.lbasPerZrwafg := by
      unfold divRoundUp
      rw [u64_of_lt (by omega)]
    have hhi := Nat.div_mul_le_self (m + f.zp.lbasPerZrwafg - 1) f.zp.lbasPerZrwafg
    have hlo := Nat.lt_div_mul_add (a := m + f.zp.lbasPerZrwafg - 1) hfg
    rw [ends_ok, hdiv, u64_of_lt (by omega)]
    refine ⟨?_, .inl (Dvd.intro_left _ rfl), .inl (by omega)⟩
    by_cases h0 : f.zp.lbasPerZrwa = 0
    · obtain ⟨hwp0, hle⟩ := hzero h0
      have hsame : m + f.zp.lbasPerZrwafg - 1 = elba + f.zp.lbasPerZrwafg := by omega
      rw [hsame]
      omega
    · have := Nat.le_of_dvd (Nat.pos_of_ne_zero h0) hsizes.divides
      omega
  · obtain ⟨hlast, hlow⟩ := hlast hz
    have hn : u64 (elba + 2 ^ 64 - wp + 1) = elba + 1 - wp := by
      unfold u64
      omega
    have hsum : wp + (elba + 1 - wp) = zend := by omega
    rw [ends_ok, hn]
    exact ⟨hsum.le, .inr ⟨hsum, hlow⟩, .inr ⟨hsum, hlow⟩⟩
  · exact ⟨by omega, .inl (Nat.dvd_zero _), .inl (by omega)⟩

/-- **A zone between two states of a write:** it has slid, and a write that was accepted lies behind
the old write pointer, in the zone, and up to its last block in the new window. -/
structure WritesInWindow (f g : ZnsFtl τ) (zid slba nrLba : ℕ) : Prop where
  wp_le : (f.zoneDescs zid).wp ≤ slba
  inside : slba + nrLba ≤ (f.zoneDescs zid).zend
  below : slba + nrLba ≤ (g.zoneDescs zid).wp + f.zp.lbasPerZrwa ∨ (g.zoneDescs zid).state = .full

/-- The descriptor behind the implicit flush. -/
theorem implicitFlush_desc (f : ZnsFtl τ) (zid n : ℕ) :
    Ends (f.implicitFlush zid n) (fun o => ∀ g, o = some g → n = 0 ∧ g = f ∨
      g.zoneDescs zid = { f.zoneDescs zid with
        wp := u64 ((f.zoneDescs zid).wp + u32 n)
        state := if u64 ((f.zoneDescs zid).wp + u32 n) = f.zoneEnd zid then .full
          else (f.zoneDescs zid).state }) fun _ => True := by
  unfold ZnsFtl.implicitFlush
  by_cases hn : n = 0
  · rw [if_pos hn]
    rintro g ⟨⟩
    exact .inl ⟨hn, rfl⟩
  rw [if_neg hn]
  refine (Ends.trivial _).bind fun _ _ => ?_
  generalize hb : bufferAllocate (f.zwraBuffer zid) (lbaToByte n) = r
  obtain ⟨b, allocated⟩ := r
  dsimp only
  by_cases hroom : u32 allocated = 0
  · rw [if_pos hroom]
    exact nofun
  · rw [if_neg hroom]
    rintro g ⟨⟩
    refine .inr ((zoneDescs_increaseWritePtr (f.setBuffer (.zrwa zid) b) zid (u32 n)).trans ?_)
    unfold zoneEnd
    rw [zoneDescs_setBuffer, zp_setBuffer, sp_setBuffer]

/-- **The implicit flush slides the window** of an opened zone behind the last block of the
command. -/
theorem implicitFlush_slides (hp : f.Placed) (hz : zid < f.zp.nrZones)
    (hd : (f.zoneDescs zid).WpWithin) (hs : (f.zoneDescs zid).state.Opened) {n elba : ℕ}
    (hwp : (f.zoneDescs zid).wp < (f.zoneDescs zid).zend)
    (hle : (f.zoneDescs zid).wp + n ≤ (f.zoneDescs zid).zend)
    (hgran : f.zp.lbasPerZrwafg ∣ n ∨
      (f.zoneDescs zid).wp + n = (f.zoneDescs zid).zend ∧ f.zp.Low zid)
    (hbelow : elba < (f.zoneDescs zid).wp + n + f.zp.lbasPerZrwa ∨
      (f.zoneDescs zid).wp + n = (f.zoneDescs zid).zend ∧ f.zp.Low zid) :
    Ends (f.implicitFlush zid n) (fun o => ∀ g, o = some g →
      ZoneDescriptor.Slides f.zp.lbasPerZrwafg (f.zoneDescs zid) (g.zoneDescs zid) ∧
      (elba < (g.zoneDescs zid).wp + f.zp.lbasPerZrwa ∨ (g.zoneDescs zid).state = .full))
      fun _ => True := by
  have hcap : (f.zoneDescs zid).zoneCapacity < 2 ^ 23 := by
    rw [hp.capacity zid hz]
    exact hp.geometry.zoneLbas_lt
  have hge := hd.wp_ge
  have hlt := hp.end_lt hz
  have hend : (f.zoneDescs zid).zend = (f.zoneDescs zid).zslba + (f.zoneDescs zid).zoneCapacity :=
    rfl
  have hn : u64 ((f.zoneDescs zid).wp + u32 n) = (f.zoneDescs zid).wp + n := by
    rw [u32_of_lt (by omega), u64_of_lt (by omega)]
  have hnotFull : (f.zoneDescs zid).state ≠ .full := by
    intro hfull
    rw [hfull] at hs
    exact hs
  refine (implicitFlush_desc f zid n).mono (fun o ho g hg => ?_) fun _ _ => trivial
  rcases ho g hg with ⟨rfl, rfl⟩ | hdesc
  · refine ⟨.refl hd, ?_⟩
    rcases hbelow with hbelow | ⟨hfill, -⟩
    · exact .inl hbelow
    · omega
  · rw [hn] at hdesc
    have hfull : (f.zoneDescs zid).wp + n = (f.zoneDescs zid).zend ∧ f.zp.Low zid →
        (g.zoneDescs zid).state = .full := by
      rintro ⟨hfill, hlow⟩
      rw [hdesc, hp.zoneEnd_of_low hz hlow]
      exact if_pos hfill
    have hnew : (g.zoneDescs zid).wp = (f.zoneDescs zid).wp + n := by rw [hdesc]
    refine ⟨⟨by rw [hdesc], by rw [hdesc], by rw [hdesc], by omega, ?_, ?_, fun h =>
      absurd h hnotFull⟩, ?_⟩
    · rw [hdesc]
      exact hle
    · rw [hnew, Nat.add_sub_cancel_left]
      exact hgran.imp id hfull
    · rw [hnew]
      exact hbelow.imp id hfull

/-- The block the source takes for the last one of a zone is the last one if it lies there. -/
theorem Placed.zoneToElba_of_mem (hp : f.Placed) (hz : zid < f.zp.nrZones)
    (hge : (f.zoneDescs zid).zslba ≤ f.zp.zoneToElba f.sp zid)
    (hlt : f.zp.zoneToElba f.sp zid < (f.zoneDescs zid).zend) :
    f.zp.zoneToElba f.sp zid + 1 = (f.zoneDescs zid).zend ∧ f.zp.Low zid := by
  unfold ZoneDescriptor.zend at *
  rw [hp.zslba zid hz, hp.capacity zid hz, ← Nat.succ_mul] at *
  exact hp.geometry.zoneToElba_of_mem hz hge hlt

/-- `__zns_write_zrwa` behind the checks. -/
theorem Placed.writeZrwaAdmitted (hp : f.Placed) (hsizes : f.zp.WindowSizes)
    (hz : zid < f.zp.nrZones) (hd : (f.zoneDescs zid).WpWithin)
    (hs : (f.zoneDescs zid).state.Opened) (cmd : NvmeRwCommand) (nsecsStart : ℕ)
    (hwp : (f.zoneDescs zid).wp ≤ cmd.slba)
    (hin : cmd.slba + cmd.nrLbas ≤ (f.zoneDescs zid).zend)
    (hzero : f.zp.lbasPerZrwa = 0 → (f.zoneDescs zid).wp = 0 ∧
      (cmd.slba + cmd.nrLbas + f.zp.lbasPerZrwafg - 1) / f.zp.lbasPerZrwafg * f.zp.lbasPerZrwafg
        ≤ (f.zoneDescs zid).zend) :
    Ends (f.writeZrwaAdmitted clk cmd nsecsStart zid) (fun o =>
      ZoneDescriptor.Slides f.zp.lbasPerZrwafg (f.zoneDescs zid) (o.ns.zoneDescs zid) ∧
      (¬ o.Rejected → cmd.slba + cmd.nrLbas ≤ (o.ns.zoneDescs zid).wp + f.zp.lbasPerZrwa ∨
        (o.ns.zoneDescs zid).state = .full)) fun _ => True := by
  have hge := hd.wp_ge
  have hlt : (f.zoneDescs zid).zend < 2 ^ 56 := hp.end_lt hz
  have hpos : 0 < cmd.nrLbas := Nat.succ_pos _
  obtain ⟨elba, helba⟩ : ∃ elba, cmd.slba + cmd.nrLbas = elba + 1 :=
    ⟨cmd.slba + cmd.nrLbas - 1, by omega⟩
  have hu : u64 (cmd.slba + cmd.nrLbas - 1) = elba := by
    rw [u64_of_lt (by omega)]
    omega
  have hlast : elba = f.zp.zoneToElba f.sp zid →
      elba + 1 = (f.zoneDescs zid).zend ∧ f.zp.Low zid := by
    intro heq
    have hge : (f.zoneDescs zid).zslba ≤ elba := by omega
    have hlt : elba < (f.zoneDescs zid).zend := by omega
    rw [heq] at hge hlt ⊢
    exact hp.zoneToElba_of_mem hz hge hlt
  rw [helba, Nat.add_right_comm, Nat.add_sub_cancel] at hzero
  unfold ZnsFtl.writeZrwaAdmitted
  dsimp only
  rw [hu, helba]
  refine (nrLbasFlush_window hsizes (by omega) (by omega) hlt hlast hzero).bind fun n hn => ?_
  refine (implicitFlush_slides hp hz hd hs (by omega) hn.1 hn.2.1 hn.2.2).bind fun o ho => ?_
  cases o with
  | none => exact ⟨.refl hd, fun hacc => absurd (by simp [IoOutcome.Rejected]) hacc⟩
  | some g =>
    refine (Ends.trivial _).bind fun c _ => ⟨(ho g rfl).1, fun _ => ?_⟩
    exact (ho g rfl).2.imp_left fun hlt => hlt

/-- **`__zns_write_zrwa` slides the window** of its zone, and accepts a write in the window only. -/
theorem WindowsOk.writeZrwa (h : f.WindowsOk) (hsizes : f.zp.WindowSizes) (req : NvmevRequest)
    (hslba : req.cmd.slba < 2 ^ 64) (hlength : req.cmd.length < 2 ^ 16)
    (hv : (f.zoneDescs (f.zp.lbaToZone f.sp req.cmd.slba)).zrwav = true)
    (hno : ¬ f.OverrunsZone (f.zp.lbaToZone f.sp req.cmd.slba) req.cmd.slba req.cmd.nrLbas) :
    Ends (f.znsWriteZrwa clk req) (fun o => SlidesFrom (fun _ => False) f o.ns ∧
      (¬ o.Rejected → f.WritesInWindow o.ns (f.zp.lbaToZone f.sp req.cmd.slba) req.cmd.slba
        req.cmd.nrLbas)) fun _ => True := by
  have hall := (f.frame_znsWriteZrwa (R := True) clk req).and_ok (h.counted.writeZrwa clk req hv)
  set zid := f.zp.lbaToZone f.sp req.cmd.slba with hzid
  suffices hdesc : Ends (f.znsWriteZrwa clk req) (fun o =>
      ZoneDescriptor.Slides f.zp.lbasPerZrwafg (f.zoneDescs zid) (o.ns.zoneDescs zid) ∧
      (¬ o.Rejected → f.WritesInWindow o.ns zid req.cmd.slba req.cmd.nrLbas)) fun _ => True by
    refine (hall.and_ok hdesc).mono (fun o ho => ⟨?_, ho.2.2⟩) fun _ _ => trivial
    exact .of_zone h ho.1.1.1 ho.1.2 (fun _ _ _ => ho.2.1) fun _ hd => ho.2.1.within (hd hv)
  unfold znsWriteZrwa
  dsimp only
  rw [← hzid]
  refine ends_zoneExists.bind fun _ hz => ?_
  have hd := h.within zid hz hv
  refine (Ends.trivial _).bind fun _ _ =>
    ((f.frame_checkZrwaWrite (R := True) zid req.cmd.slba req.cmd.nrLbas).and_ok
      (h.counted.checkZrwaWrite (P := (· ≠ .zrwa)) hz hv)).bind ?_
  rintro ⟨g, status⟩ ⟨⟨hframe, -⟩, ⟨hne, hg⟩ | ⟨hsucc, ha, ho, -⟩⟩
  · have hne : status ≠ .success := hne
    have hrejected : (⟨g, req.cmd, [], some (g.writeResult req.cmd status req.nsecsStart
        req.nsecsStart)⟩ : IoOutcome (ZnsFtl τ)).Rejected := by
      rintro r ⟨⟩
      exact fun h => hne (NvmeStatus.code_eq_zero.1 h)
    have hs : ZoneDescriptor.Slides f.zp.lbasPerZrwafg (f.zoneDescs zid) (g.zoneDescs zid) := by
      rw [show g = f from hg]
      exact .refl hd
    cases status <;> first | exact absurd rfl hne | exact ⟨hs, fun hacc => absurd hrejected hacc⟩
  · obtain rfl : status = .success := hsucc
    have hframe : Frame (· = zid) True f g := hframe
    have ho : Opening (· ≠ .zrwa) f g zid := ho
    have hpos : 0 < req.cmd.nrLbas := Nat.succ_pos _
    have hnr : req.cmd.nrLbas ≤ 2 ^ 16 := hlength
    obtain ⟨-, hin, hzero⟩ := h.admits_inside hsizes hslba hpos hnr hzid.symm hz hv ha hno
    have hr : (f.zoneDescs zid).Restates (g.zoneDescs zid) := by
      refine ⟨ho.desc, fun hfull => ?_⟩
      have hactive := ha.active
      rw [hfull] at hactive
      exact hactive.elim
    have hwp : (g.zoneDescs zid).wp = (f.zoneDescs zid).wp := by rw [hr.eq]
    have hend : (g.zoneDescs zid).zend = (f.zoneDescs zid).zend := by
      rw [hr.eq]
      rfl
    have hzp : g.zp = f.zp := hframe.zp
    rw [← hzp, ← hwp, ← hend] at hzero
    refine ((h.placed.frame hframe).writeZrwaAdmitted clk (hzp ▸ hsizes) (hzp ▸ hz)
      (hr.within hd) ho.opened req.cmd req.nsecsStart (hwp ▸ ha.wp) (hend ▸ hin) hzero).mono
        (fun o ho => ⟨?_, fun hacc => ⟨ha.wp, hin, ?_⟩⟩) fun _ _ => trivial
    · rw [← hzp]
      exact (hr.slides hd).trans ho.1
    · rw [← hzp]
      exact ho.2 hacc

end ZnsFtl

end NvmeVirt
