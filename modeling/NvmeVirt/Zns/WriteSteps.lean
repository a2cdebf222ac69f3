/-
# What a write does to its zone

`__zns_write` and `__zns_write_zrwa` of `zns_read_write.c` on the invariant of
the zones: the checks leave a write that is turned away without a trace on the
zones and open the zone of one that is not, and the write pointer moves within
the zone or to its end, where the zone gives back what it holds.
-/

import NvmeVirt.Zns.ZoneSteps

namespace NvmeVirt

open Outcome

/-- The zone takes writes: empty, opened or closed. -/
@[simp] def ZoneState.Writable : ZoneState → Prop
  | .empty | .openedImpl | .openedExpl | .closed => True
  | _ => False

instance : DecidablePred ZoneState.Writable := fun s => by
  cases s <;> unfold ZoneState.Writable <;> infer_instance

/-- An opened zone is active. -/
theorem ZoneState.Opened.active {s : ZoneState} (h : s.Opened) : s.Active := by
  cases s <;> simp at h ⊢

namespace ZnsFtl

variable {τ : Type} {f f' g : ZnsFtl τ} {zid slba nrLba : ℕ}

/-! ### The write pointer -/

/-- The descriptor `__increase_write_ptr` leaves. -/
theorem zoneDescs_increaseWritePtr (f : ZnsFtl τ) (zid n : ℕ) :
    (f.increaseWritePtr zid n).zoneDescs zid = { f.zoneDescs zid with
      wp := u64 ((f.zoneDescs zid).wp + n)
      state := if u64 ((f.zoneDescs zid).wp + n) = f.zoneEnd zid then .full
        else (f.zoneDescs zid).state } := by
  have hcap : ((f.setZone zid fun d => { d with wp := u64 ((f.zoneDescs zid).wp + n) }).zoneDescs
      zid).zoneCapacity = (f.zoneDescs zid).zoneCapacity := by rw [zoneDescs_setZone]
  unfold ZnsFtl.increaseWritePtr zoneEnd
  dsimp only
  rw [hcap, zp_setZone, sp_setZone]
  split_ifs <;> simp

/-- **`__increase_write_ptr`:** at its end an opened zone gives back its open and its active
resource, but not a random write area. -/
theorem Counted.increaseWritePtr {P : ZoneResourceType → Prop} (h : f.Counted)
    (hz : zid < f.zp.nrZones) (hs : (f.zoneDescs zid).state.Opened) {n : ℕ}
    (hP : P .zrwa → u64 ((f.zoneDescs zid).wp + n) = f.zoneEnd zid →
      (f.zoneDescs zid).zrwav = false) :
    KeepsCounts P f (f.increaseWritePtr zid n) zid := by
  set wp := u64 ((f.zoneDescs zid).wp + n) with hwp
  have hcap : ((f.setZone zid fun d => { d with wp := wp }).zoneDescs zid).zoneCapacity
      = (f.zoneDescs zid).zoneCapacity := by rw [zoneDescs_setZone]
  unfold ZnsFtl.increaseWritePtr
  dsimp only
  rw [← hwp, hcap, zp_setZone, sp_setZone]
  change KeepsCounts P f (if wp = f.zoneEnd zid then _ else _) zid
  by_cases hfull : wp = f.zoneEnd zid
  swap
  · rw [if_neg hfull]
    exact .moveWp hs.active wp
  rw [if_pos hfull]
  refine ⟨.fill rfl rfl (fun z hne => ?_) (by simp) (fun ty => by simp) fun ty hPty hb => ?_,
    by simp⟩
  · rw [zoneDescs_changeZoneState_of_ne hne, zoneDescs_releaseZoneResource,
      zoneDescs_releaseZoneResource, zoneDescs_setZone_of_ne hne]
  · have hrel := h.release hb hz
    cases ty with
    | active =>
      have hone : (f.zoneDescs zid).units .active = 1 := ZoneDescriptor.units_eq_one hs.active
      simpa [hone] using hrel hs.active
    | «open» =>
      have hone : (f.zoneDescs zid).units .open = 1 := ZoneDescriptor.units_eq_one hs
      simpa [hone] using hrel hs
    | zrwa =>
      have hno : ¬ (f.zoneDescs zid).Holds .zrwa := by
        rintro ⟨-, hv⟩
        rw [hP hPty hfull] at hv
        cases hv
      simp [ZoneDescriptor.units_eq_zero hno]

/-- **`__increase_write_ptr` within a zone** keeps it in its place. -/
theorem ZonesOk.increaseWritePtr (h : f.ZonesOk) (hz : zid < f.zp.nrZones)
    (hs : (f.zoneDescs zid).state.Opened) {n : ℕ}
    (hle : f.zp.Low zid ∨ (f.zoneDescs zid).zrwav = true →
      (f.zoneDescs zid).wp + n ≤ (f.zoneDescs zid).zslba + (f.zoneDescs zid).zoneCapacity ∧
      ((f.zoneDescs zid).wp + n = (f.zoneDescs zid).zslba + (f.zoneDescs zid).zoneCapacity →
        f.zp.Low zid)) :
    Keeps ((f.zoneDescs zid).zrwav = true ∧
        (f.zoneDescs zid).wp + n = (f.zoneDescs zid).zslba + (f.zoneDescs zid).zoneCapacity)
      f (f.increaseWritePtr zid n) zid := by
  have hd := h.zones zid hz
  have hlt := h.placed.end_lt hz
  have hdesc := zoneDescs_increaseWritePtr f zid n
  set wp := u64 ((f.zoneDescs zid).wp + n) with hwp
  have hin : f.zp.Low zid ∨ (f.zoneDescs zid).zrwav = true →
      wp = (f.zoneDescs zid).wp + n ∧ (f.zoneDescs zid).zslba ≤ wp := by
    intro hin
    have hge := (hd.inside hin).wp_ge
    have hfit := (hle hin).1
    have hid : wp = (f.zoneDescs zid).wp + n := u64_of_lt (by omega)
    omega
  refine ⟨(h.counted.increaseWritePtr hz hs fun hP hfull => ?_).moves, ?_⟩
  · -- a random write area is filled to the end of its zone only
    by_contra hv
    have hv : (f.zoneDescs zid).zrwav = true := Bool.not_eq_false _ ▸ hv
    obtain ⟨hid, hge⟩ := hin (.inr hv)
    by_cases hlow : f.zp.Low zid
    · have hend := h.placed.zoneEnd_of_low hz hlow
      exact hP rfl ⟨hv, by omega⟩
    · have hend := h.placed.zoneEnd_of_not_low hz hlow
      omega
  · by_cases hfull : wp = f.zoneEnd zid
    · rw [if_pos hfull] at hdesc
      refine h.fill hz hdesc fun hi => ?_
      obtain ⟨hid, hge⟩ := hin hi
      have := (hle hi).1
      omega
    · rw [if_neg hfull] at hdesc
      have hmove : Keeps False f (f.setZone zid fun d => { d with wp := wp }) zid :=
        h.moveWp hz hs.active fun hi => ?_
      · have hplace := hmove.place
        rw [zoneDescs_setZone] at hplace
        rw [hdesc]
        exact hplace
      · obtain ⟨hid, hge⟩ := hin hi
        obtain ⟨hfit, hlast⟩ := hle hi
        refine ⟨hge, lt_of_le_of_ne (by omega) fun he => hfull ?_⟩
        rw [he, h.placed.zoneEnd_of_low hz (hlast (by omega))]

/-! ### The checks of a write -/

/-- A zone is opened, and nothing else about it changes. -/
structure Opening (P : ZoneResourceType → Prop) (f g : ZnsFtl τ) (zid : ℕ) : Prop where
  moves : Moves P f g zid
  opened : (g.zoneDescs zid).state.Opened
  desc : g.zoneDescs zid = { f.zoneDescs zid with state := (g.zoneDescs zid).state }

theorem Opening.keepsCounts {P : ZoneResourceType → Prop} (ho : Opening P f g zid) :
    KeepsCounts P f g zid := by
  refine ⟨ho.moves, fun he => ?_⟩
  have hopened := ho.opened
  rw [he] at hopened
  exact hopened.elim

/-- A zone is opened in its place. -/
structure Opens (f g : ZnsFtl τ) (zid : ℕ) : Prop where
  keeps : Keeps False f g zid
  opened : (g.zoneDescs zid).state.Opened
  desc : g.zoneDescs zid = { f.zoneDescs zid with state := (g.zoneDescs zid).state }

/-- An empty or an active zone in its place is opened there. -/
theorem Opening.opens (ho : Opening (fun ty => ty = .zrwa → ¬ False) f g zid) (h : f.ZonesOk)
    (hz : zid < f.zp.nrZones) (hs : (f.zoneDescs zid).state.Writable) : Opens f g zid := by
  have hd := h.zones zid hz
  have hopened := ho.opened
  refine ⟨⟨ho.moves, ?_⟩, ho.opened, ho.desc⟩
  rw [ho.desc]
  by_cases he : (f.zoneDescs zid).state = .empty
  · have hplace := h.openEmpty hz he (v := (f.zoneDescs zid).zrwav) hopened hd.zrwa
    exact hplace
  · refine hd.withState ?_ fun _ => ?_
    · intro hempty
      rw [hempty] at hopened
      exact hopened
    · cases hst : (f.zoneDescs zid).state <;> simp_all

/-- The switch in `__zns_write` opens a zone that takes writes. -/
theorem Counted.openForWrite {P : ZoneResourceType → Prop} (h : f.Counted)
    (hz : zid < f.zp.nrZones) (hw : (f.zoneDescs zid).state.Writable) :
    ∃ g, f.openForWrite zid (f.zoneDescs zid).wp = (g, .success) ∧ Opening P f g zid := by
  have hn := h.nrZones
  have hba := h.balanced .active (by decide)
  have hbo := h.balanced .open (by decide)
  have hopened : ZoneState.Opened .openedImpl := trivial
  unfold ZnsFtl.openForWrite
  cases hs : (f.zoneDescs zid).state with
  | empty =>
    have hnoa : ¬ (f.zoneDescs zid).Holds .active := by simp [hs]
    have hnoo : ¬ (f.zoneDescs zid).Holds .open := by simp [hs]
    obtain ⟨a, ha, halt⟩ := h.resInfos_eq hba hz hnoa
    obtain ⟨c, hc, hclt⟩ := h.resInfos_eq hbo hz hnoo
    have hv : f.zoneDescs zid = { f.zoneDescs zid with zrwav := false } := by
      rw [← (h.empty zid hz hs).2]
    dsimp only
    rw [if_neg (not_not.2 (h.empty zid hz hs).1), if_neg (h.not_full hba hz hnoa),
      if_neg (h.not_full hbo hz hnoo), acquire_of_avail ha halt hn,
      openClosed_of_avail (by simpa [setAcquiredCnt] using hc) hclt hn]
    refine ⟨_, rfl, ?_, ?_, ?_⟩
    · exact .openTwo hs hopened ha hc rfl rfl (fun _ _ => rfl) hv (fun _ => rfl) fun _ => rfl
    · simp
    · simp
  | closed =>
    obtain ⟨c, hc, hclt⟩ := h.resInfos_eq hbo hz (by simp [hs])
    dsimp only
    rw [openClosed_of_avail hc hclt hn]
    exact ⟨_, rfl, .openOne hs hopened hc, by simp, by simp⟩
  | openedImpl => exact ⟨f, rfl, .refl P f zid, by simp [hs], rfl⟩
  | openedExpl => exact ⟨f, rfl, .refl P f zid, by simp [hs], rfl⟩
  | readOnly => simp [hs] at hw
  | full => simp [hs] at hw
  | offline => simp [hs] at hw

/-- **What `__zns_write` checks** behind the reservation of buffer space. -/
structure Admits (f : ZnsFtl τ) (zid slba nrLba : ℕ) : Prop where
  unit : f.unitOk nrLba
  boundary : f.checkBoundaryError slba nrLba
  wp : slba = (f.zoneDescs zid).wp
  writable : (f.zoneDescs zid).state.Writable

instance : Decidable (f.Admits zid slba nrLba) :=
  decidable_of_iff (f.unitOk nrLba ∧ f.checkBoundaryError slba nrLba ∧
      slba = (f.zoneDescs zid).wp ∧ (f.zoneDescs zid).state.Writable)
    ⟨fun ⟨h1, h2, h3, h4⟩ => ⟨h1, h2, h3, h4⟩, fun ⟨h1, h2, h3, h4⟩ => ⟨h1, h2, h3, h4⟩⟩

/-- **A write that passes the checks** finds its zone open. -/
theorem Counted.checkWrite {P : ZoneResourceType → Prop} (h : f.Counted) (hz : zid < f.zp.nrZones)
    (ha : f.Admits zid slba nrLba) :
    ∃ g, f.checkWrite zid slba nrLba = (g, .success) ∧ Opening P f g zid := by
  obtain ⟨hunit, hbound, hwp, hw⟩ := ha
  unfold ZnsFtl.checkWrite
  rw [if_neg (not_not.2 hunit), if_neg (not_not.2 hbound), if_neg (not_not.2 hwp), hwp]
  exact h.openForWrite hz hw

theorem ZonesOk.checkWrite (h : f.ZonesOk) (hz : zid < f.zp.nrZones) (ha : f.Admits zid slba nrLba) :
    ∃ g, f.checkWrite zid slba nrLba = (g, .success) ∧ Opens f g zid := by
  obtain ⟨g, hg, ho⟩ := h.counted.checkWrite hz ha
  exact ⟨g, hg, ho.opens h hz ha.writable⟩

/-- **A write that fails a check** is turned away and changes nothing. -/
theorem checkWrite_of_not (hno : ¬ f.Admits zid slba nrLba) :
    ∃ status, status ≠ .success ∧ f.checkWrite zid slba nrLba = (f, status) := by
  unfold ZnsFtl.checkWrite
  by_cases hunit : f.unitOk nrLba
  swap
  · exact ⟨.znsInvalidWrite, by decide, if_pos hunit⟩
  by_cases hbound : f.checkBoundaryError slba nrLba
  swap
  · exact ⟨.znsErrBoundary, by decide, by rw [if_neg (not_not.2 hunit), if_pos hbound]⟩
  by_cases hwp : slba = (f.zoneDescs zid).wp
  swap
  · exact ⟨.znsInvalidWrite, by decide,
      by rw [if_neg (not_not.2 hunit), if_neg (not_not.2 hbound), if_pos hwp]⟩
  have hw : ¬ (f.zoneDescs zid).state.Writable := fun hw => hno ⟨hunit, hbound, hwp, hw⟩
  refine ⟨.znsErrOffline, by decide, ?_⟩
  rw [if_neg (not_not.2 hunit), if_neg (not_not.2 hbound), if_neg (not_not.2 hwp)]
  unfold ZnsFtl.openForWrite
  cases hs : (f.zoneDescs zid).state with
  | readOnly => rfl
  | full => rfl
  | offline => rfl
  | empty => simp [hs] at hw
  | openedImpl => simp [hs] at hw
  | openedExpl => simp [hs] at hw
  | closed => simp [hs] at hw

/-! ### Writes and appends -/

/-- `__zns_write` behind the checks. -/
theorem ZonesOk.writeAdmitted (clk : SsdClock τ) (h : f.ZonesOk) (hz : zid < f.zp.nrZones)
    (hs : (f.zoneDescs zid).state.Opened) (hv : (f.zoneDescs zid).zrwav = false)
    (cmd : NvmeRwCommand) (nsecsStart : ℕ)
    (hle : f.zp.Low zid → (f.zoneDescs zid).wp + cmd.nrLbas
      ≤ (f.zoneDescs zid).zslba + (f.zoneDescs zid).zoneCapacity) :
    Ends (f.writeAdmitted clk cmd nsecsStart zid)
      (fun o => Keeps False f o.ns zid ∧ ∃ r, o.ret = some r ∧ r.status = 0) fun _ => True := by
  have hlow : f.zp.Low zid ∨ (f.zoneDescs zid).zrwav = true → f.zp.Low zid :=
    fun hi => hi.resolve_right (by simp [hv])
  have hk := h.increaseWritePtr hz hs fun hi => ⟨hle (hlow hi), fun _ => hlow hi⟩
  unfold ZnsFtl.writeAdmitted
  dsimp only
  refine (show Ends _ (fun _ => True) fun _ => True from Ends.trivial _).bind fun c _ => ?_
  exact ⟨(hk.mono fun hL => by simp [hv] at hL).congr rfl rfl rfl rfl, _, rfl, rfl⟩

/-- The blocks of a zone. -/
theorem Placed.lbaToZone_eq_iff (h : f.Placed) (hz : zid < f.zp.nrZones) {lba : ℕ}
    (hlba : lba < (f.zoneDescs zid).zslba + (f.zoneDescs zid).zoneCapacity + 2 ^ 33) :
    f.zp.lbaToZone f.sp lba = zid ↔ (f.zoneDescs zid).zslba ≤ lba ∧
      lba < (f.zoneDescs zid).zslba + (f.zoneDescs zid).zoneCapacity := by
  rw [h.zslba zid hz, h.capacity zid hz, ← Nat.succ_mul] at *
  exact h.geometry.lbaToZone_eq_iff hz hlba

/-- A write that passes the checks ends in its zone. -/
theorem ZonesOk.admits_fits (h : f.ZonesOk) (hz : zid < f.zp.nrZones) (hlow : f.zp.Low zid)
    (ha : f.Admits zid slba nrLba) (hpos : 0 < nrLba) (hlba : nrLba ≤ 2 ^ 16) :
    (f.zoneDescs zid).wp + nrLba
      ≤ (f.zoneDescs zid).zslba + (f.zoneDescs zid).zoneCapacity := by
  have hd := h.zones zid hz
  have hi := hd.inside (.inl hlow)
  have hlt := h.placed.end_lt hz
  have hcap := h.placed.cap_pos hz
  have hin : (f.zoneDescs zid).wp < (f.zoneDescs zid).zslba + (f.zoneDescs zid).zoneCapacity := by
    have hw := ha.writable
    cases hs : (f.zoneDescs zid).state with
    | empty =>
      rw [(hd.empty hs).1]
      omega
    | openedImpl => exact hi.active (by simp [hs])
    | openedExpl => exact hi.active (by simp [hs])
    | closed => exact hi.active (by simp [hs])
    | readOnly => simp [hs] at hw
    | full => simp [hs] at hw
    | offline => simp [hs] at hw
  have hzone : f.zp.lbaToZone f.sp (f.zoneDescs zid).wp = zid :=
    (h.placed.lbaToZone_eq_iff hz (by omega)).2 ⟨hi.wp_ge, hin⟩
  have hlast : f.zp.lbaToZone f.sp (u64 ((f.zoneDescs zid).wp + nrLba - 1)) = zid := by
    have hb : f.zp.lbaToZone f.sp slba = f.zp.lbaToZone f.sp (u64 (slba + nrLba - 1)) := ha.boundary
    rw [ha.wp, hzone] at hb
    exact hb.symm
  rw [u64_of_lt (by omega)] at hlast
  have := ((h.placed.lbaToZone_eq_iff hz (by omega)).1 hlast).2
  omega

/-- **`__zns_write` on a zone without a random write area.** -/
theorem ZonesOk.writeSeq (clk : SsdClock τ) (h : f.ZonesOk) (req : NvmevRequest)
    (hlength : req.cmd.length < 2 ^ 16)
    (hv : (f.zoneDescs (f.zp.lbaToZone f.sp req.cmd.slba)).zrwav = false) :
    Ends (f.znsWriteSeq clk req) (fun o => f.zp.lbaToZone f.sp req.cmd.slba < f.zp.nrZones ∧
      Keeps False f o.ns (f.zp.lbaToZone f.sp req.cmd.slba)) fun _ => True := by
  unfold znsWriteSeq
  dsimp only
  set zid := f.zp.lbaToZone f.sp req.cmd.slba with hzid
  refine ends_zoneExists.bind fun _ hz => ?_
  set cmd := if req.cmd.opcode = .zoneAppend then
    { req.cmd with slba := (f.zoneDescs zid).wp } else req.cmd with hcmd
  have hcmdlen : cmd.length = req.cmd.length := by
    rw [hcmd]
    split_ifs <;> rfl
  set buf := bufferAllocate (f.buffer (f.writeBufferOf zid)) (lbaToByte cmd.nrLbas)
  have hk : Keeps False f (f.setBuffer (f.writeBufferOf zid) buf.1) zid :=
    h.keeps_of_same hz (by simp) (by simp) (by simp) (by simp)
  split_ifs
  · exact ⟨hz, hk⟩
  · refine (show Ends (defined _) (fun _ => True) _ from Ends.trivial _).bind fun _ _ => ?_
    have h' := hk.zonesOk h hz
    have hz' : zid < (f.setBuffer (f.writeBufferOf zid) buf.1).zp.nrZones := by rwa [hk.nrZones]
    by_cases ha : (f.setBuffer (f.writeBufferOf zid) buf.1).Admits zid cmd.slba cmd.nrLbas
    · obtain ⟨g, hg, hopens⟩ := h'.checkWrite hz' ha
      have hfits := fun hlow => h'.admits_fits hz' hlow ha (by simp [NvmeRwCommand.nrLbas])
        (by simp only [NvmeRwCommand.nrLbas]; omega)
      have hdesc := hopens.desc
      rw [zoneDescs_setBuffer] at hdesc hfits
      rw [hg]
      refine (ZonesOk.writeAdmitted clk (hopens.keeps.zonesOk h' hz')
        (by rwa [hopens.keeps.nrZones]) hopens.opened ?_ cmd _ ?_).mono
        (fun o ho => ⟨hz, (hk.trans hopens.keeps hz).trans ho.1 hz⟩) fun _ _ => trivial
      · rw [hdesc]
        exact hv
      · rw [hdesc, hopens.keeps.moves.zp]
        exact hfits
    · obtain ⟨status, hne, hg⟩ := checkWrite_of_not ha
      rw [hg]
      cases status <;> first | exact absurd rfl hne | exact ⟨hz, hk⟩

/-! ### Writes into a random write area -/

/-- The buffer of a random write area as a write finds it: opening a closed zone takes its share. -/
def zwraBufferFor (f : ZnsFtl τ) (zid : ℕ) : Buffer :=
  if (f.zoneDescs zid).state = .closed then
    (bufferAllocate (f.zwraBuffer zid) f.zp.zrwaSize).1
  else f.zwraBuffer zid

/-- **What `__zns_write_zrwa` checks.** -/
structure AdmitsZrwa (f : ZnsFtl τ) (zid slba nrLba : ℕ) : Prop where
  unit : f.unitOk nrLba
  boundary : f.checkBoundaryError slba nrLba
  wp : (f.zoneDescs zid).wp ≤ slba
  window : u64 (slba + nrLba - 1) ≤ f.zrwaImplEnd (f.zoneDescs zid).wp
  active : (f.zoneDescs zid).state.Active

instance : Decidable (f.AdmitsZrwa zid slba nrLba) :=
  decidable_of_iff (f.unitOk nrLba ∧ f.checkBoundaryError slba nrLba ∧
      (f.zoneDescs zid).wp ≤ slba ∧
      u64 (slba + nrLba - 1) ≤ f.zrwaImplEnd (f.zoneDescs zid).wp ∧
      (f.zoneDescs zid).state.Active)
    ⟨fun ⟨h1, h2, h3, h4, h5⟩ => ⟨h1, h2, h3, h4, h5⟩,
      fun ⟨h1, h2, h3, h4, h5⟩ => ⟨h1, h2, h3, h4, h5⟩⟩

/-- The switch in `__zns_write_zrwa`; an empty zone has no random write area. -/
theorem Counted.openForZrwa {P : ZoneResourceType → Prop} (h : f.Counted)
    (hz : zid < f.zp.nrZones) (hv : (f.zoneDescs zid).zrwav = true) :
    Ends (f.openForZrwa zid) (fun r => r.2 ≠ .success ∧ r.1 = f ∨
      r.2 = .success ∧ (f.zoneDescs zid).state.Active ∧ Opening P f r.1 zid ∧
        r.1.zwraBuffer zid = f.zwraBufferFor zid) fun _ => True := by
  have hn := h.nrZones
  have hbo := h.balanced .open (by decide)
  unfold ZnsFtl.openForZrwa
  cases hs : (f.zoneDescs zid).state with
  | empty => simp [(h.empty zid hz hs).2] at hv
  | closed =>
    obtain ⟨c, hc, hclt⟩ := h.resInfos_eq hbo hz (by simp [hs])
    dsimp only
    rw [acquire_of_avail hc hclt hn]
    dsimp only
    refine (Ends.trivial _).bind fun _ _ => ?_
    refine (Ends.trivial _).bind fun _ _ => .inr ⟨rfl, trivial, ⟨?_, ?_, ?_⟩, ?_⟩
    · exact (Moves.openOne hs (show ZoneState.Opened .openedImpl from trivial) hc).congr rfl rfl
        rfl rfl
    · simp
    · simp
    · unfold zwraBufferFor
      rw [if_pos hs]
      exact Function.update_self ..
  | openedImpl =>
    refine .inr ⟨rfl, trivial, ⟨.refl P f zid, by simp [hs], rfl⟩, ?_⟩
    simp [zwraBufferFor, hs]
  | openedExpl =>
    refine .inr ⟨rfl, trivial, ⟨.refl P f zid, by simp [hs], rfl⟩, ?_⟩
    simp [zwraBufferFor, hs]
  | full => exact .inl ⟨nofun, rfl⟩
  | readOnly => exact .inl ⟨nofun, rfl⟩
  | offline => exact .inl ⟨nofun, rfl⟩

/-- **The checks of `__zns_write_zrwa`:** a write that is turned away changes nothing, one that
passes finds its zone open. -/
theorem Counted.checkZrwaWrite {P : ZoneResourceType → Prop} (h : f.Counted) (hz : zid < f.zp.nrZones)
    (hv : (f.zoneDescs zid).zrwav = true) :
    Ends (f.checkZrwaWrite zid slba nrLba) (fun r => r.2 ≠ .success ∧ r.1 = f ∨
      r.2 = .success ∧ f.AdmitsZrwa zid slba nrLba ∧ Opening P f r.1 zid ∧
        r.1.zwraBuffer zid = f.zwraBufferFor zid) fun _ => True := by
  unfold ZnsFtl.checkZrwaWrite
  dsimp only
  by_cases hunit : f.unitOk nrLba
  swap
  · rw [if_pos hunit]
    exact .inl ⟨nofun, rfl⟩
  rw [if_neg (not_not.2 hunit)]
  by_cases hbound : f.checkBoundaryError slba nrLba
  swap
  · rw [if_pos hbound]
    exact .inl ⟨nofun, rfl⟩
  rw [if_neg (not_not.2 hbound)]
  split_ifs with hwin
  · exact .inl ⟨nofun, rfl⟩
  · obtain ⟨hlo, hhi⟩ := not_or.1 hwin
    refine (h.openForZrwa (P := P) hz hv).mono (fun r hr => ?_) fun _ _ => trivial
    rcases hr with hr | ⟨hr, hactive, hopens, hbuf⟩
    · exact .inl hr
    · exact .inr ⟨hr, ⟨hunit, hbound, not_lt.1 hlo, not_lt.1 hhi, hactive⟩,
        hopens, hbuf⟩

theorem ZonesOk.checkZrwaWrite (h : f.ZonesOk) (hz : zid < f.zp.nrZones)
    (hv : (f.zoneDescs zid).zrwav = true) :
    Ends (f.checkZrwaWrite zid slba nrLba) (fun r => r.2 ≠ .success ∧ r.1 = f ∨
      r.2 = .success ∧ f.AdmitsZrwa zid slba nrLba ∧ Opens f r.1 zid ∧
        r.1.zwraBuffer zid = f.zwraBufferFor zid) fun _ => True := by
  refine (h.counted.checkZrwaWrite (P := fun ty => ty = .zrwa → ¬ False) hz hv).mono
    (fun r hr => ?_) fun _ _ => trivial
  rcases hr with hr | ⟨hr, ha, hopens, hbuf⟩
  · exact .inl hr
  · have hw : (f.zoneDescs zid).state.Writable := by
      have hactive := ha.active
      cases hst : (f.zoneDescs zid).state <;> simp_all
    exact .inr ⟨hr, ha, hopens.opens h hz hw, hbuf⟩

/-- The last block of a write that passes the checks lies in its zone. -/
theorem ZonesOk.admitsZrwa_last (h : f.ZonesOk) (hz : f.zp.lbaToZone f.sp slba < f.zp.nrZones)
    (hv : (f.zoneDescs (f.zp.lbaToZone f.sp slba)).zrwav = true)
    (ha : f.AdmitsZrwa (f.zp.lbaToZone f.sp slba) slba nrLba) :
    (f.zoneDescs (f.zp.lbaToZone f.sp slba)).zslba ≤ u64 (slba + nrLba - 1) ∧
      u64 (slba + nrLba - 1) < (f.zoneDescs (f.zp.lbaToZone f.sp slba)).zslba
        + (f.zoneDescs (f.zp.lbaToZone f.sp slba)).zoneCapacity := by
  have hlt := h.placed.end_lt hz
  have hd := h.zones _ hz
  have hwp := (hd.inside (.inr hv)).wp_le
  have hwin : u64 (slba + nrLba - 1) ≤ f.zrwaImplEnd _ := ha.window
  have hend : f.zrwaImplEnd (f.zoneDescs (f.zp.lbaToZone f.sp slba)).wp
      < (f.zoneDescs (f.zp.lbaToZone f.sp slba)).wp + 2 ^ 32 := by
    have hw := (hd.zrwa hv).window
    have hw' := (hd.zrwa hv).window_lt
    unfold zrwaImplEnd
    rw [u32_of_lt (by omega)]
    unfold u64
    omega
  exact (h.placed.lbaToZone_eq_iff hz (by omega)).1 ha.boundary.symm

/-- **The blocks an implicit flush writes** stay below the last block of the command, unless the
command ends with the zone below the range of implicit flushes. -/
theorem nrLbasFlush_le (hsizes : f.zp.ZrwaSizes) {wp elba zend : ℕ} (hwp : wp < zend)
    (hend : zend < 2 ^ 56) (helba : elba < zend)
    (hlast : elba = f.zp.zoneToElba f.sp zid → elba + 1 = zend) :
    Ends (f.nrLbasFlush zid wp elba) (fun n => wp + n ≤ zend ∧
      (wp + n = zend → elba = f.zp.zoneToElba f.sp zid ∧ elba < f.zrwaImplStart wp ∧
        n = elba + 1 - wp)) fun _ => True := by
  have hwin := hsizes.window_lt
  have hstart : f.zrwaImplStart wp = wp + f.zp.lbasPerZrwa := u64_of_lt (by omega)
  unfold nrLbasFlush
  rw [hstart]
  split_ifs with himpl hz
  · refine (Ends.trivial _).bind fun _ _ => ?_
    have hfg : f.zp.lbasPerZrwafg ≤ f.zp.lbasPerZrwa := Nat.le_of_dvd hsizes.window hsizes.divides
    have hround : divRoundUp (elba - (wp + f.zp.lbasPerZrwa) + 1) f.zp.lbasPerZrwafg
        * f.zp.lbasPerZrwafg
          ≤ elba - (wp + f.zp.lbasPerZrwa) + 1 + f.zp.lbasPerZrwafg - 1 := by
      unfold divRoundUp
      rw [u64_of_lt (by omega)]
      exact Nat.div_mul_le_self _ _
    rw [ends_ok, u64_of_lt (by omega)]
    constructor <;> omega
  · rw [ends_ok]
    have hn : u64 (elba + 2 ^ 64 - wp + 1) = elba + 1 - wp := by
      unfold u64
      omega
    rw [hn]
    constructor
    · omega
    · intro _
      exact ⟨hz, by omega, rfl⟩
  · rw [ends_ok]
    constructor <;> omega

/-- **The implicit flush** moves the write pointer of an opened zone. -/
theorem ZonesOk.implicitFlush (h : f.ZonesOk) (hz : zid < f.zp.nrZones)
    (hs : (f.zoneDescs zid).state.Opened) (hv : (f.zoneDescs zid).zrwav = true) {n : ℕ}
    (hle : (f.zoneDescs zid).wp + n ≤ (f.zoneDescs zid).zslba + (f.zoneDescs zid).zoneCapacity)
    (hlast : (f.zoneDescs zid).wp + n = (f.zoneDescs zid).zslba + (f.zoneDescs zid).zoneCapacity →
      f.zp.Low zid) :
    Ends (f.implicitFlush zid n) (fun o => ∀ g, o = some g → Keeps
      ((f.zoneDescs zid).wp + n = (f.zoneDescs zid).zslba + (f.zoneDescs zid).zoneCapacity ∧
        u32 (bufferAllocate (f.zwraBuffer zid) (lbaToByte n)).2 ≠ 0) f g zid) fun _ => True := by
  have hge := ((h.zones zid hz).inside (.inr hv)).wp_ge
  have hcap : (f.zoneDescs zid).zoneCapacity < 2 ^ 23 := by
    rw [(h.zones zid hz).capacity]
    exact h.geometry.zoneLbas_lt
  unfold ZnsFtl.implicitFlush
  split_ifs with hn
  · rintro g ⟨⟩
    exact (h.keeps_refl hz).mono nofun
  · refine (Ends.trivial _).bind fun _ _ => ?_
    dsimp only
    split_ifs with hroom
    · exact nofun
    · rintro g ⟨⟩
      have hk : Keeps False f
          (f.setBuffer (.zrwa zid) (bufferAllocate (f.zwraBuffer zid) (lbaToByte n)).1) zid :=
        h.keeps_of_same hz (by simp) (by simp) (by simp) (by simp)
      have hun : u32 n = n := u32_of_lt (by omega)
      rw [hun]
      have hw := (hk.zonesOk h hz).increaseWritePtr (n := n) (by rwa [hk.nrZones])
        (by rwa [zoneDescs_setBuffer]) (fun _ => by
          rw [zoneDescs_setBuffer, hk.moves.zp]
          exact ⟨hle, hlast⟩)
      rw [zoneDescs_setBuffer] at hw
      exact (hk.mono nofun).trans (hw.mono fun ⟨_, h2⟩ => ⟨h2, hroom⟩) hz

/-- **A write of the last blocks of a zone** that fills its random write area up to the end, below
the range of implicit flushes, and is accepted. -/
structure FillsZrwa (f : ZnsFtl τ) (zid slba nrLba : ℕ) : Prop where
  zrwav : (f.zoneDescs zid).zrwav = true
  admits : f.AdmitsZrwa zid slba nrLba
  last : u64 (slba + nrLba - 1) = f.zp.zoneToElba f.sp zid
  below : u64 (slba + nrLba - 1) < f.zrwaImplStart (f.zoneDescs zid).wp
  room : u32 (bufferAllocate (f.zwraBufferFor zid)
    (lbaToByte (u64 (slba + nrLba - 1) + 1 - (f.zoneDescs zid).wp))).2 ≠ 0

instance : Decidable (f.FillsZrwa zid slba nrLba) :=
  decidable_of_iff ((f.zoneDescs zid).zrwav = true ∧ f.AdmitsZrwa zid slba nrLba ∧
      u64 (slba + nrLba - 1) = f.zp.zoneToElba f.sp zid ∧
      u64 (slba + nrLba - 1) < f.zrwaImplStart (f.zoneDescs zid).wp ∧
      u32 (bufferAllocate (f.zwraBufferFor zid)
        (lbaToByte (u64 (slba + nrLba - 1) + 1 - (f.zoneDescs zid).wp))).2 ≠ 0)
    ⟨fun ⟨h1, h2, h3, h4, h5⟩ => ⟨h1, h2, h3, h4, h5⟩,
      fun ⟨h1, h2, h3, h4, h5⟩ => ⟨h1, h2, h3, h4, h5⟩⟩

/-- **`__zns_write_zrwa`** keeps the invariant, and the counter of the random write areas unless the
write fills the zone. -/
theorem ZonesOk.writeZrwa (clk : SsdClock τ) (h : f.ZonesOk) (req : NvmevRequest)
    (hv : (f.zoneDescs (f.zp.lbaToZone f.sp req.cmd.slba)).zrwav = true) :
    Ends (f.znsWriteZrwa clk req) (fun o => f.zp.lbaToZone f.sp req.cmd.slba < f.zp.nrZones ∧
      Keeps (f.FillsZrwa (f.zp.lbaToZone f.sp req.cmd.slba) req.cmd.slba req.cmd.nrLbas) f o.ns
        (f.zp.lbaToZone f.sp req.cmd.slba)) fun _ => True := by
  unfold znsWriteZrwa
  dsimp only
  set zid := f.zp.lbaToZone f.sp req.cmd.slba with hzid
  refine ends_zoneExists.bind fun _ hz => ?_
  refine (Ends.trivial _).bind fun _ _ => (h.checkZrwaWrite hz hv).bind ?_
  rintro ⟨g, status⟩ (⟨hne, hg⟩ | ⟨hsucc, ha, hopens, hbuf⟩)
  · have hk : Keeps (f.FillsZrwa zid req.cmd.slba req.cmd.nrLbas) f g zid := by
      rw [show g = f from hg]
      exact (h.keeps_refl hz).mono nofun
    cases status <;> first | exact absurd rfl hne | exact ⟨hz, hk⟩
  · have hsucc : status = .success := hsucc
    subst hsucc
    have hbuf : g.zwraBuffer zid = f.zwraBufferFor zid := hbuf
    have hopens : Opens f g zid := hopens
    have hg := hopens.keeps.zonesOk h hz
    have hzg : zid < g.zp.nrZones := by rwa [hopens.keeps.nrZones]
    have hd := h.zones zid hz
    have hsizes : g.zp.ZrwaSizes := by
      rw [hopens.keeps.moves.zp]
      exact hd.zrwa hv
    have hin := (hd.inside (.inr hv)).active ha.active
    obtain ⟨hfirst, hlast⟩ := h.admitsZrwa_last hz hv ha
    set elba := u64 (req.cmd.slba + req.cmd.nrLbas - 1) with helba
    -- the block the source takes for the last one of the zone is the last one if it lies there
    have hmem : elba = g.zp.zoneToElba g.sp zid →
        elba + 1 = (f.zoneDescs zid).zslba + (f.zoneDescs zid).zoneCapacity ∧ f.zp.Low zid := by
      rw [hopens.keeps.moves.zp, hopens.keeps.moves.sp]
      rw [hd.zslba, hd.capacity, ← Nat.succ_mul] at *
      rintro heq
      rw [heq] at hfirst hlast ⊢
      exact h.geometry.zoneToElba_of_mem hz hfirst hlast
    have hdesc : (g.zoneDescs zid).wp = (f.zoneDescs zid).wp ∧
        (g.zoneDescs zid).zslba = (f.zoneDescs zid).zslba ∧
        (g.zoneDescs zid).zoneCapacity = (f.zoneDescs zid).zoneCapacity ∧
        (g.zoneDescs zid).zrwav = (f.zoneDescs zid).zrwav := by
      rw [hopens.desc]
      exact ⟨rfl, rfl, rfl, rfl⟩
    obtain ⟨d1, d2, d3, d4⟩ := hdesc
    dsimp only
    unfold writeZrwaAdmitted
    dsimp only
    rw [d1]
    refine (nrLbasFlush_le hsizes hin (h.placed.end_lt hz) hlast fun he => (hmem he).1).bind fun n hn => ?_
    refine (hg.implicitFlush hzg hopens.opened (d4.trans hv) ?_ ?_).bind fun o ho => ?_
    · rw [d1, d2, d3]
      exact hn.1
    · rw [d1, d2, d3, hopens.keeps.moves.zp]
      exact fun he => (hmem (hn.2 he).1).2
    cases o with
    | none => exact ⟨hz, hopens.keeps.mono nofun⟩
    | some f1 =>
      have hk : Keeps (f.FillsZrwa zid req.cmd.slba req.cmd.nrLbas) g f1 zid := by
        refine (ho f1 rfl).mono ?_
        rintro ⟨hfill, hroom⟩
        rw [d1, d2, d3] at hfill
        obtain ⟨hz1, hz2, rfl⟩ := hn.2 hfill
        rw [hopens.keeps.moves.zp, hopens.keeps.moves.sp] at hz1
        unfold zrwaImplStart at hz2
        rw [hopens.keeps.moves.zp] at hz2
        rw [hbuf] at hroom
        exact ⟨hv, ha, hz1, hz2, hroom⟩
      refine (Ends.trivial _).bind fun c _ => ?_
      exact ⟨hz, ((hopens.keeps.mono nofun).trans hk hz).congr rfl rfl rfl rfl⟩

end ZnsFtl

end NvmeVirt
