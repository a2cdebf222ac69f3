/-
# Zones and the resources they hold

The invariant of the zones of `zns_ftl.c`: where the zones and their write
pointers lie, and that the counters of `res_infos` say how many zones hold a
resource.  An opened zone holds an open and an active resource, a closed one an
active resource, and either of them a random write area if it was opened with
one.
-/

import NvmeVirt.Lib.Sums
import NvmeVirt.Ssd.Geometry
import NvmeVirt.Zns.MgmtSend

namespace NvmeVirt

open Outcome

theorem u32Pred_of_pos {a : ℕ} (h : 0 < a) (ha : a < 2 ^ 32) : u32Pred a = a - 1 := by
  unfold u32Pred u32
  omega

/-! ### Where the zones lie -/

/-- The blocks of a zone. -/
def Znsparams.zoneLbas (zpp : Znsparams) : ℕ := zpp.zoneSize / 512

/-- **The geometry of a zoned namespace.** -/
structure ZnsGeometry (zpp : Znsparams) (spp : Ssdparams) : Prop where
  secsz : spp.secsz = 512
  secsPerPg : spp.secsPerPg = 8
  pgsz : spp.pgsz = 4096
  zoneSize : 0 < zpp.zoneSize
  zoneSize_lt : zpp.zoneSize < 2 ^ 32
  aligned : zpp.zoneSize % 4096 = 0
  nrZones : zpp.nrZones < 2 ^ 32

/-- A zone that begins below block 2^32, where `zone_to_slba` finds it. -/
def Znsparams.Low (zpp : Znsparams) (zid : ℕ) : Prop := zid * zpp.zoneLbas < 2 ^ 32

namespace ZnsGeometry

variable {zpp : Znsparams} {spp : Ssdparams} {zid lba : ℕ}

theorem zoneLbas_eq (g : ZnsGeometry zpp spp) : zpp.zoneLbas = 8 * (zpp.zoneSize / 4096) := by
  have := g.aligned
  unfold Znsparams.zoneLbas
  omega

theorem eight_le (g : ZnsGeometry zpp spp) : 8 ≤ zpp.zoneLbas := by
  have := g.aligned
  have := g.zoneSize
  unfold Znsparams.zoneLbas
  omega

theorem zoneLbas_lt (g : ZnsGeometry zpp spp) : zpp.zoneLbas < 2 ^ 23 := by
  have := g.zoneSize_lt
  unfold Znsparams.zoneLbas
  omega

/-- The blocks are numbered below 2^55. -/
theorem slba_lt (g : ZnsGeometry zpp spp) (hz : zid < zpp.nrZones) :
    zid * zpp.zoneLbas < 2 ^ 55 := by
  have hz' := g.nrZones
  have hl := g.zoneLbas_lt
  calc zid * zpp.zoneLbas < 2 ^ 32 * 2 ^ 23 :=
        Nat.mul_lt_mul_of_lt_of_le (by omega) hl.le (by norm_num)
    _ = 2 ^ 55 := by norm_num

theorem zoneToSlba_eq (g : ZnsGeometry zpp spp) (hlow : zpp.Low zid) :
    zpp.zoneToSlba spp zid = zid * zpp.zoneLbas := by
  unfold Znsparams.zoneToSlba
  rw [g.secsz]
  exact u32_of_lt hlow

/-- Where a zone is not found by `zone_to_slba`, a lower block is. -/
theorem zoneToSlba_of_not_low (g : ZnsGeometry zpp spp) (hhigh : ¬ zpp.Low zid) :
    zpp.zoneToSlba spp zid + 2 ^ 32 ≤ zid * zpp.zoneLbas := by
  unfold Znsparams.Low at hhigh
  unfold Znsparams.zoneToSlba
  rw [g.secsz]
  show u32 (zid * zpp.zoneLbas) + 2 ^ 32 ≤ _
  unfold u32
  omega

/-- If the block `zone_to_elba` finds lies in the zone, it is the last one there. -/
theorem zoneToElba_of_mem (g : ZnsGeometry zpp spp) (hz : zid < zpp.nrZones)
    (hge : zid * zpp.zoneLbas ≤ zpp.zoneToElba spp zid)
    (hlt : zpp.zoneToElba spp zid < (zid + 1) * zpp.zoneLbas) :
    zpp.zoneToElba spp zid + 1 = (zid + 1) * zpp.zoneLbas ∧ zpp.Low zid := by
  have hn := g.nrZones
  have hslba := g.slba_lt hz
  have hl := g.zoneLbas_lt
  have hx : zpp.zoneToSlba spp (zid + 1) = (zid + 1) * zpp.zoneLbas % 2 ^ 32 := by
    unfold Znsparams.zoneToSlba
    rw [g.secsz]
    rfl
  have helba : zpp.zoneToElba spp zid
      = ((zid + 1) * zpp.zoneLbas % 2 ^ 32 + 2 ^ 64 - 1) % 2 ^ 64 := by
    unfold Znsparams.zoneToElba
    rw [u32_of_lt (by omega), hx]
    rfl
  unfold Znsparams.Low
  rw [helba, Nat.succ_mul] at hge hlt
  rw [helba, Nat.succ_mul]
  omega

/-- **The blocks of a zone:** a block not far behind it lies in the zone `lba_to_zone` says. -/
theorem lbaToZone_eq_iff (g : ZnsGeometry zpp spp) (hz : zid < zpp.nrZones)
    (hlba : lba < (zid + 1) * zpp.zoneLbas + 2 ^ 33) :
    zpp.lbaToZone spp lba = zid ↔ zid * zpp.zoneLbas ≤ lba ∧ lba < (zid + 1) * zpp.zoneLbas := by
  have hn := g.nrZones
  have hpos : 0 < zpp.zoneLbas := lt_of_lt_of_le (by norm_num) g.eight_le
  have hdiv : lba / zpp.zoneLbas < zid + 1 + 2 ^ 31 := by
    rw [Nat.div_lt_iff_lt_mul hpos, Nat.add_mul]
    have := Nat.mul_le_mul_left (2 ^ 31) g.eight_le
    omega
  have hzone : zpp.lbaToZone spp lba = lba / zpp.zoneLbas % 2 ^ 32 := by
    unfold Znsparams.lbaToZone
    rw [g.secsz]
    rfl
  have hmod : ∀ q : ℕ, q < zid + 1 + 2 ^ 31 → (q % 2 ^ 32 = zid ↔ q = zid) := by
    intro q hq
    omega
  rw [hzone, hmod _ hdiv, Nat.div_eq_iff hpos, Nat.succ_mul]
  constructor
  · rintro ⟨h1, h2⟩
    constructor <;> omega
  · rintro ⟨h1, h2⟩
    constructor <;> omega

/-- Blocks that would wrap around end in no zone of the 32-bit number they begin in. -/
theorem wrapped_zone_ne (g : ZnsGeometry zpp spp) {nrLba : ℕ} (hlba : lba < 2 ^ 64)
    (hnr : nrLba ≤ 2 ^ 16) (hwrap : 2 ^ 64 < lba + nrLba) :
    lba / zpp.zoneLbas % 2 ^ 32 ≠ (lba + nrLba - 1 - 2 ^ 64) / zpp.zoneLbas % 2 ^ 32 := by
  have h8 := g.eight_le
  have hl := g.zoneLbas_lt
  generalize zpp.zoneLbas = L at h8 hl
  set q := lba / L with hq
  set e := (lba + nrLba - 1 - 2 ^ 64) / L with he
  have hqlo : q * L ≤ lba := Nat.div_mul_le_self _ _
  have hqhi : lba < (q + 1) * L := Nat.lt_mul_of_div_lt (Nat.lt_succ_self q) (by omega)
  have helo : e * L ≤ lba + nrLba - 1 - 2 ^ 64 := Nat.div_mul_le_self _ _
  have hesmall : e < 2 ^ 16 := by
    have : e ≤ e * L := Nat.le_mul_of_pos_right _ (by omega)
    omega
  rw [Nat.mod_eq_of_lt (show e < 2 ^ 32 by omega)]
  intro heq
  -- the zone number is a multiple of 2^32 and a small rest, and so is the block
  obtain ⟨a, ha⟩ : ∃ a, q = 2 ^ 32 * a + e := ⟨q / 2 ^ 32, by rw [← heq, Nat.div_add_mod]⟩
  have hmul : q * L = 2 ^ 32 * (a * L) + e * L := by
    rw [ha]
    ring
  rw [Nat.succ_mul] at hqhi
  omega

/-- The page of a block lies in the zone of the block. -/
theorem lpnToZone_lbaToLpn (g : ZnsGeometry zpp spp) (lba : ℕ) :
    zpp.lpnToZone spp (Znsparams.lbaToLpn spp lba) = zpp.lbaToZone spp lba := by
  unfold Znsparams.lpnToZone Znsparams.lbaToLpn Znsparams.lbaToZone
  rw [g.secsPerPg, g.pgsz, g.secsz, Nat.div_div_eq_div_mul]
  have := g.zoneLbas_eq
  unfold Znsparams.zoneLbas at this
  rw [this]

end ZnsGeometry

/-! ### What a zone holds -/

/-- `ZONE_STATE_OPENED_IMPL` or `ZONE_STATE_OPENED_EXPL`. -/
@[simp] def ZoneState.Opened : ZoneState → Prop
  | .openedImpl | .openedExpl => True
  | _ => False

/-- Opened or `ZONE_STATE_CLOSED`. -/
@[simp] def ZoneState.Active : ZoneState → Prop
  | .openedImpl | .openedExpl | .closed => True
  | _ => False

instance : DecidablePred ZoneState.Opened := fun s => by
  cases s <;> unfold ZoneState.Opened <;> infer_instance

instance : DecidablePred ZoneState.Active := fun s => by
  cases s <;> unfold ZoneState.Active <;> infer_instance

/-- A zone holds a resource of the type. -/
@[simp] def ZoneDescriptor.Holds (d : ZoneDescriptor) : ZoneResourceType → Prop
  | .active => d.state.Active
  | .open => d.state.Opened
  | .zrwa => d.state.Active ∧ d.zrwav = true

instance (d : ZoneDescriptor) : DecidablePred d.Holds := fun ty => by
  cases ty <;> unfold ZoneDescriptor.Holds <;> infer_instance

/-- The resources of the type a zone holds. -/
def ZoneDescriptor.units (d : ZoneDescriptor) (ty : ZoneResourceType) : ℕ :=
  if d.Holds ty then 1 else 0

theorem ZoneDescriptor.units_le (d : ZoneDescriptor) (ty : ZoneResourceType) : d.units ty ≤ 1 := by
  unfold units
  split_ifs <;> omega

theorem ZoneDescriptor.units_eq_one {d : ZoneDescriptor} {ty : ZoneResourceType}
    (h : d.Holds ty) : d.units ty = 1 := if_pos h

theorem ZoneDescriptor.units_eq_zero {d : ZoneDescriptor} {ty : ZoneResourceType}
    (h : ¬ d.Holds ty) : d.units ty = 0 := if_neg h

/-- **The sizes of the random write areas:** neither is zero, and the granularity of a flush divides
the window. -/
structure Znsparams.ZrwaSizes (zpp : Znsparams) : Prop where
  fg : 0 < zpp.lbasPerZrwafg
  window : 0 < zpp.lbasPerZrwa
  window_lt : zpp.lbasPerZrwa < 2 ^ 31
  divides : zpp.lbasPerZrwafg ∣ zpp.lbasPerZrwa

/-- The write pointer lies in the zone, and an active zone has blocks left. -/
structure ZoneDescriptor.Inside (d : ZoneDescriptor) : Prop where
  wp_ge : d.zslba ≤ d.wp
  wp_le : d.wp ≤ d.zslba + d.zoneCapacity
  active : d.state.Active → d.wp < d.zslba + d.zoneCapacity

/-- **A descriptor of zone `z`** in its place: an empty zone has nothing written and no random write
area, and the write pointer lies in the zone.  It may leave a zone beyond block 2^32 that has no
random write area, by appends. -/
structure ZoneDescriptor.InPlace (zpp : Znsparams) (z : ℕ) (d : ZoneDescriptor) : Prop where
  zslba : d.zslba = z * zpp.zoneLbas
  capacity : d.zoneCapacity = zpp.zoneLbas
  empty : d.state = .empty → d.wp = d.zslba ∧ d.zrwav = false
  zrwa : d.zrwav = true → zpp.ZrwaSizes
  inside : zpp.Low z ∨ d.zrwav = true → d.Inside

/-- An empty zone is inside. -/
theorem ZoneDescriptor.inside_of_wp {d : ZoneDescriptor} (h : d.wp = d.zslba)
    (hcap : 0 < d.zoneCapacity) : d.Inside :=
  ⟨h.ge, by omega, fun _ => by omega⟩

namespace ZnsFtl

variable {τ : Type} {f f' : ZnsFtl τ} {zid : ℕ} {ty : ZoneResourceType}

/-- The resources of the type the zones hold. -/
def held (f : ZnsFtl τ) (ty : ZoneResourceType) : ℕ :=
  (Finset.range f.zp.nrZones).sum fun z => (f.zoneDescs z).units ty

/-- The counter says how many zones hold a resource. -/
def Balanced (f : ZnsFtl τ) (ty : ZoneResourceType) : Prop :=
  (f.resInfos ty).acquiredCnt = f.held ty

/-- **The invariant of the zones.** -/
structure ZonesOk (f : ZnsFtl τ) : Prop where
  geometry : ZnsGeometry f.zp f.sp
  zones : ∀ z, z < f.zp.nrZones → (f.zoneDescs z).InPlace f.zp z
  total : ∀ ty, (f.resInfos ty).totalCnt = f.zp.nrZones
  balanced : ∀ ty, ty ≠ .zrwa → f.Balanced ty

/-- **The zones lie where `__init_descriptor` has put them.** -/
structure Placed (f : ZnsFtl τ) : Prop where
  geometry : ZnsGeometry f.zp f.sp
  zslba : ∀ z, z < f.zp.nrZones → (f.zoneDescs z).zslba = z * f.zp.zoneLbas
  capacity : ∀ z, z < f.zp.nrZones → (f.zoneDescs z).zoneCapacity = f.zp.zoneLbas

theorem ZonesOk.placed (h : f.ZonesOk) : f.Placed :=
  ⟨h.geometry, fun z hz => (h.zones z hz).zslba, fun z hz => (h.zones z hz).capacity⟩

/-- Only zone `zid` differs, and the counters in `P` that were right follow it. -/
structure Moves (P : ZoneResourceType → Prop) (f f' : ZnsFtl τ) (zid : ℕ) : Prop where
  zp : f'.zp = f.zp
  sp : f'.sp = f.sp
  others : ∀ z, z ≠ zid → f'.zoneDescs z = f.zoneDescs z
  total : ∀ ty, (f'.resInfos ty).totalCnt = (f.resInfos ty).totalCnt
  counts : ∀ ty, P ty → f.Balanced ty →
    (f'.resInfos ty).acquiredCnt + (f.zoneDescs zid).units ty
      = (f.resInfos ty).acquiredCnt + (f'.zoneDescs zid).units ty

theorem held_le (f : ZnsFtl τ) (ty : ZoneResourceType) : f.held ty ≤ f.zp.nrZones := by
  calc f.held ty ≤ (Finset.range f.zp.nrZones).sum fun _ => 1 :=
        Finset.sum_le_sum fun z _ => ZoneDescriptor.units_le _ _
    _ = f.zp.nrZones := by simp

/-- What one zone holds is counted. -/
theorem units_le_held (hz : zid < f.zp.nrZones) (ty : ZoneResourceType) :
    (f.zoneDescs zid).units ty ≤ f.held ty :=
  Finset.single_le_sum (f := fun z => (f.zoneDescs z).units ty) (fun _ _ => Nat.zero_le _)
    (Finset.mem_range.2 hz)

/-- A zone that does not hold a resource leaves one to be taken. -/
theorem held_lt (hz : zid < f.zp.nrZones) (h : ¬ (f.zoneDescs zid).Holds ty) :
    f.held ty < f.zp.nrZones := by
  have hsum := Finset.add_sum_erase (Finset.range f.zp.nrZones)
    (fun z => (f.zoneDescs z).units ty) (Finset.mem_range.2 hz)
  have hrest : ((Finset.range f.zp.nrZones).erase zid).sum (fun z => (f.zoneDescs z).units ty)
      ≤ ((Finset.range f.zp.nrZones).erase zid).card := by
    simpa using Finset.sum_le_card_nsmul _ _ 1 fun z _ => (f.zoneDescs z).units_le ty
  rw [Finset.card_erase_of_mem (Finset.mem_range.2 hz), Finset.card_range] at hrest
  have hzero : (f.zoneDescs zid).units ty = 0 := ZoneDescriptor.units_eq_zero h
  unfold held
  omega

/-- The number of the zones that hold a resource. -/
theorem held_eq_card (f : ZnsFtl τ) (ty : ZoneResourceType) :
    f.held ty = ((Finset.range f.zp.nrZones).filter fun z => (f.zoneDescs z).Holds ty).card :=
  (Finset.card_filter _ _).symm

/-- **One zone changes** and its counter with it. -/
theorem Moves.balanced {P : ZoneResourceType → Prop} (h : Moves P f f' zid)
    (hz : zid < f.zp.nrZones) (hb : f.Balanced ty) (hP : P ty) : f'.Balanced ty := by
  have hsum := Sums.sum_change (f := fun z => (f.zoneDescs z).units ty)
    (g := fun z => (f'.zoneDescs z).units ty) (Finset.mem_range.2 hz)
    fun z _ hne => by rw [h.others z hne]
  have hacq := h.counts ty hP hb
  unfold Balanced held at *
  rw [h.zp]
  omega

/-- **One zone changes** and stays in its place. -/
theorem ZonesOk.moves {P : ZoneResourceType → Prop} (h : f.ZonesOk) (hm : Moves P f f' zid)
    (hz : zid < f.zp.nrZones) (hP : ∀ ty, ty ≠ .zrwa → P ty)
    (hplace : (f'.zoneDescs zid).InPlace f.zp zid) : f'.ZonesOk := by
  obtain ⟨h1, h2, h3, h4⟩ := h
  refine ⟨by rwa [hm.zp, hm.sp], fun z hlt => ?_, fun ty => ?_, fun ty hty => ?_⟩
  · rw [hm.zp] at hlt ⊢
    by_cases hne : z = zid
    · rw [hne]
      exact hplace
    · rw [hm.others z hne]
      exact h2 z hlt
  · rw [hm.total, hm.zp]
    exact h3 ty
  · exact hm.balanced hz (h4 ty hty) (hP ty hty)

theorem Moves.refl (P : ZoneResourceType → Prop) (f : ZnsFtl τ) (zid : ℕ) : Moves P f f zid :=
  ⟨rfl, rfl, fun _ _ => rfl, fun _ => rfl, fun _ _ _ => rfl⟩

/-! ### The counters -/

@[simp] theorem zp_setAcquiredCnt (c : ℕ) : (f.setAcquiredCnt ty c).zp = f.zp := rfl

@[simp] theorem sp_setAcquiredCnt (c : ℕ) : (f.setAcquiredCnt ty c).sp = f.sp := rfl

@[simp] theorem zoneDescs_setAcquiredCnt (c : ℕ) :
    (f.setAcquiredCnt ty c).zoneDescs = f.zoneDescs := rfl

@[simp] theorem totalCnt_setAcquiredCnt (c : ℕ) (ty' : ZoneResourceType) :
    ((f.setAcquiredCnt ty c).resInfos ty').totalCnt = (f.resInfos ty').totalCnt := by
  show (Function.update f.resInfos ty _ ty').totalCnt = _
  by_cases h : ty' = ty
  · subst h
    rw [Function.update_self]
  · rw [Function.update_of_ne h]

@[simp] theorem acquiredCnt_setAcquiredCnt (c : ℕ) (ty' : ZoneResourceType) :
    ((f.setAcquiredCnt ty c).resInfos ty').acquiredCnt
      = if ty' = ty then c else (f.resInfos ty').acquiredCnt := by
  show (Function.update f.resInfos ty _ ty').acquiredCnt = _
  split_ifs with h
  · subst h
    rw [Function.update_self]
  · rw [Function.update_of_ne h]

@[simp] theorem zp_releaseZoneResource : (f.releaseZoneResource ty).zp = f.zp := rfl

@[simp] theorem sp_releaseZoneResource : (f.releaseZoneResource ty).sp = f.sp := rfl

@[simp] theorem zoneDescs_releaseZoneResource :
    (f.releaseZoneResource ty).zoneDescs = f.zoneDescs := rfl

@[simp] theorem totalCnt_releaseZoneResource (ty' : ZoneResourceType) :
    ((f.releaseZoneResource ty).resInfos ty').totalCnt = (f.resInfos ty').totalCnt :=
  totalCnt_setAcquiredCnt _ _

@[simp] theorem acquiredCnt_releaseZoneResource (ty' : ZoneResourceType) :
    ((f.releaseZoneResource ty).resInfos ty').acquiredCnt
      = if ty' = ty then u32Pred (f.resInfos ty).acquiredCnt else (f.resInfos ty').acquiredCnt :=
  acquiredCnt_setAcquiredCnt _ _

@[simp] theorem zp_setZone (g : ZoneDescriptor → ZoneDescriptor) : (f.setZone zid g).zp = f.zp := rfl

@[simp] theorem sp_setZone (g : ZoneDescriptor → ZoneDescriptor) : (f.setZone zid g).sp = f.sp := rfl

@[simp] theorem resInfos_setZone (g : ZoneDescriptor → ZoneDescriptor) :
    (f.setZone zid g).resInfos = f.resInfos := rfl

@[simp] theorem zoneDescs_setZone (g : ZoneDescriptor → ZoneDescriptor) :
    (f.setZone zid g).zoneDescs zid = g (f.zoneDescs zid) := Function.update_self ..

theorem zoneDescs_setZone_of_ne {z : ℕ} (h : z ≠ zid) (g : ZoneDescriptor → ZoneDescriptor) :
    (f.setZone zid g).zoneDescs z = f.zoneDescs z := Function.update_of_ne h ..

@[simp] theorem zp_changeZoneState (s : ZoneState) : (f.changeZoneState zid s).zp = f.zp := rfl

@[simp] theorem sp_changeZoneState (s : ZoneState) : (f.changeZoneState zid s).sp = f.sp := rfl

@[simp] theorem resInfos_changeZoneState (s : ZoneState) :
    (f.changeZoneState zid s).resInfos = f.resInfos := rfl

@[simp] theorem zoneDescs_changeZoneState (s : ZoneState) :
    (f.changeZoneState zid s).zoneDescs zid = { f.zoneDescs zid with state := s } :=
  zoneDescs_setZone _

theorem zoneDescs_changeZoneState_of_ne {z : ℕ} (h : z ≠ zid) (s : ZoneState) :
    (f.changeZoneState zid s).zoneDescs z = f.zoneDescs z := zoneDescs_setZone_of_ne h _

@[simp] theorem zp_setBuffer (b : ZnsBuffer) (buf : Buffer) : (f.setBuffer b buf).zp = f.zp := by
  cases b <;> rfl

@[simp] theorem sp_setBuffer (b : ZnsBuffer) (buf : Buffer) : (f.setBuffer b buf).sp = f.sp := by
  cases b <;> rfl

@[simp] theorem resInfos_setBuffer (b : ZnsBuffer) (buf : Buffer) :
    (f.setBuffer b buf).resInfos = f.resInfos := by
  cases b <;> rfl

@[simp] theorem zoneDescs_setBuffer (b : ZnsBuffer) (buf : Buffer) :
    (f.setBuffer b buf).zoneDescs = f.zoneDescs := by
  cases b <;> rfl

theorem Balanced.congr (h : f.Balanced ty) (hzp : f'.zp = f.zp)
    (hd : f'.zoneDescs = f.zoneDescs) (hr : f'.resInfos = f.resInfos) : f'.Balanced ty := by
  unfold Balanced held at *
  rwa [hzp, hd, hr]

/-- The invariant is about the geometry, the zones and the counters. -/
theorem ZonesOk.congr (h : f.ZonesOk) (hzp : f'.zp = f.zp) (hsp : f'.sp = f.sp)
    (hd : f'.zoneDescs = f.zoneDescs) (hr : f'.resInfos = f.resInfos) : f'.ZonesOk := by
  refine ⟨?_, ?_, ?_, fun ty hty => (h.balanced ty hty).congr hzp hd hr⟩
  · rw [hzp, hsp]
    exact h.geometry
  · rw [hzp, hd]
    exact h.zones
  · rw [hzp, hr]
    exact h.total

end ZnsFtl

end NvmeVirt
