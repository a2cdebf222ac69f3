/-
# The limits of a zoned namespace, advertised and enforced

`__nvmev_admin_identify_zns_namespace` of `admin.c` reports the zone counts of
`struct znsparams`, `acquire_zone_resource` enforces those of `res_infos`.
`zns_init_params` takes the former from the structure it assigns and from the
configuration, `__init_resource` the latter from the number of zones.
-/

import NvmeVirt.Zns.ZoneMachine

namespace NvmeVirt

open Outcome

/-- `struct nvme_id_zns_ns`, the fields that are set, with `lbaf[0]`. -/
structure NvmeIdZnsNs where
  zoc : ℕ
  ozcs : ℕ
  mar : ℕ
  mor : ℕ
  numzrwa : ℕ
  zrwafg : ℕ
  zrwasz : ℕ
  zrwacap : ℕ
  zsze : ℕ
  zdes : ℕ
  deriving DecidableEq, Repr

/-- `OZCS_ZRWA`. -/
def ozcsZrwa : ℕ := 1 <<< 1

/-- `ZRWACAP_EXPFLUSHSUP`. -/
def zrwacapExpflushsup : ℕ := 1 <<< 0

/-- What `__nvmev_admin_identify_zns_namespace` reports; `zrwafg` and `zrwasz` have 16 bits. -/
def Znsparams.identify (zpp : Znsparams) : NvmeIdZnsNs :=
  let ns : NvmeIdZnsNs := {
    zoc := 0, ozcs := 0, mar := u32Pred zpp.nrActiveZones, mor := u32Pred zpp.nrOpenZones
    numzrwa := 0, zrwafg := 0, zrwasz := 0, zrwacap := 0, zsze := byteToLba zpp.zoneSize, zdes := 0 }
  if 0 < zpp.nrZrwaZones then
    { ns with
      ozcs := ns.ozcs ||| ozcsZrwa
      numzrwa := u32Pred zpp.nrZrwaZones
      zrwafg := zpp.zrwafgSize % 2 ^ 16
      zrwasz := zpp.zrwaSize % 2 ^ 16
      zrwacap := ns.zrwacap ||| zrwacapExpflushsup }
  else ns

/-- The zones a report allows to hold a resource of the type at once; the counts are zero-based. -/
def NvmeIdZnsNs.limit (id : NvmeIdZnsNs) : ZoneResourceType → ℕ
  | .active => u32 (id.mar + 1)
  | .open => u32 (id.mor + 1)
  | .zrwa => if id.ozcs &&& ozcsZrwa ≠ 0 then u32 (id.numzrwa + 1) else 0

/-- The zones the parameters allow to hold a resource of the type at once. -/
def Znsparams.limit (zpp : Znsparams) : ZoneResourceType → ℕ
  | .active => zpp.nrActiveZones
  | .open => zpp.nrOpenZones
  | .zrwa => zpp.nrZrwaZones

theorem u32_u32Pred_add_one {n : ℕ} (h : n < 2 ^ 32) : u32 (u32Pred n + 1) = n := by
  unfold u32Pred u32
  omega

/-- **The report says what the parameters say.** -/
theorem Znsparams.identify_limit {zpp : Znsparams} (h : ∀ ty, zpp.limit ty < 2 ^ 32)
    (ty : ZoneResourceType) : zpp.identify.limit ty = zpp.limit ty := by
  have hty := h ty
  unfold identify NvmeIdZnsNs.limit
  cases ty with
  | active =>
    dsimp only
    split_ifs <;> exact u32_u32Pred_add_one hty
  | «open» =>
    dsimp only
    split_ifs <;> exact u32_u32Pred_add_one hty
  | zrwa =>
    have hbit : (0 ||| ozcsZrwa) &&& ozcsZrwa ≠ 0 := by decide
    have hnone : ¬ (0 &&& ozcsZrwa ≠ 0) := by decide
    by_cases hpos : 0 < zpp.nrZrwaZones
    · simp only [if_pos hpos, if_pos hbit]
      exact u32_u32Pred_add_one hty
    · simp only [if_neg hpos, if_neg hnone]
      have hpos : ¬ 0 < zpp.limit .zrwa := hpos
      omega

section Limits

variable {τ : Type} (clk : SsdClock τ)

/-- **The advertised limits are the enforced ones:** the report depends on the capacity and the
configuration alone, it says what `acquire_zone_resource` enforces, and no run leaves more zones
with a resource than it says, or a zone with a random write area where it says none. -/
structure ZnsFtl.LimitsEnforced (f : ZnsFtl τ) (size : ℕ) (zcfg : ZnsConfigs) : Prop where
  zones : ∀ ty, ty ≠ .zrwa → f.zp.identify.limit ty = u32 (size / zcfg.zoneSize)
  zrwa : f.zp.identify.limit .zrwa = zcfg.maxZrwaZones
  total : ∀ ty, (f.resInfos ty).totalCnt = f.zp.identify.limit ty
  held : ∀ steps f', runList (ZnsFtl.step clk) f steps = .ok f' → ∀ ty,
    ((Finset.range f.zp.nrZones).filter fun z => (f'.zoneDescs z).Holds ty).card
      ≤ f.zp.identify.limit ty
  noZrwa : ∀ steps f', runList (ZnsFtl.step clk) f steps = .ok f' → f.zp.identify.limit .zrwa = 0 →
    ∀ z, z < f.zp.nrZones → (f'.zoneDescs z).zrwav = false

variable {size : ℕ} {cfg : FtlConfigs} {zcfg : ZnsConfigs} {prior : Znsparams} {clock : τ}
  {storage reportBuffer : Mem} {f : ZnsFtl τ}

/-- The limits in the parameters of a namespace, and those in its table of resources. -/
theorem znsInitNamespace_limits
    (h : znsInitNamespace size cfg zcfg prior clock storage reportBuffer = .ok f) :
    f.zp.nrZones = u32 (size / zcfg.zoneSize) ∧
      (∀ ty, f.zp.limit ty = if ty = .zrwa then zcfg.maxZrwaZones else prior.nrZones) ∧
      ∀ ty, (f.resInfos ty).totalCnt = f.zp.nrZones := by
  obtain ⟨spp, hspp, hzpp, hf⟩ := znsInitNamespace_eq h
  have hres : ∀ ty, (f.resInfos ty).totalCnt = f.zp.nrZones := fun ty => by
    rw [hf]
    rfl
  unfold znsInitParams at hzpp
  simp only [bind_eq_ok, defined_eq_ok, nvmevAssert_eq_ok] at hzpp
  obtain ⟨_, -, _, -, _, -, _, -, hzpp⟩ := hzpp
  have hzpp := Except.ok.inj hzpp
  refine ⟨by rw [← hzpp], fun ty => ?_, hres⟩
  rw [← hzpp]
  cases ty <;> rfl

/-- **Exactly when the advertised limits are the enforced ones:** the structure held the number of
zones before it was assigned, and as many random write areas are configured. -/
theorem limitsEnforced_iff
    (h : znsInitNamespace size cfg zcfg prior clock storage reportBuffer = .ok f)
    (hprior : prior.nrZones < 2 ^ 32) (hmax : zcfg.maxZrwaZones < 2 ^ 32) :
    f.LimitsEnforced clk size zcfg ↔
      prior.nrZones = u32 (size / zcfg.zoneSize) ∧
        zcfg.maxZrwaZones = u32 (size / zcfg.zoneSize) := by
  obtain ⟨hnr, hlimit, htotal⟩ := znsInitNamespace_limits h
  have hid : ∀ ty, f.zp.identify.limit ty
      = if ty = .zrwa then zcfg.maxZrwaZones else prior.nrZones := by
    intro ty
    rw [Znsparams.identify_limit fun ty => ?_]
    · exact hlimit ty
    · rw [hlimit]
      split_ifs <;> assumption
  constructor
  · intro he
    have hactive := he.zones .active (by decide)
    have hzrwa := he.total .zrwa
    rw [hid, if_neg (by decide)] at hactive
    rw [htotal, hnr, hid, if_pos rfl] at hzrwa
    exact ⟨hactive, hzrwa.symm⟩
  · rintro ⟨hnrz, hzrwa⟩
    have hall : ∀ ty, f.zp.identify.limit ty = f.zp.nrZones := by
      intro ty
      rw [hid, hnr]
      split_ifs
      · exact hzrwa
      · exact hnrz
    refine ⟨fun ty _ => by rw [hall, hnr], by rw [hid, if_pos rfl], fun ty => by rw [htotal, hall],
      fun steps f' _ ty => ?_, fun steps f' _ h0 z hz => ?_⟩
    · rw [hall]
      exact (Finset.card_filter_le _ _).trans_eq (Finset.card_range _)
    · rw [hall] at h0
      omega

end Limits

/-- The small namespace has its limits enforced: the structure its parameters were assigned to
held its own. -/
theorem twoZones_limitsEnforced : ∃ f, twoZones = .ok f ∧
    f.LimitsEnforced idleClock 16384 twoPageZones := by
  have hcheck : twoZones.toOption.any (fun _ => true) = true := by decide +kernel
  obtain ⟨f, hinit, -⟩ := exists_ok_of_any hcheck
  exact ⟨f, hinit, (limitsEnforced_iff idleClock hinit (by decide) (by decide)).2 (by decide)⟩

/-- Zones without random write areas. -/
def plainZones : ZnsConfigs := { twoPageZones with maxZrwaZones := 0, zrwaBufferSize := 0 }

/-- A structure of zeros. -/
def zeroPrior : Znsparams where
  nrZones := 0
  nrActiveZones := 0
  nrOpenZones := 0
  diesPerZone := 0
  zoneSize := 0
  zoneWbSize := 0
  nrZrwaZones := 0
  zrwafgSize := 0
  zrwaSize := 0
  zrwaBufferSize := 0
  lbasPerZrwafg := 0
  lbasPerZrwa := 0

/-- **A namespace of two zones reports that it supports no active zone** and no random write areas,
enforces a limit of two for both, and opens a zone with a random write area. -/
theorem plainZones_not_limitsEnforced : ∃ f f',
    znsInitNamespace 16384 oneDie plainZones zeroPrior () (fun _ => 0) (fun _ => 0) = .ok f ∧
    f.zp.identify.limit .active = 0 ∧ f.zp.identify.limit .zrwa = 0 ∧
    (f.resInfos .active).totalCnt = 2 ∧ (f.resInfos .zrwa).totalCnt = 2 ∧
    runList (ZnsFtl.step idleClock) f [.command (.mgmtSend (znsRequest .zoneMgmtSend 0 0 0x203))]
      = .ok f' ∧
    (f'.zoneDescs 0).zrwav = true ∧ ¬ f.LimitsEnforced idleClock 16384 plainZones := by
  have hcheck : (znsInitNamespace 16384 oneDie plainZones zeroPrior () (fun _ => 0)
      (fun _ => 0)).toOption.any (fun f => (runList (ZnsFtl.step idleClock) f
        [.command (.mgmtSend (znsRequest .zoneMgmtSend 0 0 0x203))]).toOption.any fun (f' : ZnsFtl Unit) =>
          decide (f.zp.identify.limit .active = 0 ∧ f.zp.identify.limit .zrwa = 0 ∧
            (f.resInfos .active).totalCnt = 2 ∧ (f.resInfos .zrwa).totalCnt = 2 ∧
            (f'.zoneDescs 0).zrwav = true)) = true := by decide +kernel
  obtain ⟨f, hinit, hp⟩ := exists_ok_of_any hcheck
  obtain ⟨f', hrun, hp⟩ := exists_ok_of_any hp
  obtain ⟨h1, h2, h3, h4, h5⟩ := of_decide_eq_true hp
  refine ⟨f, f', hinit, h1, h2, h3, h4, hrun, h5, fun h => ?_⟩
  have hzrwa := h.total .zrwa
  omega

end NvmeVirt
