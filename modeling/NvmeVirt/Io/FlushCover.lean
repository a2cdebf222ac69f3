/-
# Flushes of the simple FTL

A flush of `simple_ftl.c` ends with the last of the I/O units.  `__schedule_io_units`
starts a command no earlier than its first unit is free, and writes the running time
of the command over whatever the other units were busy with.
-/

import NvmeVirt.Io.SimpleFtl

namespace NvmeVirt

open Outcome

variable {cfg : IoUnitConfig} {stat stat' : ℕ → ℕ} {ns ns' : SimpleNs} {req : NvmevRequest}

/-! ### The loop over the units -/

/-- The number of units a command is spread over, counted with repetition. -/
def IoUnitConfig.rounds (cfg : IoUnitConfig) (length : ℕ) : ℕ :=
  (length + (1 <<< cfg.ioUnitShift) - 1) / (1 <<< cfg.ioUnitShift)

/-- A round takes one unit off the length. -/
theorem IoUnitConfig.rounds_sub {length : ℕ} (h : 1 <<< cfg.ioUnitShift < length) :
    cfg.rounds length = cfg.rounds (length - (1 <<< cfg.ioUnitShift)) + 1 := by
  have hpos : 0 < 1 <<< cfg.ioUnitShift := by
    rw [Nat.one_shiftLeft]
    exact Nat.two_pow_pos _
  unfold IoUnitConfig.rounds
  generalize 1 <<< cfg.ioUnitShift = unit at h hpos
  rw [← Nat.add_div_right _ hpos]
  exact congrArg (· / unit) (by omega)

/-- What is at most a unit takes one round. -/
theorem IoUnitConfig.rounds_one {length : ℕ} (hpos : 0 < length)
    (h : length ≤ 1 <<< cfg.ioUnitShift) : cfg.rounds length = 1 := by
  unfold IoUnitConfig.rounds
  exact Nat.div_eq_of_lt_le (by omega) (by omega)

/-- Units are taken in turn. -/
theorem nextUnit_eq {n u : ℕ} (hu : u < n) : (if n ≤ u + 1 then 0 else u + 1) = (u + 1) % n := by
  by_cases h : n ≤ u + 1
  · obtain rfl : n = u + 1 := by omega
    rw [if_pos h, Nat.mod_self]
  · rw [if_neg h, Nat.mod_eq_of_lt (by omega)]

/-- A unit does not come up again before all others have. -/
theorem turn_ne {n u j : ℕ} (hu : u < n) (hj : j + 1 < n) : ((u + 1) % n + j) % n ≠ u := by
  rw [Nat.mod_add_mod]
  intro h
  have hcongr : (u + (j + 1)) % n = u % n := by
    rw [Nat.mod_eq_of_lt hu, ← Nat.add_assoc, Nat.add_right_comm]
    exact h
  have hmod : (j + 1) % n = 0 % n := Nat.ModEq.add_left_cancel' u hcongr
  rw [Nat.mod_eq_of_lt hj, Nat.zero_mod] at hmod
  omega

/-- **The loop of `__schedule_io_units`:** a unit is left with the running time of the last round
that came to it. -/
theorem scheduleRounds_spec {latency trailing fuel : ℕ} (stat : ℕ → ℕ)
    (latest ioUnit nrIoUnits length : ℕ) (hunit : ioUnit < cfg.nrIoUnits) (hpos : 0 < length) (hfuel : length ≤ fuel) :
    let R := cfg.rounds length
    let r := scheduleRounds cfg latency trailing fuel stat latest ioUnit nrIoUnits length
    r.2 = latest + R * latency ∧
      (∀ x, (∀ j < R, (ioUnit + j) % cfg.nrIoUnits ≠ x) → r.1 x = stat x) ∧
      ∀ j < R, R ≤ j + cfg.nrIoUnits → r.1 ((ioUnit + j) % cfg.nrIoUnits) =
        latest + (j + 1) * latency + if j < nrIoUnits then trailing else 0 := by
  induction fuel generalizing stat latest ioUnit nrIoUnits length with
  | zero => omega
  | succ fuel ih =>
    intro R r
    have hself : (ioUnit + 0) % cfg.nrIoUnits = ioUnit := by
      rw [Nat.add_zero, Nat.mod_eq_of_lt hunit]
    set stat₁ := Function.update stat ioUnit
      (if 0 < nrIoUnits then latest + latency + trailing else latest + latency) with hstat₁
    have hfirst : stat₁ ioUnit =
        latest + (0 + 1) * latency + if 0 < nrIoUnits then trailing else 0 := by
      rw [hstat₁, Function.update_self]
      split_ifs <;> omega
    by_cases hlast : length ≤ 1 <<< cfg.ioUnitShift
    · have hR : R = 1 := IoUnitConfig.rounds_one hpos hlast
      have hr : r = (stat₁, latest + latency) := by
        show scheduleRounds _ _ _ _ _ _ _ _ _ = _
        unfold scheduleRounds
        exact if_neg (by rw [Nat.min_eq_left hlast]; omega)
      rw [hr, hR]
      refine ⟨by omega, fun x hx => ?_, fun j hj _ => ?_⟩
      · exact Function.update_of_ne (hself ▸ (hx 0 (by omega)).symm) _ _
      · obtain rfl : j = 0 := by omega
        rw [hself]
        exact hfirst
    · have hlong : 1 <<< cfg.ioUnitShift < length := Nat.lt_of_not_le hlast
      have hunitPos : 0 < 1 <<< cfg.ioUnitShift := by
        rw [Nat.one_shiftLeft]
        exact Nat.two_pow_pos _
      have hR : R = cfg.rounds (length - (1 <<< cfg.ioUnitShift)) + 1 :=
        IoUnitConfig.rounds_sub hlong
      have hr : r = scheduleRounds cfg latency trailing fuel stat₁ (latest + latency)
          ((ioUnit + 1) % cfg.nrIoUnits) (nrIoUnits - 1) (length - (1 <<< cfg.ioUnitShift)) := by
        show scheduleRounds _ _ _ _ _ _ _ _ _ = _
        rw [scheduleRounds, Nat.min_eq_right hlong.le, nextUnit_eq hunit]
        exact if_pos (by omega)
      have hnext : (ioUnit + 1) % cfg.nrIoUnits < cfg.nrIoUnits := Nat.mod_lt _ (by omega)
      obtain ⟨hend, hkeep, hlast'⟩ := ih stat₁ (latest + latency) _ (nrIoUnits - 1)
        (length - (1 <<< cfg.ioUnitShift)) hnext (by omega) (by omega)
      rw [← hr] at hend hkeep hlast'
      generalize cfg.rounds (length - (1 <<< cfg.ioUnitShift)) = R' at hR hend hkeep hlast'
      have hturn : ∀ j, ((ioUnit + 1) % cfg.nrIoUnits + j) % cfg.nrIoUnits =
          (ioUnit + (j + 1)) % cfg.nrIoUnits := by
        intro j
        rw [Nat.mod_add_mod]
        exact congrArg (· % cfg.nrIoUnits) (by omega)
      rw [hR]
      refine ⟨?_, fun x hx => ?_, fun j hj hj' => ?_⟩
      · rw [hend]
        ring
      · rw [hkeep x fun j hj => hturn j ▸ hx (j + 1) (by omega)]
        exact Function.update_of_ne (hself ▸ (hx 0 (by omega)).symm) _ _
      · cases j with
        | zero =>
          rw [hself, hkeep ioUnit fun k hk => turn_ne hunit (by omega)]
          exact hfirst
        | succ j =>
          rw [← hturn, hlast' j (by omega) (by omega)]
          have hbound : j < nrIoUnits - 1 ↔ j + 1 < nrIoUnits := by omega
          simp only [hbound]
          ring

/-- A unit a command comes to has a last round. -/
theorem exists_last_round {n u R j : ℕ} (hn : 0 < n) (hj : j < R) :
    ∃ k < R, R ≤ k + n ∧ (u + k) % n = (u + j) % n := by
  have hdiv := Nat.div_add_mod (R - 1 - j) n
  have hmod := Nat.mod_lt (R - 1 - j) hn
  refine ⟨j + n * ((R - 1 - j) / n), by omega, by omega, ?_⟩
  rw [← Nat.add_assoc, Nat.add_mul_mod_self_left]

/-! ### One command -/

/-- The unit a command starts with. -/
def IoUnitConfig.firstUnit (cfg : IoUnitConfig) (lba : ℕ) : ℕ :=
  (lba >>> (cfg.ioUnitShift - 9)) % cfg.nrIoUnits

/-- **No unit is busy beyond the time the command leaves it:** the command starts when its first
unit is free and takes `latency` a round, and a first lap adds `trailing`. -/
def OutlastsUnits (cfg : IoUnitConfig) (stat : ℕ → ℕ) (req : NvmevRequest) : Prop :=
  let R := cfg.rounds req.cmd.ioLength
  let ioUnit := cfg.firstUnit req.cmd.slba
  let (delay, latency, trailing) := cfg.times req.cmd.opcode
  ∀ j < R, R ≤ j + cfg.nrIoUnits → stat ((ioUnit + j) % cfg.nrIoUnits) ≤
    max req.nsecsStart (stat ioUnit) + delay + (j + 1) * latency +
      if j < cfg.nrIoUnits then trailing else 0

theorem ioLength_pos (cmd : NvmeRwCommand) : 0 < cmd.ioLength := by
  unfold NvmeRwCommand.ioLength
  rw [Nat.shiftLeft_eq]
  exact Nat.mul_pos (Nat.succ_pos _) (by decide)

/-- **`__schedule_io_units` lowers no unit exactly when the command outlasts what they were busy
with;** its target is what it leaves one of them with, or less. -/
theorem scheduleIoUnits_spec (hcfg : 0 < cfg.nrIoUnits ∧ 9 ≤ cfg.ioUnitShift) (stat : ℕ → ℕ)
    (req : NvmevRequest) :
    ∃ stat' t, scheduleIoUnits cfg stat req.cmd.opcode req.cmd.slba req.cmd.ioLength
        req.nsecsStart = .ok (stat', t) ∧
      ((∀ x, stat x ≤ stat' x) ↔ OutlastsUnits cfg stat req) ∧
      ∃ x < cfg.nrIoUnits, t ≤ stat' x := by
  have hn := hcfg.1
  have hunit : cfg.firstUnit req.cmd.slba < cfg.nrIoUnits := Nat.mod_lt _ hn
  have hlen := ioLength_pos req.cmd
  unfold scheduleIoUnits OutlastsUnits
  rw [defined_bind hcfg]
  obtain ⟨delay, latency, trailing⟩ := cfg.times req.cmd.opcode
  dsimp only
  change ∃ stat' t, Except.ok (scheduleRounds cfg latency trailing _ stat
    (max req.nsecsStart (stat (cfg.firstUnit req.cmd.slba)) + delay)
    (cfg.firstUnit req.cmd.slba) (min cfg.nrIoUnits (cfg.rounds req.cmd.ioLength)) _) = _ ∧ _
  have hspec := @scheduleRounds_spec cfg latency trailing req.cmd.ioLength stat
    (max req.nsecsStart (stat (cfg.firstUnit req.cmd.slba)) + delay) _
    (min cfg.nrIoUnits (cfg.rounds req.cmd.ioLength)) _ hunit hlen (Nat.le_refl _)
  obtain ⟨hend, hkeep, hlast⟩ := hspec
  set start := max req.nsecsStart (stat (cfg.firstUnit req.cmd.slba)) + delay
  generalize scheduleRounds cfg latency trailing req.cmd.ioLength stat start
    (cfg.firstUnit req.cmd.slba) _ req.cmd.ioLength = r at hend hkeep hlast
  have hR : 0 < cfg.rounds req.cmd.ioLength := by
    by_cases hle : req.cmd.ioLength ≤ 1 <<< cfg.ioUnitShift
    · rw [IoUnitConfig.rounds_one hlen hle]
      decide
    · rw [IoUnitConfig.rounds_sub (Nat.lt_of_not_le hle)]
      exact Nat.succ_pos _
  generalize cfg.rounds req.cmd.ioLength = R at hend hkeep hlast hR
  have hvalue : ∀ j < R, R ≤ j + cfg.nrIoUnits →
      r.1 ((cfg.firstUnit req.cmd.slba + j) % cfg.nrIoUnits) =
        start + (j + 1) * latency + if j < cfg.nrIoUnits then trailing else 0 := by
    intro j hj hj'
    have hbound : j < min cfg.nrIoUnits R ↔ j < cfg.nrIoUnits := by omega
    rw [hlast j hj hj']
    simp only [hbound]
  refine ⟨r.1, r.2, rfl, ⟨fun h j hj hj' => hvalue j hj hj' ▸ h _, fun h x => ?_⟩, ?_⟩
  · by_cases hx : ∃ j < R, (cfg.firstUnit req.cmd.slba + j) % cfg.nrIoUnits = x
    · obtain ⟨j, hj, rfl⟩ := hx
      obtain ⟨k, hk, hk', hjk⟩ := exists_last_round (u := cfg.firstUnit req.cmd.slba) hn hj
      rw [← hjk, hvalue k hk hk']
      exact h k hk hk'
    · rw [hkeep x fun j hj he => hx ⟨j, hj, he⟩]
  · refine ⟨(cfg.firstUnit req.cmd.slba + (R - 1)) % cfg.nrIoUnits, Nat.mod_lt _ hn, ?_⟩
    rw [hend, hvalue (R - 1) (by omega) (by omega), Nat.sub_add_cancel hR]
    exact Nat.le_add_right _ _

/-! ### The flush -/

/-- A flush ends no earlier than any unit. -/
theorem le_scheduleFlush_iff {t : ℕ} :
    t ≤ scheduleFlush cfg stat ↔ t = 0 ∨ ∃ x < cfg.nrIoUnits, t ≤ stat x := by
  unfold scheduleFlush
  induction cfg.nrIoUnits with
  | zero => simp
  | succ n ih =>
    rw [List.range_succ, List.foldl_append, List.foldl_cons, List.foldl_nil, le_max_iff, ih]
    constructor
    · rintro ((h0 | ⟨x, hx, hle⟩) | hn)
      · exact .inl h0
      · exact .inr ⟨x, by omega, hle⟩
      · exact .inr ⟨n, by omega, hn⟩
    · rintro (h0 | ⟨x, hx, hle⟩)
      · exact .inl (.inl h0)
      · rcases Nat.lt_succ_iff_lt_or_eq.1 hx with hx | rfl
        · exact .inl (.inr ⟨x, hx, hle⟩)
        · exact .inr hle

/-- Units that are busy longer make the flush no shorter. -/
theorem scheduleFlush_mono (cfg : IoUnitConfig) (h : ∀ x, stat x ≤ stat' x) :
    scheduleFlush cfg stat ≤ scheduleFlush cfg stat' := by
  rcases le_scheduleFlush_iff.1 (Nat.le_refl (scheduleFlush cfg stat)) with h0 | ⟨x, hx, hle⟩
  · exact h0 ▸ Nat.zero_le _
  · exact le_scheduleFlush_iff.2 (.inr ⟨x, hx, hle.trans (h x)⟩)

/-! ### Sequences of commands -/

/-- A sequence of commands, with the target times they get. -/
def scheduleAll (cfg : IoUnitConfig) : SimpleNs → List NvmevRequest →
    Except Fault (SimpleNs × List ℕ)
  | ns, [] => .ok (ns, [])
  | ns, req :: reqs => do
    let out ← simpleProcNvmeIoCmd cfg ns req
    let r ← scheduleAll cfg out.ns reqs
    .ok (r.1, out.ret.elim 0 NvmevResult.nsecsTarget :: r.2)

/-- Every command of a sequence outlasts what its units are busy with when it comes. -/
def AllOutlast (cfg : IoUnitConfig) : SimpleNs → List NvmevRequest → Prop
  | _, [] => True
  | ns, req :: reqs => OutlastsUnits cfg ns.ioUnitStat req ∧
      ∀ out, simpleProcNvmeIoCmd cfg ns req = .ok out → AllOutlast cfg out.ns reqs

/-- A flush behind the commands gets a target no earlier than theirs. -/
def FlushCovers (cfg : IoUnitConfig) (ns : SimpleNs) (reqs : List NvmevRequest)
    (flush : NvmevRequest) : Prop :=
  ∃ ns' targets out ret, scheduleAll cfg ns reqs = .ok (ns', targets) ∧
    simpleProcNvmeIoCmd cfg ns' flush = .ok out ∧ out.ret = some ret ∧
    ∀ t ∈ targets, t ≤ ret.nsecsTarget

/-- A read or a write. -/
def NvmevRequest.IsRw (req : NvmevRequest) : Prop :=
  req.cmd.opcode = .read ∨ req.cmd.opcode = .write

/-- **One command:** a unit is busy until its target at least. -/
theorem simpleProc_rw (hcfg : 0 < cfg.nrIoUnits ∧ 9 ≤ cfg.ioUnitShift) (hrw : req.IsRw)
    (ns : SimpleNs) :
    ∃ out ret, simpleProcNvmeIoCmd cfg ns req = .ok out ∧ out.ret = some ret ∧
      ((∀ x, ns.ioUnitStat x ≤ out.ns.ioUnitStat x) ↔ OutlastsUnits cfg ns.ioUnitStat req) ∧
      ret.nsecsTarget ≤ scheduleFlush cfg out.ns.ioUnitStat := by
  obtain ⟨stat', t, hrun, hiff, hbusy⟩ :=
    scheduleIoUnits_spec hcfg ns.ioUnitStat req
  have hproc : simpleProcNvmeIoCmd cfg ns req = .ok {
      ns := { ns with ioUnitStat := stat' }, cmd := req.cmd, ops := []
      ret := some { status := 0, nsecsTarget := t } } := by
    unfold simpleProcNvmeIoCmd
    rcases hrw with hop | hop <;> simp only [hop] at hrun ⊢ <;> rw [hrun] <;> rfl
  exact ⟨_, _, hproc, rfl, hiff, le_scheduleFlush_iff.2 (.inr hbusy)⟩

/-- The flush time never goes back, and all targets are under it. -/
theorem scheduleAll_covered (hcfg : 0 < cfg.nrIoUnits ∧ 9 ≤ cfg.ioUnitShift)
    {reqs : List NvmevRequest} (hrw : ∀ req ∈ reqs, req.IsRw) (h : AllOutlast cfg ns reqs) :
    ∃ ns' targets, scheduleAll cfg ns reqs = .ok (ns', targets) ∧
      scheduleFlush cfg ns.ioUnitStat ≤ scheduleFlush cfg ns'.ioUnitStat ∧
      ∀ t ∈ targets, t ≤ scheduleFlush cfg ns'.ioUnitStat := by
  induction reqs generalizing ns with
  | nil => exact ⟨ns, [], rfl, Nat.le_refl _, by simp⟩
  | cons req reqs ih =>
    obtain ⟨out, ret, hproc, hret, hiff, htarget⟩ :=
      simpleProc_rw hcfg (hrw req List.mem_cons_self) ns
    obtain ⟨ns', targets, hall, hmono, hcover⟩ :=
      ih (fun r hr => hrw r (List.mem_cons_of_mem _ hr)) (h.2 out hproc)
    have hstep := scheduleFlush_mono cfg (hiff.2 h.1)
    refine ⟨ns', ret.nsecsTarget :: targets, ?_, hstep.trans hmono, ?_⟩
    · unfold scheduleAll
      rw [hproc, ok_bind, hall, ok_bind, hret]
      rfl
    · intro t ht
      rcases List.mem_cons.1 ht with rfl | ht
      · exact htarget.trans hmono
      · exact hcover t ht

/-- An idle namespace. -/
def idleNs : SimpleNs := ⟨fun _ => 0, fun _ => 0, fun _ => 0⟩

/-- Two units of 4 KiB that take one nanosecond a round. -/
def twoUnits : IoUnitConfig := ⟨2, 12, 0, 1, 0, 0, 1, 0⟩

/-- A command of the given opcode at time 0. -/
def ioAt (opcode : NvmeOpcode) (slba length : ℕ) : NvmevRequest :=
  ⟨{ opcode := opcode, commandId := 0, nsid := 1, prp1 := 0, prp2 := 0, slba := slba
     length := length, control := 0 }, 1, 0⟩

/-- Three reads of the second unit and one of both: the flush covers the last one only. -/
theorem fourReads_not_flushCovers :
    (∀ req ∈ [ioAt .read 8 7, ioAt .read 8 7, ioAt .read 8 7, ioAt .read 0 15], req.IsRw) ∧
      ¬ FlushCovers twoUnits idleNs
        [ioAt .read 8 7, ioAt .read 8 7, ioAt .read 8 7, ioAt .read 0 15] (ioAt .flush 0 0) := by
  refine ⟨by simp [NvmevRequest.IsRw, ioAt], ?_⟩
  rintro ⟨ns', targets, out, ret, hall, hflush, hret, hcover⟩
  have hrun : ∃ ns₄, scheduleAll twoUnits idleNs
      [ioAt .read 8 7, ioAt .read 8 7, ioAt .read 8 7, ioAt .read 0 15] =
        .ok (ns₄, [1, 2, 3, 2]) ∧ scheduleFlush twoUnits ns₄.ioUnitStat = 2 := ⟨_, rfl, rfl⟩
  obtain ⟨ns₄, hrun, htime⟩ := hrun
  rw [hrun] at hall
  cases hall
  cases hflush
  cases hret
  have hthree : 3 ≤ scheduleFlush twoUnits ns'.ioUnitStat := hcover 3 (by simp)
  omega

/-- **A flush covers all earlier commands** when none of them found a unit busy beyond the time it
left it. -/
theorem flush_covers (hcfg : 1 ≤ cfg.nrIoUnits ∧ 9 ≤ cfg.ioUnitShift) {reqs : List NvmevRequest}
    (hrw : ∀ req ∈ reqs, req.IsRw) {flush : NvmevRequest} (hflush : flush.cmd.opcode = .flush)
    (h : AllOutlast cfg ns reqs) : FlushCovers cfg ns reqs flush := by
  obtain ⟨ns', targets, hall, -, hcover⟩ := scheduleAll_covered hcfg hrw h
  have hproc : simpleProcNvmeIoCmd cfg ns' flush = .ok {
      ns := ns', cmd := flush.cmd, ops := []
      ret := some { status := 0, nsecsTarget := scheduleFlush cfg ns'.ioUnitStat } } := by
    unfold simpleProcNvmeIoCmd
    rw [hflush]
  exact ⟨ns', targets, _, _, hall, hproc, rfl, hcover⟩

/-- A write of both units behind a read of the first. -/
theorem flush_covers_two :
    FlushCovers twoUnits idleNs [ioAt .read 0 7, ioAt .write 0 15] (ioAt .flush 0 0) := by
  refine flush_covers (by decide) (by simp [NvmevRequest.IsRw, ioAt]) rfl ⟨?_, ?_⟩
  · intro j _ _
    exact Nat.zero_le _
  · intro out hout
    cases hout
    refine ⟨fun j hj _ => ?_, fun _ _ => trivial⟩
    have hlt : j < 2 := hj
    interval_cases j <;> decide

end NvmeVirt
