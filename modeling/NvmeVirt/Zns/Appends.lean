/-
# Appends that are refused and tried again

`__zns_write` stores the write pointer of the zone in the `slba` of an append
before it knows whether the write buffer has room, and `nvmev_proc_io_sq` comes
back to a command that was refused.  A retry reads the zone from the stored
write pointer: that of a full zone lies behind it.

The history variable `retried` keeps the zone a command named when it was taken
first, for the slots whose command was refused.
-/

import NvmeVirt.Io.Namespace
import NvmeVirt.Io.Steps
import NvmeVirt.Zns.Protection

namespace NvmeVirt

open Outcome

namespace ZnsFtl

variable {τ : Type} {f : ZnsFtl τ} {zid slba nrLba : ℕ}

/-- **The checks of `__zns_write_zrwa`** on the command and the state of its zone. -/
structure PassesZrwa (f : ZnsFtl τ) (zid slba nrLba : ℕ) : Prop where
  unit : f.unitOk nrLba
  boundary : f.checkBoundaryError slba nrLba
  wp : (f.zoneDescs zid).wp ≤ slba
  window : u64 (slba + nrLba - 1) ≤ f.zrwaImplEnd (f.zoneDescs zid).wp
  writable : (f.zoneDescs zid).state.Writable

theorem openForZrwa_success (f : ZnsFtl τ) (zid : ℕ) :
    Ends (f.openForZrwa zid)
      (fun r => r.2 = .success → (f.zoneDescs zid).state.Writable) fun _ => True := by
  unfold openForZrwa
  cases (f.zoneDescs zid).state with
  | full => exact nofun
  | readOnly => exact nofun
  | offline => exact nofun
  | _ => exact (Ends.trivial _).mono (fun _ _ _ => trivial) fun _ _ => trivial

/-- A write into a random write area that is not turned away passes the checks. -/
theorem checkZrwaWrite_success (f : ZnsFtl τ) (zid slba nrLba : ℕ) :
    Ends (f.checkZrwaWrite zid slba nrLba)
      (fun r => r.2 = .success → f.PassesZrwa zid slba nrLba) fun _ => True := by
  unfold ZnsFtl.checkZrwaWrite
  dsimp only
  split_ifs with hunit hbound hwin
  · exact nofun
  · refine (f.openForZrwa_success zid).mono (fun r hr hs => ?_) fun _ _ => trivial
    obtain ⟨hlo, hhi⟩ := not_or.1 hwin
    exact ⟨hunit, hbound, not_lt.1 hlo, not_lt.1 hhi, hr hs⟩
  · exact nofun
  · exact nofun

variable (clk : SsdClock τ)

/-- `__zns_write_zrwa` accepts no other commands. -/
theorem znsWriteZrwa_accepted (f : ZnsFtl τ) (req : NvmevRequest) :
    Ends (f.znsWriteZrwa clk req) (fun o => ¬ o.Rejected →
      f.PassesZrwa (f.zp.lbaToZone f.sp req.cmd.slba) req.cmd.slba req.cmd.nrLbas)
      fun _ => True := by
  unfold znsWriteZrwa
  refine (Ends.trivial _).bind fun _ _ => (Ends.trivial _).bind fun _ _ =>
    (f.checkZrwaWrite_success _ _ _).bind ?_
  rintro ⟨g, status⟩ hpass
  have hturned : status ≠ .success → (⟨g, req.cmd, [], some (g.writeResult req.cmd status
      req.nsecsStart req.nsecsStart)⟩ : IoOutcome (ZnsFtl τ)).Rejected := by
    rintro hne r ⟨⟩
    exact fun h => hne (NvmeStatus.code_eq_zero.1 h)
  cases status with
  | success => exact (Ends.trivial _).mono (fun _ _ _ => hpass rfl) fun _ _ => trivial
  | _ => exact fun hno => absurd (hturned (by decide)) hno

/-- `__zns_write` refuses a command only where the write buffer has no room. -/
theorem znsWriteSeq_refused (f : ZnsFtl τ) (req : NvmevRequest) :
    Ends (f.znsWriteSeq clk req) (fun o => o.ret = none → ¬ f.HasRoom req.cmd) fun _ => True := by
  by_cases hroom : f.HasRoom req.cmd
  swap
  · exact (Ends.trivial _).mono (fun _ _ _ => hroom) fun _ _ => trivial
  by_cases hz : f.zp.lbaToZone f.sp req.cmd.slba < f.zp.nrZones
  swap
  · unfold znsWriteSeq
    exact ends_zoneExists.bind fun _ hz' => absurd hz' hz
  rw [znsWriteSeq_eq clk hz]
  dsimp only
  unfold bufferAllocate
  rw [if_neg (not_lt.2 hroom)]
  dsimp only
  rw [if_neg (lt_irrefl _)]
  refine (Ends.trivial _).bind fun _ _ => ?_
  generalize ZnsFtl.checkWrite _ _ _ _ = r
  obtain ⟨g, status⟩ := r
  cases status with
  | success =>
    refine (writeAdmitted_status clk g _ _ _).mono ?_ fun _ _ => trivial
    rintro o ⟨r, hr, -⟩ hnone
    rw [hr] at hnone
    cases hnone
  | _ => exact nofun

instance : Decidable (f.PassesZrwa zid slba nrLba) :=
  decidable_of_iff (f.unitOk nrLba ∧ f.checkBoundaryError slba nrLba ∧
      (f.zoneDescs zid).wp ≤ slba ∧
      u64 (slba + nrLba - 1) ≤ f.zrwaImplEnd (f.zoneDescs zid).wp ∧
      (f.zoneDescs zid).state.Writable)
    ⟨fun ⟨h1, h2, h3, h4, h5⟩ => ⟨h1, h2, h3, h4, h5⟩,
      fun ⟨h1, h2, h3, h4, h5⟩ => ⟨h1, h2, h3, h4, h5⟩⟩

/-- **The target of an append is safe:** a refusal of the FTL leaves it in its zone, and in a random
write area it is not written behind the write pointer. -/
structure KeepsTarget (f : ZnsFtl τ) (cmd : NvmeRwCommand) : Prop where
  /-- Without room in the write buffer, the write pointer of the zone lies in the zone. -/
  refused : ¬ f.HasRoom cmd →
    (f.zoneDescs (f.zp.lpnToZone f.sp (Znsparams.lbaToLpn f.sp cmd.slba))).zrwav = false →
      f.zp.lbaToZone f.sp (f.zoneDescs (f.zp.lbaToZone f.sp cmd.slba)).wp
        = f.zp.lbaToZone f.sp cmd.slba
  /-- In a zone with a random write area the checks pass at the write pointer only. -/
  zrwa : (f.zoneDescs (f.zp.lpnToZone f.sp (Znsparams.lbaToLpn f.sp cmd.slba))).zrwav = true →
    f.PassesZrwa (f.zp.lbaToZone f.sp cmd.slba) cmd.slba cmd.nrLbas →
      cmd.slba = (f.zoneDescs (f.zp.lbaToZone f.sp cmd.slba)).wp

instance (f : ZnsFtl τ) (cmd : NvmeRwCommand) : Decidable (f.KeepsTarget cmd) :=
  decidable_of_iff ((¬ f.HasRoom cmd → _ → _) ∧ (_ → f.PassesZrwa _ cmd.slba cmd.nrLbas → _))
    ⟨fun ⟨h1, h2⟩ => ⟨h1, h2⟩, fun ⟨h1, h2⟩ => ⟨h1, h2⟩⟩

end ZnsFtl

/-- **What an append is to do** in zone `z`: if the FTL accepts it, it is placed at the write pointer
of that zone, and no other write pointer moves. -/
def ZnsNs.PlacedAt {τ : Type} (ns : ZnsNs τ) (z : ℕ) (out : IoOutcome (ZnsNs τ)) : Prop :=
  ¬ out.Rejected → out.cmd.slba = (ns.ftl.zoneDescs z).wp ∧
    ∀ y, y ≠ z → (out.ns.ftl.zoneDescs y).wp = (ns.ftl.zoneDescs y).wp

/-- **One try of an append** whose target is safe. -/
theorem ZnsFtl.KeepsTarget.append {τ : Type} (clk : SsdClock τ) {ns : ZnsNs τ}
    {req : NvmevRequest} (h : ns.ftl.KeepsTarget req.cmd) (hop : req.cmd.opcode = .zoneAppend) :
    Ends (ns.znsProcNvmeIoCmd clk req) (fun out =>
      ns.PlacedAt (ns.ftl.zp.lbaToZone ns.ftl.sp req.cmd.slba) out ∧
      (out.ret = none → ns.ftl.zp.lbaToZone ns.ftl.sp out.cmd.slba
        = ns.ftl.zp.lbaToZone ns.ftl.sp req.cmd.slba)) fun _ => True := by
  rw [ZnsNs.znsProcNvmeIoCmd_of_writes clk ns (.inr hop)]
  refine Ends.bind (Q := fun o => ZnsFtl.Frame (· = ns.ftl.zp.lbaToZone ns.ftl.sp req.cmd.slba)
    False ns.ftl o.ns ∧ (¬ o.Rejected → o.cmd.slba
      = (ns.ftl.zoneDescs (ns.ftl.zp.lbaToZone ns.ftl.sp req.cmd.slba)).wp) ∧
    (o.ret = none → ns.ftl.zp.lbaToZone ns.ftl.sp o.cmd.slba
      = ns.ftl.zp.lbaToZone ns.ftl.sp req.cmd.slba)) ?_ ?_
  · unfold ZnsFtl.znsWrite
    refine (Ends.trivial _).bind fun _ _ => ?_
    split_ifs with hv
    · refine ((ns.ftl.frame_znsWriteSeq (R := False) clk req).and
        (ns.ftl.znsWriteSeq_refused clk req)).mono ?_ fun _ _ => trivial
      rintro o ⟨⟨hframe, hacc, hcmd⟩, hroom⟩
      refine ⟨hframe, hacc, fun hret => ?_⟩
      have hslba : o.cmd.slba
          = (ns.ftl.zoneDescs (ns.ftl.zp.lbaToZone ns.ftl.sp req.cmd.slba)).wp := by
        rw [hcmd]
        unfold ZnsFtl.rewritten
        rw [if_pos hop]
      rw [hslba]
      exact h.refused (hroom hret) hv
    · have hv : _ = true := Bool.eq_true_of_not_eq_false hv
      refine ((ns.ftl.frame_znsWriteZrwa (R := False) clk req).and
        (ns.ftl.znsWriteZrwa_accepted clk req)).mono ?_ fun _ _ => trivial
      rintro o ⟨⟨hframe, -, hcmd⟩, hpass⟩
      refine ⟨hframe, fun hno => ?_, fun _ => by rw [hcmd]⟩
      rw [hcmd]
      exact h.zrwa hv (hpass hno)
  · rintro o ⟨hframe, hacc, hret⟩
    exact ⟨fun hno => ⟨hacc hno, fun y hy => congrArg ZoneDescriptor.wp (hframe.others y hy)⟩, hret⟩

/-! ### The device with the retries -/

/-- The device and, for the slots whose command was refused, the zone it named. -/
structure RetryDev (τ : Type) where
  dev : NvmevDev (ZnsNs τ)
  retried : ℕ → ℕ → Option ℕ

namespace RetryDev

variable {τ : Type} (cfg : IoConfig) (clk : SsdClock τ) (s : RetryDev τ)

/-- The zone a block lies in. -/
def zoneOf (lba : ℕ) : ℕ := s.dev.ns.ftl.zp.lbaToZone s.dev.ns.ftl.sp lba

/-- The zone the command in a slot names: that of its `slba` when it was taken first. -/
def named (q i : ℕ) (cmd : NvmeRwCommand) : ℕ := (s.retried q i).getD (s.zoneOf cmd.slba)

/-- A note about a slot. -/
def note (q i : ℕ) (z : Option ℕ) : ℕ → ℕ → Option ℕ :=
  Function.update s.retried q (Function.update (s.retried q) i z)

/-- The notes after a step that ends in `d`: a refusal keeps the zone; a new command in a slot or a
command that is answered forgets it. -/
def retriedAfter (d : NvmevDev (ZnsNs τ)) : IoOp → ℕ → ℕ → Option ℕ
  | .submit q i _ => s.note q i none
  | .dispatch t =>
    match s.dev.call, s.dev.taken (.dispatch t) with
    | some c, some req => s.note c.sqid c.sqEntry
        (if d.call = none then some (s.named c.sqid c.sqEntry req.cmd) else none)
    | _, _ => s.retried
  | _ => s.retried

/-- A step of the device. -/
def exec (op : IoOp) : Except Fault (RetryDev τ) := do
  let d ← s.dev.exec cfg (znsTarget clk) op
  .ok { dev := d, retried := s.retriedAfter d op }

/-- The device before its first command. -/
def start (d : NvmevDev (ZnsNs τ)) : RetryDev τ where
  dev := d
  retried := fun _ _ => none

/-- **A try of an append** is accepted at the write pointer of the zone it named, or not. -/
def AppendsNamed (op : IoOp) : Prop :=
  ∀ c req out, s.dev.call = some c → s.dev.taken op = some req → req.cmd.opcode = .zoneAppend →
    s.dev.ns.znsProcNvmeIoCmd clk req = .ok out →
      s.dev.ns.PlacedAt (s.named c.sqid c.sqEntry req.cmd) out

/-- The target of the append the step takes is safe. -/
def KeepsTarget (op : IoOp) : Prop :=
  ∀ req ∈ s.dev.taken op, req.cmd.opcode = .zoneAppend → s.dev.ns.ftl.KeepsTarget req.cmd

instance (op : IoOp) : Decidable (s.KeepsTarget op) :=
  inferInstanceAs (Decidable (∀ req ∈ s.dev.taken op, _ → _))

/-- **The invariant of the retries:** a refused command still lies in the zone it named. -/
def InZone : Prop :=
  ∀ q i z sq, s.retried q i = some z → s.dev.sqes q = some sq → s.zoneOf (sq.sq i).slba = z

variable {cfg clk s} {op : IoOp}

theorem note_of_eq (q i : ℕ) (z : Option ℕ) : s.note q i z q i = z := by
  unfold note
  rw [Function.update_self, Function.update_self]

theorem note_of_ne {q i q' i' : ℕ} (h : ¬ (q' = q ∧ i' = i)) (z : Option ℕ) :
    s.note q i z q' i' = s.retried q' i' := by
  unfold note
  by_cases hq : q' = q
  · subst hq
    rw [Function.update_self, Function.update_of_ne fun hi => h ⟨rfl, hi⟩]
  · rw [Function.update_of_ne hq]

/-- The slots of a queue after an assignment to one of them. -/
theorem slot_writeSq {σ : Type} {d : NvmevDev σ} {q i r j : ℕ} {cmd : NvmeRwCommand}
    {sq' : SubmissionQueue} (h : (d.writeSq q i cmd).sqes r = some sq') :
    ∃ sq, d.sqes r = some sq ∧ sq'.sq j = if r = q ∧ j = i then cmd else sq.sq j := by
  cases hr : d.sqes r with
  | none =>
    exfalso
    unfold NvmevDev.writeSq at h
    cases hq : d.sqes q with
    | none =>
      rw [hq] at h
      rw [hr] at h
      cases h
    | some sq₀ =>
      rw [hq] at h
      dsimp only at h
      rw [Function.update_of_ne (by rintro rfl; rw [hr] at hq; cases hq), hr] at h
      cases h
  | some sq =>
    rw [NvmevDev.writeSq_sqes d hr] at h
    cases h
    refine ⟨sq, rfl, ?_⟩
    dsimp only
    by_cases hrq : r = q
    · rw [if_pos hrq]
      by_cases hj : j = i
      · rw [hj, Function.update_self, if_pos ⟨hrq, rfl⟩]
      · rw [Function.update_of_ne hj, if_neg fun h => hj h.2]
    · rw [if_neg hrq, if_neg fun h => hrq h.1]

/-- A command whose slot is known names the zone it lies in. -/
theorem InZone.named_eq (h : s.InZone) {q i : ℕ} {sq : SubmissionQueue}
    (hsq : s.dev.sqes q = some sq) : s.named q i (sq.sq i) = s.zoneOf (sq.sq i).slba := by
  unfold named
  cases hz : s.retried q i with
  | none => rfl
  | some z => exact (h q i z sq hz hsq).symm

/-- A step that takes no command makes no note. -/
theorem retried_of_not_taken {d : NvmevDev (ZnsNs τ)} (h : s.dev.taken op = none) {q i z : ℕ}
    (hz : s.retriedAfter d op q i = some z) : s.retried q i = some z := by
  unfold retriedAfter at hz
  cases op with
  | submit q' i' cmd =>
    dsimp only at hz
    by_cases hqi : q = q' ∧ i = i'
    · obtain ⟨rfl, rfl⟩ := hqi
      rw [note_of_eq] at hz
      cases hz
    · rwa [note_of_ne hqi] at hz
  | dispatch t =>
    dsimp only at hz
    rw [h] at hz
    cases hc : s.dev.call with
    | none => rwa [hc] at hz
    | some c => rwa [hc] at hz
  | _ => exact hz

/-- **One step** with a safe target: an append the step takes is placed in the zone it named, and a
refusal leaves it there. -/
theorem InZone.exec (cfg : IoConfig) (clk : SsdClock τ) (h : s.InZone) (hk : s.KeepsTarget op) :
    s.AppendsNamed clk op ∧ Ends (s.exec cfg clk op) InZone fun _ => True := by
  constructor
  · intro c req out hcall htaken hop hout
    obtain ⟨t, c', sq, -, hcall', hsq, hreq⟩ := NvmevDev.taken_eq_some htaken
    rw [hcall] at hcall'
    cases hcall'
    rw [hreq, h.named_eq hsq, ← hreq]
    exact (((hk req htaken hop).append clk hop).of_ok hout).1
  · unfold RetryDev.exec
    refine (NvmevDev.exec_ns s.dev op).with_eq.bind ?_
    rintro d ⟨hcases, hexec⟩ q i z sq hz hsq
    have hzone : ∀ lba, ({ dev := d, retried := s.retriedAfter d op } : RetryDev τ).zoneOf lba
        = s.zoneOf lba := fun lba => by
      unfold zoneOf
      rw [(NvmevDev.params_exec hexec).1, (NvmevDev.params_exec hexec).2]
    rw [hzone]
    rcases hcases with ⟨c, req, out, htaken, htook⟩ | ⟨hnone, -, hsqes⟩
    · obtain ⟨t, c', sq', rfl, hcall, hsq', hreq⟩ := NvmevDev.taken_eq_some htaken
      rw [htook.call] at hcall
      cases hcall
      have hz : s.retriedAfter d (.dispatch t) q i = some z := hz
      unfold retriedAfter at hz
      dsimp only at hz hsq
      rw [htook.call, htaken] at hz
      dsimp only at hz
      rw [htook.sqes] at hsq
      obtain ⟨sq₀, hsq₀, hslot⟩ := slot_writeSq (j := i) hsq
      rw [hslot]
      by_cases hqi : q = c.sqid ∧ i = c.sqEntry
      · rw [if_pos hqi]
        obtain ⟨rfl, rfl⟩ := hqi
        rw [note_of_eq] at hz
        split_ifs at hz with hnone
        cases hz
        rw [hreq, h.named_eq hsq', ← hreq]
        by_cases hop : req.cmd.opcode = .zoneAppend
        · exact (((hk req htaken hop).append clk hop).of_ok htook.proc).2
            (htook.ends.1 hnone)
        · rw [(s.dev.ns.cmd_procNvmeIoCmd clk req hop).of_ok htook.proc]
      · rw [if_neg hqi]
        rw [note_of_ne hqi] at hz
        exact h q i z sq₀ hz hsq₀
    · rcases hsqes with hsqes | ⟨q', i', cmd, rfl, hsqes⟩
      · dsimp only at hsq
        rw [hsqes] at hsq
        exact h q i z sq (retried_of_not_taken hnone hz) hsq
      · have hz : s.note q' i' none q i = some z := hz
        have hqi : ¬ (q = q' ∧ i = i') := by
          rintro ⟨rfl, rfl⟩
          rw [note_of_eq] at hz
          cases hz
        rw [note_of_ne hqi] at hz
        dsimp only at hsq
        rw [hsqes] at hsq
        obtain ⟨sq₀, hsq₀, hslot⟩ := slot_writeSq (j := i) hsq
        rw [hslot, if_neg hqi]
        exact h q i z sq₀ hz hsq₀

end RetryDev

/-- **An append is placed in the zone it named** in every run in which the targets of the appends are
safe, however often they are refused and whatever comes in between. -/
theorem znsRun_appendsNamed {τ : Type} (cfg : IoConfig) (clk : SsdClock τ)
    (d : NvmevDev (ZnsNs τ)) (ops : List IoOp)
    (h : Along (RetryDev.exec cfg clk) RetryDev.KeepsTarget (.start d) ops) :
    Along (RetryDev.exec cfg clk) (RetryDev.AppendsNamed clk) (.start d) ops := by
  have hinv : (RetryDev.start d).InZone := by
    rintro q i z sq ⟨⟩
  generalize RetryDev.start d = s at h hinv
  induction ops generalizing s with
  | nil => trivial
  | cons op ops ih =>
    obtain ⟨happ, hstep⟩ := hinv.exec cfg clk h.1
    exact ⟨happ, fun s' hs' => ih s' (h.2 s' hs') (hstep.of_ok hs')⟩

/-! ### A write buffer of two pages -/

/-- The first zone is filled and with it the buffer; an append is refused, and taken again when the
buffer is free. -/
def retryAppend (slba : ℕ) : List IoOp :=
  [.submit 1 0 (znsRequest .write 0 15 0).cmd, .submit 1 1 (znsRequest .zoneAppend slba 7 0).cmd,
    .ring 1 2, .poll 1, .dispatch 0, .reclaim, .dispatch 0, .enter 0, .visit 0 0, .visit 0 0,
    .visit 0 0, .poll 1]

/-- The append to the second zone is tried twice. -/
theorem znsRun_appendsNamed_retry : ∃ f, fewPages = .ok f ∧
    Along (RetryDev.exec oneWorker idleClock) (RetryDev.AppendsNamed idleClock)
      (.start (zonedStart f)) (retryAppend 16 ++ [.dispatch 0]) := by
  have hcheck : fewPages.toOption.any (fun f =>
      decide (Along (RetryDev.exec oneWorker idleClock) RetryDev.KeepsTarget
        (.start (zonedStart f)) (retryAppend 16 ++ [.dispatch 0]))) = true := by
    decide +kernel
  obtain ⟨f, hinit, hp⟩ := exists_ok_of_any hcheck
  exact ⟨f, hinit, znsRun_appendsNamed oneWorker idleClock _ _ (of_decide_eq_true hp)⟩

/-- **An append to the full zone lands in the next one:** it is refused at first, and its retry is
accepted in the second zone. -/
theorem retryAppend_not_named : ∃ f s c req out, fewPages = .ok f ∧
    runList (RetryDev.exec oneWorker idleClock) (.start (zonedStart f)) (retryAppend 0) = .ok s ∧
    s.dev.call = some c ∧ s.dev.taken (.dispatch 0) = some req ∧
    s.named c.sqid c.sqEntry req.cmd = 0 ∧
    s.dev.ns.znsProcNvmeIoCmd idleClock req = .ok out ∧
    out.ret = some { status := 0, nsecsTarget := 0 } ∧
    (s.dev.ns.ftl.zoneDescs 1).wp = 16 ∧ (out.ns.ftl.zoneDescs 1).wp = 24 ∧
    ¬ s.AppendsNamed idleClock (.dispatch 0) := by
  have hcheck : fewPages.toOption.any (fun f => (runList (RetryDev.exec oneWorker idleClock)
      (.start (zonedStart f)) (retryAppend 0)).toOption.any fun s => s.dev.call.any fun c =>
        (s.dev.taken (.dispatch 0)).any fun req =>
          (s.dev.ns.znsProcNvmeIoCmd idleClock req).toOption.any fun out => decide (
            req.cmd.opcode = .zoneAppend ∧ s.named c.sqid c.sqEntry req.cmd = 0 ∧
            out.ret = some { status := 0, nsecsTarget := 0 } ∧
            (s.dev.ns.ftl.zoneDescs 1).wp = 16 ∧ (out.ns.ftl.zoneDescs 1).wp = 24)) = true := by
    decide +kernel
  obtain ⟨f, hinit, hp⟩ := exists_ok_of_any hcheck
  obtain ⟨s, hrun, hp⟩ := exists_ok_of_any hp
  obtain ⟨c, hcall, hp⟩ := (Option.any_eq_true _ _).1 hp
  obtain ⟨req, htaken, hp⟩ := (Option.any_eq_true _ _).1 hp
  obtain ⟨out, hout, hp⟩ := exists_ok_of_any hp
  obtain ⟨hop, hnamed, hret, hbefore, hafter⟩ := of_decide_eq_true hp
  refine ⟨f, s, c, req, out, hinit, hrun, hcall, htaken, hnamed, hout, hret, hbefore, hafter,
    fun h => ?_⟩
  have hacc : ¬ out.Rejected := fun hrej => hrej _ hret rfl
  have hplaced := h c req out hcall htaken hop hout hacc
  rw [hnamed] at hplaced
  have hsame := hplaced.2 1 (by decide)
  omega

end NvmeVirt
