/-
# Writes a zone turns away

`__zns_write` reserves buffer space before it checks a write, and rewrites the
`slba` of an append before either.  A write it turns away behind the reservation
keeps the space it took, whatever the reason; one that finds no room leaves the
zones, the counters and the buffers alone.
-/

import NvmeVirt.Zns.ZoneMachine

namespace NvmeVirt

open Outcome

/-- The command ended with an error status or was refused. -/
def IoOutcome.Rejected {σ : Type} (o : IoOutcome σ) : Prop := ∀ r, o.ret = some r → r.status ≠ 0

instance {σ : Type} (o : IoOutcome σ) : Decidable o.Rejected :=
  inferInstanceAs (Decidable (∀ r ∈ o.ret, r.status ≠ 0))

namespace ZnsFtl

variable {τ : Type} (clk : SsdClock τ) {f g : ZnsFtl τ} {zid slba nrLba : ℕ}

/-- Zone descriptors, resource counters and the space in the write buffers are the same. -/
structure Untouched (f g : ZnsFtl τ) : Prop where
  zoneDescs : g.zoneDescs = f.zoneDescs
  resInfos : g.resInfos = f.resInfos
  remaining : ∀ b, (g.buffer b).remaining = (f.buffer b).remaining

/-- **A write `__zns_write` turns away** leaves no trace, also not in the command. -/
def RejectsCleanly (f : ZnsFtl τ) (req : NvmevRequest) : Prop :=
  ∀ o, f.znsWriteSeq clk req = .ok o → o.Rejected →
    f.Untouched o.ns ∧ o.cmd.slba = req.cmd.slba

/-- **The checks of `__zns_write`,** with those of the resources. -/
structure Passes (f : ZnsFtl τ) (zid slba nrLba : ℕ) : Prop where
  unit : f.unitOk nrLba
  boundary : f.checkBoundaryError slba nrLba
  wp : slba = (f.zoneDescs zid).wp
  writable : (f.zoneDescs zid).state.Writable
  empty : (f.zoneDescs zid).state = .empty → slba = (f.zoneDescs zid).zslba ∧
    ¬ f.isZoneResourceFull .active ∧ f.isZoneResourceAvail .open
  closed : (f.zoneDescs zid).state = .closed → f.isZoneResourceAvail .open

instance : Decidable (f.Passes zid slba nrLba) :=
  decidable_of_iff (f.unitOk nrLba ∧ f.checkBoundaryError slba nrLba ∧
      slba = (f.zoneDescs zid).wp ∧ (f.zoneDescs zid).state.Writable ∧
      ((f.zoneDescs zid).state = .empty → slba = (f.zoneDescs zid).zslba ∧
        ¬ f.isZoneResourceFull .active ∧ f.isZoneResourceAvail .open) ∧
      ((f.zoneDescs zid).state = .closed → f.isZoneResourceAvail .open))
    ⟨fun ⟨h1, h2, h3, h4, h5, h6⟩ => ⟨h1, h2, h3, h4, h5, h6⟩,
      fun ⟨h1, h2, h3, h4, h5, h6⟩ => ⟨h1, h2, h3, h4, h5, h6⟩⟩

/-- The command as `__zns_write` leaves it: the `slba` of an append is the write pointer of its
zone. -/
def rewritten (f : ZnsFtl τ) (cmd : NvmeRwCommand) : NvmeRwCommand :=
  if cmd.opcode = .zoneAppend then
    { cmd with slba := (f.zoneDescs (f.zp.lbaToZone f.sp cmd.slba)).wp }
  else cmd

/-- The write buffer has room for the command. -/
def HasRoom (f : ZnsFtl τ) (cmd : NvmeRwCommand) : Prop :=
  lbaToByte cmd.nrLbas ≤ (f.buffer (f.writeBufferOf (f.zp.lbaToZone f.sp cmd.slba))).remaining

instance (cmd : NvmeRwCommand) : Decidable (f.HasRoom cmd) := inferInstanceAs (Decidable (_ ≤ _))

/-! ### The buffers -/

theorem buffer_setBuffer (b b' : ZnsBuffer) (buf : Buffer) :
    (f.setBuffer b buf).buffer b' = if b' = b then buf else f.buffer b' := by
  cases b <;> cases b' <;> simp [setBuffer, buffer, Function.update_apply]

/-- What acquires resources and changes states keeps the buffers. -/
theorem buffer_openClosed (b : ZnsBuffer) : (f.openClosed zid).1.buffer b = f.buffer b := by
  unfold openClosed acquireZoneResource
  split_ifs <;> cases b <;> rfl

theorem buffer_openForWrite (b : ZnsBuffer) :
    (f.openForWrite zid slba).1.buffer b = f.buffer b := by
  unfold openForWrite
  cases (f.zoneDescs zid).state with
  | empty =>
    dsimp only
    split_ifs
    · rfl
    · rfl
    · rfl
    · rw [buffer_openClosed]
      unfold acquireZoneResource
      split_ifs <;> cases b <;> rfl
  | closed => exact buffer_openClosed b
  | openedImpl => rfl
  | openedExpl => rfl
  | readOnly => rfl
  | full => rfl
  | offline => rfl

/-- **The checks keep the buffers.** -/
theorem buffer_checkWrite (f : ZnsFtl τ) (zid slba nrLba : ℕ) (b : ZnsBuffer) :
    (f.checkWrite zid slba nrLba).1.buffer b = f.buffer b := by
  unfold ZnsFtl.checkWrite
  split_ifs
  all_goals first | rfl | exact buffer_openForWrite b

/-! ### The checks -/

theorem openClosed_success_iff :
    (f.openClosed zid).2 = .success ↔ f.isZoneResourceAvail .open := by
  unfold openClosed acquireZoneResource
  split_ifs with h <;> simp [h]

/-- The switch on the state of the zone. -/
theorem openForWrite_success_iff :
    (f.openForWrite zid slba).2 = .success ↔ (f.zoneDescs zid).state.Writable ∧
      ((f.zoneDescs zid).state = .empty → slba = (f.zoneDescs zid).zslba ∧
        ¬ f.isZoneResourceFull .active ∧ f.isZoneResourceAvail .open) ∧
      ((f.zoneDescs zid).state = .closed → f.isZoneResourceAvail .open) := by
  have hactive : (f.acquireZoneResource .active).1.isZoneResourceAvail .open ↔
      f.isZoneResourceAvail .open := by
    unfold acquireZoneResource
    split_ifs
    · rfl
    · rfl
  have hfull : f.isZoneResourceAvail .open → ¬ f.isZoneResourceFull .open := Nat.ne_of_lt
  unfold openForWrite
  cases hs : (f.zoneDescs zid).state with
  | empty =>
    dsimp only
    split_ifs with h1 h2 h3
    · simp [h1]
    · simp [h2]
    · simp only [false_iff]
      exact fun h => hfull (h.2.1 trivial).2.2 h3
    · rw [openClosed_success_iff, hactive]
      simp [not_not.1 h1, h2]
  | closed => simp [openClosed_success_iff]
  | openedImpl => simp
  | openedExpl => simp
  | readOnly => simp
  | full => simp
  | offline => simp

/-- **A write passes exactly if** the checks say so. -/
theorem checkWrite_success_iff (f : ZnsFtl τ) (zid slba nrLba : ℕ) :
    (f.checkWrite zid slba nrLba).2 = .success ↔ f.Passes zid slba nrLba := by
  unfold ZnsFtl.checkWrite
  constructor
  · intro h
    split_ifs at h with h1 h2 h3
    obtain ⟨hw, he, hc⟩ := openForWrite_success_iff.1 h
    exact ⟨h1, h2, not_not.1 h3, hw, he, hc⟩
  · intro h
    rw [if_neg (not_not.2 h.unit), if_neg (not_not.2 h.boundary), if_neg (not_not.2 h.wp)]
    exact openForWrite_success_iff.2 ⟨h.writable, h.empty, h.closed⟩

/-! ### The whole command -/

/-- A write that passes the checks ends without an error. -/
theorem writeAdmitted_status (f : ZnsFtl τ) (cmd : NvmeRwCommand) (nsecsStart zid : ℕ) :
    Ends (f.writeAdmitted clk cmd nsecsStart zid)
      (fun o => ∃ r, o.ret = some r ∧ r.status = 0) fun _ => True := by
  unfold writeAdmitted
  dsimp only
  exact (Ends.trivial _).bind fun c _ => ⟨_, rfl, rfl⟩

theorem rewritten_nrLbas (cmd : NvmeRwCommand) : (f.rewritten cmd).nrLbas = cmd.nrLbas := by
  unfold rewritten
  split_ifs <;> rfl

/-- `__zns_write` on a zone that exists. -/
theorem znsWriteSeq_eq {req : NvmevRequest}
    (hz : f.zp.lbaToZone f.sp req.cmd.slba < f.zp.nrZones) :
    f.znsWriteSeq clk req =
      let zid := f.zp.lbaToZone f.sp req.cmd.slba
      let cmd := f.rewritten req.cmd
      let buf := f.writeBufferOf zid
      let (b, allocated) := bufferAllocate (f.buffer buf) (lbaToByte req.cmd.nrLbas)
      if allocated < lbaToByte req.cmd.nrLbas then
        .ok { ns := f.setBuffer buf b, cmd := cmd, ops := [], ret := none }
      else defined (0 < f.sp.writeUnitSize) >>= fun _ =>
        match (f.setBuffer buf b).checkWrite zid cmd.slba req.cmd.nrLbas with
        | (f, .success) => f.writeAdmitted clk cmd req.nsecsStart zid
        | (f, status) =>
          .ok ⟨f, cmd, [], some (f.writeResult cmd status req.nsecsStart req.nsecsStart)⟩ := by
  unfold znsWriteSeq
  rw [zoneExists_bind hz]
  dsimp only
  rw [← rewritten_nrLbas (f := f) req.cmd]
  rw [sp_setBuffer]
  rfl

theorem lbaToByte_nrLbas_pos (cmd : NvmeRwCommand) : 0 < lbaToByte cmd.nrLbas := by
  unfold lbaToByte NvmeRwCommand.nrLbas
  rw [Nat.shiftLeft_eq]
  omega

/-- **`__zns_write` without room** in the buffer is refused. -/
theorem znsWriteSeq_of_not_room {req : NvmevRequest}
    (hz : f.zp.lbaToZone f.sp req.cmd.slba < f.zp.nrZones) (hroom : ¬ f.HasRoom req.cmd) :
    ∃ o, f.znsWriteSeq clk req = .ok o ∧ o.ret = none ∧ f.Untouched o.ns ∧
      o.cmd = f.rewritten req.cmd := by
  have halloc : bufferAllocate (f.buffer (f.writeBufferOf (f.zp.lbaToZone f.sp req.cmd.slba)))
      (lbaToByte req.cmd.nrLbas)
        = (f.buffer (f.writeBufferOf (f.zp.lbaToZone f.sp req.cmd.slba)), 0) := by
    unfold bufferAllocate
    rw [if_pos (not_le.1 hroom)]
    rfl
  rw [znsWriteSeq_eq clk hz]
  dsimp only
  rw [halloc, if_pos (lbaToByte_nrLbas_pos _)]
  refine ⟨_, rfl, rfl, ⟨by simp, by simp, fun b => ?_⟩, rfl⟩
  rw [buffer_setBuffer]
  split_ifs with hb
  · rw [hb]
  · rfl

theorem passes_setBuffer (b : ZnsBuffer) (buf : Buffer) :
    (f.setBuffer b buf).Passes zid slba nrLba ↔ f.Passes zid slba nrLba := by
  cases b <;> exact ⟨fun ⟨h1, h2, h3, h4, h5, h6⟩ => ⟨h1, h2, h3, h4, h5, h6⟩,
    fun ⟨h1, h2, h3, h4, h5, h6⟩ => ⟨h1, h2, h3, h4, h5, h6⟩⟩

/-- The remainder of a size by `write_unit_size` is taken behind the reservation. -/
theorem znsWriteSeq_unit {req : NvmevRequest}
    (hz : f.zp.lbaToZone f.sp req.cmd.slba < f.zp.nrZones) (hroom : f.HasRoom req.cmd) :
    Ends (f.znsWriteSeq clk req) (fun _ => 0 < f.sp.writeUnitSize) fun _ => True := by
  rw [znsWriteSeq_eq clk hz]
  dsimp only
  unfold bufferAllocate
  rw [if_neg (not_lt.2 hroom)]
  dsimp only
  rw [if_neg (lt_irrefl _)]
  exact ends_defined.bind fun _ hunit => (Ends.trivial _).mono (fun _ _ => hunit) fun _ _ => trivial

/-- **`__zns_write` with room** takes it before it checks the write: a write that passes ends
without an error, and one that does not keeps what it took. -/
theorem znsWriteSeq_of_room {req : NvmevRequest}
    (hz : f.zp.lbaToZone f.sp req.cmd.slba < f.zp.nrZones) (hroom : f.HasRoom req.cmd)
    (hunit : 0 < f.sp.writeUnitSize) :
    (f.Passes (f.zp.lbaToZone f.sp req.cmd.slba) (f.rewritten req.cmd).slba req.cmd.nrLbas →
      Ends (f.znsWriteSeq clk req) (fun o => ¬ o.Rejected) fun _ => True) ∧
    (¬ f.Passes (f.zp.lbaToZone f.sp req.cmd.slba) (f.rewritten req.cmd).slba req.cmd.nrLbas →
      ∃ o, f.znsWriteSeq clk req = .ok o ∧ o.Rejected ∧ ¬ f.Untouched o.ns) := by
  set zid := f.zp.lbaToZone f.sp req.cmd.slba with hzid
  set buf := f.writeBufferOf zid with hbuf
  set b : Buffer := { f.buffer buf with
    remaining := (f.buffer buf).remaining - lbaToByte req.cmd.nrLbas } with hb
  have hpos := lbaToByte_nrLbas_pos req.cmd
  have hroom : lbaToByte req.cmd.nrLbas ≤ (f.buffer buf).remaining := hroom
  have halloc : bufferAllocate (f.buffer buf) (lbaToByte req.cmd.nrLbas)
      = (b, lbaToByte req.cmd.nrLbas) := by
    unfold bufferAllocate
    rw [if_neg (not_lt.2 hroom)]
  rw [znsWriteSeq_eq clk hz]
  dsimp only
  rw [← hzid, ← hbuf, halloc, if_neg (lt_irrefl _), defined_bind hunit]
  have hiff := checkWrite_success_iff (f.setBuffer buf b) zid (f.rewritten req.cmd).slba
    req.cmd.nrLbas
  have hkeep := buffer_checkWrite (f.setBuffer buf b) zid (f.rewritten req.cmd).slba
    req.cmd.nrLbas buf
  rw [passes_setBuffer] at hiff
  rw [buffer_setBuffer, if_pos rfl] at hkeep
  generalize (f.setBuffer buf b).checkWrite zid (f.rewritten req.cmd).slba req.cmd.nrLbas = r
    at hiff hkeep ⊢
  obtain ⟨g, status⟩ := r
  have hiff : status = .success ↔ _ := hiff
  have hkeep : g.buffer buf = b := hkeep
  constructor
  · intro hpass
    obtain rfl := hiff.2 hpass
    refine (writeAdmitted_status clk g _ _ _).mono (fun o ⟨r, hr, hs⟩ hrej => hrej r hr hs)
      fun _ _ => trivial
  · intro hno
    have hne : status ≠ .success := fun h => hno (hiff.1 h)
    have hcode : status.code ≠ 0 := fun h => hne (NvmeStatus.code_eq_zero.1 h)
    have hleak : ∀ o : IoOutcome (ZnsFtl τ), o.ns = g → ¬ f.Untouched o.ns := by
      rintro o rfl hu
      have hrem := hu.remaining buf
      rw [hkeep, hb] at hrem
      have hrem : (f.buffer buf).remaining - lbaToByte req.cmd.nrLbas = (f.buffer buf).remaining :=
        hrem
      omega
    have hrej : (⟨g, f.rewritten req.cmd, [], some (g.writeResult (f.rewritten req.cmd) status
        req.nsecsStart req.nsecsStart)⟩ : IoOutcome (ZnsFtl τ)).Rejected := by
      rintro r ⟨⟩
      exact hcode
    cases status <;> first | exact absurd rfl hne | exact ⟨_, rfl, hrej, hleak _ rfl⟩

/-- **Exactly which writes to a sequential zone leave no trace when they are turned away:** those
that find no room in the buffer, unless they are appends whose `slba` is not the write pointer; the
ones that find room do only if they are not turned away at all. -/
theorem rejectsCleanly_iff (f : ZnsFtl τ) (req : NvmevRequest)
    (hz : f.zp.lbaToZone f.sp req.cmd.slba < f.zp.nrZones) :
    f.RejectsCleanly clk req ↔
      (f.HasRoom req.cmd → 0 < f.sp.writeUnitSize → f.Passes (f.zp.lbaToZone f.sp req.cmd.slba)
        (f.rewritten req.cmd).slba req.cmd.nrLbas) ∧
      (¬ f.HasRoom req.cmd → (f.rewritten req.cmd).slba = req.cmd.slba) := by
  by_cases hroom : f.HasRoom req.cmd
  · constructor
    · intro h
      refine ⟨fun _ hunit => by_contra fun hno => ?_, fun hno => absurd hroom hno⟩
      obtain ⟨o, ho, hrej, hu⟩ := (znsWriteSeq_of_room clk hz hroom hunit).2 hno
      exact hu (h o ho hrej).1
    · rintro ⟨hpass, -⟩ o ho hrej
      have hunit : 0 < f.sp.writeUnitSize := (znsWriteSeq_unit clk hz hroom).of_ok ho
      exact absurd hrej (((znsWriteSeq_of_room clk hz hroom hunit).1 (hpass hroom hunit)).of_ok ho)
  · obtain ⟨o, ho, hret, hu, hcmd⟩ := znsWriteSeq_of_not_room clk hz hroom
    constructor
    · intro h
      refine ⟨fun hr => absurd hr hroom, fun _ => ?_⟩
      rw [← hcmd]
      exact (h o ho (by simp [IoOutcome.Rejected, hret])).2
    · rintro ⟨-, hslba⟩ o' ho' -
      obtain rfl : o = o' := Except.ok.inj (ho.symm.trans ho')
      exact ⟨hu, by rw [hcmd]; exact hslba hroom⟩

end ZnsFtl

/-- The two zones with a write buffer of two pages. -/
def fewPages : Except Fault (ZnsFtl Unit) :=
  znsInitNamespace 16384 { oneDie with globalWbSize := 8192 } twoPageZones zrwaPrior ()
    (fun _ => 0) fun _ => 0

/-- The append that finds the buffer full of the first zone is turned away without a trace. -/
theorem rejectsCleanly_full : ∃ f f' o, fewPages = .ok f ∧
    runList (ZnsFtl.step idleClock) f [.command (.write (znsRequest .write 0 15 0))] = .ok f' ∧
    f'.znsWriteSeq idleClock (znsRequest .zoneAppend 16 7 0) = .ok o ∧ o.ret = none ∧
    f'.RejectsCleanly idleClock (znsRequest .zoneAppend 16 7 0) := by
  have hcheck : fewPages.toOption.any (fun f => (runList (ZnsFtl.step idleClock) f
      [.command (.write (znsRequest .write 0 15 0))]).toOption.any fun f' =>
        (f'.znsWriteSeq idleClock (znsRequest .zoneAppend 16 7 0)).toOption.any fun o => decide (
          o.ret = none ∧ f'.zp.lbaToZone f'.sp 16 < f'.zp.nrZones ∧
          ¬ f'.HasRoom (znsRequest .zoneAppend 16 7 0).cmd ∧
          (f'.rewritten (znsRequest .zoneAppend 16 7 0).cmd).slba = 16)) = true := by
    decide +kernel
  obtain ⟨f, hinit, hp⟩ := exists_ok_of_any hcheck
  obtain ⟨f', hrun, hp⟩ := exists_ok_of_any hp
  obtain ⟨o, ho, hp⟩ := exists_ok_of_any hp
  obtain ⟨hret, hz, hroom, hback⟩ := of_decide_eq_true hp
  exact ⟨f, f', o, hinit, hrun, ho, hret,
    (ZnsFtl.rejectsCleanly_iff idleClock f' (znsRequest .zoneAppend 16 7 0) hz).2
      ⟨fun hr => absurd hr hroom, fun _ => hback⟩⟩

/-- **A write behind the write pointer takes buffer space** although it is turned away. -/
theorem wrongPointer_not_rejectsCleanly : ∃ f o, twoZones = .ok f ∧
    f.znsWriteSeq idleClock (znsRequest .write 8 7 0) = .ok o ∧
    o.ret = some { status := NvmeStatus.znsInvalidWrite.code, nsecsTarget := 0 } ∧
    f.writeBuffer.remaining = 65536 ∧ o.ns.writeBuffer.remaining = 61440 ∧
    ¬ f.RejectsCleanly idleClock (znsRequest .write 8 7 0) := by
  have hcheck : twoZones.toOption.any (fun f => (f.znsWriteSeq idleClock
      (znsRequest .write 8 7 0)).toOption.any fun (o : IoOutcome (ZnsFtl Unit)) => decide (
        o.ret = some { status := NvmeStatus.znsInvalidWrite.code, nsecsTarget := 0 } ∧
        f.writeBuffer.remaining = 65536 ∧ o.ns.writeBuffer.remaining = 61440)) = true := by
    decide +kernel
  obtain ⟨f, hinit, hp⟩ := exists_ok_of_any hcheck
  obtain ⟨o, ho, hp⟩ := exists_ok_of_any hp
  obtain ⟨hret, hf, hg⟩ := of_decide_eq_true hp
  refine ⟨f, o, hinit, ho, hret, hf, hg, fun h => ?_⟩
  have hrej : o.Rejected := by
    rw [IoOutcome.Rejected, hret]
    rintro r ⟨⟩
    decide
  have hrem : o.ns.writeBuffer.remaining = f.writeBuffer.remaining := (h o ho hrej).1.remaining .ssd
  omega

end NvmeVirt
