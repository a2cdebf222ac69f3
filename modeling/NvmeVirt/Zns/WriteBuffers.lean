/-
# The write buffers of the zones

Runs of accepted writes, of zone management sends and of the buffer releases the
writes have scheduled, with one write buffer for each zone.  What a zone has
taken of its buffer is what its incomplete one-shot page holds, once the
releases have run, as long as no write ends in the middle of the last page of a
one-shot page and no zone is finished or reset in the middle of one.
-/

import NvmeVirt.Zns.Frames
import NvmeVirt.Zns.OneShotPages

namespace NvmeVirt

open Outcome

/-- A zoned namespace and the buffer releases that are scheduled. -/
structure BufferRun (τ : Type) where
  ftl : ZnsFtl τ
  pending : List InternalOp

/-- A command, or one of the scheduled releases runs. -/
inductive BufferOp
  | command (op : ZnsOp)
  | release (i : ℕ)

namespace ZnsFtl

variable {τ : Type} (clk : SsdClock τ) (f : ZnsFtl τ) {zid : ℕ}

/-- The command with what it leaves behind. -/
def handle : ZnsOp → Except Fault (IoOutcome (ZnsFtl τ))
  | .write req => f.znsWrite clk req
  | .mgmtSend req => f.znsZmgmtSend clk req

/-- The bytes of a one-shot page. -/
def oneshotBytes : ℕ := f.sp.pgsPerOneshotpg * f.sp.pgsz

/-- The bytes written to the incomplete one-shot page of an opened or closed zone. -/
def openBytes (zid : ℕ) : ℕ :=
  let d := f.zoneDescs zid
  if d.state.Active then (d.wp - d.zslba) * 512 % f.oneshotBytes else 0

/-- The zones a zone management send addresses. -/
def addressed (cmd : NvmeRwCommand) : List ℕ :=
  if cmd.selectAll then (List.range f.zp.nrZones).map fun z =>
    f.zp.lbaToZone f.sp (f.zp.zoneToSlba f.sp z)
  else [f.zp.lbaToZone f.sp cmd.slba]

/-- The page in which a write to the zone ends, if it does not end with a page, is neither the last
one of its one-shot page nor of the zone. -/
def EndsWhole (zid nrLba : ℕ) : Prop :=
  let stop := (f.zoneDescs zid).wp - (f.zoneDescs zid).zslba + nrLba
  stop % 8 = 0 ∨
    stop / 8 % f.sp.pgsPerOneshotpg + 1 < f.sp.pgsPerOneshotpg ∧ stop / 8 + 1 < f.zonePages

/-- **The command settles the buffers:** a write does not end in the middle of the last page of a
one-shot page, its zone is found where it lies, and a finish or a reset finds no incomplete one-shot
page. -/
def Settles : ZnsOp → Prop
  | .write req => f.Found (f.zp.lbaToZone f.sp req.cmd.slba) ∧
    f.EndsWhole (f.zp.lbaToZone f.sp req.cmd.slba) req.cmd.nrLbas
  | .mgmtSend req =>
    ZoneSendAction.ofZsa req.cmd.zsa = some .finishZone ∨
      ZoneSendAction.ofZsa req.cmd.zsa = some .resetZone →
    ∀ zid ∈ f.addressed req.cmd, f.openBytes zid = 0

instance (zid nrLba : ℕ) : Decidable (f.EndsWhole zid nrLba) := inferInstanceAs (Decidable (_ ∨ _))

instance (op : ZnsOp) : Decidable (f.Settles op) :=
  match op with
  | .write _ => inferInstanceAs (Decidable (_ ∧ _))
  | .mgmtSend _ => inferInstanceAs (Decidable (_ → _))

end ZnsFtl

namespace BufferRun

variable {τ : Type} (clk : SsdClock τ) (s : BufferRun τ)

/-- One step. -/
def exec : BufferOp → Except Fault (BufferRun τ)
  | .command op => do
    let o ← s.ftl.handle clk op
    .ok { ftl := o.ns, pending := s.pending ++ o.ops }
  | .release i =>
    match s.pending[i]? with
    | none => .ok s
    | some op => .ok { ftl := s.ftl.releaseBuffer op, pending := s.pending.eraseIdx i }

/-- **The commands at hand:** a write is accepted, and no zone is opened with a random write
area. -/
def Accepted : BufferOp → Prop
  | .command (.write req) => req.cmd.length < 2 ^ 16 ∧
    ∀ o, s.ftl.znsWrite clk req = .ok o → ¬ o.Rejected
  | .command (.mgmtSend req) => ¬ ZnsOp.WithZrwa (.mgmtSend req)
  | .release _ => True

/-- The step settles the buffers. -/
def Settles : BufferOp → Prop
  | .command op => s.ftl.Settles op
  | .release _ => True

instance (op : BufferOp) : Decidable (s.Accepted clk op) :=
  match op with
  | .command (.write _) => inferInstanceAs (Decidable (_ ∧ _))
  | .command (.mgmtSend _) => inferInstanceAs (Decidable (¬ _))
  | .release _ => .isTrue trivial

instance (op : BufferOp) : Decidable (s.Settles op) := by
  cases op <;> unfold Settles <;> infer_instance

/-- **The write buffers are conserved.** -/
structure Conserved : Prop where
  le : ∀ z, z < s.ftl.zp.nrZones →
    (s.ftl.zoneWriteBuffer z).remaining ≤ (s.ftl.zoneWriteBuffer z).size
  active : s.pending = [] → ∀ z, z < s.ftl.zp.nrZones → (s.ftl.zoneDescs z).state.Active →
    (s.ftl.zoneWriteBuffer z).size - (s.ftl.zoneWriteBuffer z).remaining
      = ((s.ftl.zoneDescs z).wp - (s.ftl.zoneDescs z).zslba) * 512 % s.ftl.oneshotBytes
  idle : s.pending = [] → ∀ z, z < s.ftl.zp.nrZones →
    (s.ftl.zoneDescs z).state = .empty ∨ (s.ftl.zoneDescs z).state = .full →
    (s.ftl.zoneWriteBuffer z).remaining = (s.ftl.zoneWriteBuffer z).size

/-- **The invariant of the write buffers.** -/
structure BuffersOk (s : BufferRun τ) : Prop where
  zones : s.ftl.ZonesOk
  plain : ∀ z, z < s.ftl.zp.nrZones → (s.ftl.zoneDescs z).zrwav = false
  wbSize : s.ftl.zp.zoneWbSize ≠ 0
  size : ∀ z, z < s.ftl.zp.nrZones → (s.ftl.zoneWriteBuffer z).size < 2 ^ 64
  balance : ∀ z, z < s.ftl.zp.nrZones →
    (s.ftl.zoneWriteBuffer z).remaining + s.ftl.openBytes z
      + owedTo s.pending (ZnsBuffer.zone z).toNat = (s.ftl.zoneWriteBuffer z).size

variable {clk s}

/-- What the invariant says about the buffers. -/
theorem BuffersOk.conserved (h : BuffersOk s) : s.Conserved := by
  refine ⟨fun z hz => ?_, fun hnone z hz ha => ?_, fun hnone z hz hs => ?_⟩
  · have := h.balance z hz
    omega
  · have hb := h.balance z hz
    rw [hnone] at hb
    unfold ZnsFtl.openBytes owedTo at hb
    dsimp only at hb
    rw [if_pos ha, List.map_nil, List.sum_nil] at hb
    omega
  · have hb := h.balance z hz
    rw [hnone] at hb
    unfold ZnsFtl.openBytes owedTo at hb
    dsimp only at hb
    rw [if_neg (by rcases hs with hs | hs <;> simp [hs]), List.map_nil, List.sum_nil] at hb
    omega

end BufferRun

/-! ### Releases -/

@[simp] theorem ZnsBuffer.toNat_ofNat (n : ℕ) : (ofNat n).toNat = n := by
  unfold ofNat
  split_ifs with h0 hodd
  · exact h0.symm
  · show 2 * (n / 2) + 1 = n
    omega
  · show 2 * (n / 2 - 1) + 2 = n
    omega

/-- One operation is taken out. -/
theorem owedTo_eraseIdx {ops : List InternalOp} {i : ℕ} {op : InternalOp} (h : ops[i]? = some op)
    (buf : ℕ) : owedTo (ops.eraseIdx i) buf
      + (if op.writeBuffer = buf then op.buffsToRelease else 0) = owedTo ops buf := by
  induction ops generalizing i with
  | nil => simp at h
  | cons o ops ih =>
    cases i with
    | zero =>
      simp only [List.getElem?_cons_zero, Option.some.injEq] at h
      subst h
      simp [owedTo, add_comm]
    | succ i =>
      rw [List.getElem?_cons_succ] at h
      have := ih h
      rw [List.eraseIdx_cons_succ]
      unfold owedTo at *
      rw [List.map_cons, List.sum_cons, List.map_cons, List.sum_cons]
      omega

namespace BufferRun

variable {τ : Type} {clk : SsdClock τ} {s : BufferRun τ}

/-- **A scheduled release runs.** -/
theorem BuffersOk.release (h : BuffersOk s) {i : ℕ} {op : InternalOp}
    (hi : s.pending[i]? = some op) :
    BuffersOk { ftl := s.ftl.releaseBuffer op, pending := s.pending.eraseIdx i } := by
  obtain ⟨h1, h2, h3, h4, h5⟩ := h
  set f' := s.ftl.releaseBuffer op with hf'
  have hzp : f'.zp = s.ftl.zp := ZnsFtl.zp_setBuffer _ _
  have hsp : f'.sp = s.ftl.sp := ZnsFtl.sp_setBuffer _ _
  have hdescs : f'.zoneDescs = s.ftl.zoneDescs := ZnsFtl.zoneDescs_setBuffer _ _
  have hopen : ∀ z, f'.openBytes z = s.ftl.openBytes z := fun z => by
    unfold ZnsFtl.openBytes ZnsFtl.oneshotBytes
    rw [hdescs, hsp]
  have hbuf : ∀ z, f'.zoneWriteBuffer z = if op.writeBuffer = (ZnsBuffer.zone z).toNat then
      bufferRelease (s.ftl.zoneWriteBuffer z) op.buffsToRelease else s.ftl.zoneWriteBuffer z := by
    intro z
    have hset := ZnsFtl.buffer_setBuffer (f := s.ftl) (ZnsBuffer.ofNat op.writeBuffer) (.zone z)
      (bufferRelease (s.ftl.buffer (ZnsBuffer.ofNat op.writeBuffer)) op.buffsToRelease)
    have hiff : .zone z = ZnsBuffer.ofNat op.writeBuffer ↔
        op.writeBuffer = (ZnsBuffer.zone z).toNat := by
      constructor
      · intro he
        rw [he, ZnsBuffer.toNat_ofNat]
      · intro he
        rw [he, ZnsBuffer.ofNat_toNat]
    refine hset.trans ?_
    by_cases hz : op.writeBuffer = (ZnsBuffer.zone z).toNat
    · rw [if_pos hz, if_pos (hiff.2 hz), ← hiff.2 hz]
      rfl
    · rw [if_neg hz, if_neg fun he => hz (hiff.1 he)]
      rfl
  have hsize : ∀ z, (f'.zoneWriteBuffer z).size = (s.ftl.zoneWriteBuffer z).size := fun z => by
    rw [hbuf]
    split_ifs <;> rfl
  refine ⟨h1.congr hzp hsp hdescs (ZnsFtl.resInfos_setBuffer _ _), ?_, by rw [hzp]; exact h3, ?_,
    ?_⟩ <;> dsimp only <;> rw [hzp]
  · rw [hdescs]
    exact h2
  · intro z hz
    rw [hsize]
    exact h4 z hz
  · intro z hz
    rw [hopen, hsize]
    have hb := h5 z hz
    have hlt := h4 z hz
    have howed := owedTo_eraseIdx hi (ZnsBuffer.zone z).toNat
    rw [hbuf]
    split_ifs at howed ⊢
    · show u64 ((s.ftl.zoneWriteBuffer z).remaining + op.buffsToRelease) + _ + _ = _
      rw [u64_of_lt (by omega)]
      omega
    · omega

end BufferRun

/-! ### Zone management -/

namespace ZnsFtl

variable {τ : Type} (clk : SsdClock τ) {f g : ZnsFtl τ} {zid slba : ℕ}

/-- What a command that charges no buffer does to the buffers: nothing, and it leaves the incomplete
one-shot pages as they are. -/
structure Steady (f g : ZnsFtl τ) : Prop where
  zp : g.zp = f.zp
  sp : g.sp = f.sp
  buffers : g.zoneWriteBuffer = f.zoneWriteBuffer
  openBytes : ∀ z, g.openBytes z = f.openBytes z
  plain : ∀ z, (f.zoneDescs z).zrwav = false → (g.zoneDescs z).zrwav = false

theorem Steady.refl (f : ZnsFtl τ) : Steady f f :=
  ⟨rfl, rfl, rfl, fun _ => rfl, fun _ h => h⟩

theorem Steady.trans {h : ZnsFtl τ} (h₁ : Steady f g) (h₂ : Steady g h) : Steady f h :=
  ⟨h₂.zp.trans h₁.zp, h₂.sp.trans h₁.sp, h₂.buffers.trans h₁.buffers,
    fun z => (h₂.openBytes z).trans (h₁.openBytes z), fun z hz => h₂.plain z (h₁.plain z hz)⟩

/-- The descriptors and the buffers are the same. -/
theorem Steady.of_same (hzp : g.zp = f.zp) (hsp : g.sp = f.sp)
    (hb : g.zoneWriteBuffer = f.zoneWriteBuffer) (hd : g.zoneDescs = f.zoneDescs) :
    Steady f g := by
  refine ⟨hzp, hsp, hb, fun z => ?_, fun z => ?_⟩
  · unfold ZnsFtl.openBytes oneshotBytes
    rw [hd, hsp]
  · rw [hd]
    exact id

/-- A zone changes its state: it becomes active with nothing written, or leaves no incomplete
one-shot page behind. -/
theorem steady_changeZoneState (f : ZnsFtl τ) (zid : ℕ) (state : ZoneState)
    (hin : state.Active → ¬ (f.zoneDescs zid).state.Active →
      (f.zoneDescs zid).wp = (f.zoneDescs zid).zslba)
    (hout : (f.zoneDescs zid).state.Active → ¬ state.Active → f.openBytes zid = 0) :
    Steady f (f.changeZoneState zid state) := by
  refine ⟨rfl, rfl, rfl, fun z => ?_, fun z => ?_⟩
  · by_cases hz : z = zid
    · subst hz
      unfold ZnsFtl.openBytes at hout ⊢
      rw [zoneDescs_changeZoneState]
      dsimp only at hout ⊢
      by_cases hs : state.Active
      · rw [if_pos hs]
        by_cases ha : (f.zoneDescs z).state.Active
        · rw [if_pos ha]
          rfl
        · rw [if_neg ha, hin hs ha, Nat.sub_self, Nat.zero_mul, Nat.zero_mod]
      · rw [if_neg hs]
        by_cases ha : (f.zoneDescs z).state.Active
        · exact (hout ha hs).symm
        · rw [if_neg ha]
    · unfold ZnsFtl.openBytes
      rw [zoneDescs_changeZoneState_of_ne hz]
      rfl
  · by_cases hz : z = zid
    · subst hz
      rw [zoneDescs_changeZoneState]
      exact id
    · rw [zoneDescs_changeZoneState_of_ne hz]
      exact id

theorem steady_acquireZoneResource (f : ZnsFtl τ) (ty : ZoneResourceType) :
    Steady f (f.acquireZoneResource ty).1 := by
  unfold acquireZoneResource
  split_ifs <;> exact .of_same rfl rfl rfl rfl

theorem steady_releaseZoneResource (f : ZnsFtl τ) (ty : ZoneResourceType) :
    Steady f (f.releaseZoneResource ty) := .of_same rfl rfl rfl rfl

theorem zoneDescs_releaseActive (f : ZnsFtl τ) (zid : ℕ) :
    Steady f (f.releaseActive zid) ∧ (f.releaseActive zid).zoneDescs = f.zoneDescs := by
  unfold releaseActive releaseClosed
  cases (f.zoneDescs zid).state <;> dsimp only <;>
    first
    | exact ⟨.refl f, rfl⟩
    | (split_ifs <;> exact ⟨.of_same rfl rfl rfl rfl, rfl⟩)

theorem steady_closeZone (f : ZnsFtl τ) (zid : ℕ) : Steady f (f.zmgmtSendCloseZone zid).1 := by
  have hclose : (f.zoneDescs zid).state.Active →
      Steady f ((f.changeZoneState zid .closed).releaseZoneResource .open) := fun ha =>
    (steady_changeZoneState f zid .closed (fun _ h => absurd ha h) fun _ h =>
      absurd (by simp) h).trans
      (steady_releaseZoneResource _ _)
  unfold zmgmtSendCloseZone
  cases hs : (f.zoneDescs zid).state with
  | openedImpl => exact hclose (by simp [hs])
  | openedExpl => exact hclose (by simp [hs])
  | _ => exact .refl f

/-- A zone without an incomplete one-shot page is finished. -/
theorem steady_finishZone (f : ZnsFtl τ) (zid : ℕ) (h : f.openBytes zid = 0) :
    Steady f (f.zmgmtSendFinishZone zid).1 := by
  have hfull : Steady f ((f.releaseActive zid).changeZoneState zid .full) := by
    obtain ⟨hst, -⟩ := zoneDescs_releaseActive f zid
    exact hst.trans (steady_changeZoneState _ zid .full (by simp) fun _ _ =>
      (hst.openBytes zid).trans h)
  unfold zmgmtSendFinishZone
  cases hs : (f.zoneDescs zid).state with
  | openedImpl => exact hfull
  | openedExpl => exact hfull
  | closed => exact hfull
  | empty => exact steady_changeZoneState f zid .full (by simp) fun ha => by simp [hs] at ha
  | _ => exact .refl f

theorem steady_openClosedExpl (f : ZnsFtl τ) (zid : ℕ)
    (h : ¬ (f.zoneDescs zid).state.Active → (f.zoneDescs zid).wp = (f.zoneDescs zid).zslba) :
    Steady f (f.openClosedExpl zid).1 := by
  have hacq := steady_acquireZoneResource f .open
  have hdesc : (f.acquireZoneResource .open).1.zoneDescs = f.zoneDescs := by
    unfold acquireZoneResource
    split_ifs <;> rfl
  unfold openClosedExpl
  generalize f.acquireZoneResource .open = r at hacq hdesc ⊢
  obtain ⟨g, ok⟩ := r
  have hdesc : g.zoneDescs = f.zoneDescs := hdesc
  cases ok with
  | true =>
    refine hacq.trans (steady_changeZoneState g zid .openedExpl (fun _ hno => ?_) fun _ hno =>
      absurd (by simp) hno)
    rw [hdesc] at hno ⊢
    exact h hno
  | false => exact hacq

/-- A zone is opened without a random write area. -/
theorem ZonesOk.steady_openZone (h : f.ZonesOk) (hz : zid < f.zp.nrZones) :
    Steady f (f.zmgmtSendOpenZone zid false).1 := by
  unfold zmgmtSendOpenZone
  cases hs : (f.zoneDescs zid).state with
  | empty =>
    have hacq := steady_acquireZoneResource f .active
    have hdesc : (f.acquireZoneResource .active).1.zoneDescs = f.zoneDescs := by
      unfold acquireZoneResource
      split_ifs <;> rfl
    dsimp only
    simp only [Bool.false_eq_true, false_and, if_false]
    split_ifs
    · exact .refl f
    · exact .refl f
    · refine hacq.trans (steady_openClosedExpl _ zid fun _ => ?_)
      rw [hdesc]
      exact ((h.zones zid hz).empty hs).1
  | closed => exact steady_openClosedExpl f zid fun hno => by simp [hs] at hno
  | openedImpl =>
    exact steady_changeZoneState f zid .openedExpl (fun _ hno => by simp [hs] at hno)
      fun _ hno => absurd (by simp) hno
  | _ => exact .refl f

theorem steady_offlineZone (f : ZnsFtl τ) (zid : ℕ) : Steady f (f.zmgmtSendOfflineZone zid).1 := by
  unfold zmgmtSendOfflineZone
  cases hs : (f.zoneDescs zid).state with
  | readOnly =>
    exact steady_changeZoneState f zid .offline (by simp) fun ha => by simp [hs] at ha
  | _ => exact .refl f

/-- A zone without an incomplete one-shot page is reset. -/
theorem steady_resetZone (f : ZnsFtl τ) (zid : ℕ) (h : f.openBytes zid = 0) :
    Steady f (f.zmgmtSendResetZone zid).1 := by
  have hempty : Steady f
      (((f.releaseActive zid).changeZoneState zid .empty).resetZone zid) := by
    obtain ⟨hst, -⟩ := zoneDescs_releaseActive f zid
    have hchange := hst.trans (steady_changeZoneState _ zid .empty (by simp) fun _ _ =>
      (hst.openBytes zid).trans h)
    refine hchange.trans ?_
    set g := (f.releaseActive zid).changeZoneState zid .empty with hg
    have hstate : (g.zoneDescs zid).state = .empty := by rw [hg, zoneDescs_changeZoneState]
    have hset : Steady g (((g.clearZone zid).setZone zid fun d =>
        { d with wp := d.zslba, zrwav := false })) := by
      refine ⟨rfl, rfl, rfl, fun z => ?_, fun z => ?_⟩ <;> by_cases hz : z = zid
      · subst hz
        unfold ZnsFtl.openBytes
        rw [zoneDescs_setZone]
        dsimp only
        rw [if_neg, if_neg]
        · simp [hstate]
        · show ¬ (g.zoneDescs z).state.Active
          simp [hstate]
      · unfold ZnsFtl.openBytes
        rw [zoneDescs_setZone_of_ne hz]
        rfl
      · subst hz
        rw [zoneDescs_setZone]
        exact fun _ => rfl
      · rw [zoneDescs_setZone_of_ne hz]
        exact id
    unfold resetZone refillZwra
    dsimp only
    split_ifs
    · exact hset.trans (.of_same rfl rfl rfl rfl)
    · exact hset
  unfold zmgmtSendResetZone
  cases (f.zoneDescs zid).state with
  | readOnly => exact .refl f
  | offline => exact .refl f
  | _ => exact hempty

/-- **An action on a zone** without a random write area; a finish and a reset find no incomplete
one-shot page. -/
theorem ZonesOk.steady_action (h : f.ZonesOk) (hz : f.zp.lbaToZone f.sp slba < f.zp.nrZones)
    (hv : (f.zoneDescs (f.zp.lbaToZone f.sp slba)).zrwav = false) {action : ZoneSendAction}
    {option : Bool} (hopt : action = .openZone → option = false)
    (hset : action = .finishZone ∨ action = .resetZone →
      f.openBytes (f.zp.lbaToZone f.sp slba) = 0) :
    Ends (f.zmgmtAction slba action option) (fun r => Steady f r.1) fun _ => True := by
  unfold zmgmtAction
  cases action with
  | closeZone => exact steady_closeZone f _
  | finishZone => exact steady_finishZone f _ (hset (.inl rfl))
  | openZone =>
    rw [hopt rfl]
    exact h.steady_openZone hz
  | resetZone => exact steady_resetZone f _ (hset (.inr rfl))
  | offlineZone => exact steady_offlineZone f _
  | flushExplZrwa =>
    dsimp only
    unfold zmgmtSendFlushExplicitZrwa
    dsimp only
    rw [if_pos hv]
    exact .refl f

variable (f) in
/-- No zone has a random write area. -/
def Plain : Prop := ∀ z, z < f.zp.nrZones → (f.zoneDescs z).zrwav = false

theorem Steady.plainAll (h : Steady f g) (hf : f.Plain) : g.Plain := fun z hz =>
  h.plain z (hf z (by rwa [h.zp] at hz))

/-- **`__zmgmt_send`.** -/
theorem ZonesOk.steady_sendZone (h : f.ZonesOk) (hplain : f.Plain) (slba : ℕ)
    (action : ZoneSendAction) (option : Bool) (req : NvmevRequest) (t : ℕ)
    (hopt : action = .openZone → option = false)
    (hset : action = .finishZone ∨ action = .resetZone →
      f.openBytes (f.zp.lbaToZone f.sp slba) = 0) :
    Ends (f.zmgmtSendZone clk slba action option req t) (fun r => Steady f r.1) fun _ => True := by
  refine zmgmtSendZone_rule (I := Steady f) clk (fun g clock hg => ?_) (fun hz => ?_) req t
  · exact hg.trans (.of_same rfl rfl rfl rfl)
  · exact h.steady_action hz (hplain _ hz) hopt hset

/-- **`zns_zmgmt_send`** without random write areas. -/
theorem ZonesOk.steady_send (h : f.ZonesOk) (hplain : f.Plain) (req : NvmevRequest)
    (hzrwa : ¬ ZnsOp.WithZrwa (.mgmtSend req)) (hset : f.Settles (.mgmtSend req)) :
    Ends (f.znsZmgmtSend clk req) (fun o => o.ns.ZonesOk ∧ Steady f o.ns ∧ o.ops = [])
      fun _ => True := by
  unfold znsZmgmtSend
  cases ha : ZoneSendAction.ofZsa req.cmd.zsa with
  | none => exact trivial
  | some action =>
    have hopt : action = .openZone → req.cmd.zsaso = false := by
      rintro rfl
      exact Bool.eq_false_iff.2 fun ho => hzrwa ⟨ha, ho⟩
    have hsizes : action = .openZone → req.cmd.zsaso = true → f.zp.ZrwaSizes := fun he ho => by
      rw [hopt he] at ho
      exact absurd ho Bool.false_ne_true
    have hdone : action = .finishZone ∨ action = .resetZone →
        ∀ zid ∈ f.addressed req.cmd, f.openBytes zid = 0 := fun he =>
      hset (by rw [ha, Option.some.injEq, Option.some.injEq]; exact he)
    refine Ends.bind (Q := fun r => Kept False f r.1 ∧ Steady f r.1) ?_ fun r hr =>
      ⟨hr.1.zonesOk, hr.2, rfl⟩
    unfold zmgmtSend
    unfold addressed at hdone
    split_ifs with hall
    · refine (Ends.forRange (fun _ s => Kept False f s.1 ∧ Steady f s.1)
        ⟨⟨rfl, h, fun hb _ => hb⟩, .refl f⟩ ?_).bind fun s hs => by exact hs
      rintro z hz ⟨g, t⟩ ⟨hk, hst⟩
      have hk : Kept False f g := hk
      have hst : Steady f g := hst
      have hsend := (hk.zonesOk.sendZone clk (g.zp.zoneToSlba g.sp z) action req.cmd.zsaso
        (hk.zp ▸ hsizes) req t).and (hk.zonesOk.steady_sendZone clk (hst.plainAll hplain)
          (g.zp.zoneToSlba g.sp z) action req.cmd.zsaso req t hopt fun he => ?_)
      · refine (hsend.mono (fun _ hr => hr) fun _ _ => trivial).bind fun r hr => ?_
        exact ⟨hk.trans hr.1, hst.trans hr.2⟩
      · rw [hst.openBytes, hst.zp, hst.sp]
        refine hdone he _ ?_
        rw [if_pos hall]
        exact List.mem_map.2 ⟨z, List.mem_range.2 hz, rfl⟩
    · refine ((h.sendZone clk _ action _ hsizes req _).and (h.steady_sendZone clk hplain _ action _
        req _ hopt fun he => hdone he _ (by simp [hall]))).mono (fun _ hr => hr)
        fun _ _ => trivial

end ZnsFtl

namespace BufferRun

variable {τ : Type} {clk : SsdClock τ} {s : BufferRun τ}

/-- A command that leaves the buffers alone. -/
theorem BuffersOk.steady (h : BuffersOk s) {g : ZnsFtl τ} (hok : g.ZonesOk)
    (hst : s.ftl.Steady g) : BuffersOk { ftl := g, pending := s.pending } := by
  obtain ⟨h1, h2, h3, h4, h5⟩ := h
  refine ⟨hok, hst.plainAll h2, ?_, ?_, ?_⟩ <;> dsimp only <;> rw [hst.zp]
  · exact h3
  · rw [hst.buffers]
    exact h4
  · intro z hz
    rw [hst.buffers, hst.openBytes]
    exact h5 z hz

end BufferRun

end NvmeVirt
