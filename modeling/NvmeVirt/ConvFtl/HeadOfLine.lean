/-
# The head of a submission queue

`conv_proc_nvme_io_cmd` behind `nvmev_proc_io_sq`.  A command for which it
returns false ends the call at the index the command is at, so that the next
call finds it again.  For want of buffer space that is what it is for; for a
command out of range, or one larger than the whole buffer, it goes on for ever.
-/

import NvmeVirt.ConvFtl.Range
import NvmeVirt.Io.Queues

namespace NvmeVirt

open Outcome

/-- A conventional namespace with its storage and the memory of the host. -/
structure ConvDev where
  ns : ConvNs
  storage : Mem
  host : Mem

/-- What the timing model computes: `nsecs_target` of the result, and when the `i`-th one-shot page a
write completes is written. -/
structure ConvTimes where
  target : ConvNs → NvmevRequest → ℕ
  pageWritten : ConvNs → NvmevRequest → ℕ → ℕ

namespace ConvDev

variable (times : ConvTimes) (d : ConvDev)

/-- `conv_proc_nvme_io_cmd`; an unknown command keeps the result `__nvmev_proc_io` has set. -/
def convProcNvmeIoCmd (req : NvmevRequest) : Except Fault (IoOutcome ConvDev) :=
  let result : NvmevResult := { status := 0, nsecsTarget := times.target d.ns req }
  match req.cmd.opcode with
  | .write => do
    let (ns, releases) ← d.ns.convWrite req.cmd.slba req.cmd.length
    .ok {
      ns := { d with ns := ns }, cmd := req.cmd
      ops := (releases.getD []).mapIdx fun i size =>
        { nsecsTarget := times.pageWritten d.ns req i, writeBuffer := 0, buffsToRelease := size }
      ret := releases.map fun _ => result }
  | .read => do
    let reads ← d.ns.convRead req.cmd.slba req.cmd.length
    .ok { ns := d, cmd := req.cmd, ops := [], ret := reads.map fun _ => result }
  | .flush => .ok { ns := d, cmd := req.cmd, ops := [], ret := some result }
  | _ => .ok {
      ns := d, cmd := req.cmd, ops := []
      ret := some { status := 0, nsecsTarget := req.nsecsStart } }

/-- `__do_perform_io` on the storage of the namespace. -/
def performIo (cmd : NvmeRwCommand) : Except Fault ConvDev := do
  let c ← doPerformIo cmd d.host d.storage
  .ok { d with storage := c.storage, host := c.host }

/-- `buffer_release` on the write buffer all instances share. -/
def bufferRelease (_buf bytes : ℕ) : ConvDev :=
  { d with ns := { d.ns with writeBuffer := NvmeVirt.bufferRelease d.ns.writeBuffer bytes } }

end ConvDev

/-- The conventional namespace behind the dispatcher. -/
def convTarget (times : ConvTimes) : IoTarget ConvDev where
  procIoCmd := ConvDev.convProcNvmeIoCmd times
  performIo := ConvDev.performIo
  bufferRelease := ConvDev.bufferRelease

/-! ### A call of `nvmev_proc_io_sq` -/

namespace NvmevDev

variable {σ : Type} (cfg : IoConfig) (tgt : IoTarget σ) (t : ℕ → ℕ) (d : NvmevDev σ)

/-- Rounds of the loop of `nvmev_proc_io_sq` with no worker in between. -/
def procIoSqRounds : ℕ → NvmevDev σ → Except Fault (NvmevDev σ)
  | 0, d => .ok d
  | n + 1, d => do
    let d ← d.dispatch cfg tgt (t n)
    let d ← d.finishRound cfg
    procIoSqRounds n d

/-- **A call of `nvmev_proc_io_sq`** as `nvmev_proc_dbs` makes it: a round for each new entry, and
the end. -/
def procIoSq (sqid : ℕ) : Except Fault (NvmevDev σ) :=
  let n := (d.shapes sqid).elim 0 fun s => Ring.dist s.1 (d.oldDbs sqid) (d.dbs sqid)
  procIoSqRounds cfg tgt t (n + 1) (d.pollSq sqid)

/-- **The command at the head is consumed:** the first round dispatches it, with an error status
unless it is valid, and the call returns another index than the old one. -/
structure ConsumesHead (sqid : ℕ) (cmd : NvmeRwCommand) (valid : Prop) : Prop where
  dispatched : ∀ nsecsStart, Ends ((d.pollSq sqid).dispatch cfg tgt nsecsStart) (fun d' => ∃ i,
    d'.history.dispatched = d.history.dispatched ++ [{ item := i, cmd := cmd }] ∧
    (¬ valid → i.status ≠ 0)) fun _ => False
  index : ∀ t, Ends (d.procIoSq cfg tgt t sqid) (fun d' => d'.oldDbs sqid ≠ d.oldDbs sqid)
    fun _ => True

/-! ### One call -/

variable {cfg tgt d} {sqid : ℕ} {sq : SubmissionQueue}

/-- The locals `nvmev_proc_io_sq` starts with. -/
def newCall (d : NvmevDev σ) (sqid queueSize : ℕ) : ProcIoSq where
  sqid := sqid
  newDb := d.dbs sqid
  oldDb := d.oldDbs sqid
  numProc := Ring.dist queueSize (d.oldDbs sqid) (d.dbs sqid)
  seq := 0
  sqEntry := d.oldDbs sqid
  reclaiming := false

/-- The dispatcher finds the doorbell of `sqid` ahead of the old one. -/
structure Rung (d : NvmevDev σ) (sqid : ℕ) (sq : SubmissionQueue) : Prop where
  idle : d.call = none
  sqid_pos : sqid ≠ 0
  queue : d.sqes sqid = some sq
  oldDb : d.oldDbs sqid < sq.queueSize
  newDb : d.dbs sqid < sq.queueSize
  ahead : d.dbs sqid ≠ d.oldDbs sqid

theorem Rung.pollSq (h : d.Rung sqid sq) :
    d.pollSq sqid = { d with call := some (d.newCall sqid sq.queueSize) } := by
  unfold NvmevDev.pollSq
  rw [h.idle, h.queue]
  dsimp only
  rw [if_neg (not_or.2 ⟨h.sqid_pos, h.ahead⟩)]
  rfl

theorem Rung.numProc_pos (h : d.Rung sqid sq) : 0 < (d.newCall sqid sq.queueSize).numProc := by
  have := h.ahead
  have := h.oldDb
  simp only [newCall, Ring.dist]
  split_ifs <;> omega

theorem Rung.shape (h : d.Rung sqid sq) : d.shapes sqid = some (sq.queueSize, sq.cqid) := by
  unfold shapes
  rw [h.queue]
  rfl

/-- The rounds of the call. -/
theorem Rung.procIoSq (h : d.Rung sqid sq) (t : ℕ → ℕ) : d.procIoSq cfg tgt t sqid =
    procIoSqRounds cfg tgt t ((d.newCall sqid sq.queueSize).numProc + 1) (d.pollSq sqid) := by
  unfold NvmevDev.procIoSq
  rw [h.shape]
  rfl

/-- The request for the command at the head. -/
def headRequest (d : NvmevDev σ) (sqid : ℕ) (sq : SubmissionQueue) (nsecsStart : ℕ) :
    NvmevRequest where
  cmd := sq.sq (d.oldDbs sqid)
  sqId := sqid
  nsecsStart := nsecsStart

theorem Rung.dispatch (h : d.Rung sqid sq) (t : ℕ) : (d.pollSq sqid).dispatch cfg tgt t =
    (tgt.procIoCmd d.ns (d.headRequest sqid sq t) >>= fun out => .ok ((d.pollSq sqid).finishIo cfg
      (d.newCall sqid sq.queueSize) sq out)) := by
  rw [h.pollSq]
  unfold NvmevDev.dispatch
  dsimp only
  rw [if_neg (show ¬ (d.newCall sqid sq.queueSize).reclaiming = true from Bool.false_ne_true)]
  have hqueue : d.sqes (d.newCall sqid sq.queueSize).sqid = some sq := h.queue
  rw [hqueue]
  dsimp only
  rw [if_pos (show (d.newCall sqid sq.queueSize).seq < _ from h.numProc_pos)]
  rfl

/-- What the FTL leaves of the queues before the result is looked at. -/
theorem sameQueues_afterFtl (cfg : IoConfig) (d : NvmevDev σ) (c : ProcIoSq) (out : IoOutcome σ) :
    SameQueues d ((d.afterFtl c out).scheduleAll cfg c.sqid out.ops) := by
  have h1 : SameQueues d ({ d with ns := out.ns } : NvmevDev σ) :=
    ⟨rfl, fun _ => rfl, rfl, rfl, rfl, rfl, rfl⟩
  exact (h1.trans (.writeSq _ _ _ _)).trans (.scheduleAll _ _ _)

/-- **The first round dispatches the head** exactly if the FTL returns true for it. -/
theorem Rung.dispatched_iff (h : d.Rung sqid sq) (cmd : NvmeRwCommand) (valid : Prop) (t : ℕ) :
    Ends ((d.pollSq sqid).dispatch cfg tgt t) (fun d' => ∃ i,
      d'.history.dispatched = d.history.dispatched ++ [{ item := i, cmd := cmd }] ∧
      (¬ valid → i.status ≠ 0)) (fun _ => False) ↔
    Ends (tgt.procIoCmd d.ns (d.headRequest sqid sq t))
      (fun out => out.cmd = cmd ∧ ∃ r, out.ret = some r ∧ (¬ valid → r.status ≠ 0))
      fun _ => False := by
  rw [h.dispatch]
  cases tgt.procIoCmd d.ns (d.headRequest sqid sq t) with
  | error e => exact Iff.rfl
  | ok out =>
    have hs := sameQueues_afterFtl cfg (d.pollSq sqid) (d.newCall sqid sq.queueSize) out
    have hd : (d.pollSq sqid).history.dispatched = d.history.dispatched := by rw [h.pollSq]
    have hdisp := hs.dispatched.trans hd
    simp only [ok_bind, ends_ok]
    unfold NvmevDev.finishIo
    cases hret : out.ret with
    | none =>
      refine iff_of_false ?_ ?_
      · rintro ⟨i, hi, -⟩
        have hlen := congrArg List.length (hdisp.symm.trans hi)
        rw [List.length_append, List.length_singleton] at hlen
        omega
      · rintro ⟨-, r, hr, -⟩
        cases hr
    | some r =>
      dsimp only [enqueueIoReq]
      rw [hdisp]
      constructor
      · rintro ⟨i, hi, hst⟩
        have hx := List.singleton_inj.1 (List.append_cancel_left hi)
        rw [Dispatch.mk.injEq] at hx
        obtain ⟨rfl, rfl⟩ := hx
        exact ⟨rfl, r, rfl, hst⟩
      · rintro ⟨rfl, r', hr, hst⟩
        cases hr
        exact ⟨_, rfl, hst⟩

/-- How far a call has come that has consumed its first command: it has ended at another index, or
it goes on with `left` rounds to go. -/
inductive Advancing (sqid oldDb queueSize cqid left : ℕ) (d : NvmevDev σ) : Prop
  | ended (call : d.call = none) (oldDbs : d.oldDbs sqid ≠ oldDb)
  | running (c : ProcIoSq) (call : d.call = some c) (queue : c.sqid = sqid) (from_ : c.oldDb = oldDb)
    (shape : d.shapes sqid = some (queueSize, cqid)) (going : c.reclaiming = false)
    (seq : 1 ≤ c.seq) (upTo : c.seq ≤ c.numProc) (rounds : c.seq + left = c.numProc + 1)
    (numProc : c.numProc < queueSize)

/-- Fewer steps than there are slots lead to another slot. -/
theorem add_mod_ne {n a k : ℕ} (ha : a < n) (hk : 1 ≤ k) (hkn : k < n) : (a + k) % n ≠ a := by
  rcases lt_or_ge (a + k) n with h | h
  · rw [Nat.mod_eq_of_lt h]
    omega
  · rw [Nat.mod_eq_sub_mod h, Nat.mod_eq_of_lt (by omega)]
    omega

/-- A call that returns after some of its commands returns another index. -/
theorem returnDb_advances {c : ProcIoSq} (d : NvmevDev σ) (r : Option ℕ) (left : ℕ)
    (hold : c.oldDb < sq.queueSize) (hseq : 1 ≤ c.seq) (hlt : c.seq < sq.queueSize) :
    Advancing c.sqid c.oldDb sq.queueSize sq.cqid left (d.returnDb c sq r) := by
  refine .ended rfl ?_
  show Function.update d.oldDbs c.sqid _ c.sqid ≠ c.oldDb
  rw [Function.update_self]
  exact add_mod_ne hold hseq hlt

/-- **A round that dispatches a command,** or ends the call at one that is not the first. -/
theorem finishIo_advances {c : ProcIoSq} (left : ℕ) (out : IoOutcome σ)
    (hshape : d.shapes c.sqid = some (sq.queueSize, sq.cqid)) (hold : c.oldDb < sq.queueSize)
    (hseq : c.seq < c.numProc) (hnum : c.numProc < sq.queueSize)
    (hleft : c.seq + 1 + left = c.numProc + 1) (hret : out.ret = none → 1 ≤ c.seq) :
    Ends ((d.finishIo cfg c sq out).finishRound cfg)
      (Advancing c.sqid c.oldDb sq.queueSize sq.cqid left) fun _ => True := by
  have hs := sameQueues_afterFtl cfg d c out
  unfold NvmevDev.finishIo
  cases hr : out.ret with
  | none => exact returnDb_advances _ _ left hold (hret hr) (hseq.trans hnum)
  | some r =>
    dsimp only
    unfold NvmevDev.finishRound
    dsimp only
    rw [if_neg (not_not.2 rfl)]
    split
    · exact trivial
    · rename_i sq' hsq'
      exact .running _ rfl rfl rfl ((congrFun hs.shapes c.sqid).trans hshape) rfl (Nat.succ_pos _)
        hseq hleft hnum

/-- **A later round.** -/
theorem Advancing.round {oldDb left : ℕ}
    (h : Advancing sqid oldDb sq.queueSize sq.cqid (left + 1) d) (hold : oldDb < sq.queueSize)
    (t : ℕ) : Ends (d.dispatch cfg tgt t >>= fun d => d.finishRound cfg)
      (Advancing sqid oldDb sq.queueSize sq.cqid left) fun _ => True := by
  rcases h with ⟨hcall, hdb⟩ | ⟨c, hcall, rfl, rfl, hshape, hgo, hseq, hle, hleft, hnum⟩
  · unfold NvmevDev.dispatch
    rw [hcall]
    show Ends (d.finishRound cfg) _ _
    unfold NvmevDev.finishRound
    rw [hcall]
    exact .ended hcall hdb
  · unfold NvmevDev.dispatch
    rw [hcall]
    dsimp only
    rw [hgo, if_neg Bool.false_ne_true]
    cases hsq : d.sqes c.sqid with
    | none => exact trivial
    | some sq' =>
      have hshape' : d.shapes c.sqid = some (sq'.queueSize, sq'.cqid) := by
        unfold shapes
        rw [hsq]
        rfl
      obtain ⟨hqs, hcq⟩ := Prod.mk.inj (Option.some.inj (hshape'.symm.trans hshape))
      rw [← hqs] at hold hnum
      rw [← hqs, ← hcq]
      dsimp only
      split_ifs with hlt
      · unfold NvmevDev.procIo
        cases tgt.procIoCmd d.ns (request c sq' t) with
        | error e => exact trivial
        | ok out =>
          exact finishIo_advances left out hshape' hold hlt hnum (by omega) fun _ => hseq
      · exact returnDb_advances d none left hold hseq (by omega)

/-- **The rest of a call** that has consumed its first command ends at another index. -/
theorem Advancing.rounds {oldDb left : ℕ} {d : NvmevDev σ}
    (h : Advancing sqid oldDb sq.queueSize sq.cqid left d) (hold : oldDb < sq.queueSize)
    (t : ℕ → ℕ) :
    Ends (procIoSqRounds cfg tgt t left d) (fun d' => d'.oldDbs sqid ≠ oldDb) fun _ => True := by
  induction left generalizing d with
  | zero =>
    rcases h with ⟨-, hdb⟩ | ⟨c, -, rfl, rfl, -, -, -, hle, hleft, -⟩
    · exact hdb
    · omega
  | succ left ih =>
    have hfirst : Ends (d.dispatch cfg tgt (t left) >>= fun d => d.finishRound cfg)
        (Advancing sqid oldDb sq.queueSize sq.cqid left) fun _ => True := h.round hold (t left)
    have := hfirst.bind fun d' hd' => ih hd'
    rwa [bind_assoc] at this

/-- A dispatcher that stands nowhere does nothing. -/
theorem procIoSqRounds_idle (t : ℕ → ℕ) (n : ℕ) (hcall : d.call = none) :
    procIoSqRounds cfg tgt t n d = .ok d := by
  induction n with
  | zero => rfl
  | succ n ih =>
    unfold procIoSqRounds NvmevDev.dispatch NvmevDev.finishRound
    simp only [hcall, ok_bind]
    exact ih

/-- **A command that is refused** is at the head of the queue again after the call. -/
theorem Rung.refused (h : d.Rung sqid sq) (t : ℕ → ℕ)
    (hout : ∀ nsecsStart, Ends (tgt.procIoCmd d.ns (d.headRequest sqid sq nsecsStart))
      (fun out => out.ret = none) fun _ => False) :
    Ends (d.procIoSq cfg tgt t sqid) (fun d' => d'.oldDbs sqid = d.oldDbs sqid) fun _ => False := by
  rw [h.procIoSq]
  unfold procIoSqRounds
  rw [h.dispatch, bind_assoc]
  refine (hout _).bind fun out hret => ?_
  simp only [ok_bind]
  unfold NvmevDev.finishIo
  rw [hret]
  dsimp only
  unfold NvmevDev.finishRound
  simp only [returnDb, ok_bind]
  rw [procIoSqRounds_idle t _ rfl]
  show (Function.update _ sqid ((d.oldDbs sqid + 0) % sq.queueSize) : ℕ → ℕ) sqid = d.oldDbs sqid
  rw [Function.update_self, add_zero, Nat.mod_eq_of_lt h.oldDb]

/-- **A call consumes the command at its head** exactly if the FTL returns true for it, whenever the
call is made. -/
theorem Rung.consumesHead_iff (h : d.Rung sqid sq) (cmd : NvmeRwCommand) (valid : Prop) :
    d.ConsumesHead cfg tgt sqid cmd valid ↔ ∀ nsecsStart,
      Ends (tgt.procIoCmd d.ns (d.headRequest sqid sq nsecsStart))
        (fun out => out.cmd = cmd ∧ ∃ r, out.ret = some r ∧ (¬ valid → r.status ≠ 0))
        fun _ => False := by
  constructor
  · intro hc t
    exact (h.dispatched_iff cmd valid t).1 (hc.dispatched t)
  · intro hacc
    refine ⟨fun t => (h.dispatched_iff cmd valid t).2 (hacc t), fun t => ?_⟩
    set c := d.newCall sqid sq.queueSize with hc
    have hnum : c.numProc < sq.queueSize := Ring.dist_lt h.oldDb h.newDb
    have hpos : 0 < c.numProc := h.numProc_pos
    have hseq : c.seq = 0 := rfl
    rw [h.procIoSq]
    have hshape : (d.pollSq sqid).shapes c.sqid = some (sq.queueSize, sq.cqid) := by
      rw [h.pollSq]
      exact h.shape
    have hfirst : Ends ((d.pollSq sqid).dispatch cfg tgt (t c.numProc) >>= fun d =>
        d.finishRound cfg) (Advancing sqid (d.oldDbs sqid) sq.queueSize sq.cqid c.numProc)
        fun _ => True := by
      rw [h.dispatch, bind_assoc]
      refine ((hacc (t c.numProc)).mono (fun _ hq => hq) fun _ => False.elim).bind ?_
      rintro out ⟨-, r, hr, -⟩
      refine finishIo_advances (c := c) c.numProc out hshape h.oldDb hpos hnum (by rw [hseq]; omega)
        fun hn => ?_
      rw [hr] at hn
      cases hn
    have hrest : ∀ d', Advancing sqid (d.oldDbs sqid) sq.queueSize sq.cqid c.numProc d' →
        Ends (procIoSqRounds cfg tgt t c.numProc d') (fun d' => d'.oldDbs sqid ≠ d.oldDbs sqid)
          fun _ => True := fun d' hd' => hd'.rounds h.oldDb t
    have := hfirst.bind hrest
    rwa [bind_assoc] at this

end NvmevDev

/-! ### The conventional namespace behind the call -/

/-- The logical blocks a namespace advertises, `nsze` of its identify data. -/
def ConvNs.nsze (ns : ConvNs) : ℕ := ns.size / 512

/-- **A valid command:** a flush, or a read or write of advertised blocks. -/
def ConvNs.ValidCommand (ns : ConvNs) (cmd : NvmeRwCommand) : Prop :=
  match cmd.opcode with
  | .read | .write => cmd.slba + cmd.length < ns.nsze
  | .flush => True
  | _ => False

/-- The command passes the range check of `conv_read` or `conv_write`. -/
def ConvNs.PassesCheck (ns : ConvNs) (cmd : NvmeRwCommand) : Prop :=
  match cmd.opcode with
  | .read | .write => ns.inFtlRange cmd.slba cmd.length
  | _ => True

namespace ConvDev

variable {times : ConvTimes} {d : ConvDev} {req : NvmevRequest}

/-- The head is answered: its result is there, with an error status unless the command is valid. -/
def Answered (valid : Prop) (cmd : NvmeRwCommand) (out : IoOutcome ConvDev) : Prop :=
  out.cmd = cmd ∧ ∃ r, out.ret = some r ∧ (¬ valid → r.status ≠ 0)

/-- **Valid commands pass the range check** in a namespace the geometry was not computed too small
for. -/
theorem passesCheck_of_valid {size : ℕ} {cfg : FtlConfigs} {ns₀ ns : ConvNs}
    (hinit : convInitNamespace size cfg = .ok ns₀) (hshape : ConvNs.Shape ns₀ ns)
    (hsize : size < 2 ^ 63) (hos : cfg.oneshotPageSize < 2 ^ 31) (hblk : cfg.blkSize < 2 ^ 31)
    (hparts : cfg.ssdPartitions ≤ size) {cmd : NvmeRwCommand} (h : ns.ValidCommand cmd) :
    ns.PassesCheck cmd := by
  have hrw : cmd.slba + cmd.length < ns.nsze → ns.inFtlRange cmd.slba cmd.length := by
    intro hlt
    have hadv : (cmd.slba + cmd.length + 1) * 512 ≤ ns.size := by
      unfold ConvNs.nsze at hlt
      omega
    have hgeo := lt_geometryLbas_of_advertised hinit hshape hsize hos hblk hparts hadv
    unfold ConvNs.inFtlRange ConvNs.endLpn
    rw [Nat.div_div_eq_div_mul]
    refine Nat.div_lt_of_lt_mul ?_
    calc u64 (cmd.slba + cmd.length) ≤ cmd.slba + cmd.length := Nat.mod_le _ _
      _ < ns.geometryLbas := hgeo
      _ = ns.sp.secsPerPg * ns.nrParts * ns.sp.ttPgs := by
        unfold ConvNs.geometryLbas
        ring
  unfold ConvNs.ValidCommand at h
  unfold ConvNs.PassesCheck
  cases hop : cmd.opcode with
  | read => exact hrw (by simpa [hop] using h)
  | write => exact hrw (by simpa [hop] using h)
  | _ => trivial

/-- A result with status success answers the command exactly if it is valid. -/
theorem answered_success {cmd : NvmeRwCommand} {out : IoOutcome ConvDev} {r : NvmevResult}
    {valid : Prop} (hcmd : out.cmd = cmd) (hret : out.ret = some r) (hst : r.status = 0) :
    Answered valid cmd out ↔ valid := by
  constructor
  · rintro ⟨-, r', hr, hne⟩
    obtain rfl : r = r' := Option.some.inj (hret.symm.trans hr)
    exact not_not.1 fun hv => hne hv hst
  · exact fun hv => ⟨hcmd, r, hret, fun hn => absurd hv hn⟩

/-- A write for which the buffer has no room is refused. -/
theorem convWrite_full {ns : ConvNs} {slba length : ℕ} (hparts : 0 < ns.nrParts)
    (h : ns.writeBuffer.remaining < lbaToByte (length + 1)) :
    ∃ ns', ns.convWrite slba length = .ok (ns', none) := by
  have halloc : (bufferAllocate ns.writeBuffer (lbaToByte (length + 1))).2 = 0 := if_pos h
  unfold ConvNs.convWrite
  rw [defined_bind hparts]
  dsimp only
  rw [halloc]
  split_ifs with hr hb
  · exact ⟨_, rfl⟩
  · omega
  · exact ⟨_, rfl⟩

/-- A write that ends is not refused exactly if it passes the range check and the buffer has
room. -/
theorem convWrite_isSome {ns ns' : ConvNs} {slba length : ℕ} {ret : Option (List ℕ)}
    (hparts : 0 < ns.nrParts) (h : ns.convWrite slba length = .ok (ns', ret)) :
    ret.isSome ↔ ns.inFtlRange slba length ∧ lbaToByte (length + 1) ≤ ns.writeBuffer.remaining := by
  rcases lt_or_ge ns.writeBuffer.remaining (lbaToByte (length + 1)) with hroom | hroom
  · obtain ⟨ns₁, h₁⟩ := convWrite_full hparts hroom
    rw [h] at h₁
    cases h₁
    exact iff_of_false Bool.false_ne_true fun hc => absurd hc.2 (not_le.2 hroom)
  · rw [and_iff_left hroom, ← ConvNs.accepts_write hparts hroom]
    unfold ConvNs.Accepts
    cases ret with
    | none => exact iff_of_false Bool.false_ne_true fun hacc => hacc ns' h
    | some releases =>
      refine iff_of_true rfl fun ns₁ h₁ => ?_
      rw [h] at h₁
      cases h₁

/-- **A write** is answered exactly if it is valid, passes the range check and the buffer has room. -/
theorem answered_write (hinv : d.ns.Inv) (hop : req.cmd.opcode = .write)
    (hfree : d.ns.convWrite req.cmd.slba req.cmd.length ≠ .error .noFreeLine) (valid : Prop) :
    Ends (d.convProcNvmeIoCmd times req) (Answered valid req.cmd) (fun _ => False) ↔
    valid ∧ d.ns.inFtlRange req.cmd.slba req.cmd.length ∧
      lbaToByte (req.cmd.length + 1) ≤ d.ns.writeBuffer.remaining := by
  unfold convProcNvmeIoCmd
  rw [hop]
  dsimp only
  cases hw : d.ns.convWrite req.cmd.slba req.cmd.length with
  | error e =>
    have he := (hinv.convWrite req.cmd.slba req.cmd.length).of_error hw
    exact absurd (hw.trans (congrArg _ he)) hfree
  | ok r =>
    obtain ⟨ns', ret⟩ := r
    rw [← convWrite_isSome hinv.parts_pos hw]
    simp only [ok_bind, ends_ok]
    cases ret with
    | none =>
      refine iff_of_false ?_ fun h => Bool.false_ne_true h.2
      rintro ⟨-, r, hr, -⟩
      cases hr
    | some releases => exact (answered_success rfl rfl rfl).trans (and_iff_left rfl).symm

/-- A read that does not pass the range check is refused. -/
theorem convRead_out {ns : ConvNs} {slba length : ℕ} (hparts : 0 < ns.nrParts)
    (h : ¬ ns.inFtlRange slba length) : ns.convRead slba length = .ok none := by
  unfold ConvNs.convRead
  rw [defined_bind hparts]
  dsimp only
  rw [if_pos h]
  rfl

/-- **A read** is answered exactly if it is valid and passes the range check. -/
theorem answered_read (hparts : 0 < d.ns.nrParts) (hsp : ∀ q, q < d.ns.nrParts →
    (d.ns.ftls q).ssd.sp = d.ns.sp) (hop : req.cmd.opcode = .read) (valid : Prop) :
    Ends (d.convProcNvmeIoCmd times req) (Answered valid req.cmd) (fun _ => False) ↔
      valid ∧ d.ns.inFtlRange req.cmd.slba req.cmd.length := by
  have hacc : d.ns.Accepts req.cmd.slba req.cmd.length .read ↔
      d.ns.inFtlRange req.cmd.slba req.cmd.length :=
    ConvNs.accepts_read (⟨rfl, rfl, rfl, hsp⟩ : ConvNs.Shape d.ns d.ns) hparts
  unfold convProcNvmeIoCmd
  rw [hop]
  dsimp only
  by_cases hin : d.ns.inFtlRange req.cmd.slba req.cmd.length
  · obtain ⟨reads, hr⟩ := hacc.2 hin
    rw [hr, and_iff_left hin]
    simp only [ok_bind, ends_ok]
    exact answered_success rfl rfl rfl
  · rw [convRead_out hparts hin]
    simp only [ok_bind, ends_ok]
    refine iff_of_false ?_ fun h => hin h.2
    rintro ⟨-, r, hr, -⟩
    cases hr

/-- **A command** is answered exactly if it is valid, passes the range check and, where it is a write,
finds room in the buffer. -/
theorem answered_iff (hinv : d.ns.Inv) (hfree : req.cmd.opcode = .write →
    d.ns.convWrite req.cmd.slba req.cmd.length ≠ .error .noFreeLine) :
    Ends (d.convProcNvmeIoCmd times req) (Answered (d.ns.ValidCommand req.cmd) req.cmd)
      (fun _ => False) ↔
    d.ns.ValidCommand req.cmd ∧ d.ns.PassesCheck req.cmd ∧ (req.cmd.opcode = .write →
      lbaToByte (req.cmd.length + 1) ≤ d.ns.writeBuffer.remaining) := by
  unfold ConvNs.PassesCheck
  cases hop : req.cmd.opcode with
  | write => simpa using answered_write hinv hop (hfree hop) _
  | read => simpa using answered_read hinv.parts_pos hinv.sp hop _
  | flush =>
    unfold convProcNvmeIoCmd ConvNs.ValidCommand
    rw [hop]
    exact iff_of_true ⟨rfl, _, rfl, fun hn => absurd trivial hn⟩ ⟨trivial, trivial, nofun⟩
  | _ =>
    unfold convProcNvmeIoCmd ConvNs.ValidCommand
    rw [hop]
    refine iff_of_false ?_ fun h => h.1
    rintro ⟨-, r, hr, hst⟩
    cases hr
    exact hst id rfl

end ConvDev

/-- **No permanent head-of-line block.**  With the whole write buffer free and free lines for the
command, a call of `nvmev_proc_io_sq` on a queue whose doorbell is ahead consumes the command at the
head, with an error status unless it is valid, exactly if the command is valid, passes the range
check of the FTL and, where it is a write, is not larger than the whole buffer. -/
theorem convCall_consumesHead_iff (cfg : IoConfig) (times : ConvTimes) (size : ℕ)
    (ftlCfg : FtlConfigs) {ns₀ : ConvNs} (hinit : convInitNamespace size ftlCfg = .ok ns₀)
    (hfit : ns₀.sp.FitsPpa) (ops : List ConvOp) {d : NvmevDev ConvDev}
    (hrun : runList ConvNs.exec ns₀ ops = .ok d.ns.ns)
    (hbuf : d.ns.ns.writeBuffer.remaining = d.ns.ns.writeBuffer.size) {sqid : ℕ}
    {sq : SubmissionQueue} (hrung : d.Rung sqid sq)
    (hfree : (sq.sq (d.oldDbs sqid)).opcode = .write → d.ns.ns.convWrite
      (sq.sq (d.oldDbs sqid)).slba (sq.sq (d.oldDbs sqid)).length ≠ .error .noFreeLine) :
    d.ConsumesHead cfg (convTarget times) sqid (sq.sq (d.oldDbs sqid))
      (d.ns.ns.ValidCommand (sq.sq (d.oldDbs sqid))) ↔
    d.ns.ns.ValidCommand (sq.sq (d.oldDbs sqid)) ∧ d.ns.ns.PassesCheck (sq.sq (d.oldDbs sqid)) ∧
      ((sq.sq (d.oldDbs sqid)).opcode = .write →
        lbaToByte ((sq.sq (d.oldDbs sqid)).length + 1) ≤ d.ns.ns.writeBuffer.size) := by
  have hinv : d.ns.ns.Inv := (((convInitNamespace_inv hinit hfit).1.run ops).of_ok hrun).inv
  rw [hrung.consumesHead_iff, ← hbuf]
  have hhead : ∀ t, Ends ((convTarget times).procIoCmd d.ns (d.headRequest sqid sq t))
      (ConvDev.Answered (d.ns.ns.ValidCommand (sq.sq (d.oldDbs sqid))) (sq.sq (d.oldDbs sqid)))
      (fun _ => False) ↔ _ := fun t =>
    ConvDev.answered_iff (d := d.ns) hinv hfree
  exact ⟨fun h => (hhead 0).1 (h 0), fun h t => (hhead t).2 h⟩

/-- A device with one queue of four slots, the doorbell one slot ahead, and one command in every
slot. -/
def oneCommand (ns : ConvNs) (cmd : NvmeRwCommand) : NvmevDev ConvDev :=
  { NvmevDev.start (fun _ => some { cqid := 1, queueSize := 4, sq := fun _ => cmd })
      (fun _ => none) ({ ns := ns, storage := fun _ => 0, host := fun _ => 0 } : ConvDev) with
    dbs := fun _ => 1 }

theorem oneCommand_rung (ns : ConvNs) (cmd : NvmeRwCommand) : (oneCommand ns cmd).Rung 1
    { cqid := 1, queueSize := 4, sq := fun _ => cmd } :=
  ⟨rfl, one_ne_zero, rfl, Nat.succ_pos 3, Nat.succ_lt_succ (Nat.succ_pos 2), one_ne_zero⟩

/-- A read or write command. -/
def rwCommand (opcode : NvmeOpcode) (slba length : ℕ) : NvmeRwCommand where
  opcode := opcode
  commandId := 0
  nsid := 1
  prp1 := 0
  prp2 := 0
  slba := slba
  length := length
  control := 0

/-- A timing model for the runs below. -/
def noTimes : ConvTimes where
  target := fun _ _ => 0
  pageWritten := fun _ _ _ => 0

/-- A write of one page to the tiny namespace, whose first page is written and out of the buffer. -/
theorem convCall_consumesHead_write : ∃ ns₀ ns : ConvNs,
    convInitNamespace tinySize tinyConfigs = .ok ns₀ ∧
    runList ConvNs.exec ns₀ [.write 0 7, .release 4096] = .ok ns ∧
    (oneCommand ns (rwCommand .write 8 7)).ConsumesHead ⟨1, true⟩ (convTarget noTimes) 1
      (rwCommand .write 8 7) (ns.ValidCommand (rwCommand .write 8 7)) := by
  have hcheck : (convInitNamespace tinySize tinyConfigs).toOption.any (fun ns₀ =>
      (runList ConvNs.exec ns₀ [.write 0 7, .release 4096]).toOption.any fun ns =>
        (ns.convWrite 8 7).toOption.any fun _ => decide (ns.writeBuffer = ⟨8192, 8192⟩ ∧
          ns₀.sp.nchs ≤ 2 ^ 8 ∧ ns₀.sp.lunsPerCh ≤ 2 ^ 8 ∧ ns₀.sp.blksPerPl ≤ 2 ^ 16 ∧
          ns₀.sp.pgsPerBlk ≤ 2 ^ 16 ∧ ns.nsze = 89)) = true := by
    decide +kernel
  obtain ⟨ns₀, hinit, hp⟩ := exists_ok_of_any hcheck
  obtain ⟨ns, hops, hp⟩ := exists_ok_of_any hp
  obtain ⟨r, hw, hp⟩ := exists_ok_of_any hp
  obtain ⟨hb, h1, h2, h3, h4, hsize⟩ := of_decide_eq_true hp
  have hvalid : ns.ValidCommand (rwCommand .write 8 7) := by
    show 8 + 7 < ns.nsze
    rw [hsize]
    decide
  have hshape : ConvNs.Shape ns₀ ns := (((convInitNamespace_inv hinit ⟨h1, h2, h3, h4⟩).1.run
    [.write 0 7, .release 4096]).of_ok hops).shape
  refine ⟨ns₀, ns, hinit, hops, (convCall_consumesHead_iff ⟨1, true⟩ noTimes tinySize tinyConfigs
    hinit ⟨h1, h2, h3, h4⟩ [.write 0 7, .release 4096] hops ?_
    (oneCommand_rung ns (rwCommand .write 8 7)) fun _ hfree => ?_).2 ⟨hvalid, ?_, fun _ => ?_⟩⟩
  · show ns.writeBuffer.remaining = ns.writeBuffer.size
    rw [hb]
  · exact absurd (hw.symm.trans hfree) nofun
  · exact ConvDev.passesCheck_of_valid hinit hshape (by decide) (by decide) (by decide) (by decide)
      hvalid
  · show lbaToByte 8 ≤ ns.writeBuffer.size
    rw [hb]
    decide

/-- **A read behind the geometry, and a write of 17 blocks to a buffer of 16,** stay at the head of
the queue of the fresh tiny namespace, whose buffer is entirely free; and a read of block 90, of 89
that are advertised, is answered with status success. -/
theorem convCall_blocked : ∃ ns : ConvNs, convInitNamespace tinySize tinyConfigs = .ok ns ∧
    ns.writeBuffer.remaining = ns.writeBuffer.size ∧ ns.nsze = 89 ∧
    (∀ cmd ∈ [rwCommand .read 96 0, rwCommand .write 0 16, rwCommand .read 90 0],
      ¬ (oneCommand ns cmd).ConsumesHead ⟨1, true⟩ (convTarget noTimes) 1 cmd
          (ns.ValidCommand cmd)) ∧
    (∀ cmd ∈ [rwCommand .read 96 0, rwCommand .write 0 16],
      ∀ t, Ends ((oneCommand ns cmd).procIoSq ⟨1, true⟩ (convTarget noTimes) t 1)
        (fun d' => d'.oldDbs 1 = (oneCommand ns cmd).oldDbs 1) fun _ => False) ∧
    ∀ t, Ends ((oneCommand ns (rwCommand .read 90 0)).pollSq 1 |>.dispatch ⟨1, true⟩
        (convTarget noTimes) t)
      (fun d' => d'.history.dispatched.map (fun x => (x.cmd, x.item.status)) =
        [(rwCommand .read 90 0, 0)]) fun _ => False := by
  obtain ⟨ns, hns⟩ : ∃ ns, convInitNamespace tinySize tinyConfigs = .ok ns := ⟨_, rfl⟩
  have hval : ns.writeBuffer = ⟨8192, 8192⟩ ∧ ns.nrParts = 1 ∧ ¬ ns.inFtlRange 96 0 ∧
      ns.nsze = 89 ∧ ∃ reads, ns.convRead 90 0 = .ok (some reads) := by
    cases hns
    exact ⟨by decide, by decide, by decide, by decide, _, rfl⟩
  obtain ⟨hb, hparts, hout, hsize, reads, hread⟩ := hval
  have href : ∀ cmd ∈ [rwCommand .read 96 0, rwCommand .write 0 16], ∀ t,
      Ends ((convTarget noTimes).procIoCmd (oneCommand ns cmd).ns
        ((oneCommand ns cmd).headRequest 1 { cqid := 1, queueSize := 4, sq := fun _ => cmd } t))
        (fun out => out.ret = none) fun _ => False := by
    intro cmd hcmd t
    simp only [List.mem_cons, List.not_mem_nil, or_false] at hcmd
    rcases hcmd with rfl | rfl
    · show Ends ((ns.convRead 96 0) >>= _) _ _
      rw [ConvDev.convRead_out (by omega) hout]
      rfl
    · have hroom : ns.writeBuffer.remaining < lbaToByte (16 + 1) := by
        rw [hb]
        decide
      obtain ⟨ns', hw⟩ : ∃ ns', ns.convWrite 0 16 = .ok (ns', none) :=
        ConvDev.convWrite_full (by omega) hroom
      show Ends ((ns.convWrite 0 16) >>= _) _ _
      rw [hw]
      rfl
  refine ⟨ns, hns, by rw [hb], hsize, fun cmd hcmd h => ?_,
    fun cmd hcmd t => (oneCommand_rung ns cmd).refused t (href cmd hcmd), fun t => ?_⟩
  · have hiff := ((oneCommand_rung ns cmd).consumesHead_iff cmd _).1 h 0
    by_cases hlast : cmd = rwCommand .read 90 0
    · subst hlast
      have hends : Ends (((ns.convRead 90 0) >>= fun reads => _ : Except Fault (IoOutcome ConvDev)))
        _ _ := hiff
      rw [hread] at hends
      obtain ⟨-, r, hr, hst⟩ := hends
      cases hr
      refine hst (fun hv => ?_) rfl
      have hlt : 90 + 0 < ns.nsze := hv
      omega
    · have hmem : cmd ∈ [rwCommand .read 96 0, rwCommand .write 0 16] := by
        simp only [List.mem_cons, List.not_mem_nil, or_false] at hcmd ⊢
        tauto
      obtain ⟨out, -, ⟨-, r, hr, -⟩, hnone⟩ :=
        ((hiff.and (href cmd hmem 0)).mono (fun _ h => h) fun _ h => h.1).exists_ok
      rw [hr] at hnone
      cases hnone
  · rw [(oneCommand_rung ns (rwCommand .read 90 0)).dispatch]
    show Ends (((ns.convRead 90 0) >>= _) >>= _) _ _
    rw [hread]
    rfl

end NvmeVirt
