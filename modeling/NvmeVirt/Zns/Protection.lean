/-
# Storage and rejected writes

`__enqueue_io_req` records the status of a command in the entry of its work,
and `nvmev_io_worker` copies the data of every entry without looking at it.  So
the data of a write the FTL has turned away reaches the storage like that of any
other write; the storage is protected in the runs in which no worker gets to the
entry of such a write.
-/

import NvmeVirt.Io.Namespace
import NvmeVirt.Io.SlotReuse
import NvmeVirt.Zns.Frames

namespace NvmeVirt

open Outcome

namespace NvmevDev

variable {τ : Type} (cfg : IoConfig) (clk : SsdClock τ)

/-- **A step that protects the storage.** -/
structure StorageGuarded (d : NvmevDev (ZnsNs τ)) (op : IoOp) : Prop where
  /-- The copy of a write that was turned away changes no byte. -/
  rejected : ∀ d' w cmd, d.exec cfg (znsTarget clk) op = .ok d' → d.moved op = some (w, cmd) →
    cmd.Writes → w.status ≠ 0 → d'.ns.ftl.storage = d.ns.ftl.storage
  /-- A byte changes by a reset or in a block of a write that was accepted. -/
  changes : ∀ d' x, d.exec cfg (znsTarget clk) op = .ok d' →
    d'.ns.ftl.storage x ≠ d.ns.ftl.storage x →
      (∃ req, d.taken op = some req ∧ req.cmd.Resets) ∨
      ∃ w cmd, d.moved op = some (w, cmd) ∧ cmd.Writes ∧ w.status = 0 ∧
        ((cmd.slba + cmd.length + 1) * 512 < 2 ^ 64 →
          cmd.slba * 512 ≤ x ∧ x < (cmd.slba + cmd.length + 1) * 512)
  /-- A write is accepted only at the write pointer of its zone or behind it. -/
  ahead : ∀ req out, d.taken op = some req → d.ns.znsProcNvmeIoCmd clk req = .ok out →
    req.cmd.Writes → ¬ out.Rejected →
      (d.ns.ftl.zoneDescs (d.ns.ftl.zp.lbaToZone d.ns.ftl.sp req.cmd.slba)).wp ≤ out.cmd.slba

/-- **The check `nvmev_io_worker` lacks:** the write or append whose data the step copies has ended
with status success. -/
def CopiesAccepted (d : NvmevDev (ZnsNs τ)) (op : IoOp) : Prop :=
  ∀ m ∈ d.moved op, m.2.Writes → m.1.status = 0

instance (d : NvmevDev (ZnsNs τ)) (op : IoOp) : Decidable (CopiesAccepted d op) :=
  inferInstanceAs (Decidable (∀ m ∈ d.moved op, _ → _))

variable {cfg clk} {d d' : NvmevDev (ZnsNs τ)} {op : IoOp}

/-- What the copy of a command leaves of the storage. -/
theorem storage_performIo {ns ns' : ZnsNs τ} {cmd : NvmeRwCommand}
    (h : (znsTarget clk).performIo ns cmd = .ok ns') :
    (¬ cmd.Writes → ns'.ftl.storage = ns.ftl.storage) ∧
    ((cmd.slba + cmd.length + 1) * 512 < 2 ^ 64 → ∀ x,
      x < cmd.slba * 512 ∨ (cmd.slba + cmd.length + 1) * 512 ≤ x →
        ns'.ftl.storage x = ns.ftl.storage x) := by
  obtain ⟨c, hc, heq⟩ := bind_eq_ok.1 h
  cases heq
  exact ⟨fun hno => doPerformIo_of_not_writes hno hc, fun hwrap => (doPerformIo_within hwrap hc).2⟩

/-- What the service of an entry leaves of the storage is what the copy leaves. -/
theorem AfterVisit.storage {ns ns' : ZnsNs τ} {copy : Option (IoWork × NvmeRwCommand)}
    (h : AfterVisit (znsTarget clk) ns copy ns') :
    copy = none ∧ ns'.ftl.storage = ns.ftl.storage ∨ ∃ w cmd ns₁, copy = some (w, cmd) ∧
      (znsTarget clk).performIo ns cmd = .ok ns₁ ∧ ns'.ftl.storage = ns₁.ftl.storage := by
  obtain ⟨ns₁, hcopy, hrel⟩ := h
  have hsame : ns'.ftl.storage = ns₁.ftl.storage := by
    rcases hrel with rfl | ⟨buf, bytes, rfl⟩
    · rfl
    · exact (ns₁.frame_bufferRelease (Z := fun _ => True) (R := False) buf bytes).storage id
  rcases hcopy with ⟨hnone, rfl⟩ | ⟨w, cmd, hsome, hio⟩
  · exact .inl ⟨hnone, hsame⟩
  · exact .inr ⟨w, cmd, ns₁, hsome, hio, hsame⟩

/-- **What a step leaves of the namespace:** the parameters and the places of the zones. -/
theorem frame_exec (h : d.exec cfg (znsTarget clk) op = .ok d') :
    ZnsFtl.Frame (fun _ => True) True d.ns.ftl d'.ns.ftl := by
  rcases (exec_ns d op).of_ok h with
    ⟨c, req, out, -, htook⟩ | ⟨-, ⟨ns₁, hcopy, hrel⟩, -⟩
  · rw [htook.ns]
    exact ((d.ns.frame_procNvmeIoCmd clk req).of_ok htook.proc).mono (fun _ h => h) fun _ => trivial
  · have hns₁ : ZnsFtl.Frame (fun _ => True) True d.ns.ftl ns₁.ftl := by
      rcases hcopy with ⟨-, rfl⟩ | ⟨w, cmd, -, hio⟩
      · exact .refl _
      · obtain ⟨c, -, heq⟩ := bind_eq_ok.1 hio
        cases heq
        exact ⟨rfl, rfl, fun _ _ => rfl, fun _ => ⟨rfl, rfl⟩, fun hno => absurd trivial hno⟩
    rcases hrel with hrel | ⟨buf, bytes, hrel⟩
    · rw [hrel]
      exact hns₁
    · rw [hrel]
      exact hns₁.trans (ns₁.frame_bufferRelease buf bytes)

/-- What a step leaves of the parameters. -/
theorem params_exec (h : d.exec cfg (znsTarget clk) op = .ok d') :
    d'.ns.ftl.zp = d.ns.ftl.zp ∧ d'.ns.ftl.sp = d.ns.ftl.sp :=
  ⟨(frame_exec h).zp, (frame_exec h).sp⟩

/-- **What a run leaves of the namespace:** the parameters and the places of the zones. -/
theorem frame_run {d₀ : NvmevDev (ZnsNs τ)} {ops : List IoOp}
    (hrun : runList (NvmevDev.exec cfg (znsTarget clk)) d₀ ops = .ok d) :
    ZnsFtl.Frame (fun _ => True) True d₀.ns.ftl d.ns.ftl := by
  have hframe : Ends (runList (NvmevDev.exec cfg (znsTarget clk)) d₀ ops)
      (fun d => ZnsFtl.Frame (fun _ => True) True d₀.ns.ftl d.ns.ftl) fun _ => True := by
    refine Ends.runList (fun op _ d h => ?_) (.refl _)
    refine (Ends.trivial (d.exec cfg (znsTarget clk) op)).with_eq.mono ?_ fun _ _ => trivial
    rintro d' ⟨-, hd'⟩
    exact h.trans (frame_exec hd')
  exact hframe.of_ok hrun

/-- What a run leaves of the parameters. -/
theorem params_run {d₀ : NvmevDev (ZnsNs τ)} {ops : List IoOp}
    (hrun : runList (NvmevDev.exec cfg (znsTarget clk)) d₀ ops = .ok d) :
    d.ns.ftl.zp = d₀.ns.ftl.zp ∧ d.ns.ftl.sp = d₀.ns.ftl.sp :=
  ⟨(frame_run hrun).zp, (frame_run hrun).sp⟩

/-- **A step that copies the data of accepted writes only** protects the storage. -/
theorem CopiesAccepted.guarded (h : CopiesAccepted d op) : StorageGuarded cfg clk d op := by
  refine ⟨fun d' w cmd _ hm hw hs => absurd (h (w, cmd) hm hw) hs, fun d' x hd' hx => ?_,
    fun req out _ hout hw hacc => d.ns.wp_le_of_accepted clk hout hw hacc⟩
  rcases (exec_ns d op).of_ok hd' with ⟨c, req, out, htaken, hout⟩ | ⟨-, hserved, -⟩
  · refine .inl ⟨req, htaken, by_contra fun hno => hx ?_⟩
    rw [hout.ns, ((d.ns.frame_procNvmeIoCmd clk req).of_ok hout.proc).storage hno]
  · rcases hserved.storage with ⟨-, heq⟩ | ⟨w, cmd, ns₁, hsome, hio, heq⟩
    · exact absurd (congrFun heq x) hx
    · obtain ⟨hnot, hrange⟩ := storage_performIo hio
      rw [heq] at hx
      have hw : cmd.Writes := by_contra fun hno => hx (congrFun (hnot hno) x)
      refine .inr ⟨w, cmd, hsome, hw, h (w, cmd) hsome hw, fun hwrap => ?_⟩
      by_contra hout
      exact hx (hrange hwrap x (by omega))

end NvmevDev

/-- The two zones behind a queue of four entries; every byte of the host is `7`. -/
def zonedStart (f : ZnsFtl Unit) : NvmevDev (ZnsNs Unit) :=
  NvmevDev.start fourSlots (readCqes 1) { ftl := f, host := fun _ => 7 }

/-- The steps on the two zones. -/
abbrev zonedExec : NvmevDev (ZnsNs Unit) → IoOp → Except Fault (NvmevDev (ZnsNs Unit)) :=
  NvmevDev.exec oneWorker (znsTarget idleClock)

/-- A write of the first page whose data is copied, a write of its first block again that is turned
away, and a reset of the zone. -/
def writeTwice : List IoOp :=
  [.submit 1 0 (znsRequest .write 0 7 0).cmd, .ring 1 1, .poll 1, .dispatch 0, .reclaim, .dispatch 0,
    .enter 0, .visit 0 0, .visit 0 0, .submit 1 1 (znsRequest .write 0 0 0).cmd,
    .submit 1 2 (znsRequest .zoneMgmtSend 0 0 4).cmd, .ring 1 3, .poll 1, .dispatch 0, .reclaim,
    .dispatch 0, .reclaim, .dispatch 0]

/-- A write of the second page of an empty zone. -/
def writeBehind : List IoOp :=
  [.submit 1 0 (znsRequest .write 8 7 0).cmd, .ring 1 1, .poll 1, .dispatch 0, .reclaim,
    .dispatch 0, .enter 0]

end NvmeVirt
