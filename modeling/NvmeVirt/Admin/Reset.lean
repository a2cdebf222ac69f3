/-
# A controller reset

What `nvmev_proc_bars` of `pci.c` leaves of an earlier life of the controller.  A
new `aqa` clears head, phase and doorbells, a new `asq` or `acq` one head and one
doorbell, a shutdown the heads and doorbells, and a register that is rewritten with
its old value nothing at all.
-/

import NvmeVirt.Admin.Bars

namespace NvmeVirt

open Outcome

namespace BarDev

variable {s b b' : BarDev} {q q₀ : AdminQueue} {aqa asq acq n : ℕ} {R : List RegWrite} {H : Prop}

/-- A controller at work: no register differs from its shadow copy, and the rings of the admin queue
are the ones the registers name. -/
structure Operational (s : BarDev) (q : AdminQueue) : Prop where
  settled : s.Settled
  enabled : ccEn s.bar.cc = 1
  queue : s.adm.adminQ = some q
  sqPages : ∃ n, q.nvmeSq = some ⟨prpPfn s.bar.asq, n + 1⟩
  cqPages : ∃ n, q.nvmeCq = some ⟨prpPfn s.bar.acq, n + 1⟩

/-- Admin commands leave a controller at work: wherever head, phase and doorbell get to, the rings
stay where they are. -/
theorem Operational.procAdminSq {d d' : AdminDev} {sq cq : QueuePages} {newDb oldDb : ℕ}
    (hs : Operational s q) (hr : d.Ready q sq cq) (hold : oldDb < q.sqDepth)
    (hd : d.procAdminSq newDb oldDb = .ok d') : ∃ q', Operational { s with adm := d' } q' := by
  have hloop := hr.procEntries (a := oldDb) (Ring.dist q.sqDepth oldDb newDb) (by omega)
  rw [Nat.mod_eq_of_lt hold] at hloop
  unfold AdminDev.procAdminSq AdminDev.queue at hd
  rw [hr.queue] at hd
  obtain ⟨-, htaken⟩ := hloop.of_ok hd
  obtain ⟨q', h', -⟩ := htaken.ready
  obtain ⟨n, hn⟩ := hs.sqPages
  obtain ⟨k, hk⟩ := hs.cqPages
  exact ⟨q', hs.settled, hs.enabled, h'.queue,
    ⟨n, h'.sqPages.trans (hr.sqPages.symm.trans hn)⟩,
    ⟨k, h'.cqPages.trans (hr.cqPages.symm.trans hk)⟩⟩

/-! ### The first command -/

/-- An asynchronous event request with number 5. -/
def asyncFive : NvmeAdminCommand := ⟨.asyncEvent, 5, 0, 0, 0, 0⟩

/-- A completion that is all zeros. -/
def zeroCqe : NvmeCompletion := ⟨0, 0, 0, 0, 0, 0⟩

/-- An asynchronous event request, taken from a slot. -/
theorem asyncEvent_cases {d d' : AdminDev} {e : ℕ} (hsq : ∀ p i, d.sqPages p i = asyncFive)
    (hd : d.procAdminReq e = .ok d') :
    ∃ q r c, d.adminQ = some q ∧ q.nvmeCq = some r ∧ c.commandId = 5 ∧
      c.status.testBit 0 = q.phase ∧ d'.sqPages = d.sqPages ∧
      d'.history.taken = d.history.taken ++ [e] ∧
      d'.history.posted = d.history.posted ++ [c] ∧
      d'.cqPages = Function.update d.cqPages (r.firstPage + q.cqHead / nrCqePerPage)
        (Function.update (d.cqPages (r.firstPage + q.cqHead / nrCqePerPage))
          (q.cqHead % nrCqePerPage) c) := by
  have hcmd : ∀ d₀ : AdminDev, d₀.sqPages = d.sqPages → ∀ cmd, d₀.sqEntry e = .ok cmd →
      cmd = asyncFive := by
    intro d₀ h₀ cmd hc
    unfold AdminDev.sqEntry at hc
    obtain ⟨q, -, hc⟩ := bind_eq_ok.1 hc
    obtain ⟨⟨p, i⟩, -, hc⟩ := bind_eq_ok.1 hc
    cases hc
    rw [h₀]
    exact hsq p i
  unfold AdminDev.procAdminReq at hd
  obtain ⟨cmd, hc, hd⟩ := bind_eq_ok.1 hd
  obtain rfl := hcmd d rfl cmd hc
  change AdminDev.makeCqEntryResults _ e 0 0 0 = .ok d' at hd
  unfold AdminDev.makeCqEntryResults at hd
  obtain ⟨q, hq, hd⟩ := bind_eq_ok.1 hd
  obtain ⟨cmd, hc', hd⟩ := bind_eq_ok.1 hd
  obtain ⟨⟨p, i⟩, hp, hd⟩ := bind_eq_ok.1 hd
  obtain rfl := hcmd _ rfl cmd hc'
  cases hd
  have hqueue : d.adminQ = some q := by
    unfold AdminDev.queue at hq
    cases hdq : d.adminQ with
    | none =>
      simp [hdq] at hq
    | some q' =>
      simp only [hdq] at hq
      exact congrArg some (Except.ok.inj hq)
  obtain ⟨r, hr⟩ : ∃ r, q.nvmeCq = some r := by
    cases hr : q.nvmeCq with
    | none =>
      rw [hr] at hp
      cases hp
    | some r => exact ⟨r, rfl⟩
  rw [hr] at hp
  unfold QueuePages.at at hp
  dsimp only at hp
  obtain ⟨-, -, hp⟩ := bind_eq_ok.1 hp
  cases hp
  exact ⟨q, r, _, hqueue, hr, rfl, AdminDev.cqe_phase _ _ _ _ _ _, rfl, rfl, rfl, rfl⟩

/-- The slots the loop takes, with such requests in all of them. -/
theorem procEntries_taken {d d' : AdminDev} {e n : ℕ} (hsq : ∀ p i, d.sqPages p i = asyncFive)
    (hd : AdminDev.procEntries n e d = .ok d') :
    ∃ rest, d'.history.taken = d.history.taken ++ rest ∧ ∀ x, rest.head? = some x → x = e := by
  induction n generalizing d e with
  | zero =>
    cases hd
    exact ⟨[], (List.append_nil _).symm, by simp⟩
  | succ n ih =>
    unfold AdminDev.procEntries at hd
    obtain ⟨d₁, hd₁, hd⟩ := bind_eq_ok.1 hd
    obtain ⟨q₁, -, hd⟩ := bind_eq_ok.1 hd
    obtain ⟨-, -, -, -, -, -, -, hsq₁, htaken, -⟩ := asyncEvent_cases hsq hd₁
    obtain ⟨rest, hrest, -⟩ := ih (hsq₁ ▸ hsq) hd
    refine ⟨e :: rest, ?_, by simp⟩
    rw [hrest, htaken, List.append_assoc, List.singleton_append]

/-- **When the first command is served at the start of both rings:** when doorbell, head and phase
are as in a fresh queue. -/
theorem firstAtSlotZero_iff (hq : b.adm.adminQ = some q)
    (hsq : ∃ n, q.nvmeSq = some ⟨prpPfn b.bar.asq, n + 1⟩)
    (hcq : ∃ n, q.nvmeCq = some ⟨prpPfn b.bar.acq, n + 1⟩) :
    b.FirstAtSlotZero ↔ b.adm.oldDbs 0 = 0 ∧ q.cqHead = 0 ∧ q.phase = true := by
  obtain ⟨n, hsq⟩ := hsq
  obtain ⟨k, hcq⟩ := hcq
  constructor
  · intro h
    obtain ⟨d, c, hd, htaken, hposted, hid, hphase, hslot⟩ :=
      h (fun _ _ => asyncFive) (fun _ _ => zeroCqe) ⟨by decide, trivial⟩
    unfold AdminDev.procAdminDbs at hd
    obtain ⟨d₁, hd₁, hd⟩ := bind_eq_ok.1 hd
    cases hd
    unfold AdminDev.procAdminSqDb at hd₁
    simp only [Function.update_self] at hd₁
    have hne : (1 : ℕ) ≠ b.adm.oldDbs 0 := by
      intro heq
      rw [if_neg (by simp [← heq])] at hd₁
      cases hd₁
      exact absurd htaken (by simp)
    rw [if_pos hne] at hd₁
    obtain ⟨d₂, hd₂, hd₁⟩ := bind_eq_ok.1 hd₁
    cases hd₁
    unfold AdminDev.procAdminSq AdminDev.queue at hd₂
    rw [show _ = some q from hq] at hd₂
    change AdminDev.procEntries _ _ _ = .ok d₂ at hd₂
    obtain ⟨rest, hrest, hfirst⟩ := procEntries_taken (fun _ _ => rfl) hd₂
    obtain rfl : [0] = rest := List.append_cancel_left (htaken.symm.trans hrest)
    have hold : b.adm.oldDbs 0 = 0 := (hfirst 0 rfl).symm
    have hdist : Ring.dist q.sqDepth 0 1 = 1 := by simp [Ring.dist]
    rw [hold, hdist] at hd₂
    unfold AdminDev.procEntries at hd₂
    obtain ⟨d₃, hd₃, hd₂⟩ := bind_eq_ok.1 hd₂
    obtain ⟨q₃, -, hd₂⟩ := bind_eq_ok.1 hd₂
    obtain rfl : d₃ = d₂ := Except.ok.inj hd₂
    obtain ⟨q', r, c', hq', hr, -, hphase', -, -, hposted', hpages⟩ :=
      asyncEvent_cases (fun _ _ => rfl) hd₃
    obtain rfl : q = q' := Option.some.inj hq'
    obtain rfl : c = c' := by
      have := List.append_cancel_left (hposted.symm.trans hposted')
      exact (List.cons.inj this).1
    rw [hcq] at hr
    cases hr
    refine ⟨hold, ?_, hphase'.symm.trans hphase⟩
    -- Slot 0 held zeros before, so the entry has been written there.
    by_contra hhead
    change d₃.cqPages _ 0 = c at hslot
    rw [hpages] at hslot
    change Function.update (fun _ _ => zeroCqe) _ _ _ 0 = c at hslot
    have hzero : c = zeroCqe := by
      by_cases hpage : q.cqHead / nrCqePerPage = 0
      · have hmod : (0 : ℕ) ≠ q.cqHead % nrCqePerPage := by
          have := Nat.div_add_mod q.cqHead nrCqePerPage
          rw [hpage] at this
          omega
        rw [hpage, Nat.add_zero, Function.update_self, Function.update_of_ne hmod] at hslot
        exact hslot.symm
      · have hne : prpPfn b.bar.acq ≠ prpPfn b.bar.acq + q.cqHead / nrCqePerPage := by
          generalize q.cqHead / nrCqePerPage = page at hpage
          omega
        rw [Function.update_of_ne hne] at hslot
        exact hslot.symm
    rw [hzero] at hid
    exact absurd hid (by decide)
  · rintro ⟨hold, hhead, hphase⟩ sqPages cqPages hans
    set d : AdminDev := { b.adm with
      sqPages := sqPages, cqPages := cqPages, dbs := Function.update b.adm.dbs 0 1 } with hdd
    have hmapped : d.Mapped q ⟨prpPfn b.bar.asq, n + 1⟩ ⟨prpPfn b.bar.acq, k + 1⟩ :=
      ⟨hq, hsq, hcq, by rw [hhead]; exact Nat.mul_pos (by decide) (Nat.succ_pos k)⟩
    have hreq := hmapped.procAdminReq (s := 0) (Nat.mul_pos (by decide) (Nat.succ_pos n))
    have hcmd : d.commandAt ⟨prpPfn b.bar.asq, n + 1⟩ 0 = sqPages (prpPfn b.bar.asq) 0 := rfl
    rw [hcmd] at hreq
    cases hd : d.procAdminReq 0 with
    | error e => exact absurd hans (hreq.of_error hd)
    | ok d₁ =>
      have hd₁ := hreq.of_ok hd
      rw [if_neg hans.1] at hd₁
      obtain ⟨-, hq₁, -, -, htaken, c, hposted, ⟨-, hid⟩, htag, hentry⟩ := hd₁
      have hproc : d.procAdminSq 1 0 = .ok d₁ := by
        have hdist : Ring.dist q.sqDepth 0 1 = 1 := by simp [Ring.dist]
        unfold AdminDev.procAdminSq AdminDev.queue
        rw [show d.adminQ = some q from hq]
        show AdminDev.procEntries (Ring.dist q.sqDepth 0 1) 0 d = _
        rw [hdist]
        unfold AdminDev.procEntries
        rw [hd, ok_bind]
        unfold AdminDev.queue
        rw [hq₁]
        rfl
      have hdbs : d.procAdminDbs = .ok { d₁ with
          oldDbs := Function.update (Function.update d₁.oldDbs 0 1) 1 (d₁.dbs 1) } := by
        have hne : d.dbs 0 ≠ d.oldDbs 0 := by
          show Function.update b.adm.dbs 0 1 0 ≠ b.adm.oldDbs 0
          rw [Function.update_self, hold]
          decide
        have hdb : d.dbs 0 = 1 := Function.update_self (0 : ℕ) 1 b.adm.dbs
        have hold' : d.oldDbs 0 = 0 := hold
        unfold AdminDev.procAdminDbs AdminDev.procAdminSqDb
        rw [if_pos hne, hdb, hold', hproc]
        rfl
      rw [hhead] at hentry
      exact ⟨_, c, hdbs, htaken, hposted, hid, htag.trans hphase, hentry⟩

/-! ### What is left of the earlier life -/

/-- One register while it is rewritten once: `old` is its shadow copy, `v₀` its value before and `v`
its value behind the write. -/
structure Rewritten (v₀ v : ℕ) (written : Prop) (bar old : ℕ) : Prop where
  value : written → bar = v
  before : ¬ written → bar = v₀ ∧ old = v₀
  shadow : old = v₀ ∨ old = v

/-- A difference is the new value. -/
theorem Rewritten.new {v₀ v bar old : ℕ} {written : Prop} (h : Rewritten v₀ v written bar old)
    (hne : old ≠ bar) : Rewritten v₀ v written bar bar ∧ old = v₀ ∧ bar ≠ v₀ := by
  by_cases hw : written
  · have hbar := h.value hw
    have hold : old = v₀ := h.shadow.resolve_right (hbar ▸ hne)
    exact ⟨⟨fun _ => hbar, fun hn => absurd hw hn, .inr hbar⟩, hold, fun he => hne (hold.trans he.symm)⟩
  · obtain ⟨hb, ho⟩ := h.before hw
    exact absurd (ho.trans hb.symm) hne

/-- The write. -/
theorem Rewritten.write {v₀ v bar old : ℕ} {written written' : Prop}
    (h : Rewritten v₀ v written bar old) (hw : written') : Rewritten v₀ v written' v old :=
  ⟨fun _ => rfl, fun hn => absurd hw hn, h.shadow⟩

/-- No write. -/
theorem Rewritten.congr {v₀ v bar old : ℕ} {written written' : Prop}
    (h : Rewritten v₀ v written bar old) (hw : written ↔ written') :
    Rewritten v₀ v written' bar old :=
  ⟨fun hw' => h.value (hw.2 hw'), fun hn => h.before fun hw' => hn (hw.1 hw'), h.shadow⟩

/-- **A controller in a reset:** `R` are the writes to come, `H` says that a shutdown has been seen.
Doorbell, head and phase are those of a fresh queue if a register has changed that clears them. -/
structure Resetting (s : BarDev) (q₀ : AdminQueue) (aqa asq acq : ℕ) (R : List RegWrite) (H : Prop)
    (b : BarDev) (q : AdminQueue) : Prop where
  aqaReg : Rewritten s.bar.aqa aqa (.aqa aqa ∉ R) b.bar.aqa b.oldBar.aqa
  asqReg : Rewritten s.bar.asq asq (.asq asq ∉ R) b.bar.asq b.oldBar.asq
  acqReg : Rewritten s.bar.acq acq (.acq acq ∉ R) b.bar.acq b.oldBar.acq
  queue : b.adm.adminQ = some q
  sqPages : ∃ n, q.nvmeSq = some ⟨prpPfn b.oldBar.asq, n + 1⟩
  cqPages : ∃ n, q.nvmeCq = some ⟨prpPfn b.oldBar.acq, n + 1⟩
  db : b.adm.oldDbs 0 = 0 ↔
    b.oldBar.aqa ≠ s.bar.aqa ∨ b.oldBar.asq ≠ s.bar.asq ∨ H ∨ s.adm.oldDbs 0 = 0
  head : q.cqHead = 0 ↔
    b.oldBar.aqa ≠ s.bar.aqa ∨ b.oldBar.acq ≠ s.bar.acq ∨ H ∨ q₀.cqHead = 0
  phase : q.phase = true ↔ b.oldBar.aqa ≠ s.bar.aqa ∨ q₀.phase = true

/-- A ring takes a page at least. -/
theorem exists_pages (m k : ℕ) (hk : 0 < k) (hmk : (m + 1) * k < 2 ^ 32) :
    ∃ n, divRoundUp ((m + 1) * k) pageSize = n + 1 := by
  have hpos : 0 < (m + 1) * k := Nat.mul_pos (Nat.succ_pos m) hk
  have hu : u64 ((m + 1) * k + pageSize - 1) = (m + 1) * k + pageSize - 1 :=
    Nat.mod_eq_of_lt (by unfold pageSize; omega)
  refine Nat.exists_eq_succ_of_ne_zero (Nat.pos_iff_ne_zero.1 ?_)
  unfold divRoundUp
  rw [hu]
  exact Nat.div_pos (by omega) (by decide)

/-- The registers the host writes stay as they are, but for `csts`. -/
structure SameRegs (b b' : BarDev) : Prop where
  aqa : b'.bar.aqa = b.bar.aqa
  asq : b'.bar.asq = b.bar.asq
  acq : b'.bar.acq = b.bar.acq
  cc : b'.bar.cc = b.bar.cc

/-- The number of registers that differ from their shadow copies. -/
def diffs (b : BarDev) : ℕ :=
  (if b.oldBar.aqa ≠ b.bar.aqa then 1 else 0) + (if b.oldBar.asq ≠ b.bar.asq then 1 else 0) +
    (if b.oldBar.acq ≠ b.bar.acq then 1 else 0) + if b.oldBar.cc ≠ b.bar.cc then 1 else 0

theorem settled_of_diffs (h : b.diffs = 0) : b.Settled := by
  unfold diffs at h
  unfold Settled
  split_ifs at h <;> omega

/-- **A call of `nvmev_proc_bars` in a reset** handles a register that differs. -/
theorem Resetting.poll (h : Resetting s q₀ aqa asq acq R H b q) :
    ∃ b' q' H', b.procBars = .ok b' ∧ Resetting s q₀ aqa asq acq R H' b' q' ∧ SameRegs b b' ∧
      b'.diffs = b.diffs - 1 ∧ (b'.oldBar.cc = b.oldBar.cc ∨ b'.oldBar.cc = b.bar.cc) ∧
      (H' ∨ (b'.oldBar.cc ≠ b'.bar.cc ∧ ccShn b'.bar.cc = 1) ↔
        H ∨ (b.oldBar.cc ≠ b.bar.cc ∧ ccShn b.bar.cc = 1)) := by
  have hqueue := h.queue
  unfold procBars
  by_cases haqa : b.oldBar.aqa ≠ b.bar.aqa
  · obtain ⟨hreg, hold, hnew⟩ := h.aqaReg.new haqa
    rw [if_pos haqa]
    refine ⟨b.newAqa, _, H, rfl, ⟨hreg, h.asqReg, h.acqReg, rfl, ?_, ?_, ?_, ?_, ?_⟩,
      ⟨rfl, rfl, rfl, rfl⟩, ?_, .inl rfl, Iff.rfl⟩
    · rw [hqueue]
      exact h.sqPages
    · rw [hqueue]
      exact h.cqPages
    · exact iff_of_true rfl (.inl hnew)
    · exact iff_of_true rfl (.inl hnew)
    · exact iff_of_true rfl (.inl hnew)
    · unfold diffs newAqa
      dsimp only
      rw [if_pos haqa, if_neg (not_not.2 rfl)]
      omega
  rw [if_neg haqa]
  by_cases hasq : b.oldBar.asq ≠ b.bar.asq
  · obtain ⟨hreg, hold, hnew⟩ := h.asqReg.new hasq
    rw [if_pos hasq]
    have hb' : b.newAsq = { b with
        adm := AdminDev.zeroDb { b.adm with adminQ := some { q with
          sqDepth := aqaAsqs b.bar.aqa + 1
          nvmeSq := some ⟨prpPfn b.bar.asq,
            divRoundUp ((aqaAsqs b.bar.aqa + 1) * 64) pageSize⟩ } } 0
        oldBar.asq := b.bar.asq } := by
      unfold newAsq
      rw [hqueue]
    rw [hb']
    refine ⟨_, _, H, rfl, ⟨h.aqaReg, hreg, h.acqReg, rfl, ?_, h.cqPages, ?_, h.head, h.phase⟩,
      ⟨rfl, rfl, rfl, rfl⟩, ?_, .inl rfl, Iff.rfl⟩
    · obtain ⟨n, hn⟩ := exists_pages (aqaAsqs b.bar.aqa) 64 (by decide) (by unfold aqaAsqs; omega)
      exact ⟨n, by rw [hn]⟩
    · exact iff_of_true rfl (.inr (.inl hnew))
    · unfold diffs
      dsimp only [AdminDev.zeroDb]
      rw [if_pos hasq, if_neg (not_not.2 rfl)]
      omega
  rw [if_neg hasq]
  by_cases hacq : b.oldBar.acq ≠ b.bar.acq
  · obtain ⟨hreg, hold, hnew⟩ := h.acqReg.new hacq
    rw [if_pos hacq]
    have hb' : b.newAcq = { b with
        adm := AdminDev.zeroDb { b.adm with adminQ := some { q with
          cqDepth := aqaAcqs b.bar.aqa + 1
          cqHead := 0
          nvmeCq := some ⟨prpPfn b.bar.acq,
            divRoundUp ((aqaAcqs b.bar.aqa + 1) * 16) pageSize⟩ } } 1
        oldBar.acq := b.bar.acq } := by
      unfold newAcq
      rw [hqueue]
    rw [hb']
    refine ⟨_, _, H, rfl, ⟨h.aqaReg, h.asqReg, hreg, rfl, h.sqPages, ?_, h.db, ?_, h.phase⟩,
      ⟨rfl, rfl, rfl, rfl⟩, ?_, .inl rfl, Iff.rfl⟩
    · obtain ⟨n, hn⟩ := exists_pages (aqaAcqs b.bar.aqa) 16 (by decide) (by unfold aqaAcqs; omega)
      exact ⟨n, by rw [hn]⟩
    · exact iff_of_true rfl (.inr (.inl hnew))
    · unfold diffs
      dsimp only [AdminDev.zeroDb]
      rw [if_pos hacq, if_neg (not_not.2 rfl)]
      omega
  rw [if_neg hacq]
  by_cases hcc : b.oldBar.cc ≠ b.bar.cc
  · rw [if_pos hcc]
    unfold newCc
    have hdiffs : ∀ b' : BarDev, b'.oldBar = { b.oldBar with cc := b.bar.cc } → SameRegs b b' →
        b'.diffs = b.diffs - 1 := by
      intro b' hold hsame
      unfold diffs
      rw [hold, hsame.aqa, hsame.asq, hsame.acq, hsame.cc, if_pos hcc, if_neg (not_not.2 rfl)]
      rfl
    by_cases hshn : ccShn b.bar.cc = 1
    · rw [if_pos hshn, hqueue]
      refine ⟨_, _, True, rfl, ⟨h.aqaReg, h.asqReg, h.acqReg, rfl, h.sqPages, h.cqPages, ?_, ?_,
        h.phase⟩, ⟨rfl, rfl, rfl, rfl⟩, hdiffs _ rfl ⟨rfl, rfl, rfl, rfl⟩, .inr rfl, ?_⟩
      · exact iff_of_true rfl (.inr (.inr (.inl trivial)))
      · exact iff_of_true rfl (.inr (.inr (.inl trivial)))
      · exact iff_of_true (.inl trivial) (.inr ⟨hcc, hshn⟩)
    · rw [if_neg hshn]
      refine ⟨_, q, H, rfl, ⟨h.aqaReg, h.asqReg, h.acqReg, hqueue, h.sqPages, h.cqPages, h.db,
        h.head, h.phase⟩, ⟨rfl, rfl, rfl, rfl⟩, hdiffs _ rfl ⟨rfl, rfl, rfl, rfl⟩, .inr rfl, ?_⟩
      exact or_congr Iff.rfl (iff_of_false (fun hx => hx.1 rfl) fun hx => hshn hx.2)
  · rw [if_neg hcc]
    refine ⟨b, q, H, rfl, h, ⟨rfl, rfl, rfl, rfl⟩, ?_, .inl rfl, Iff.rfl⟩
    unfold diffs
    rw [if_neg haqa, if_neg hasq, if_neg hacq, if_neg hcc]

theorem SameRegs.trans {b'' : BarDev} (h : SameRegs b b') (h' : SameRegs b' b'') :
    SameRegs b b'' :=
  ⟨h'.aqa.trans h.aqa, h'.asq.trans h.asq, h'.acq.trans h.acq, h'.cc.trans h.cc⟩

/-- **Polling** until no register differs. -/
theorem Resetting.settle (h : Resetting s q₀ aqa asq acq R H b q) (hn : b.diffs ≤ n) :
    ∃ b' q' H', BarDev.settle n b = .ok b' ∧ Resetting s q₀ aqa asq acq R H' b' q' ∧
      SameRegs b b' ∧ b'.Settled ∧
      (H' ↔ H ∨ (b.oldBar.cc ≠ b.bar.cc ∧ ccShn b.bar.cc = 1)) := by
  induction n generalizing b q H with
  | zero =>
    have hset := settled_of_diffs (Nat.le_zero.1 hn)
    exact ⟨b, q, H, rfl, h, ⟨rfl, rfl, rfl, rfl⟩, hset, by simp [hset.2.2.2]⟩
  | succ n ih =>
    unfold BarDev.settle
    by_cases hset : b.Settled
    · rw [if_pos hset]
      exact ⟨b, q, H, rfl, h, ⟨rfl, rfl, rfl, rfl⟩, hset, by simp [hset.2.2.2]⟩
    · rw [if_neg hset]
      obtain ⟨b₁, q₁, H₁, hb₁, h₁, hsame, hd, -, hH⟩ := h.poll
      obtain ⟨b₂, q₂, H₂, hb₂, h₂, hsame₂, hset₂, hH₂⟩ := ih h₁ (by omega)
      rw [hb₁]
      exact ⟨b₂, q₂, H₂, hb₂, h₂, hsame.trans hsame₂, hset₂, hH₂.trans hH⟩

/-- **The rewrites** in any order with polls in between, while `cc` stays as it is. -/
theorem Resetting.run {ops : List BarOp} (h : Resetting s q₀ aqa asq acq (BarOp.writes ops) H b q)
    (hnodup : (BarOp.writes ops).Nodup)
    (hmem : ∀ w ∈ BarOp.writes ops, w = .aqa aqa ∨ w = .asq asq ∨ w = .acq acq)
    (hcc : b.oldBar.cc = b.bar.cc) :
    ∃ b' q', BarDev.run ops b = .ok b' ∧ Resetting s q₀ aqa asq acq [] H b' q' ∧
      b'.oldBar.cc = b.bar.cc ∧ b'.bar.cc = b.bar.cc := by
  induction ops generalizing b q with
  | nil => exact ⟨b, q, rfl, h, hcc, rfl⟩
  | cons op ops ih =>
    cases op with
    | poll =>
      obtain ⟨b₁, q₁, H₁, hb₁, h₁, hsame, -, hold, hH⟩ := h.poll
      have hcc₁ : b₁.oldBar.cc = b.bar.cc := hold.elim (fun ho => ho.trans hcc) id
      obtain rfl : H₁ = H := propext (by simpa [hcc, hcc₁, hsame.cc] using hH)
      obtain ⟨b₂, q₂, hb₂, h₂, hold₂, hbar₂⟩ := ih h₁ hnodup hmem (hcc₁.trans hsame.cc.symm)
      unfold BarDev.run
      rw [hb₁]
      exact ⟨b₂, q₂, hb₂, h₂, hold₂.trans hsame.cc, hbar₂.trans hsame.cc⟩
    | write w =>
      have hnd : w ∉ BarOp.writes ops ∧ (BarOp.writes ops).Nodup := List.nodup_cons.1 hnodup
      have hmem' := fun w' hw' => hmem w' (List.mem_cons_of_mem w hw')
      have hother : ∀ w', w' ≠ w → (w' ∉ w :: BarOp.writes ops ↔ w' ∉ BarOp.writes ops) :=
        fun w' hne => by simp [hne]
      rcases hmem w List.mem_cons_self with rfl | rfl | rfl
      · exact ih (b := b.write (.aqa aqa)) ⟨h.aqaReg.write hnd.1, h.asqReg.congr (hother _ (by simp)),
          h.acqReg.congr (hother _ (by simp)), h.queue, h.sqPages, h.cqPages, h.db, h.head,
          h.phase⟩ hnd.2 hmem' hcc
      · exact ih (b := b.write (.asq asq)) ⟨h.aqaReg.congr (hother _ (by simp)),
          h.asqReg.write hnd.1, h.acqReg.congr (hother _ (by simp)), h.queue, h.sqPages, h.cqPages,
          h.db, h.head, h.phase⟩ hnd.2 hmem' hcc
      · exact ih (b := b.write (.acq acq)) ⟨h.aqaReg.congr (hother _ (by simp)),
          h.asqReg.congr (hother _ (by simp)), h.acqReg.write hnd.1, h.queue, h.sqPages, h.cqPages,
          h.db, h.head, h.phase⟩ hnd.2 hmem' hcc

/-- At most one register differs when the controller is disabled, and four when it is enabled. -/
theorem diffs_le (b : BarDev) : b.diffs ≤ 4 := by
  unfold diffs
  split_ifs <;> omega

/-- **A whole reset:** every write of `cc` is seen, since it turns `en`. -/
theorem Operational.reset (hs : Operational s q₀) {disable enable : ℕ} {ops : List BarOp}
    (hdis : ccEn disable = 0) (hen : ccEn enable = 1)
    (hops : (BarOp.writes ops).Perm [.aqa aqa, .asq asq, .acq acq]) :
    ∃ b q, s.reset disable ops enable = .ok b ∧ b.Settled ∧
      Resetting s q₀ aqa asq acq [] (ccShn disable = 1 ∨ ccShn enable = 1) b q := by
  obtain ⟨haqa, hasq, hacq, hcc⟩ := hs.settled
  have hwrites : ∀ w, w ∈ BarOp.writes ops ↔ w = .aqa aqa ∨ w = .asq asq ∨ w = .acq acq := by
    intro w
    rw [hops.mem_iff]
    simp
  have hnodup : (BarOp.writes ops).Nodup := hops.nodup_iff.2 (by simp)
  have hsq := hs.sqPages
  have hcq := hs.cqPages
  rw [← hasq] at hsq
  rw [← hacq] at hcq
  have hstart : Resetting s q₀ aqa asq acq (BarOp.writes ops) False (s.write (.cc disable)) q₀ :=
    ⟨⟨fun hn => absurd ((hwrites _).2 (by simp)) hn, fun _ => ⟨rfl, haqa⟩, .inl haqa⟩,
      ⟨fun hn => absurd ((hwrites _).2 (by simp)) hn, fun _ => ⟨rfl, hasq⟩, .inl hasq⟩,
      ⟨fun hn => absurd ((hwrites _).2 (by simp)) hn, fun _ => ⟨rfl, hacq⟩, .inl hacq⟩,
      hs.queue, hsq, hcq, by simp [write, haqa, hasq], by simp [write, haqa, hacq],
      by simp [write, haqa]⟩
  obtain ⟨b₁, q₁, H₁, hb₁, h₁, hsame₁, hset₁, hH₁⟩ := hstart.settle (diffs_le _)
  obtain ⟨b₂, q₂, hb₂, h₂, hold₂, hbar₂⟩ :=
    h₁.run hnodup (fun w hw => (hwrites w).1 hw) hset₁.2.2.2
  have hstart₃ : Resetting s q₀ aqa asq acq [] H₁ (b₂.write (.cc enable)) q₂ :=
    ⟨h₂.aqaReg, h₂.asqReg, h₂.acqReg, h₂.queue, h₂.sqPages, h₂.cqPages, h₂.db, h₂.head, h₂.phase⟩
  obtain ⟨b, q, H, hb, h, -, hset, hH⟩ := hstart₃.settle (diffs_le _)
  have hreset : s.reset disable ops enable = .ok b := by
    unfold BarDev.reset
    rw [hb₁, ok_bind, hb₂, ok_bind, hb]
  have hdisable : s.oldBar.cc ≠ disable := by
    rw [hcc]
    rintro rfl
    exact absurd (hs.enabled.symm.trans hdis) (by decide)
  have henable : b₂.oldBar.cc ≠ enable := by
    rw [hold₂, hsame₁.cc]
    show disable ≠ enable
    rintro rfl
    exact absurd (hen.symm.trans hdis) (by decide)
  have hH₁' : H₁ ↔ ccShn disable = 1 := by simpa [write, hdisable] using hH₁
  have hH' : H ↔ H₁ ∨ ccShn enable = 1 := by simpa [write, henable] using hH
  obtain rfl : H = (ccShn disable = 1 ∨ ccShn enable = 1) := propext (by rw [hH', hH₁'])
  exact ⟨b, q, hreset, hset, h⟩

/-- What a fresh start comes to, when one register clears all. -/
theorem fresh_iff {A P S C H D K : Prop} :
    ((A ∨ S ∨ H ∨ D) ∧ (A ∨ C ∨ H ∨ K) ∧ (A ∨ P)) ↔
      A ∨ P ∧ (S ∨ H ∨ D) ∧ (C ∨ H ∨ K) := by
  tauto

/-- **When the first admin command behind a reset starts both rings afresh:** when `aqa` is given a
new value, or the phase was 1 and the other registers and the shutdown clear what is not zero. -/
theorem reset_firstAtSlotZero_iff (hs : Operational s q₀) {disable enable : ℕ} {ops : List BarOp}
    (hdis : ccEn disable = 0) (hen : ccEn enable = 1)
    (hops : (BarOp.writes ops).Perm [.aqa aqa, .asq asq, .acq acq]) :
    (∃ b, s.reset disable ops enable = .ok b ∧ b.Settled ∧ b.FirstAtSlotZero) ↔
      aqa ≠ s.bar.aqa ∨
        q₀.phase = true ∧
          (asq ≠ s.bar.asq ∨ (ccShn disable = 1 ∨ ccShn enable = 1) ∨ s.adm.oldDbs 0 = 0) ∧
          (acq ≠ s.bar.acq ∨ (ccShn disable = 1 ∨ ccShn enable = 1) ∨ q₀.cqHead = 0) := by
  obtain ⟨b, q, hreset, hset, h⟩ := hs.reset hdis hen hops
  have hiff : (∃ b, s.reset disable ops enable = .ok b ∧ b.Settled ∧ b.FirstAtSlotZero) ↔
      b.FirstAtSlotZero := by
    rw [hreset]
    constructor
    · rintro ⟨b', hb', -, hf⟩
      cases hb'
      exact hf
    · exact fun hf => ⟨b, rfl, hset, hf⟩
  obtain ⟨hset1, hset2, hset3, -⟩ := hset
  have hv1 : b.bar.aqa = aqa := h.aqaReg.value (by simp)
  have hv2 : b.bar.asq = asq := h.asqReg.value (by simp)
  have hv3 : b.bar.acq = acq := h.acqReg.value (by simp)
  have hsq := h.sqPages
  have hcq := h.cqPages
  have hdb := h.db
  have hhead := h.head
  have hphase := h.phase
  rw [hset1, hset2, hv1, hv2] at hdb
  rw [hset1, hset3, hv1, hv3] at hhead
  rw [hset1, hv1] at hphase
  rw [hset2] at hsq
  rw [hset3] at hcq
  rw [hiff, firstAtSlotZero_iff h.queue hsq hcq, hdb, hhead, hphase]
  exact fresh_iff

/-- A controller that has served one admin command since it was enabled. -/
def servedOne : BarDev where
  adm := {
    adminQ := some {
      phase := true, sqDepth := 2, cqDepth := 2, cqHead := 1, nvmeSq := some ⟨1, 1⟩
      nvmeCq := some ⟨2, 1⟩ }
    sqPages := fun _ _ => asyncFive
    cqPages := fun _ _ => zeroCqe
    data := fun _ => none
    sqes := fun _ => none
    cqes := fun _ => none
    dbs := fun i => if i = 0 then 1 else 0
    oldDbs := fun i => if i = 0 then 1 else 0
    nrSq := 0
    nrCq := 0
    ns := []
    mdts := 0
    cntlid := 0
    supportsZns := false
    history := ⟨[0], [⟨0, 0, 0, 0, 5, 1⟩]⟩ }
  bar := { aqa := 0x10001, asq := 0x1000, acq := 0x2000, cc := 1, rdy := 1, shst := 0 }
  oldBar := { aqa := 0x10001, asq := 0x1000, acq := 0x2000, cc := 1 }

/-- The host writes its three registers, with the values given. -/
def rewrites (aqa asq acq : ℕ) : List BarOp :=
  [.write (.aqa aqa), .write (.asq asq), .write (.acq acq)]

theorem servedOne_operational :
    Operational servedOne ⟨true, 2, 2, 1, some ⟨1, 1⟩, some ⟨2, 1⟩⟩ :=
  ⟨⟨rfl, rfl, rfl, rfl⟩, rfl, rfl, ⟨0, rfl⟩, ⟨0, rfl⟩⟩

/-- A reset with the same registers leaves the first command to slot 1. -/
theorem reset_same_not_firstAtSlotZero :
    (∃ q, Operational servedOne q) ∧ ccEn 0 = 0 ∧ ccEn 1 = 1 ∧
      ¬ ∃ b, servedOne.reset 0 (rewrites 0x10001 0x1000 0x2000) 1 = .ok b ∧ b.Settled ∧
        b.FirstAtSlotZero := by
  refine ⟨⟨_, servedOne_operational⟩, by decide, by decide, ?_⟩
  rintro ⟨b, hb, -, hfirst⟩
  have hrun : servedOne.reset 0 (rewrites 0x10001 0x1000 0x2000) 1 = .ok servedOne := rfl
  rw [hrun] at hb
  cases hb
  have hfresh := (firstAtSlotZero_iff (b := servedOne) rfl ⟨0, rfl⟩ ⟨0, rfl⟩).1 hfirst
  exact absurd hfresh.1 (by decide)

/-- A reset that gives `aqa` a new depth. -/
theorem reset_firstAtSlotZero_depth :
    ∃ b, servedOne.reset 0 (rewrites 0x30003 0x1000 0x2000) 1 = .ok b ∧ b.Settled ∧
      b.FirstAtSlotZero :=
  (reset_firstAtSlotZero_iff servedOne_operational (by decide) (by decide) (.refl _)).2
    (.inl (by decide))

end BarDev

end NvmeVirt
