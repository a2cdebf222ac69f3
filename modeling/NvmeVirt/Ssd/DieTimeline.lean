/-
# The timeline of a die

`ssd_advance_nand` of `ssd.c` over whole runs, with any traffic of others on the
channels and on PCIe.  A command finds its die free before it begins and leaves
it busy until it ends, whether it senses before it transfers or transfers before
it programs, so the commands of a die follow one after the other.
-/

import NvmeVirt.Ssd.Timing

namespace NvmeVirt

open Outcome

namespace SsdTimes

variable {p : NandLatencies} {clock : ℕ → ℕ} {s s' s'' : SsdTimes} {c t : ℕ}

/-- The time from which a die is available. -/
def availTime (s : SsdTimes) (ch lun : ℕ) : ℕ := (s.lun ch lun).nextLunAvailTime

/-! ### What the parts of a command leave alone -/

/-- **A transfer** and a sum of times leave the dies alone and record nothing. -/
structure Still (s s' : SsdTimes) : Prop where
  lun : s'.lun = s.lun
  events : s'.events = s.events
  checking : s'.checking = s.checking
  overflow : s'.overflow = false → s.overflow = false

theorem Still.refl (s : SsdTimes) : Still s s := ⟨rfl, rfl, rfl, id⟩

theorem Still.trans (h : Still s s') (h' : Still s' s'') : Still s s'' where
  lun := h'.lun.trans h.lun
  events := h'.events.trans h.events
  checking := h'.checking.trans h.checking
  overflow := fun ho => h.overflow (h'.overflow ho)

/-- **A step of a command** moves no die and records nothing. -/
structure Quiet (s s' : SsdTimes) : Prop where
  avail : ∀ ch lun, s'.availTime ch lun = s.availTime ch lun
  events : s'.events = s.events
  overflow : s'.overflow = false → s.overflow = false

theorem Still.quiet (h : Still s s') : Quiet s s' where
  avail := fun ch lun => congrArg NandLun.nextLunAvailTime (congrFun (congrFun h.lun ch) lun)
  events := h.events
  overflow := h.overflow

theorem Quiet.trans (h : Quiet s s') (h' : Quiet s' s'') : Quiet s s'' where
  avail := fun ch lun => (h'.avail ch lun).trans (h.avail ch lun)
  events := h'.events.trans h.events
  overflow := fun ho => h.overflow (h'.overflow ho)

theorem still_startTime {cmd : NandCmd} : Still s (s.startTime clock cmd).1 := by
  unfold startTime
  split_ifs
  · exact ⟨rfl, rfl, rfl, id⟩
  · exact Still.refl s

/-- **A sum of times** is the sum if it stays in 64 bits. -/
theorem addTime_spec (a b : ℕ) : Still s (s.addTime a b).1 ∧
    ((s.addTime a b).1.overflow = false → (s.addTime a b).2 = a + b) := by
  refine ⟨⟨rfl, rfl, rfl, fun h => (Bool.or_eq_false_iff.1 h).1⟩, fun h => ?_⟩
  have hlt := of_decide_eq_false (Bool.or_eq_false_iff.1 h).2
  exact Nat.mod_eq_of_lt (not_le.1 hlt)

/-- A transfer does not end before it is asked for. -/
theorem le_of_chmodelRequest {ch ch' : ChannelModel} {curTime requestTime length : ℕ}
    (hr : ch.chmodelRequest curTime requestTime length = .ok (ch', t))
    (h : ¬ ch.Overflows curTime requestTime length) : requestTime ≤ t := by
  rw [ChannelModel.chmodelRequest_time hr]
  split_ifs with hearly
  · exact le_rfl
  · have hlt := not_and.1 h hearly
    unfold u64
    omega

/-- **A transfer over a channel.** -/
theorem channelRequest_spec {requestTime length : ℕ}
    (h : s.channelRequest clock c requestTime length = .ok (s', t)) :
    Still s s' ∧ (s'.overflow = false → requestTime ≤ t) := by
  obtain ⟨⟨ch, t'⟩, hr, h⟩ := bind_eq_ok.1 h
  cases h
  refine ⟨⟨rfl, rfl, rfl, fun h => (Bool.or_eq_false_iff.1 h).1⟩, fun h => ?_⟩
  exact le_of_chmodelRequest hr (of_decide_eq_false (Bool.or_eq_false_iff.1 h).2)

/-- **A transfer over PCIe.** -/
theorem advancePcie_spec {requestTime length : ℕ}
    (h : s.advancePcie clock requestTime length = .ok (s', t)) :
    Still s s' ∧ (s'.overflow = false → requestTime ≤ t) := by
  obtain ⟨⟨ch, t'⟩, hr, h⟩ := bind_eq_ok.1 h
  cases h
  refine ⟨⟨rfl, rfl, rfl, fun h => (Bool.or_eq_false_iff.1 h).1⟩, fun h => ?_⟩
  exact le_of_chmodelRequest hr (of_decide_eq_false (Bool.or_eq_false_iff.1 h).2)

/-- An assignment to a die changes that die. -/
theorem setLun_self (ch lun : ℕ) (f : NandLun → NandLun) :
    (s.setLun ch lun f).lun ch lun = f (s.lun ch lun) := by
  unfold setLun
  simp

/-- It changes no other die. -/
theorem setLun_of_ne {ch lun ch' lun' : ℕ} (f : NandLun → NandLun)
    (hne : ¬ (ch' = ch ∧ lun' = lun)) : (s.setLun ch lun f).lun ch' lun' = s.lun ch' lun' := by
  unfold setLun
  by_cases hch : ch' = ch
  · subst hch
    have hlun : lun' ≠ lun := fun h => hne ⟨rfl, h⟩
    simp [hlun]
  · simp [hch]

theorem availTime_setLun (ch lun : ℕ) (f : NandLun → NandLun) (ch' lun' : ℕ) :
    (s.setLun ch lun f).availTime ch' lun' =
      if ch' = ch ∧ lun' = lun then (f (s.lun ch lun)).nextLunAvailTime
      else s.availTime ch' lun' := by
  unfold availTime
  split_ifs with hdie
  · rw [hdie.1, hdie.2, setLun_self]
  · rw [setLun_of_ne f hdie]

theorem quiet_firstIo (ch lun : ℕ) :
    Quiet s (s.setLun ch lun fun l => { l with firstIo := true }) := by
  refine ⟨fun ch' lun' => ?_, rfl, id⟩
  rw [availTime_setLun]
  split_ifs with h
  · rw [h.1, h.2]
    rfl
  · rfl

theorem completeChunk_spec {pci : Bool} {chnlEtime xferSize : ℕ}
    (h : s.completeChunk clock pci chnlEtime xferSize = .ok (s', t)) :
    Still s s' ∧ (s'.overflow = false → chnlEtime ≤ t) := by
  cases pci with
  | true => exact advancePcie_spec h
  | false =>
    cases h
    exact ⟨Still.refl s, fun _ => le_rfl⟩

/-- The statistics move no die. -/
theorem quiet_noteDelay (ch lun cmdStime nandStime : ℕ) (arriveTime : ℤ) :
    Quiet s (s.noteDelay ch lun cmdStime nandStime arriveTime).1 := by
  have hcount : Quiet s { s with
      chDieCounter := u64 (s.chDieCounter + 1)
      chDieLatency := u64 (s.chDieLatency + u64 (nandStime + 2 ^ 64 - cmdStime)) } :=
    ⟨fun _ _ => rfl, rfl, id⟩
  unfold noteDelay
  by_cases hfirst : s.checking = true ∧ (s.lun ch lun).firstIo = false
  · rw [if_pos hfirst]
    by_cases hdelay : 0 < u64 (nandStime + 2 ^ 64 - cmdStime)
    · dsimp only
      rw [if_pos hdelay]
      exact hcount.trans (quiet_firstIo ch lun)
    · dsimp only
      rw [if_neg hdelay]
      exact quiet_firstIo ch lun
  · rw [if_neg hfirst]
    exact (Still.refl s).quiet

/-- **The transfers of a read** follow one after the other, and the last one completes it. -/
theorem readTransfer_spec {pci : Bool} {fuel remaining chnlStime completed chnlEtime done : ℕ}
    (h : readTransfer p clock c pci fuel remaining chnlStime completed s
      = .ok (s', chnlEtime, done)) :
    Still s s' ∧ (s'.overflow = false → chnlStime ≤ chnlEtime ∧
      (0 < remaining ∨ chnlStime ≤ completed → chnlEtime ≤ done)) := by
  have hend : ∀ {s : SsdTimes} {stime completed : ℕ},
      (.ok (s, stime, completed) : Except Fault _) = .ok (s', chnlEtime, done) →
      Still s s' ∧ (s'.overflow = false → stime ≤ chnlEtime ∧
        (0 < 0 ∨ stime ≤ completed → chnlEtime ≤ done)) := by
    intro s stime completed h
    cases h
    exact ⟨Still.refl _, fun _ => ⟨le_rfl, fun h => h.resolve_left (lt_irrefl 0)⟩⟩
  induction fuel generalizing remaining chnlStime completed s with
  | zero =>
    unfold readTransfer at h
    by_cases hrem : remaining = 0
    · rw [if_pos hrem] at h
      subst hrem
      exact hend h
    · rw [if_neg hrem] at h
      cases h
  | succ fuel ih =>
    unfold readTransfer at h
    by_cases hrem : remaining = 0
    · rw [if_pos hrem] at h
      subst hrem
      exact hend h
    rw [if_neg hrem] at h
    obtain ⟨⟨s₁, etime⟩, hch, h⟩ := bind_eq_ok.1 h
    obtain ⟨⟨s₂, completed'⟩, hpcie, h⟩ := bind_eq_ok.1 h
    obtain ⟨hstill₁, hle₁⟩ := channelRequest_spec hch
    have hchunk := completeChunk_spec hpcie
    obtain ⟨hstill, hrest⟩ := ih h
    refine ⟨(hstill₁.trans hchunk.1).trans hstill, fun ho => ?_⟩
    have ho₂ := hstill.overflow ho
    have hstart := hle₁ (hchunk.1.overflow ho₂)
    exact ⟨hstart.trans (hrest ho).1, fun _ => (hrest ho).2 (.inr (hchunk.2 ho₂))⟩

/-! ### The timeline -/

/-- **The timeline from one state to a later one:** no die becomes available earlier, every command
in between begins on its die when that is free, keeps it for its NAND phase at least and returns
once that can be over, and the commands of a die follow one after the other. -/
structure Timeline (s s' : SsdTimes) (es : List NandEvent) : Prop where
  overflow : s'.overflow = false → s.overflow = false
  events : s'.events = s.events ++ es
  avail : ∀ ch lun, s.availTime ch lun ≤ s'.availTime ch lun
  free : ∀ e ∈ es, s.availTime e.ch e.lun ≤ e.nandStime ∧ e.cmdStime ≤ e.nandStime
  busy : ∀ e ∈ es, e.nandStime + e.latency ≤ e.endTime ∧ e.endTime ≤ s'.availTime e.ch e.lun
  completed : ∀ e ∈ es, e.cmdStime + e.latency ≤ e.completedTime
  follow : es.Pairwise fun e e' => e.ch = e'.ch → e.lun = e'.lun → e.endTime ≤ e'.nandStime

variable {es es' : List NandEvent}

theorem Quiet.timeline (h : Quiet s s') : Timeline s s' [] where
  overflow := h.overflow
  events := by rw [h.events, List.append_nil]
  avail := fun ch lun => (h.avail ch lun).ge
  free := fun e he => absurd he List.not_mem_nil
  busy := fun e he => absurd he List.not_mem_nil
  completed := fun e he => absurd he List.not_mem_nil
  follow := .nil

/-- **Timelines follow one another.** -/
theorem Timeline.trans (h : Timeline s s' es) (h' : Timeline s' s'' es') :
    Timeline s s'' (es ++ es') where
  overflow := fun ho => h.overflow (h'.overflow ho)
  events := by rw [h'.events, h.events, List.append_assoc]
  avail := fun ch lun => (h.avail ch lun).trans (h'.avail ch lun)
  free := by
    intro e he
    rcases List.mem_append.1 he with he | he
    · exact h.free e he
    · exact ⟨(h.avail _ _).trans (h'.free e he).1, (h'.free e he).2⟩
  busy := by
    intro e he
    rcases List.mem_append.1 he with he | he
    · exact ⟨(h.busy e he).1, (h.busy e he).2.trans (h'.avail _ _)⟩
    · exact h'.busy e he
  completed := by
    intro e he
    rcases List.mem_append.1 he with he | he
    · exact h.completed e he
    · exact h'.completed e he
  follow := by
    refine List.pairwise_append.2 ⟨h.follow, h'.follow, fun e he e' he' hch hlun => ?_⟩
    have hfree := (h'.free e' he').1
    rw [← hch, ← hlun] at hfree
    exact (h.busy e he).2.trans hfree

/-- A command keeps its die until its end, and no other. -/
theorem availTime_release (s : SsdTimes) (e : NandEvent) (ch lun : ℕ) :
    (s.release e).availTime ch lun =
      if ch = e.ch ∧ lun = e.lun then e.endTime else s.availTime ch lun :=
  availTime_setLun (s := s) e.ch e.lun (fun l => { l with nextLunAvailTime := e.endTime }) ch lun

theorem availTime_release_self (s : SsdTimes) (e : NandEvent) :
    (s.release e).availTime e.ch e.lun = e.endTime := by
  rw [availTime_release, if_pos ⟨rfl, rfl⟩]

/-- **A command that has found its die free** and leaves it busy. -/
theorem Quiet.release (h : Quiet s s') {e : NandEvent}
    (hfree : s.availTime e.ch e.lun ≤ e.nandStime ∧ e.cmdStime ≤ e.nandStime)
    (hend : e.nandStime + e.latency ≤ e.endTime) (hdone : e.cmdStime + e.latency ≤ e.completedTime) :
    Timeline s (s'.release e) [e] := by
  have hself := availTime_release_self s' e
  refine ⟨h.overflow, ?_, fun ch lun => ?_, ?_, ?_, ?_, List.pairwise_singleton _ _⟩
  · show s'.events ++ [e] = _
    rw [h.events]
  · rw [availTime_release]
    split_ifs with hdie
    · rw [hdie.1, hdie.2]
      exact hfree.1.trans ((Nat.le_add_right _ _).trans hend)
    · exact (h.avail ch lun).ge
  · intro e' he'
    rw [List.mem_singleton.1 he']
    exact hfree
  · intro e' he'
    rw [List.mem_singleton.1 he']
    exact ⟨hend, hself.ge⟩
  · intro e' he'
    rw [List.mem_singleton.1 he']
    exact hdone

/-- **The record of a command:** its die, its start time, its NAND latency, the end it leaves the die
with and the time returned. -/
structure Records (p : NandLatencies) (cmd : NandCmd) (stime t : ℕ) (s' : SsdTimes)
    (e : NandEvent) : Prop where
  ch : e.ch = cmd.ppa.ch
  lun : e.lun = cmd.ppa.lun
  cmdStime : e.cmdStime = stime
  latency : p.nandLatency cmd = Except.ok e.latency
  endTime : s'.availTime cmd.ppa.ch cmd.ppa.lun = e.endTime
  completedTime : e.completedTime = t

variable {cmd : NandCmd} {stime : ℕ} {arrive arrive' : ℤ}

/-- What a command with its start time does on its die. -/
def Performs (p : NandLatencies) (s : SsdTimes) (cmd : NandCmd) (stime t : ℕ) (s' : SsdTimes) :
    Prop :=
  s'.overflow = false → ∃ e, Timeline s s' [e] ∧ Records p cmd stime t s' e

/-- A read senses first: its die is busy until the last transfer over the channel. -/
theorem advanceRead_spec (hop : cmd.cmd = .read)
    (h : s.advanceRead p clock cmd stime arrive = .ok (s', arrive', t)) :
    Performs p s cmd stime t s' := by
  intro ho
  obtain ⟨latency, hcell, h⟩ := bind_eq_ok.1 h
  obtain ⟨_, hdef, h⟩ := bind_eq_ok.1 h
  have hsize := defined_eq_ok.1 hdef
  obtain ⟨⟨s₃, etime, done⟩, hread, h⟩ := bind_eq_ok.1 h
  cases h
  set nand := max (s.lun cmd.ppa.ch cmd.ppa.lun).nextLunAvailTime stime with hnand
  have hnote := quiet_noteDelay (s := s) cmd.ppa.ch cmd.ppa.lun stime nand arrive
  obtain ⟨hadd, hsum⟩ := addTime_spec
    (s := (s.noteDelay cmd.ppa.ch cmd.ppa.lun stime nand arrive).1) nand latency
  have hlat : p.nandLatency cmd = .ok latency := by
    unfold NandLatencies.nandLatency
    rw [hop]
    exact hcell
  obtain ⟨htransfer, hle⟩ := readTransfer_spec hread
  have ho₃ : s₃.overflow = false := ho
  have hle := hle ho₃
  rw [hsum (htransfer.overflow ho₃)] at hle
  have hdone := hle.2 (.inl hsize)
  refine ⟨_, (hnote.trans (hadd.trans htransfer).quiet).release ⟨le_max_left _ _, le_max_right _ _⟩
    hle.1 ?_, rfl, rfl, rfl, hlat, availTime_release_self _ _, rfl⟩
  exact (Nat.add_le_add_right (le_max_right _ _) _).trans (hle.1.trans hdone)

/-- A write transfers first: its program phase begins when the transfer is over. -/
theorem advanceWrite_spec (hop : cmd.cmd = .write)
    (h : s.advanceWrite p clock cmd stime = .ok (s', t)) : Performs p s cmd stime t s' := by
  intro ho
  obtain ⟨⟨s₁, etime⟩, hch, h⟩ := bind_eq_ok.1 h
  cases h
  obtain ⟨hstill, hle⟩ := channelRequest_spec hch
  obtain ⟨hadd, hsum⟩ := addTime_spec (s := s₁) etime p.pgWrLat
  have hle := hle (hadd.overflow ho)
  have hsum := hsum ho
  have hlat : p.nandLatency cmd = .ok p.pgWrLat := by
    unfold NandLatencies.nandLatency
    rw [hop]
  refine ⟨_, (hstill.trans hadd).quiet.release
    ⟨(le_max_left _ _).trans hle, (le_max_right _ _).trans hle⟩ hsum.ge ?_, rfl, rfl, rfl, hlat,
    availTime_release_self _ _, rfl⟩
  show stime + p.pgWrLat ≤ (s₁.addTime etime p.pgWrLat).2
  rw [hsum]
  exact Nat.add_le_add_right ((le_max_right _ _).trans hle) _

/-- An erase, and a command without a latency, take the die alone. -/
theorem advanceBusy_spec {latency : ℕ} (hlat : p.nandLatency cmd = .ok latency) :
    Performs p s cmd stime (s.advanceBusy cmd stime latency).2
      (s.advanceBusy cmd stime latency).1 := by
  intro ho
  obtain ⟨hadd, hsum⟩ := addTime_spec (s := s)
    (max (s.lun cmd.ppa.ch cmd.ppa.lun).nextLunAvailTime stime) latency
  have hsum := hsum ho
  refine ⟨_, hadd.quiet.release ⟨le_max_left _ _, le_max_right _ _⟩ hsum.ge ?_, rfl, rfl, rfl, hlat,
    availTime_release_self _ _, rfl⟩
  dsimp only
  rw [hsum]
  exact Nat.add_le_add_right (le_max_right _ _) _

theorem advanceDie_spec (h : s.advanceDie p clock cmd stime arrive = .ok (s', arrive', t)) :
    Performs p s cmd stime t s' := by
  unfold advanceDie at h
  cases hop : cmd.cmd with
  | read =>
    rw [hop] at h
    exact advanceRead_spec hop h
  | write =>
    rw [hop] at h
    obtain ⟨⟨s₁, t₁⟩, hw, h⟩ := bind_eq_ok.1 h
    cases h
    exact advanceWrite_spec hop hw
  | erase =>
    rw [hop] at h
    cases h
    exact advanceBusy_spec (by unfold NandLatencies.nandLatency; rw [hop])
  | nop =>
    rw [hop] at h
    cases h
    exact advanceBusy_spec (by unfold NandLatencies.nandLatency; rw [hop])

/-- **What a command does:** one to a die is recorded, one to no die returns its start time. -/
def Served (p : NandLatencies) (clock : ℕ → ℕ) (s : SsdTimes) (cmd : NandCmd) (s' : SsdTimes)
    (t : ℕ) : Prop :=
  if mappedPpa cmd.ppa then
    ∃ e, Timeline s s' [e] ∧ Records p cmd (s.startTime clock cmd).2 t s' e
  else Timeline s s' [] ∧ t = (s.startTime clock cmd).2

theorem advanceNand_spec (h : s.advanceNand p clock cmd arrive = .ok (s', arrive', t))
    (ho : s'.overflow = false) : Served p clock s cmd s' t := by
  have hstart : Quiet s (s.startTime clock cmd).1 := still_startTime.quiet
  unfold advanceNand at h
  dsimp only at h
  unfold Served
  by_cases hmapped : mappedPpa cmd.ppa
  · rw [if_pos hmapped]
    rw [if_neg (not_not_intro hmapped)] at h
    obtain ⟨_, -, h⟩ := bind_eq_ok.1 h
    obtain ⟨e, htime, hrec⟩ := advanceDie_spec h ho
    exact ⟨e, hstart.timeline.trans htime, hrec⟩
  · rw [if_neg hmapped]
    rw [if_pos hmapped] at h
    cases h
    exact ⟨hstart.timeline, rfl⟩

/-! ### Every command returns -/

/-- The channels and PCIe are as `chmodel_init` and the requests leave them. -/
structure Ready (s : SsdTimes) : Prop where
  channel : ∀ c, 0 < (s.perfModel c).maxCredits ∧ (s.perfModel c).Keeps (s.perfModel c)
  pcie : 0 < s.pcie.maxCredits ∧ s.pcie.Keeps s.pcie

/-- A request to a channel in order returns and leaves it in order. -/
theorem exists_chmodelRequest {ch : ChannelModel} (h : 0 < ch.maxCredits ∧ ch.Keeps ch)
    (curTime requestTime length : ℕ) :
    ∃ ch' t, ch.chmodelRequest curTime requestTime length = .ok (ch', t) ∧
      0 < ch'.maxCredits ∧ ch'.Keeps ch' := by
  obtain ⟨ch', hr⟩ :=
    ChannelModel.chmodelRequest_eq h.1 h.2.validLen curTime requestTime length
  have hkeeps := h.2.request hr
  refine ⟨ch', _, hr, ?_, hkeeps.head, hkeeps.validLen, rfl, rfl, rfl⟩
  rw [hkeeps.maxCredits]
  exact h.1

theorem Ready.channelRequest (h : s.Ready) (clock : ℕ → ℕ) (c requestTime length : ℕ) :
    ∃ s' t, s.channelRequest clock c requestTime length = .ok (s', t) ∧ s'.Ready := by
  obtain ⟨ch, t, hr, hch⟩ := exists_chmodelRequest (h.channel c) (clock s.clockReads) requestTime
    length
  have hset : ∀ c', 0 < (Function.update s.perfModel c ch c').maxCredits ∧
      (Function.update s.perfModel c ch c').Keeps (Function.update s.perfModel c ch c') := by
    intro c'
    by_cases hc : c' = c
    · subst hc
      rw [Function.update_self]
      exact hch
    · rw [Function.update_of_ne hc]
      exact h.channel c'
  exact ⟨_, t, bind_eq_ok.2 ⟨(ch, t), hr, rfl⟩, hset, h.pcie⟩

theorem Ready.advancePcie (h : s.Ready) (clock : ℕ → ℕ) (requestTime length : ℕ) :
    ∃ s' t, s.advancePcie clock requestTime length = .ok (s', t) ∧ s'.Ready := by
  obtain ⟨ch, t, hr, hch⟩ := exists_chmodelRequest h.pcie (clock s.clockReads) requestTime length
  exact ⟨_, t, bind_eq_ok.2 ⟨(ch, t), hr, rfl⟩, h.channel, hch⟩

/-- The loop of a read ends: every round transfers a byte at least. -/
theorem Ready.readTransfer (h : s.Ready) (clock : ℕ → ℕ) (hmax : 0 < p.maxChXferSize) (c : ℕ)
    (pci : Bool) {fuel remaining : ℕ} (hfuel : remaining ≤ fuel) (chnlStime completed : ℕ) :
    ∃ s' etime done, readTransfer p clock c pci fuel remaining chnlStime completed s
      = .ok (s', etime, done) ∧ s'.Ready := by
  induction fuel generalizing remaining chnlStime completed s with
  | zero =>
    have hrem : remaining = 0 := Nat.le_zero.1 hfuel
    refine ⟨s, chnlStime, completed, ?_, h⟩
    unfold SsdTimes.readTransfer
    rw [if_pos hrem]
  | succ fuel ih =>
    unfold SsdTimes.readTransfer
    by_cases hrem : remaining = 0
    · rw [if_pos hrem]
      exact ⟨s, chnlStime, completed, rfl, h⟩
    rw [if_neg hrem]
    obtain ⟨s₁, etime, hch, h₁⟩ := h.channelRequest clock c chnlStime
      (min remaining p.maxChXferSize)
    have hchunk : ∃ s₂ t, s₁.completeChunk clock pci etime (min remaining p.maxChXferSize)
        = .ok (s₂, t) ∧ s₂.Ready := by
      cases pci with
      | true => exact h₁.advancePcie clock etime _
      | false => exact ⟨s₁, etime, rfl, h₁⟩
    obtain ⟨s₂, completed', hpcie, h₂⟩ := hchunk
    have hless : remaining - min remaining p.maxChXferSize ≤ fuel := by omega
    obtain ⟨s', etime', done, hrest, h'⟩ := ih h₂ hless etime completed'
    exact ⟨s', etime', done, bind_eq_ok.2 ⟨(s₁, etime), hch, bind_eq_ok.2
      ⟨(s₂, completed'), hpcie, hrest⟩⟩, h'⟩

theorem Ready.noteDelay (h : s.Ready) (ch lun cmdStime nandStime : ℕ) (arrive : ℤ) :
    (s.noteDelay ch lun cmdStime nandStime arrive).1.Ready := by
  unfold SsdTimes.noteDelay
  dsimp only
  split_ifs <;> exact ⟨h.channel, h.pcie⟩

/-- A read on a cell the arrays have has a latency. -/
theorem exists_readLatency (hcell : p.getCell cmd.ppa < maxCellTypes) :
    ∃ latency, p.readLatency cmd = .ok latency := by
  unfold NandLatencies.readLatency
  dsimp only
  split_ifs
  · exact ⟨_, dif_pos hcell⟩
  · exact ⟨_, dif_pos hcell⟩

/-- A read on another cell has none. -/
theorem readLatency_undefined (hcell : ¬ p.getCell cmd.ppa < maxCellTypes) :
    p.readLatency cmd = .error .undefined := by
  unfold NandLatencies.readLatency
  dsimp only
  split_ifs
  · exact dif_neg hcell
  · exact dif_neg hcell

theorem Ready.advanceRead (h : s.Ready) (hmax : 0 < p.maxChXferSize) (hsize : 0 < cmd.xferSize)
    (hcell : p.getCell cmd.ppa < maxCellTypes) (stime : ℕ) (arrive : ℤ) :
    ∃ s' arrive' t, s.advanceRead p clock cmd stime arrive = .ok (s', arrive', t) ∧ s'.Ready := by
  obtain ⟨latency, hlat⟩ := exists_readLatency hcell
  have hnoted := h.noteDelay cmd.ppa.ch cmd.ppa.lun stime
    (max (s.lun cmd.ppa.ch cmd.ppa.lun).nextLunAvailTime stime) arrive
  have hsensed : ∀ a b, ((s.noteDelay cmd.ppa.ch cmd.ppa.lun stime
      (max (s.lun cmd.ppa.ch cmd.ppa.lun).nextLunAvailTime stime) arrive).1.addTime a b).1.Ready :=
    fun _ _ => ⟨hnoted.channel, hnoted.pcie⟩
  obtain ⟨s', etime, done, hread, h'⟩ := (hsensed _ _).readTransfer clock hmax cmd.ppa.ch
    cmd.interleavePciDma le_rfl _ 0
  unfold SsdTimes.advanceRead
  rw [hlat, ok_bind]
  dsimp only
  rw [defined_bind hsize, hread]
  exact ⟨_, _, _, rfl, h'.channel, h'.pcie⟩

theorem Ready.advanceWrite (h : s.Ready) (p : NandLatencies) (clock : ℕ → ℕ) (cmd : NandCmd)
    (stime : ℕ) :
    ∃ s' t, s.advanceWrite p clock cmd stime = .ok (s', t) ∧ s'.Ready := by
  obtain ⟨s', etime, hch, h'⟩ := h.channelRequest clock cmd.ppa.ch
    (max (s.lun cmd.ppa.ch cmd.ppa.lun).nextLunAvailTime stime) cmd.xferSize
  unfold SsdTimes.advanceWrite
  dsimp only
  rw [hch]
  exact ⟨_, _, rfl, h'.channel, h'.pcie⟩

/-- A command the device has the die for; a read transfers something. -/
def Addressed (p : NandLatencies) (cmd : NandCmd) : Prop :=
  (mappedPpa cmd.ppa → cmd.ppa.ch < p.nchs ∧ cmd.ppa.lun < p.lunsPerCh) ∧
    (cmd.cmd = .read → 0 < cmd.xferSize)

/-- A read of a page falls on a cell that has a latency. -/
def InCells (p : NandLatencies) (cmd : NandCmd) : Prop :=
  cmd.cmd = .read → mappedPpa cmd.ppa → p.getCell cmd.ppa < maxCellTypes

/-- Up to `CELL_MODE_MLC` every cell has a latency. -/
theorem inCells_of_mlc (h : p.cellMode ≤ cellModeMlc) (cmd : NandCmd) : InCells p cmd :=
  fun _ _ => (Nat.mod_lt _ (Nat.succ_pos _)).trans_le (Nat.succ_le_succ h)

/-- **A read on another cell** is past the end of the latencies. -/
theorem advanceNand_undefined (hcell : ¬ InCells p cmd) :
    s.advanceNand p clock cmd arrive = .error .undefined := by
  unfold InCells at hcell
  push Not at hcell
  obtain ⟨hop, hmapped, hpast⟩ := hcell
  unfold SsdTimes.advanceNand
  dsimp only
  rw [if_neg (not_not_intro hmapped)]
  by_cases hdie : cmd.ppa.ch < p.nchs ∧ cmd.ppa.lun < p.lunsPerCh ∧ 0 < p.pgsPerFlashpg
  · rw [defined_bind hdie]
    unfold advanceDie
    rw [hop]
    dsimp only
    unfold SsdTimes.advanceRead
    rw [readLatency_undefined (not_lt.2 hpast)]
    rfl
  · exact defined_bind_of_not hdie _

/-- **Every command on a cell returns.** -/
theorem Ready.advanceNand (h : s.Ready) (clock : ℕ → ℕ) (hmax : 0 < p.maxChXferSize)
    (hpgs : 0 < p.pgsPerFlashpg) (hcmd : Addressed p cmd) (hcell : InCells p cmd) (arrive : ℤ) :
    ∃ s' arrive' t, s.advanceNand p clock cmd arrive = .ok (s', arrive', t) ∧ s'.Ready := by
  have hstart : (s.startTime clock cmd).1.Ready := by
    unfold startTime
    split_ifs
    · exact ⟨h.channel, h.pcie⟩
    · exact h
  unfold SsdTimes.advanceNand
  dsimp only
  by_cases hmapped : mappedPpa cmd.ppa
  swap
  · rw [if_pos hmapped]
    exact ⟨_, _, _, rfl, hstart⟩
  obtain ⟨hch, hlun⟩ := hcmd.1 hmapped
  rw [if_neg (not_not_intro hmapped), defined_bind ⟨hch, hlun, hpgs⟩]
  unfold advanceDie
  cases hop : cmd.cmd with
  | read =>
    exact hstart.advanceRead hmax (hcmd.2 hop) (hcell hop hmapped) _ arrive
  | write =>
    obtain ⟨s', t, hw, h'⟩ := hstart.advanceWrite p clock cmd _
    exact ⟨s', arrive, t, bind_eq_ok.2 ⟨(s', t), hw, rfl⟩, h'⟩
  | erase => exact ⟨_, _, _, rfl, hstart.channel, hstart.pcie⟩
  | nop => exact ⟨_, _, _, rfl, hstart.channel, hstart.pcie⟩

/-! ### Runs -/

/-- A call of `ssd_advance_nand`, or the traffic of others on a channel or on PCIe. -/
inductive TimedCall where
  | nand (cmd : NandCmd) (arriveTime : ℤ)
  | channel (c requestTime length : ℕ)
  | pcie (requestTime length : ℕ)

/-- A call. -/
def step (p : NandLatencies) (clock : ℕ → ℕ) (s : SsdTimes) : TimedCall → Except Fault SsdTimes
  | .nand cmd arriveTime => do
    let (s, _, _) ← s.advanceNand p clock cmd arriveTime
    .ok s
  | .channel c requestTime length => do
    let (s, _) ← s.channelRequest clock c requestTime length
    .ok s
  | .pcie requestTime length => do
    let (s, _) ← s.advancePcie clock requestTime length
    .ok s

variable {call : TimedCall} {calls pre post : List TimedCall}

/-- The commands of the run have their dies. -/
def TimedCall.Addressed (p : NandLatencies) : TimedCall → Prop
  | .nand cmd _ => SsdTimes.Addressed p cmd
  | _ => True

/-- The reads of the run fall on cells that have a latency. -/
def TimedCall.InCells (p : NandLatencies) : TimedCall → Prop
  | .nand cmd _ => SsdTimes.InCells p cmd
  | _ => True

/-- A call that returns has not read past the latencies. -/
theorem inCells_of_step (h : s.step p clock call = .ok s') : call.InCells p := by
  cases call with
  | nand cmd arrive =>
    obtain ⟨⟨s₁, arrive', t⟩, hcmd, -⟩ := bind_eq_ok.1 h
    by_contra hcell
    rw [advanceNand_undefined hcell] at hcmd
    cases hcmd
  | channel c requestTime length => exact True.intro
  | pcie requestTime length => exact True.intro

/-- **Every call on a cell returns.** -/
theorem Ready.step (h : s.Ready) (clock : ℕ → ℕ) (hmax : 0 < p.maxChXferSize)
    (hpgs : 0 < p.pgsPerFlashpg) (hcall : call.Addressed p) (hcell : call.InCells p) :
    ∃ s', s.step p clock call = .ok s' ∧ s'.Ready := by
  cases call with
  | nand cmd arrive =>
    obtain ⟨s', arrive', t, heq, h'⟩ := h.advanceNand clock hmax hpgs hcall hcell arrive
    exact ⟨s', bind_eq_ok.2 ⟨(s', arrive', t), heq, rfl⟩, h'⟩
  | channel c requestTime length =>
    obtain ⟨s', t, heq, h'⟩ := h.channelRequest clock c requestTime length
    exact ⟨s', bind_eq_ok.2 ⟨(s', t), heq, rfl⟩, h'⟩
  | pcie requestTime length =>
    obtain ⟨s', t, heq, h'⟩ := h.advancePcie clock requestTime length
    exact ⟨s', bind_eq_ok.2 ⟨(s', t), heq, rfl⟩, h'⟩

/-- **A run returns** exactly if all its reads fall on a cell. -/
theorem Ready.run_iff (h : s.Ready) (clock : ℕ → ℕ) (hmax : 0 < p.maxChXferSize)
    (hpgs : 0 < p.pgsPerFlashpg) (hcalls : ∀ call ∈ calls, call.Addressed p) :
    (∃ s', runList (SsdTimes.step p clock) s calls = .ok s') ↔
      ∀ call ∈ calls, call.InCells p := by
  induction calls generalizing s with
  | nil => exact ⟨fun _ call hcall => absurd hcall List.not_mem_nil, fun _ => ⟨s, rfl⟩⟩
  | cons call calls ih =>
    obtain ⟨hcall, hcalls⟩ := List.forall_mem_cons.1 hcalls
    rw [List.forall_mem_cons]
    refine ⟨fun ⟨s', hrun⟩ => ?_, fun ⟨hcell, hcells⟩ => ?_⟩
    · obtain ⟨s₁, hfirst, hrest⟩ := bind_eq_ok.1 hrun
      have hcell := inCells_of_step hfirst
      obtain ⟨s₂, heq, h₁⟩ := h.step clock hmax hpgs hcall hcell
      rw [hfirst] at heq
      cases heq
      exact ⟨hcell, (ih h₁ hcalls).1 ⟨s', hrest⟩⟩
    · obtain ⟨s₁, hfirst, h₁⟩ := h.step clock hmax hpgs hcall hcell
      obtain ⟨s', hrest⟩ := (ih h₁ hcalls).2 hcells
      exact ⟨s', bind_eq_ok.2 ⟨s₁, hfirst, hrest⟩⟩

/-- **The timeline of a call.** -/
theorem step_timeline (h : s.step p clock call = .ok s') (ho : s'.overflow = false) :
    ∃ es, Timeline s s' es := by
  cases call with
  | nand cmd arrive =>
    obtain ⟨⟨s₁, arrive', t⟩, hcmd, h⟩ := bind_eq_ok.1 h
    cases h
    have hserved := advanceNand_spec hcmd ho
    unfold Served at hserved
    split_ifs at hserved
    · obtain ⟨e, htime, -⟩ := hserved
      exact ⟨[e], htime⟩
    · exact ⟨[], hserved.1⟩
  | channel c requestTime length =>
    obtain ⟨⟨s₁, t⟩, hch, h⟩ := bind_eq_ok.1 h
    cases h
    exact ⟨[], (channelRequest_spec hch).1.quiet.timeline⟩
  | pcie requestTime length =>
    obtain ⟨⟨s₁, t⟩, hch, h⟩ := bind_eq_ok.1 h
    cases h
    exact ⟨[], (advancePcie_spec hch).1.quiet.timeline⟩

/-- **The timeline of a run.** -/
theorem run_timeline (h : runList (SsdTimes.step p clock) s calls = .ok s')
    (ho : s'.overflow = false) : ∃ es, Timeline s s' es := by
  induction calls generalizing s with
  | nil =>
    cases h
    exact ⟨[], (Still.refl _).quiet.timeline⟩
  | cons call calls ih =>
    obtain ⟨s₁, hstep, h⟩ := bind_eq_ok.1 h
    obtain ⟨es', hrest⟩ := ih h
    obtain ⟨es, hfirst⟩ := step_timeline hstep (hrest.overflow ho)
    exact ⟨es ++ es', hfirst.trans hrest⟩

/-- **The timeline of a run of commands:** the run returns, and as long as the times stay in 64 bits
no die becomes available earlier, the commands of a die follow one another, and each of them
begins when it may and returns when it is over. -/
def TimesDies (p : NandLatencies) (clock : ℕ → ℕ) (s : SsdTimes) (calls : List TimedCall) : Prop :=
  ∃ s', runList (SsdTimes.step p clock) s calls = .ok s' ∧ (s'.overflow = false →
    (∃ es, Timeline s s' es) ∧
    ∀ pre cmd arrive post, calls = pre ++ .nand cmd arrive :: post →
      ∃ s₁ s₂ arrive' t, runList (SsdTimes.step p clock) s pre = .ok s₁ ∧
        s₁.advanceNand p clock cmd arrive = .ok (s₂, arrive', t) ∧
        runList (SsdTimes.step p clock) s₂ post = .ok s' ∧
        (∃ es, Timeline s s₁ es) ∧ Served p clock s₁ cmd s₂ t ∧ ∃ es, Timeline s₂ s' es)

theorem timesDies_of_run (h : runList (SsdTimes.step p clock) s calls = .ok s') :
    TimesDies p clock s calls := by
  refine ⟨s', h, fun ho => ⟨run_timeline h ho, ?_⟩⟩
  rintro pre cmd arrive post rfl
  rw [runList_append] at h
  obtain ⟨s₁, hpre, h⟩ := bind_eq_ok.1 h
  obtain ⟨s₂, hstep, hpost⟩ := bind_eq_ok.1 h
  obtain ⟨⟨s₃, arrive', t⟩, hcmd, heq⟩ := bind_eq_ok.1 hstep
  cases heq
  obtain ⟨es₂, htime₂⟩ := run_timeline hpost ho
  have ho₂ := htime₂.overflow ho
  obtain ⟨es₁, htime₁⟩ := step_timeline hstep ho₂
  exact ⟨s₁, s₂, arrive', t, hpre, hcmd, hpost, run_timeline hpre (htime₁.overflow ho₂),
    advanceNand_spec hcmd ho₂, es₂, htime₂⟩

/-- **The die timeline.**  A run of commands with the traffic of others, on dies the device has, keeps
the timeline of every die exactly if each of its reads falls on a cell that has a latency. -/
theorem advanceNand_timeline_iff (p : NandLatencies) (clock : ℕ → ℕ) (s : SsdTimes)
    (calls : List TimedCall) (hs : s.Ready) (hmax : 0 < p.maxChXferSize)
    (hpgs : 0 < p.pgsPerFlashpg) (hcalls : ∀ call ∈ calls, call.Addressed p) :
    TimesDies p clock s calls ↔ ∀ call ∈ calls, call.InCells p := by
  rw [← hs.run_iff clock hmax hpgs hcalls]
  exact ⟨fun ⟨s', hrun, _⟩ => ⟨s', hrun⟩, fun ⟨_, hrun⟩ => timesDies_of_run hrun⟩

/-- A device with one die on each of two channels of 800 MB/s, and a PCIe of the same speed. -/
def twoDies : NandLatencies where
  nchs := 2
  lunsPerCh := 1
  pgsPerFlashpg := 8
  cellMode := cellModeMlc
  pg4kbRdLat := ![29760, 41760, 0]
  pgRdLat := ![30013, 42013, 0]
  pgWrLat := 185000
  blkErLat := 3000000
  maxChXferSize := 4096

/-- A channel of that speed, with all credits left. -/
def unused : ChannelModel where
  curTime := 0
  head := 0
  validLen := 0
  maxCredits := 26
  commandCredits := 0
  xferLat := 152
  availCredits := fun _ => 26

/-- The device at the start, when all dies are free. -/
def idle : SsdTimes where
  perfModel := fun _ => unused
  pcie := unused
  lun := fun _ _ => ⟨0, true⟩
  checking := false
  chDieCounter := 0
  chDieLatency := 0
  clockReads := 0
  overflow := false
  events := []

theorem ready_idle : idle.Ready :=
  have hunused : 0 < unused.maxCredits ∧ unused.Keeps unused :=
    ⟨by decide, by decide, by decide, rfl, rfl, rfl⟩
  ⟨fun _ => hunused, hunused⟩

/-- Commands of every kind to the two dies, and a transfer of another on the first channel. -/
def mixedCommands : List TimedCall :=
  [.nand ⟨.read, 8192, 0, true, Ppa.ofFields 0 0 0 0 0⟩ 0,
    .channel 0 40000 4096,
    .nand ⟨.write, 32768, 50000, false, Ppa.ofFields 0 0 0 1 0⟩ 0,
    .nand ⟨.erase, 0, 60000, false, Ppa.ofFields 1 0 0 0 0⟩ 0,
    .nand ⟨.nop, 0, 0, false, Ppa.ofFields 1 0 0 0 0⟩ 0]

/-- The timeline of that run, in which the times stay in 64 bits. -/
theorem advanceNand_timeline_mixed :
    ∃ s', runList (SsdTimes.step twoDies fun n => 1000 * n) idle mixedCommands = .ok s' ∧
      s'.overflow = false ∧ ∃ es, Timeline idle s' es := by
  have hcalls : ∀ call ∈ mixedCommands, call.Addressed twoDies ∧ call.InCells twoDies := by
    have hcell := inCells_of_mlc (p := twoDies) le_rfl
    intro call hcall
    simp only [mixedCommands, List.mem_cons, List.not_mem_nil, or_false] at hcall
    rcases hcall with rfl | rfl | rfl | rfl | rfl
    · exact ⟨⟨fun _ => by decide, fun _ => by decide⟩, hcell _⟩
    · exact ⟨True.intro, True.intro⟩
    · exact ⟨⟨fun _ => by decide, fun _ => by decide⟩, hcell _⟩
    · exact ⟨⟨fun _ => by decide, fun h => by cases h⟩, hcell _⟩
    · exact ⟨⟨fun _ => by decide, fun h => by cases h⟩, hcell _⟩
  have htime := (advanceNand_timeline_iff twoDies (fun n => 1000 * n) idle mixedCommands ready_idle
    (by decide) (by decide) fun call hcall => (hcalls call hcall).1).2
    fun call hcall => (hcalls call hcall).2
  obtain ⟨s₁, hrun₁, ho⟩ := exists_ok_of_any
    (x := runList (SsdTimes.step twoDies fun n => 1000 * n) idle mixedCommands)
    (p := fun s => !s.overflow) (by decide +kernel)
  obtain ⟨s', hrun, htime⟩ := htime
  obtain rfl : s₁ = s' := Except.ok.inj (hrun₁.symm.trans hrun)
  have ho : s₁.overflow = false := by simpa using ho
  exact ⟨s₁, hrun, ho, (htime ho).1⟩

/-- Those dies with three bits in a cell. -/
def twoTlcDies : NandLatencies := { twoDies with cellMode := cellModeTlc }

/-- A read of the fourth flash page of a block. -/
def fourthPageRead : NandCmd := ⟨.read, 4096, 0, true, Ppa.ofFields 0 0 0 0 24⟩

/-- **A read of the fourth cell** is past the end of the latencies. -/
theorem tlcRead_not_timed : Addressed twoTlcDies fourthPageRead ∧ idle.Ready ∧
    idle.advanceNand twoTlcDies (fun n => n) fourthPageRead 0 = .error .undefined ∧
    ¬ TimesDies twoTlcDies (fun n => n) idle [.nand fourthPageRead 0] := by
  have hcell : ¬ InCells twoTlcDies fourthPageRead := fun h =>
    absurd (h rfl (by decide)) (by decide)
  refine ⟨⟨fun _ => by decide, fun _ => by decide⟩, ready_idle, advanceNand_undefined hcell, ?_⟩
  rintro ⟨s', hrun, -⟩
  obtain ⟨s₁, hstep, -⟩ := bind_eq_ok.1 hrun
  exact hcell (inCells_of_step hstep)

end SsdTimes

end NvmeVirt
