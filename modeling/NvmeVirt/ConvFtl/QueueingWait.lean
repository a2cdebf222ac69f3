/-
# The queueing statistic

A read adds to `queueing_wait` the smallest delay of the dies it is the first to
read from.  `srd.arrive_time` carries that minimum through all instances of the
namespace, and `-1` until a die has set it; a read of unmapped pages alone adds
the `-1`.
-/

import NvmeVirt.ConvFtl.ReadTiming

namespace NvmeVirt

open Outcome

/-! ### A read on its die -/

namespace SsdTimes

variable {p : NandLatencies} {clock : ℕ → ℕ} {s s' : SsdTimes} {cmd : NandCmd}

/-- `arrive_time` after a delay. -/
def noted (arriveTime : ℤ) (delay : ℕ) : ℤ :=
  if arriveTime < 0 ∨ delay < arriveTime.toNat then toInt64 delay else arriveTime

theorem noteDelay_snd (hck : s.checking = true) (ch lun cmdStime nandStime : ℕ) (arrive : ℤ) :
    (s.noteDelay ch lun cmdStime nandStime arrive).2 =
      if (s.lun ch lun).firstIo = false then noted arrive (u64 (nandStime + 2 ^ 64 - cmdStime))
      else arrive := by
  unfold noteDelay
  by_cases hfirst : (s.lun ch lun).firstIo = false
  · rw [if_pos ⟨hck, hfirst⟩, if_pos hfirst]
    rfl
  · rw [if_neg fun h => hfirst h.2, if_neg hfirst]

/-- The statistics set `first_io` of the die and leave the others alone. -/
theorem noteDelay_fst (hck : s.checking = true) (ch lun cmdStime nandStime : ℕ) (arrive : ℤ) :
    (s.noteDelay ch lun cmdStime nandStime arrive).1.checking = true ∧
    (s.noteDelay ch lun cmdStime nandStime arrive).1.events = s.events ∧
    ((s.noteDelay ch lun cmdStime nandStime arrive).1.lun ch lun).firstIo = true ∧
    ∀ ch' lun', ¬ (ch' = ch ∧ lun' = lun) →
      (s.noteDelay ch lun cmdStime nandStime arrive).1.lun ch' lun' = s.lun ch' lun' := by
  have hset : ∀ s₁ : SsdTimes, s₁.lun = s.lun → s₁.checking = true → s₁.events = s.events →
      (s₁.setLun ch lun fun l => { l with firstIo := true }).checking = true ∧
      (s₁.setLun ch lun fun l => { l with firstIo := true }).events = s.events ∧
      ((s₁.setLun ch lun fun l => { l with firstIo := true }).lun ch lun).firstIo = true ∧
      ∀ ch' lun', ¬ (ch' = ch ∧ lun' = lun) →
        (s₁.setLun ch lun fun l => { l with firstIo := true }).lun ch' lun' = s.lun ch' lun' := by
    intro s₁ hlun hck hevents
    refine ⟨hck, hevents, ?_, fun ch' lun' hne => ?_⟩
    · rw [setLun_self]
    · rw [setLun_of_ne _ hne, hlun]
  unfold noteDelay
  by_cases hfirst : (s.lun ch lun).firstIo = false
  · rw [if_pos ⟨hck, hfirst⟩]
    dsimp only
    split_ifs
    · exact hset _ rfl hck rfl
    · exact hset _ rfl hck rfl
  · rw [if_neg fun h => hfirst h.2]
    exact ⟨hck, rfl, by simpa using hfirst, fun _ _ _ => rfl⟩

/-- **What a read on a die does** where the delays are measured. -/
structure Reads (s : SsdTimes) (cmd : NandCmd) (arrive : ℤ) (s' : SsdTimes) (arrive' : ℤ)
    (e : NandEvent) : Prop where
  events : s'.events = s.events ++ [e]
  ch : e.ch = cmd.ppa.ch
  lun : e.lun = cmd.ppa.lun
  cmdStime : cmd.stime ≠ 0 → e.cmdStime = cmd.stime
  nandStime : e.nandStime = max (s.availTime e.ch e.lun) e.cmdStime
  checking : s'.checking = true
  first : (s'.lun e.ch e.lun).firstIo = true
  others : ∀ ch lun, ¬ (ch = e.ch ∧ lun = e.lun) → s'.lun ch lun = s.lun ch lun
  arrive : arrive' = if (s.lun e.ch e.lun).firstIo = false then
      noted arrive (u64 (e.nandStime + 2 ^ 64 - e.cmdStime)) else arrive

theorem advanceNand_reads (hop : cmd.cmd = .read) (hmapped : mappedPpa cmd.ppa)
    (hck : s.checking = true) {arrive arrive' : ℤ} {t : ℕ}
    (h : s.advanceNand p clock cmd arrive = .ok (s', arrive', t)) :
    (cmd.ppa.ch < p.nchs ∧ cmd.ppa.lun < p.lunsPerCh) ∧ ∃ e, Reads s cmd arrive s' arrive' e := by
  unfold advanceNand at h
  dsimp only at h
  rw [if_neg (not_not_intro hmapped)] at h
  obtain ⟨_, hdef, h⟩ := bind_eq_ok.1 h
  obtain ⟨hch, hlun, -⟩ := defined_eq_ok.1 hdef
  refine ⟨⟨hch, hlun⟩, ?_⟩
  have hstart : Still s (s.startTime clock cmd).1 := still_startTime
  unfold advanceDie at h
  rw [hop] at h
  obtain ⟨latency, -, h⟩ := bind_eq_ok.1 h
  obtain ⟨_, -, h⟩ := bind_eq_ok.1 h
  obtain ⟨⟨s₃, etime, done⟩, hread, h⟩ := bind_eq_ok.1 h
  cases h
  set s₁ := (s.startTime clock cmd).1
  set stime := (s.startTime clock cmd).2 with hstime
  set nand := max (s₁.lun cmd.ppa.ch cmd.ppa.lun).nextLunAvailTime stime with hnand
  have hck₁ : s₁.checking = true := hstart.checking.trans hck
  obtain ⟨hck₂, hevents₂, hfirst₂, hothers₂⟩ :=
    noteDelay_fst hck₁ cmd.ppa.ch cmd.ppa.lun stime nand arrive
  have hnoted := noteDelay_snd hck₁ cmd.ppa.ch cmd.ppa.lun stime nand arrive
  obtain ⟨hluns₃, hevents₃, hck₃, -⟩ := (readTransfer_spec hread).1
  have hluns₃ : s₃.lun = (s₁.noteDelay cmd.ppa.ch cmd.ppa.lun stime nand arrive).1.lun := hluns₃
  have hevents := hevents₃.trans (hevents₂.trans hstart.events)
  refine ⟨_, {
    events := congrArg (· ++ [_]) hevents, ch := rfl, lun := rfl, cmdStime := fun h => ?_, nandStime := ?_, checking := ?_
    first := ?_, others := fun ch lun hne => ?_, arrive := ?_ }⟩
  · show (s.startTime clock cmd).2 = _
    unfold startTime
    rw [if_neg h]
  · dsimp only
    rw [hnand, hstart.lun]
    rfl
  · exact hck₃.trans hck₂
  · dsimp only
    unfold release
    dsimp only
    rw [setLun_self, hluns₃]
    exact hfirst₂
  · unfold release
    dsimp only
    rw [setLun_of_ne _ hne, hluns₃, hothers₂ ch lun hne, hstart.lun]
  · dsimp only
    rw [hnoted, hstart.lun]

end SsdTimes

/-! ### The delays of a command -/

/-- The dies a command has read from, and the delay of the first read on each. -/
structure Touches where
  dies : List (ℕ × ℕ)
  delays : List ℕ
  deriving DecidableEq, Repr

/-- A read on a die counts if it is the first one. -/
def Touches.touch (a : Touches) (e : NandEvent) : Touches :=
  if (e.ch, e.lun) ∈ a.dies then a
  else ⟨(e.ch, e.lun) :: a.dies, (e.nandStime - e.cmdStime) :: a.delays⟩

/-- The dies of the commands recorded. -/
def touches (es : List NandEvent) : Touches := es.foldl Touches.touch ⟨[], []⟩

theorem touches_append (es : List NandEvent) (e : NandEvent) :
    touches (es ++ [e]) = (touches es).touch e := by
  unfold touches
  rw [List.foldl_append]
  rfl

theorem mem_dies_touch (a : Touches) (e : NandEvent) (die : ℕ × ℕ) :
    die ∈ (a.touch e).dies ↔ die ∈ a.dies ∨ die = (e.ch, e.lun) := by
  unfold Touches.touch
  split_ifs with hmem
  · refine ⟨.inl, fun h => ?_⟩
    rcases h with h | rfl
    · exact h
    · exact hmem
  · rw [List.mem_cons, or_comm]

theorem mem_delays_touch (a : Touches) (e : NandEvent) (d : ℕ) :
    d ∈ (a.touch e).delays ↔
      d ∈ a.delays ∨ (e.ch, e.lun) ∉ a.dies ∧ d = e.nandStime - e.cmdStime := by
  unfold Touches.touch
  split_ifs with hmem
  · rw [iff_comm, or_iff_left fun h => h.1 hmem]
  · rw [List.mem_cons, or_comm, and_iff_right hmem]

/-- A smallest delay, `-1` if there is none. -/
def LeastDelay (arrive : ℤ) (D : ℕ → Prop) : Prop :=
  (arrive = -1 ∧ ∀ d, ¬ D d) ∨ ∃ d : ℕ, arrive = d ∧ D d ∧ ∀ d', D d' → d ≤ d'

/-- **One more delay** is noted if it is the smallest. -/
theorem LeastDelay.note {arrive : ℤ} {D D' : ℕ → Prop} {delay : ℕ} (h : LeastDelay arrive D)
    (hlt : delay < 2 ^ 63) (hD : ∀ d, D' d ↔ D d ∨ d = delay) :
    LeastDelay (SsdTimes.noted arrive delay) D' := by
  have hint : toInt64 delay = delay := if_pos hlt
  refine .inr ?_
  unfold SsdTimes.noted
  rcases h with ⟨rfl, hnone⟩ | ⟨d, rfl, hd, hmin⟩
  · refine ⟨delay, ?_, (hD delay).2 (.inr rfl), fun d' hd' => ?_⟩
    · rw [if_pos (.inl (by decide)), hint]
    · exact (((hD d').1 hd').resolve_left (hnone d')).ge
  · by_cases hless : delay < d
    · refine ⟨delay, ?_, (hD delay).2 (.inr rfl), fun d' hd' => ?_⟩
      · rw [if_pos (.inr (by rwa [Int.toNat_natCast])), hint]
      · rcases (hD d').1 hd' with hd' | rfl
        · exact hless.le.trans (hmin d' hd')
        · exact le_rfl
    · refine ⟨d, ?_, (hD d).2 (.inl hd), fun d' hd' => ?_⟩
      · rw [if_neg]
        rintro (hneg | hlt)
        · exact absurd hneg (not_lt.2 (Int.natCast_nonneg d))
        · exact hless (by rwa [Int.toNat_natCast] at hlt)
      · rcases (hD d').1 hd' with hd' | rfl
        · exact hmin d' hd'
        · exact not_lt.1 hless

namespace NsTimes

variable {p : NandLatencies} {clock : ℕ → ℕ} {t₀ t : NsTimes} {n stime q : ℕ} {arrive : ℤ}

/-- What the commands of an instance have done since. -/
def newEvents (t₀ t : NsTimes) (q : ℕ) : List NandEvent :=
  (t.ssd q).events.drop (t₀.ssd q).events.length

/-- The delays of the dies first read from in between, over all instances. -/
def readDelays (n : ℕ) (t₀ t : NsTimes) : List ℕ :=
  (List.range n).flatMap fun q => (touches (newEvents t₀ t q)).delays

/-- The smallest of them, 0 if there is none. -/
def smallestDelay (n : ℕ) (t₀ t : NsTimes) : ℕ := (readDelays n t₀ t).min?.getD 0

theorem mem_readDelays {d : ℕ} :
    d ∈ readDelays n t₀ t ↔ ∃ q < n, d ∈ (touches (newEvents t₀ t q)).delays := by
  simp [readDelays]

/-- **The statistics within a command:** `first_io` marks the dies read from, and `arrive_time` is
the smallest of their delays. -/
structure Measured (p : NandLatencies) (n stime : ℕ) (t₀ t : NsTimes) (arrive : ℤ) : Prop where
  events : ∀ q, (t₀.ssd q).events <+: (t.ssd q).events
  checking : ∀ q < n, (t.ssd q).checking = true
  wait : t.queueingWait = t₀.queueingWait
  first : ∀ q < n, ∀ ch < p.nchs, ∀ lun < p.lunsPerCh,
    ((t.ssd q).lun ch lun).firstIo = true ↔ (ch, lun) ∈ (touches (newEvents t₀ t q)).dies
  untouched : ∀ q < n, ∀ ch lun, (ch, lun) ∉ (touches (newEvents t₀ t q)).dies →
    (t.ssd q).availTime ch lun = (t₀.ssd q).availTime ch lun
  bound : ∀ q < n, ∀ ch lun, (ch, lun) ∈ (touches (newEvents t₀ t q)).dies →
    ∃ d ∈ (touches (newEvents t₀ t q)).delays, d ≤ (t₀.ssd q).availTime ch lun - stime
  least : LeastDelay arrive fun d => d ∈ readDelays n t₀ t

/-- **A command starts** with no die marked. -/
theorem measured_reset (p : NandLatencies) (stime : ℕ) (hck : ∀ q < n, (t.ssd q).checking = true) :
    Measured p n stime t (t.resetFirstIo p n) (-1) := by
  have hssd : ∀ q, ((t.resetFirstIo p n).ssd q).events = (t.ssd q).events ∧
      ((t.resetFirstIo p n).ssd q).checking = (t.ssd q).checking ∧
      ∀ ch lun, ((t.resetFirstIo p n).ssd q).availTime ch lun = (t.ssd q).availTime ch lun := by
    intro q
    unfold resetFirstIo
    dsimp only
    split_ifs
    · refine ⟨rfl, rfl, fun ch lun => ?_⟩
      unfold SsdTimes.availTime
      dsimp only
      split_ifs <;> rfl
    · exact ⟨rfl, rfl, fun _ _ => rfl⟩
  have hnew : ∀ q, newEvents t (t.resetFirstIo p n) q = [] := by
    intro q
    unfold newEvents
    rw [(hssd q).1, List.drop_length]
  refine ⟨fun q => ?_, fun q hq => ?_, rfl, fun q hq ch hch lun hlun => ?_, fun q _ ch lun _ =>
    (hssd q).2.2 ch lun, fun q _ ch lun hmem => ?_, .inl ⟨rfl, fun d hd => ?_⟩⟩
  · rw [(hssd q).1]
  · rw [(hssd q).2.1, hck q hq]
  · rw [hnew]
    refine iff_of_false ?_ List.not_mem_nil
    unfold resetFirstIo
    simp [hq, hch, hlun]
  · rw [hnew] at hmem
    exact absurd hmem List.not_mem_nil
  · obtain ⟨q, -, hd⟩ := mem_readDelays.1 hd
    rw [hnew] at hd
    exact absurd hd List.not_mem_nil

/-- **A NAND read of the command.** -/
theorem Measured.read (h : Measured p n stime t₀ t arrive) {r : NandRead} (hq : r.part < n)
    (hmapped : mappedPpa r.ppa)
    (hlt : (t₀.ssd r.part).availTime r.ppa.ch r.ppa.lun - stime < 2 ^ 63) {s : SsdTimes}
    {arrive' : ℤ} {done : ℕ}
    (hr : (t.lend r.part).advanceNand p clock (srd stime r) arrive = .ok (s, arrive', done)) :
    Measured p n stime t₀ (t.put r.part s) arrive' ∧
      (r.ppa.ch, r.ppa.lun) ∈ (touches (newEvents t₀ (t.put r.part s) r.part)).dies ∧
      ∀ q die, die ∈ (touches (newEvents t₀ t q)).dies →
        die ∈ (touches (newEvents t₀ (t.put r.part s) q)).dies := by
  have hck : (t.lend r.part).checking = true := h.checking r.part hq
  have hop : (srd stime r).cmd = .read := rfl
  have hppa : mappedPpa (srd stime r).ppa := hmapped
  obtain ⟨⟨hch, hlun⟩, e, he⟩ := SsdTimes.advanceNand_reads hop hppa hck hr
  have hdie : (e.ch, e.lun) = (r.ppa.ch, r.ppa.lun) := Prod.ext he.ch he.lun
  have hself : (t.put r.part s).ssd r.part = s := Function.update_self ..
  have hother : ∀ q, q ≠ r.part → (t.put r.part s).ssd q = t.ssd q := fun q hne =>
    Function.update_of_ne hne ..
  have hevents : s.events = (t.ssd r.part).events ++ [e] := he.events
  have htself : touches (newEvents t₀ (t.put r.part s) r.part)
      = (touches (newEvents t₀ t r.part)).touch e := by
    rw [← touches_append]
    unfold newEvents
    rw [hself, hevents, List.drop_append_of_le_length (h.events r.part).length_le]
  have htother : ∀ q, q ≠ r.part →
      newEvents t₀ (t.put r.part s) q = newEvents t₀ t q := by
    intro q hne
    unfold newEvents
    rw [hother q hne]
  -- what the first read on the die adds
  have hdelay : (e.ch, e.lun) ∉ (touches (newEvents t₀ t r.part)).dies →
      e.nandStime - e.cmdStime ≤ (t₀.ssd r.part).availTime r.ppa.ch r.ppa.lun - stime := by
    intro hnot
    have havail : (t.ssd r.part).availTime e.ch e.lun
        = (t₀.ssd r.part).availTime r.ppa.ch r.ppa.lun := by
      rw [h.untouched _ hq _ _ hnot, he.ch, he.lun]
      rfl
    have hnand : e.nandStime = max ((t.ssd r.part).availTime e.ch e.lun) e.cmdStime := he.nandStime
    have hstime : stime ≠ 0 → e.cmdStime = stime := he.cmdStime
    rw [hnand, havail]
    omega
  refine ⟨⟨fun q => ?_, fun q hq' => ?_, h.wait, fun q hq' ch hch' lun hlun' => ?_,
    fun q hq' ch lun hnot => ?_, fun q hq' ch lun hmem => ?_, ?_⟩, ?_, fun q die hmem => ?_⟩
  · by_cases hqr : q = r.part
    · subst hqr
      rw [hself, hevents]
      exact (h.events r.part).trans (List.prefix_append _ _)
    · rw [hother q hqr]
      exact h.events q
  · by_cases hqr : q = r.part
    · subst hqr
      rw [hself]
      exact he.checking
    · rw [hother q hqr]
      exact h.checking q hq'
  · by_cases hqr : q = r.part
    · subst hqr
      rw [hself, htself, mem_dies_touch]
      by_cases hd : ch = e.ch ∧ lun = e.lun
      · obtain ⟨rfl, rfl⟩ := hd
        exact iff_of_true he.first (.inr rfl)
      · rw [he.others ch lun hd, or_iff_left fun heq => hd (Prod.mk.inj heq)]
        exact h.first r.part hq ch hch' lun hlun'
    · rw [hother q hqr, htother q hqr]
      exact h.first q hq' ch hch' lun hlun'
  · by_cases hqr : q = r.part
    · subst hqr
      rw [htself, mem_dies_touch, not_or] at hnot
      have hd : ¬ (ch = e.ch ∧ lun = e.lun) := fun hd => hnot.2 (Prod.ext hd.1 hd.2)
      rw [hself]
      exact (congrArg NandLun.nextLunAvailTime (he.others ch lun hd)).trans
        (h.untouched r.part hq ch lun hnot.1)
    · rw [htother q hqr] at hnot
      rw [hother q hqr]
      exact h.untouched q hq' ch lun hnot
  · by_cases hqr : q = r.part
    · subst hqr
      rw [htself, mem_dies_touch] at hmem
      rw [htself]
      by_cases hold : (ch, lun) ∈ (touches (newEvents t₀ t r.part)).dies
      · obtain ⟨d, hd, hle⟩ := h.bound r.part hq ch lun hold
        exact ⟨d, (mem_delays_touch _ _ _).2 (.inl hd), hle⟩
      · have heq := hmem.resolve_left hold
        rw [heq] at hold
        obtain ⟨rfl, rfl⟩ := Prod.mk.inj (heq.trans hdie)
        exact ⟨_, (mem_delays_touch _ _ _).2 (.inr ⟨hold, rfl⟩), hdelay hold⟩
    · rw [htother q hqr] at hmem ⊢
      exact h.bound q hq' ch lun hmem
  · have hfirst : ((t.ssd r.part).lun e.ch e.lun).firstIo = true ↔
        (e.ch, e.lun) ∈ (touches (newEvents t₀ t r.part)).dies :=
      h.first r.part hq e.ch (he.ch ▸ hch) e.lun (he.lun ▸ hlun)
    have harrive : arrive' = if ((t.ssd r.part).lun e.ch e.lun).firstIo = false then
        SsdTimes.noted arrive (u64 (e.nandStime + 2 ^ 64 - e.cmdStime)) else arrive := he.arrive
    have hmem : ∀ d, d ∈ readDelays n t₀ (t.put r.part s) ↔ d ∈ readDelays n t₀ t ∨
        (e.ch, e.lun) ∉ (touches (newEvents t₀ t r.part)).dies ∧
          d = e.nandStime - e.cmdStime := by
      intro d
      rw [mem_readDelays, mem_readDelays]
      constructor
      · rintro ⟨q, hq', hd⟩
        by_cases hqr : q = r.part
        · subst hqr
          rw [htself, mem_delays_touch] at hd
          exact hd.imp_left fun hd => ⟨r.part, hq, hd⟩
        · rw [htother q hqr] at hd
          exact .inl ⟨q, hq', hd⟩
      · rintro (⟨q, hq', hd⟩ | hnew)
        · refine ⟨q, hq', ?_⟩
          by_cases hqr : q = r.part
          · subst hqr
            rw [htself, mem_delays_touch]
            exact .inl hd
          · rw [htother q hqr]
            exact hd
        · refine ⟨r.part, hq, ?_⟩
          rw [htself, mem_delays_touch]
          exact .inr hnew
    by_cases hold : (e.ch, e.lun) ∈ (touches (newEvents t₀ t r.part)).dies
    · rw [harrive, if_neg (by rw [hfirst.2 hold]; decide)]
      have heq : (fun d => d ∈ readDelays n t₀ (t.put r.part s)) = fun d => d ∈ readDelays n t₀ t :=
        funext fun d => propext ((hmem d).trans (or_iff_left fun hd => hd.1 hold))
      rw [heq]
      exact h.least
    · have hfalse : ((t.ssd r.part).lun e.ch e.lun).firstIo = false :=
        Bool.eq_false_iff.2 fun htrue => hold (hfirst.1 htrue)
      have hlt' := lt_of_le_of_lt (hdelay hold) hlt
      have hle : e.cmdStime ≤ e.nandStime := by
        rw [he.nandStime]
        exact le_max_right _ _
      have hu : u64 (e.nandStime + 2 ^ 64 - e.cmdStime) = e.nandStime - e.cmdStime := by
        unfold u64
        omega
      rw [harrive, if_pos hfalse, hu]
      exact h.least.note hlt' fun d => (hmem d).trans (or_congr_right (and_iff_right hold))
  · rw [htself, mem_dies_touch]
    exact .inr hdie.symm
  · by_cases hqr : q = r.part
    · subst hqr
      rw [htself, mem_dies_touch]
      exact .inl hmem
    · rw [htother q hqr]
      exact hmem

/-- **The NAND reads of a command**, in order. -/
theorem Measured.reads {rs : List NandRead} (h : Measured p n stime t₀ t arrive)
    (hrs : ∀ r ∈ rs, r.part < n ∧ mappedPpa r.ppa ∧
      (t₀.ssd r.part).availTime r.ppa.ch r.ppa.lun - stime < 2 ^ 63) {t' : NsTimes} {arrive' : ℤ}
    {latest latest' : ℕ} (hr : issueReads p clock stime rs t arrive latest
      = .ok (t', arrive', latest')) :
    Measured p n stime t₀ t' arrive' ∧
      (∀ r ∈ rs, (r.ppa.ch, r.ppa.lun) ∈ (touches (newEvents t₀ t' r.part)).dies) ∧
      ∀ q die, die ∈ (touches (newEvents t₀ t q)).dies →
        die ∈ (touches (newEvents t₀ t' q)).dies := by
  induction rs generalizing t arrive latest with
  | nil =>
    cases hr
    exact ⟨h, fun r hr => absurd hr List.not_mem_nil, fun _ _ hmem => hmem⟩
  | cons r rs ih =>
    obtain ⟨⟨s, arrive₁, done⟩, hread, hr⟩ := bind_eq_ok.1 hr
    obtain ⟨hq, hmapped, hlt⟩ := hrs r (by simp)
    obtain ⟨h₁, hdie, hgrow⟩ := h.read hq hmapped hlt hread
    obtain ⟨h', hdies, hgrow'⟩ := ih h₁ (fun r' hr' => hrs r' (List.mem_cons_of_mem r hr')) hr
    refine ⟨h', fun r' hr' => ?_, fun q die hmem => hgrow' q die (hgrow q die hmem)⟩
    rcases List.mem_cons.1 hr' with rfl | hr'
    · exact hgrow' _ _ hdie
    · exact hdies r' hr'

/-- As long as `arrive_time` is not set there is no delay. -/
theorem Measured.smallestDelay_zero (h : Measured p n stime t₀ t (-1)) :
    NsTimes.smallestDelay n t₀ t = 0 := by
  rcases h.least with ⟨-, hnone⟩ | ⟨d, hneg, -⟩
  · unfold NsTimes.smallestDelay
    rw [List.eq_nil_iff_forall_not_mem.2 hnone]
    rfl
  · omega

/-- The smallest delay is the one in `arrive_time`. -/
theorem Measured.smallestDelay (h : Measured p n stime t₀ t arrive)
    (hsome : readDelays n t₀ t ≠ []) : arrive = NsTimes.smallestDelay n t₀ t := by
  obtain ⟨d₀, hd₀⟩ := List.exists_mem_of_ne_nil _ hsome
  obtain ⟨d, rfl, hd, hmin⟩ := h.least.resolve_left fun hnone => hnone.2 d₀ hd₀
  unfold NsTimes.smallestDelay
  rw [List.min?_eq_some_iff.2 ⟨hd, hmin⟩]
  rfl

/-- The channels of all instances, and PCIe, are in order. -/
def Ready (t : NsTimes) : Prop := ∀ q, (t.lend q).Ready

theorem Ready.put (h : t.Ready) {s : SsdTimes} (hs : s.Ready) (q : ℕ) : (t.put q s).Ready := by
  intro q'
  refine ⟨fun c => ?_, hs.pcie⟩
  show 0 < ((Function.update t.ssd q s q').perfModel c).maxCredits ∧
    ((Function.update t.ssd q s q').perfModel c).Keeps
      ((Function.update t.ssd q s q').perfModel c)
  by_cases hq : q' = q
  · rw [hq, Function.update_self]
    exact hs.channel c
  · rw [Function.update_of_ne hq]
    exact (h q').channel c

/-- The NAND reads of a command return. -/
theorem Ready.issueReads {rs : List NandRead} (h : t.Ready) (clock : ℕ → ℕ) (stime : ℕ)
    (hmax : 0 < p.maxChXferSize) (hpgs : 0 < p.pgsPerFlashpg) (hcells : p.cellMode ≤ cellModeMlc)
    (hrs : ∀ r ∈ rs, 0 < r.xferSize ∧ r.ppa.ch < p.nchs ∧ r.ppa.lun < p.lunsPerCh) (arrive : ℤ)
    (latest : ℕ) :
    ∃ t' arrive' latest', NsTimes.issueReads p clock stime rs t arrive latest
      = .ok (t', arrive', latest') ∧ t'.Ready := by
  induction rs generalizing t arrive latest with
  | nil => exact ⟨t, arrive, latest, rfl, h⟩
  | cons r rs ih =>
    obtain ⟨hsize, hdie⟩ := hrs r (by simp)
    obtain ⟨s, arrive₁, done, hread, hs⟩ := (h r.part).advanceNand clock hmax hpgs
      (⟨fun _ => hdie, fun _ => hsize⟩ : SsdTimes.Addressed p (srd stime r))
      (SsdTimes.inCells_of_mlc hcells _) arrive
    obtain ⟨t', arrive', latest', hrest, h'⟩ := ih (h.put hs r.part)
      (fun r' hr' => hrs r' (List.mem_cons_of_mem r hr')) arrive₁ (max done latest)
    exact ⟨t', arrive', latest', bind_eq_ok.2 ⟨(s, arrive₁, done), hread, hrest⟩, h'⟩

theorem Ready.resetFirstIo (h : t.Ready) (p : NandLatencies) (n : ℕ) :
    (t.resetFirstIo p n).Ready := by
  intro q
  refine ⟨fun c => ?_, (h q).pcie⟩
  unfold lend NsTimes.resetFirstIo
  dsimp only
  split_ifs <;> exact (h q).channel c

end NsTimes

namespace ConvNs

variable {ns : ConvNs} {lat : ReadLatencies} {clock : ℕ → ℕ} {t : NsTimes}

/-- A read of the host: its first block, its zero-based number of blocks and `nsecs_start`. -/
structure TimedRead where
  slba : ℕ
  length : ℕ
  nsecsStart : ℕ
  deriving DecidableEq, Repr

/-- A read. -/
def timedStep (ns : ConvNs) (lat : ReadLatencies) (clock : ℕ → ℕ) (t : NsTimes) (r : TimedRead) :
    Except Fault NsTimes := do
  let (t, _) ← ns.convReadTimed lat clock t r.slba r.length r.nsecsStart
  .ok t

/-- The time for which the die of a page is not yet available to a read. -/
def dieDelay (ns : ConvNs) (lat : ReadLatencies) (t : NsTimes) (r : TimedRead) (lpn : ℕ) : ℕ :=
  (t.ssd (lpn % ns.nrParts)).availTime (ns.entry lpn).ch (ns.entry lpn).lun -
    ns.readStime lat r.length r.nsecsStart

/-- **A read counts:** it is refused, or one of its pages is mapped and its delay leaves the
statistic in 64 bits; and all the delays are positive as an `int64_t`. -/
def Counts (ns : ConvNs) (lat : ReadLatencies) (t : NsTimes) (r : TimedRead) : Prop :=
  ns.inFtlRange r.slba r.length →
    (∃ lpn ∈ ns.mappedOf r.slba r.length, t.queueingWait + ns.dieDelay lat t r lpn < 2 ^ 64) ∧
    ∀ lpn ∈ ns.mappedOf r.slba r.length, ns.dieDelay lat t r lpn < 2 ^ 63

instance (r : TimedRead) : Decidable (ns.Counts lat t r) := inferInstanceAs (Decidable (_ → _))

/-- A NAND read goes to the die of a mapped page. -/
theorem ReadCoverage.page {slba length : ℕ} {reads : List NandRead}
    (h : ns.ReadCoverage slba length reads) {r : NandRead} (hr : r ∈ reads) :
    ∃ lpn ∈ ns.mappedOf slba length, r.part = lpn % ns.nrParts ∧
      r.ppa.ch = (ns.entry lpn).ch ∧ r.ppa.lun = (ns.entry lpn).lun := by
  obtain ⟨bs, hreads, hbs, -, hmem⟩ := h.batches
  rw [hreads] at hr
  obtain ⟨b, hb, rfl⟩ := List.mem_map.1 hr
  have hok := hbs b hb
  obtain ⟨lpn, hlpn⟩ := List.exists_mem_of_ne_nil _ hok.ne
  have hblk := (hok.page lpn hlpn).1
  exact ⟨lpn, (hmem lpn).1 (List.mem_flatMap.2 ⟨b, hb, hlpn⟩), (hok.part lpn hlpn).symm,
    (congrArg BlkAddr.ch hblk).symm, (congrArg BlkAddr.lun hblk).symm⟩

/-- The die of a mapped page is read from. -/
theorem ReadCoverage.read {slba length lpn : ℕ} {reads : List NandRead}
    (h : ns.ReadCoverage slba length reads) (hlpn : lpn ∈ ns.mappedOf slba length) :
    ∃ r ∈ reads, r.part = lpn % ns.nrParts ∧
      r.ppa.ch = (ns.entry lpn).ch ∧ r.ppa.lun = (ns.entry lpn).lun := by
  obtain ⟨bs, hreads, hbs, -, hmem⟩ := h.batches
  obtain ⟨b, hb, hl⟩ := List.mem_flatMap.1 ((hmem lpn).2 hlpn)
  have hok := hbs b hb
  have hblk := (hok.page lpn hl).1
  refine ⟨b.read, ?_, (hok.part lpn hl).symm, (congrArg BlkAddr.ch hblk).symm,
    (congrArg BlkAddr.lun hblk).symm⟩
  rw [hreads]
  exact List.mem_map_of_mem hb

/-- The state the statistic is measured in. -/
structure Measuring (ns : ConvNs) (t : NsTimes) : Prop where
  inv : ns.Inv
  secs : ns.sp.secsPerPg = 8
  page : ns.sp.pgsz = 4096
  checking : ∀ q < ns.nrParts, (t.ssd q).checking = true

/-- A read that is refused touches no die. -/
theorem Measuring.refused (h : ns.Measuring t) {r : TimedRead}
    (hr : ¬ ns.inFtlRange r.slba r.length) :
    ns.timedStep lat clock t r = .ok (t.resetFirstIo (ns.nand lat) ns.nrParts) := by
  have hnone : ns.convRead r.slba r.length = .ok none := by
    unfold convRead
    rw [defined_bind h.inv.parts_pos]
    dsimp only
    rw [if_pos hr]
    rfl
  unfold timedStep convReadTimed
  dsimp only
  rw [hnone]
  rfl

/-- A read that is served adds `arrive_time`. -/
theorem served_eq {r : TimedRead} {reads : List NandRead}
    (hok : ns.convRead r.slba r.length = .ok (some reads)) {t' : NsTimes}
    (hstep : ns.timedStep lat clock t r = .ok t') :
    ∃ t₁ arrive latest, NsTimes.issueReads (ns.nand lat) clock
        (ns.readStime lat r.length r.nsecsStart) reads
        (t.resetFirstIo (ns.nand lat) ns.nrParts) (-1) r.nsecsStart = .ok (t₁, arrive, latest) ∧
      t' = { t₁ with queueingWait := addInt64 t₁.queueingWait arrive } := by
  unfold timedStep convReadTimed at hstep
  dsimp only at hstep
  rw [hok, ok_bind] at hstep
  obtain ⟨⟨t₂, res⟩, hread, heq⟩ := bind_eq_ok.1 hstep
  cases heq
  obtain ⟨⟨t₁, arrive, latest⟩, hissue, heq⟩ := bind_eq_ok.1 hread
  cases heq
  exact ⟨t₁, arrive, latest, hissue, rfl⟩

/-- A natural number added in 64 bits. -/
theorem addInt64_natCast {a b : ℕ} (h : a + b < 2 ^ 64) : addInt64 a b = a + b := by
  unfold addInt64
  omega

/-- **The statistic of a read** is the smallest delay of its dies. -/
theorem Measuring.step (h : ns.Measuring t) {r : TimedRead} (hc : ns.Counts lat t r)
    {t' : NsTimes} (hstep : ns.timedStep lat clock t r = .ok t') :
    ns.Measuring t' ∧ t'.queueingWait = t.queueingWait + NsTimes.smallestDelay ns.nrParts t t' := by
  have hreset := NsTimes.measured_reset (ns.nand lat)
    (ns.readStime lat r.length r.nsecsStart) h.checking
  by_cases hr : ns.inFtlRange r.slba r.length
  swap
  · rw [h.refused hr] at hstep
    cases hstep
    refine ⟨⟨h.inv, h.secs, h.page, hreset.checking⟩, ?_⟩
    rw [hreset.smallestDelay_zero]
    rfl
  obtain ⟨⟨lpn, hlpn, hfits⟩, hsmall⟩ := hc hr
  obtain ⟨reads, hok, hcov⟩ := h.inv.readCoverage h.secs h.page hr
  obtain ⟨t₁, arrive, latest, hissue, rfl⟩ := served_eq hok hstep
  have hrs : ∀ r' ∈ reads, r'.part < ns.nrParts ∧ mappedPpa r'.ppa ∧
      (t.ssd r'.part).availTime r'.ppa.ch r'.ppa.lun - ns.readStime lat r.length r.nsecsStart
        < 2 ^ 63 := by
    intro r' hr'
    obtain ⟨lpn', hlpn', hpart, hch, hlun⟩ := hcov.page hr'
    refine ⟨?_, (hcov.issued r' hr').2, ?_⟩
    · rw [hpart]
      exact Nat.mod_lt _ h.inv.parts_pos
    · rw [hpart, hch, hlun]
      exact hsmall lpn' hlpn'
  obtain ⟨hm, hdies, -⟩ := hreset.reads hrs hissue
  obtain ⟨r', hr', hpart, hch, hlun⟩ := hcov.read hlpn
  obtain ⟨d, hd, hle⟩ := hm.bound r'.part (hrs r' hr').1 _ _ (hdies r' hr')
  have hmem : d ∈ NsTimes.readDelays ns.nrParts t t₁ :=
    NsTimes.mem_readDelays.2 ⟨r'.part, (hrs r' hr').1, hd⟩
  have harrive := hm.smallestDelay (List.ne_nil_of_mem hmem)
  have hleast : NsTimes.smallestDelay ns.nrParts t t₁ ≤ d := by
    obtain ⟨d', hd', -, hmin⟩ := hm.least.resolve_left fun hnone => hnone.2 d hmem
    have := hmin d hmem
    omega
  have hdie : d ≤ ns.dieDelay lat t r lpn := by
    unfold dieDelay
    rw [← hpart, ← hch, ← hlun]
    exact hle
  refine ⟨⟨h.inv, h.secs, h.page, hm.checking⟩, ?_⟩
  show addInt64 t₁.queueingWait arrive = t.queueingWait + NsTimes.smallestDelay ns.nrParts t t₁
  rw [hm.wait, harrive, addInt64_natCast (by omega)]

/-- **A read of unmapped pages alone** takes one from the statistic. -/
theorem Measuring.untouched (h : ns.Measuring t) {r : TimedRead}
    (hr : ns.inFtlRange r.slba r.length) (hnone : ns.mappedOf r.slba r.length = ∅) {t' : NsTimes}
    (hstep : ns.timedStep lat clock t r = .ok t') :
    NsTimes.smallestDelay ns.nrParts t t' = 0 ∧
      t'.queueingWait = (t.queueingWait + (2 ^ 64 - 1)) % 2 ^ 64 := by
  obtain ⟨reads, hok, hcov⟩ := h.inv.readCoverage h.secs h.page hr
  have hreads : reads = [] := by
    refine List.eq_nil_iff_forall_not_mem.2 fun r' hr' => ?_
    obtain ⟨lpn, hlpn, -⟩ := hcov.page hr'
    rw [hnone] at hlpn
    exact absurd hlpn (Finset.notMem_empty lpn)
  subst hreads
  obtain ⟨t₁, arrive, latest, hissue, rfl⟩ := served_eq hok hstep
  cases hissue
  have hreset := NsTimes.measured_reset (ns.nand lat)
    (ns.readStime lat r.length r.nsecsStart) h.checking
  refine ⟨hreset.smallestDelay_zero, ?_⟩
  show addInt64 t.queueingWait (-1) = _
  unfold addInt64
  omega

/-! ### Runs -/

/-- What the statistic is to add up to: the smallest delays of the reads. -/
def waitSum (ns : ConvNs) (lat : ReadLatencies) (clock : ℕ → ℕ) : NsTimes → List TimedRead → ℕ
  | _, [] => 0
  | t, r :: rs =>
    match ns.timedStep lat clock t r with
    | .ok t' => NsTimes.smallestDelay ns.nrParts t t' + waitSum ns lat clock t' rs
    | .error _ => 0

/-- **The statistic of a run.** -/
theorem Measuring.run {rs : List TimedRead} (h : ns.Measuring t)
    (hc : Along (ns.timedStep lat clock) (ns.Counts lat) t rs) {t' : NsTimes}
    (hrun : runList (ns.timedStep lat clock) t rs = .ok t') :
    t'.queueingWait = t.queueingWait + ns.waitSum lat clock t rs := by
  induction rs generalizing t with
  | nil =>
    cases hrun
    rfl
  | cons r rs ih =>
    obtain ⟨t₁, hstep, hrest⟩ := bind_eq_ok.1 hrun
    obtain ⟨h₁, hwait⟩ := h.step hc.1 hstep
    rw [ih h₁ (hc.2 t₁ hstep) hrest, hwait, waitSum, hstep, Nat.add_assoc]

theorem Measuring.keep {rs : List TimedRead} (h : ns.Measuring t)
    (hc : Along (ns.timedStep lat clock) (ns.Counts lat) t rs) {t' : NsTimes}
    (hrun : runList (ns.timedStep lat clock) t rs = .ok t') : ns.Measuring t' := by
  refine (Ends.runList_along (E := fun _ => True) (I := ns.Measuring) (fun t r h hc => ?_) h
    hc).of_ok hrun
  refine (Ends.trivial (ns.timedStep lat clock t r)).with_eq.mono (fun t' ht' => ?_) fun _ h => h
  exact (h.step hc ht'.2).1

/-- **Every read returns.** -/
theorem Measuring.returns (h : ns.Measuring t) (ht : t.Ready) (hmax : 0 < lat.maxChXferSize)
    (hpgs : 0 < ns.sp.pgsPerFlashpg) (clock : ℕ → ℕ) (r : TimedRead) :
    ∃ t', ns.timedStep lat clock t r = .ok t' ∧ t'.Ready := by
  have hreset := ht.resetFirstIo (ns.nand lat) ns.nrParts
  by_cases hr : ns.inFtlRange r.slba r.length
  swap
  · exact ⟨_, h.refused hr, hreset⟩
  obtain ⟨reads, hok, hcov⟩ := h.inv.readCoverage h.secs h.page hr
  have hrs : ∀ r' ∈ reads, 0 < r'.xferSize ∧ r'.ppa.ch < (ns.nand lat).nchs ∧
      r'.ppa.lun < (ns.nand lat).lunsPerCh := by
    intro r' hr'
    obtain ⟨lpn, hlpn, -, hch, hlun⟩ := hcov.page hr'
    obtain ⟨hl, hm⟩ := Finset.mem_filter.1 hlpn
    have hvalid := h.inv.entry_valid hr (Finset.mem_Icc.1 hl).2 hm
    rw [hch, hlun]
    exact ⟨(hcov.issued r' hr').1, hvalid.1, hvalid.2.1⟩
  obtain ⟨t', arrive, latest, hissue, h'⟩ := hreset.issueReads (p := ns.nand lat) clock
    (ns.readStime lat r.length r.nsecsStart) hmax hpgs lat.cellMode_le hrs (-1) r.nsecsStart
  refine ⟨{ t' with queueingWait := addInt64 t'.queueingWait arrive }, ?_, h'⟩
  unfold timedStep convReadTimed
  dsimp only
  rw [hok, ok_bind]
  dsimp only
  rw [hissue]
  rfl

end ConvNs

/-- **The queueing statistic.**  A run of reads on any reachable mapping, after `checking` was set
and the statistic cleared, returns.  If all its reads count, the statistic is the sum of the
smallest delays all along the run, and it never goes down. -/
theorem convRead_queueingWait (size : ℕ) (cfg : FtlConfigs) {ns₀ ns : ConvNs}
    (hinit : convInitNamespace size cfg = .ok ns₀) (hfit : ns₀.sp.FitsPpa) (ops : List ConvOp)
    (hrun : runList ConvNs.exec ns₀ ops = .ok ns) (lat : ReadLatencies) (clock : ℕ → ℕ)
    (t : NsTimes) (hck : ∀ q < ns.nrParts, (t.ssd q).checking = true) (hwait : t.queueingWait = 0)
    (rs : List ConvNs.TimedRead) :
    (t.Ready → 0 < lat.maxChXferSize → 0 < ns.sp.pgsPerFlashpg →
      Along (ns.timedStep lat clock) (ns.Counts lat) t rs →
      ∃ t', runList (ns.timedStep lat clock) t rs = .ok t') ∧
    ∀ t', runList (ns.timedStep lat clock) t rs = .ok t' →
      Along (ns.timedStep lat clock) (ns.Counts lat) t rs →
      t'.queueingWait = ns.waitSum lat clock t rs ∧
      ∀ pre post t₁, rs = pre ++ post → runList (ns.timedStep lat clock) t pre = .ok t₁ →
        t₁.queueingWait = ns.waitSum lat clock t pre ∧ t₁.queueingWait ≤ t'.queueingWait := by
  have hk := ((convInitNamespace_inv hinit hfit).1.run ops).of_ok hrun
  obtain ⟨-, hsecs, hsz⟩ := ssdInitParams_sizes (convInitNamespace_params hinit)
  rw [← hk.sp] at hsecs hsz
  have h : ns.Measuring t := ⟨hk.inv, hsecs, hsz, hck⟩
  refine ⟨fun ht hmax hpgs hc => ?_, fun t' hrs hc => ⟨?_, ?_⟩⟩
  · obtain ⟨t', hok, -⟩ := Ends.exists_ok (Ends.runList_along
      (I := fun t => ns.Measuring t ∧ t.Ready) (fun t r hi hcount => by
        obtain ⟨t', hstep, ht'⟩ := hi.1.returns hi.2 hmax hpgs clock r
        rw [hstep]
        exact ⟨(hi.1.step hcount hstep).1, ht'⟩) ⟨h, ht⟩ hc)
    exact ⟨t', hok⟩
  · rw [h.run hc hrs, hwait, Nat.zero_add]
  · rintro pre post t₁ rfl hpre
    rw [runList_append, hpre] at hrs
    obtain ⟨hc₁, hc₂⟩ := along_append.1 hc
    have hpart := h.run hc₁ hpre
    refine ⟨by rw [hpart, hwait, Nat.zero_add], ?_⟩
    rw [(h.keep hc₁ hpre).run (hc₂ t₁ hpre) hrs]
    exact Nat.le_add_right _ _

/-- Latencies of a host read. -/
def twoDieReads : ReadLatencies :=
  { SsdTimes.twoDies with fw4kbRdLat := 20000, fwRdLat := 13000, cellMode_le := le_rfl }

/-- Dies that are busy for 50 µs when the measurement starts. -/
def busyDies : NsTimes where
  ssd := fun _ => { SsdTimes.idle with checking := true, lun := fun _ _ => ⟨50000, true⟩ }
  pcie := SsdTimes.unused
  clockReads := 0
  queueingWait := 0

/-- **A read of an unmapped page** as the first one wraps the statistic. -/
theorem unmappedRead_queueingWait : ∃ ns t', convInitNamespace tinySize tinyConfigs = .ok ns ∧
    runList (ns.timedStep twoDieReads fun n => n) busyDies [⟨0, 7, 1000⟩] = .ok t' ∧
    ns.waitSum twoDieReads (fun n => n) busyDies [⟨0, 7, 1000⟩] = 0 ∧
    t'.queueingWait = 2 ^ 64 - 1 := by
  obtain ⟨ns, hinit, hns⟩ := exists_ok_of_any (x := convInitNamespace tinySize tinyConfigs)
    (p := fun ns =>
      decide (ns.waitSum twoDieReads (fun n => n) busyDies [⟨0, 7, 1000⟩] = 0) &&
      (runList (ns.timedStep twoDieReads fun n => n) busyDies [⟨0, 7, 1000⟩]).toOption.any
        fun t' : NsTimes => decide (t'.queueingWait = 2 ^ 64 - 1)) (by decide +kernel)
  obtain ⟨hsum, hrun⟩ := Bool.and_eq_true_iff.1 hns
  obtain ⟨t', hrun, hwait⟩ := exists_ok_of_any hrun
  exact ⟨ns, t', hinit, hrun, of_decide_eq_true hsum, of_decide_eq_true hwait⟩

/-- Two reads of a page that is mapped. -/
theorem convRead_queueingWait_mapped : ∃ ns t',
    runList (ConvNs.timedStep ns twoDieReads fun n => n) busyDies [⟨0, 7, 1000⟩, ⟨0, 7, 2000⟩]
      = .ok t' ∧
    t'.queueingWait = ns.waitSum twoDieReads (fun n => n) busyDies [⟨0, 7, 1000⟩, ⟨0, 7, 2000⟩] := by
  have hready : busyDies.Ready := fun _ => ⟨SsdTimes.ready_idle.channel, SsdTimes.ready_idle.pcie⟩
  obtain ⟨ns₀, hinit, hns₀⟩ := exists_ok_of_any (x := convInitNamespace tinySize tinyConfigs)
    (p := fun ns₀ : ConvNs =>
      decide ((ns₀.sp.nchs ≤ 2 ^ 8 ∧ ns₀.sp.lunsPerCh ≤ 2 ^ 8) ∧
        ns₀.sp.blksPerPl ≤ 2 ^ 16 ∧ ns₀.sp.pgsPerBlk ≤ 2 ^ 16) &&
      (runList ConvNs.exec ns₀ [.write 0 7]).toOption.any fun ns : ConvNs =>
        decide (0 < ns.sp.pgsPerFlashpg) &&
        decide (Along (ns.timedStep twoDieReads fun n => n) (ns.Counts twoDieReads) busyDies
          [⟨0, 7, 1000⟩, ⟨0, 7, 2000⟩])) (by decide +kernel)
  obtain ⟨hfits, hns⟩ := Bool.and_eq_true_iff.1 hns₀
  obtain ⟨⟨hnchs, hluns⟩, hblks, hpgs⟩ := of_decide_eq_true hfits
  obtain ⟨ns, hrun, hns⟩ := exists_ok_of_any hns
  obtain ⟨hflash, hcounts⟩ := Bool.and_eq_true_iff.1 hns
  have hcounts := of_decide_eq_true hcounts
  obtain ⟨hreturns, hsum⟩ := convRead_queueingWait tinySize tinyConfigs hinit
    ⟨hnchs, hluns, hblks, hpgs⟩ [.write 0 7] hrun twoDieReads (fun n => n) busyDies
    (fun _ _ => rfl) rfl [⟨0, 7, 1000⟩, ⟨0, 7, 2000⟩]
  obtain ⟨t', hreads⟩ := hreturns hready (by decide) (of_decide_eq_true hflash) hcounts
  exact ⟨ns, t', hreads, (hsum t' hreads hcounts).1⟩

end NvmeVirt
