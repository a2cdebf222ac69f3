/-
# Longer transfers and their completion

`chmodel_request` of `channel_model.c` takes an estimate of the slots a transfer
fills from the slots it has moved on to.  Further units move on by a slot for
every `max_credits` of them at least, but the estimate, which rounds the units of
each transfer on its own, can grow by one slot more.  There a longer transfer
finishes before a shorter one, by less than one slot.
-/

import NvmeVirt.Ssd.CreditDelay

namespace NvmeVirt

open Outcome

namespace CreditWalk

variable {w v : CreditWalk} {head fuel k : ℕ}

/-- The walk takes from the entries only. -/
theorem loop_availCredits_le (i : ℕ) : (loop head fuel w).availCredits i ≤ w.availCredits i := by
  induction fuel generalizing w with
  | zero => exact le_rfl
  | succ fuel ih =>
    have htake : w.consume.availCredits i ≤ w.availCredits i := by
      show Function.update w.availCredits w.pos _ i ≤ _
      by_cases hi : i = w.pos
      · subst hi
        rw [Function.update_self]
        exact Nat.sub_le _ _
      · rw [Function.update_of_ne hi]
    unfold loop
    dsimp only
    split_ifs
    · exact ih.trans htake
    · exact htake
    · exact htake

/-- What the first `m` slots from slot `k` of the ring on pay for. -/
def paid (w : CreditWalk) (head k m : ℕ) : ℕ :=
  (Finset.range m).sum fun j => w.availCredits ((head + (k + j)) % nrCreditEntries)

theorem paid_mono {m n : ℕ} (h : m ≤ n) : w.paid head k m ≤ w.paid head k n :=
  Finset.sum_le_sum_of_subset (Finset.range_mono h)

/-- Further slots pay for no more than their credits. -/
theorem paid_add_le {max : ℕ} (hle : ∀ i < nrCreditEntries, w.availCredits i ≤ max) (m n : ℕ) :
    w.paid head k (m + n) ≤ w.paid head k m + n * max := by
  unfold paid
  rw [Finset.sum_range_add]
  refine Nat.add_le_add_left ((Finset.sum_le_card_nsmul (Finset.range n) _ max fun j _ =>
    hle _ (Nat.mod_lt _ (by decide))).trans_eq ?_) _
  rw [Finset.card_range, smul_eq_mul]

/-- **Where a walk ends:** at the first slot with which the slots from its start on pay for its
credits. -/
theorem loop_paid (hhead : head < nrCreditEntries) (hk : k < nrCreditEntries)
    (hfuel : nrCreditEntries ≤ fuel + k) (hpos : w.pos = (head + k) % nrCreditEntries)
    (hfits : w.remainingCredits ≤ w.paid head k (nrCreditEntries - k)) :
    ∃ m, (loop head fuel w).delay = w.delay + m ∧ k + m < nrCreditEntries ∧
      w.remainingCredits ≤ w.paid head k (m + 1) ∧
      (0 < m → w.paid head k m < w.remainingCredits) := by
  induction fuel generalizing w k with
  | zero => omega
  | succ fuel ih =>
    have hfirst : w.paid head k 1 = w.availCredits w.pos := by
      rw [hpos]
      exact Finset.sum_range_one _
    have hleft := remainingCredits_consume (w := w)
    have hnext : (w.pos + 1) % nrCreditEntries = (head + (k + 1)) % nrCreditEntries := by
      rw [hpos, Nat.mod_add_mod, Nat.add_assoc]
    by_cases hgo : w.consume.remainingCredits ≠ 0 ∧ (w.pos + 1) % nrCreditEntries ≠ head
    · have hk' : k + 1 < nrCreditEntries := by
        by_contra hend
        refine hgo.2 ?_
        rw [hnext, show k + 1 = nrCreditEntries by omega, Nat.add_mod_right, Nat.mod_eq_of_lt hhead]
      set v : CreditWalk := { w.consume with
        delay := w.delay + 1, pos := (w.pos + 1) % nrCreditEntries } with hv
      -- the slots behind the first one are as they were
      have hrest : ∀ m, k + 1 + m ≤ nrCreditEntries →
          w.paid head k (m + 1) = w.paid head k 1 + v.paid head (k + 1) m := by
        intro m hm
        unfold paid
        rw [Finset.sum_range_succ', Finset.sum_range_one, Nat.add_comm]
        refine congrArg _ (Finset.sum_congr rfl fun j hj => ?_)
        have hj := Finset.mem_range.1 hj
        show _ = Function.update w.availCredits w.pos _ _
        rw [Function.update_of_ne, Nat.add_right_comm k 1 j, Nat.add_assoc k j 1]
        rw [hpos]
        exact ring_ne (by omega) (by omega)
      have hvrem : v.remainingCredits = w.remainingCredits - w.paid head k 1 := by
        rw [hfirst]
        exact hleft
      have hroom : nrCreditEntries - k = nrCreditEntries - (k + 1) + 1 := by omega
      rw [hroom, hrest _ (by omega)] at hfits
      obtain ⟨m, hdelay, hlt, hle, hgt⟩ := ih hk' (by omega) (w := v) hnext (by omega)
      have hpos' := hgo.1
      rw [hleft, ← hfirst] at hpos'
      refine ⟨m + 1, ?_, by omega, ?_, fun _ => ?_⟩
      · rw [loop_moves hgo.1 hgo.2]
        exact hdelay.trans (by rw [hv]; dsimp only; omega)
      · rw [hrest _ (by omega)]
        omega
      · rw [hrest _ (by omega)]
        cases m with
        | zero =>
          show _ + 0 < _
          omega
        | succ m =>
          have := hgt (Nat.succ_pos m)
          omega
    · refine ⟨0, by rw [loop_ends hgo]; rfl, by omega, ?_, fun h => absurd h (lt_irrefl 0)⟩
      rw [Nat.zero_add]
      by_cases hzero : w.consume.remainingCredits = 0
      · rw [hleft] at hzero
        omega
      · -- the walk has come to the end of the ring
        have hend : (w.pos + 1) % nrCreditEntries = head := not_not.1 fun h => hgo ⟨hzero, h⟩
        have hlast : nrCreditEntries - k = 1 := by
          by_contra hne
          rw [hnext] at hend
          have hring : (head + (k + 1)) % nrCreditEntries ≠ (head + 0) % nrCreditEntries :=
            ring_ne (by omega) (Nat.succ_pos k)
          rw [hend, Nat.add_zero, Nat.mod_eq_of_lt hhead] at hring
          exact hring rfl
        rwa [hlast] at hfits

/-- **Further credits move on** by a slot for every `max` of them. -/
theorem div_le_of_paid {max m n a b : ℕ} (hle : ∀ i < nrCreditEntries, w.availCredits i ≤ max)
    (hab : a ≤ b) (ha : 0 < m → w.paid head k m < a) (hb : b ≤ w.paid head k (n + 1)) :
    m ≤ n ∧ (0 < m → (b - a) / max ≤ n - m) := by
  have hmn : m ≤ n := by
    by_contra hlt
    have hmono : w.paid head k (n + 1) ≤ w.paid head k m := w.paid_mono (by omega)
    have := ha (by omega)
    omega
  refine ⟨hmn, fun hm => ?_⟩
  have hgap : w.paid head k (m + (n - m + 1)) ≤ w.paid head k m + (n - m + 1) * max :=
    paid_add_le hle m (n - m + 1)
  rw [show m + (n - m + 1) = n + 1 by omega] at hgap
  have := ha hm
  have hlt : b - a < max * (n - m + 1) := by
    rw [Nat.mul_comm]
    omega
  exact Nat.lt_succ_iff.1 (Nat.div_lt_of_lt_mul hlt)

end CreditWalk

namespace ChannelModel

variable {ch ch' : ChannelModel} {call : ChannelCall} {t : ℕ}

/-- No entry of the ring holds more than the credits of a slot, cut to a byte. -/
def EntriesLe (ch : ChannelModel) : Prop :=
  ∀ i < nrCreditEntries, ch.availCredits i ≤ ch.maxCredits % 2 ^ 8

theorem EntriesLe.advance (h : ch.EntriesLe) (curTime : ℕ) : (ch.advance curTime).EntriesLe := by
  have hset : ∀ (avail : ℕ → ℕ) (first n i : ℕ), avail i ≤ ch.maxCredits % 2 ^ 8 →
      memsetCredits avail first ch.maxCredits n i ≤ ch.maxCredits % 2 ^ 8 := by
    intro avail first n i hi
    unfold memsetCredits
    split_ifs
    · exact le_rfl
    · exact hi
  intro i hi
  show ch.refilled (ch.curTimeOffs curTime) i ≤ ch.maxCredits % 2 ^ 8
  unfold refilled
  split_ifs
  · exact hset _ _ _ _ (hset _ _ _ _ (h i hi))
  · exact hset _ _ _ _ (h i hi)

/-- **A call keeps the entries bounded.** -/
theorem EntriesLe.request (h : ch.EntriesLe) {curTime requestTime length : ℕ}
    (hr : ch.chmodelRequest curTime requestTime length = .ok (ch', t)) : ch'.EntriesLe := by
  have hadv := h.advance curTime
  unfold chmodelRequest at hr
  dsimp only at hr
  obtain ⟨_, -, hr⟩ := bind_eq_ok.1 hr
  split_ifs at hr with hpast hfar
  · cases hr
    exact hadv
  · cases hr
    exact hadv
  · unfold ChannelModel.transfer at hr
    obtain ⟨_, -, hr⟩ := bind_eq_ok.1 hr
    cases hr
    exact fun i hi => (CreditWalk.loop_availCredits_le i).trans (hadv i hi)

/-- **A run keeps the entries bounded.** -/
theorem EntriesLe.run (h : ch.EntriesLe) {calls : List ChannelCall}
    (hrun : runList ChannelModel.step ch calls = .ok ch') : ch'.EntriesLe := by
  induction calls generalizing ch with
  | nil =>
    cases hrun
    exact h
  | cons call calls ih =>
    obtain ⟨ch₁, hstep, hrun⟩ := bind_eq_ok.1 hrun
    obtain ⟨⟨ch₂, t⟩, hreq, hstep⟩ := bind_eq_ok.1 hstep
    cases hstep
    exact ih (h.request hreq) hrun

theorem chmodelInit_entriesLe {avail : ℕ → ℕ} {bandwidth : ℕ}
    (hinit : chmodelInit avail bandwidth = .ok ch) : ch.EntriesLe := by
  unfold chmodelInit at hinit
  obtain ⟨_, -, hinit⟩ := bind_eq_ok.1 hinit
  cases hinit
  intro i hi
  dsimp only
  unfold memsetCredits
  rw [if_pos ⟨Nat.zero_le i, by omega⟩]

/-- The credits left in the ring from the slot of a request on. -/
def creditsLeft (ch : ChannelModel) (offs : ℕ) : ℕ :=
  (Finset.range (nrCreditEntries - offs)).sum fun k =>
    ch.availCredits ((ch.head + (offs + k)) % nrCreditEntries)

/-- **A request fits in the remaining ring:** the credits left from its slot on pay for its units. -/
def FitsRing (ch : ChannelModel) (call : ChannelCall) : Prop :=
  unitsOf call.length ≤
    (ch.advance call.curTime).creditsLeft (requestTimeOffs call.curTime call.requestTime)

/-- A request that fits has no more units than the ring has credits. -/
theorem FitsRing.units_le (h : ch.FitsRing call) (hle : ch.EntriesLe) :
    unitsOf call.length ≤ nrCreditEntries * (ch.maxCredits % 2 ^ 8) := by
  refine h.trans ?_
  have hterm := Finset.sum_le_card_nsmul
    (Finset.range (nrCreditEntries - requestTimeOffs call.curTime call.requestTime)) _
    (ch.maxCredits % 2 ^ 8)
    fun k _ => hle.advance call.curTime _ (Nat.mod_lt ((ch.advance call.curTime).head +
      (requestTimeOffs call.curTime call.requestTime + k)) (by decide))
  rw [Finset.card_range, smul_eq_mul] at hterm
  exact hterm.trans (Nat.mul_le_mul_right _ (Nat.sub_le _ _))

/-- Its units fit a 32-bit word. -/
theorem FitsRing.units_lt (h : ch.FitsRing call) (hle : ch.EntriesLe) :
    unitsOf call.length < 2 ^ 32 := by
  have hbyte : ch.maxCredits % 2 ^ 8 ≤ 255 := Nat.lt_succ_iff.1 (Nat.mod_lt _ (by norm_num))
  calc unitsOf call.length
      ≤ nrCreditEntries * (ch.maxCredits % 2 ^ 8) := h.units_le hle
    _ ≤ nrCreditEntries * 255 := Nat.mul_le_mul_left _ hbyte
    _ < 2 ^ 32 := by decide

/-- So does their time, where a slot of credits takes no more than a slot of time. -/
theorem FitsRing.xferLat_mul_lt (h : ch.FitsRing call) (hle : ch.EntriesLe)
    (hrate : ch.xferLat * ch.maxCredits ≤ 4000) : ch.xferLat * unitsOf call.length < 2 ^ 32 := by
  have hunits : unitsOf call.length ≤ nrCreditEntries * ch.maxCredits :=
    (h.units_le hle).trans (Nat.mul_le_mul_left _ (Nat.mod_le _ _))
  calc ch.xferLat * unitsOf call.length
      ≤ ch.xferLat * (nrCreditEntries * ch.maxCredits) := Nat.mul_le_mul_left _ hunits
    _ = nrCreditEntries * (ch.xferLat * ch.maxCredits) := by ring
    _ ≤ nrCreditEntries * 4000 := Nat.mul_le_mul_left _ hrate
    _ < 2 ^ 32 := by decide

/-- A request fits if one slot of the ring pays for it. -/
theorem fitsRing_of_slot {k : ℕ}
    (hk : k < nrCreditEntries - requestTimeOffs call.curTime call.requestTime)
    (h : unitsOf call.length ≤ (ch.advance call.curTime).availCredits
      (((ch.advance call.curTime).head + (requestTimeOffs call.curTime call.requestTime + k))
        % nrCreditEntries)) : ch.FitsRing call := by
  unfold FitsRing creditsLeft
  exact h.trans (Finset.single_le_sum
    (f := fun k => (ch.advance call.curTime).availCredits (((ch.advance call.curTime).head +
      (requestTimeOffs call.curTime call.requestTime + k)) % nrCreditEntries))
    (fun _ _ => Nat.zero_le _) (Finset.mem_range.2 hk))

/-- The estimate of the slots a transfer fills. -/
def slotsFilled (ch : ChannelModel) (length : ℕ) : ℕ := unitsOf length / ch.maxCredits

/-- By how many slots the estimate for a longer transfer is ahead of the full slots of its further
units. -/
def estimateAhead (ch : ChannelModel) (a b : ℕ) : ℕ :=
  ch.slotsFilled b - ch.slotsFilled a - (unitsOf b - unitsOf a) / ch.maxCredits

theorem unitsOf_mono {a b : ℕ} (h : a ≤ b) : unitsOf a ≤ unitsOf b := by
  unfold unitsOf
  omega

/-- The estimate is ahead by one slot at most, which it takes a further unit for. -/
theorem estimateAhead_le {a b : ℕ} (hab : a ≤ b) :
    ch.slotsFilled a + (unitsOf b - unitsOf a) / ch.maxCredits ≤ ch.slotsFilled b ∧
      ch.estimateAhead a b ≤ 1 ∧ (unitsOf b = unitsOf a → ch.estimateAhead a b = 0) := by
  have hle := unitsOf_mono hab
  have hsum : unitsOf a + (unitsOf b - unitsOf a) = unitsOf b := by omega
  unfold estimateAhead slotsFilled
  rcases Nat.eq_zero_or_pos ch.maxCredits with h0 | hpos
  · simp [h0]
  · have hadd := Nat.add_div (a := unitsOf a) (b := unitsOf b - unitsOf a) hpos
    rw [hsum] at hadd
    refine ⟨by split_ifs at hadd <;> omega, by split_ifs at hadd <;> omega, fun heq => ?_⟩
    rw [heq]
    simp

/-- **The walk of a transfer that fits** ends at the slot that pays for the last of its units; the
latency adds the slots it has moved on by, less the estimate. -/
theorem exists_latency_eq (hhead : ch.head < nrCreditEntries) (hcmd : ch.commandCredits = 0)
    {c offs : ℕ} (hoffs : offs < nrCreditEntries) (hfits : unitsOf c ≤ ch.creditsLeft offs)
    (hunits : unitsOf c < 2 ^ 32) (hproduct : ch.xferLat * unitsOf c < 2 ^ 32) :
    ∃ m < nrCreditEntries,
      ch.latency c offs = ch.xferLat * unitsOf c + (m - ch.slotsFilled c) * 4000 ∧
      unitsOf c ≤ CreditWalk.paid ⟨ch.availCredits, 0, 0, 0⟩ ch.head offs (m + 1) ∧
      (0 < m → CreditWalk.paid ⟨ch.availCredits, 0, 0, 0⟩ ch.head offs m < unitsOf c) := by
  have hcredits : ch.creditsFor c = unitsOf c := by
    rw [creditsFor_eq hcmd, unitsToXfer_eq hunits]
  obtain ⟨m, hdelay, hm, h1, h2⟩ := CreditWalk.loop_paid (k := offs)
    (w := ⟨ch.availCredits, (ch.head + offs) % nrCreditEntries, unitsOf c, 0⟩) hhead hoffs
    (Nat.le_add_right nrCreditEntries _) rfl hfits
  have hwalk : (ch.walk c offs).delay = m := by
    unfold walk
    rw [hcredits, hdelay]
    exact Nat.zero_add m
  have hlt : m < nrCreditEntries := by omega
  have hexact : ∀ x n : ℕ, x < 2 ^ 32 → n ≤ nrCreditEntries →
      u64 (toUint32 x + n * unitTimeInterval) = x + n * 4000 := by
    intro x n hx hn
    unfold unitTimeInterval toUint32 u64
    unfold nrCreditEntries at hn
    omega
  refine ⟨m, hlt, ?_, h1, h2⟩
  unfold latency
  rw [creditsFor_eq hcmd, unitsToXfer_eq hunits, hwalk,
    hexact _ _ hproduct ((Nat.sub_le _ _).trans hlt.le)]
  rfl

/-- **The latency of a shorter transfer** exceeds that of a longer one only where the estimate is
ahead, and then by a slot less the time of the further units. -/
theorem latency_le (hhead : ch.head < nrCreditEntries) (hcmd : ch.commandCredits = 0)
    (hentries : ch.EntriesLe) {a b offs : ℕ} (hab : a ≤ b) (hoffs : offs < nrCreditEntries)
    (hfits : unitsOf b ≤ ch.creditsLeft offs) (hunits : unitsOf b < 2 ^ 32)
    (hproduct : ch.xferLat * unitsOf b < 2 ^ 32) :
    ch.latency a offs ≤ ch.latency b offs +
      (unitTimeInterval - ch.xferLat * (unitsOf b - unitsOf a)) * ch.estimateAhead a b ∧
    ch.latency b offs < 2 ^ 33 := by
  have hle := unitsOf_mono hab
  have hlat : ch.xferLat * unitsOf b =
      ch.xferLat * unitsOf a + ch.xferLat * (unitsOf b - unitsOf a) := by
    rw [← Nat.mul_add]
    congr 1
    omega
  obtain ⟨m, hm, hla, -, hpaida⟩ := ch.exists_latency_eq hhead hcmd (c := a) hoffs
    (hle.trans hfits) (by omega) (by omega)
  obtain ⟨n, hn, hlb, hpaidb, -⟩ := ch.exists_latency_eq hhead hcmd (c := b) hoffs hfits hunits
    hproduct
  have hmax : ∀ i < nrCreditEntries, ch.availCredits i ≤ ch.maxCredits := fun i hi =>
    (hentries i hi).trans (Nat.mod_le _ _)
  obtain ⟨hmn, hgap⟩ := CreditWalk.div_le_of_paid hmax hle hpaida hpaidb
  obtain ⟨hstep, hahead, -⟩ := ch.estimateAhead_le hab
  have hdef : ch.estimateAhead a b =
      ch.slotsFilled b - ch.slotsFilled a - (unitsOf b - unitsOf a) / ch.maxCredits := rfl
  refine ⟨?_, ?_⟩
  · rw [hla, hlb, hlat]
    unfold unitTimeInterval
    interval_cases hε : ch.estimateAhead a b <;> omega
  · rw [hlb]
    unfold nrCreditEntries at hn
    omega

/-- A new channel charges no command credits, and a slot of credits takes a slot of time at most. -/
theorem chmodelInit_rate {avail : ℕ → ℕ} {bandwidth : ℕ}
    (hinit : chmodelInit avail bandwidth = .ok ch) :
    ch.commandCredits = 0 ∧ ch.xferLat * ch.maxCredits ≤ 4000 := by
  unfold chmodelInit at hinit
  obtain ⟨_, -, hinit⟩ := bind_eq_ok.1 hinit
  cases hinit
  exact ⟨rfl, xferLat_mul_maxCredits_le⟩

/-- **Longer transfers never finish earlier** over a channel, from one state of it. -/
def NeverEarlier (ch : ChannelModel) : Prop :=
  ∀ curTime requestTime a b, a ≤ b → ch.FitsRing ⟨curTime, requestTime, b⟩ → ∀ ch₁ ch₂ ta tb,
    ch.chmodelRequest curTime requestTime a = .ok (ch₁, ta) →
    ch.chmodelRequest curTime requestTime b = .ok (ch₂, tb) → ta ≤ tb

/-- **How much earlier a longer transfer can finish,** in every state a channel reaches: by less than
a slot, by no more than a slot less the time of its further units, and not at all where its estimate
is not ahead of the slots of these units, as where the estimates are the same. -/
theorem chmodelRequest_order {avail : ℕ → ℕ} {bandwidth : ℕ}
    (hinit : chmodelInit avail bandwidth = .ok ch) {calls : List ChannelCall}
    (hrun : runList ChannelModel.step ch calls = .ok ch') {curTime requestTime a b : ℕ}
    (hab : a ≤ b) (hfits : ch'.FitsRing ⟨curTime, requestTime, b⟩) (htime : requestTime < 2 ^ 63)
    {ch₁ ch₂ : ChannelModel} {ta tb : ℕ}
    (ha : ch'.chmodelRequest curTime requestTime a = .ok (ch₁, ta))
    (hb : ch'.chmodelRequest curTime requestTime b = .ok (ch₂, tb)) :
    ta ≤ tb + (unitTimeInterval - ch'.xferLat * (unitsOf b - unitsOf a)) * ch'.estimateAhead a b ∧
      ch'.estimateAhead a b ≤ 1 ∧ (0 < ch'.xferLat → ta < tb + unitTimeInterval) ∧
      (ch'.slotsFilled a = ch'.slotsFilled b → ta ≤ tb) := by
  have hentries := (chmodelInit_entriesLe hinit).run hrun
  have hkeeps := (chmodelInit_keeps hinit).run hrun
  obtain ⟨-, hahead, hsame⟩ := ch'.estimateAhead_le hab
  have hle : ta ≤ tb +
      (unitTimeInterval - ch'.xferLat * (unitsOf b - unitsOf a)) * ch'.estimateAhead a b := by
    have hadv := hkeeps.advance curTime
    rw [chmodelRequest_time ha, chmodelRequest_time hb]
    by_cases hearly : requestTime < curTime ∨
        nrCreditEntries ≤ requestTimeOffs curTime requestTime
    · rw [if_pos hearly, if_pos hearly]
      exact Nat.le_add_right _ _
    rw [if_neg hearly, if_neg hearly]
    obtain ⟨hcmd, hrate⟩ := chmodelInit_rate hinit
    rw [← hkeeps.commandCredits] at hcmd
    rw [← hkeeps.xferLat, ← hkeeps.maxCredits] at hrate
    obtain ⟨hle, hbound⟩ := latency_le hadv.head hcmd (hentries.advance curTime) hab
      (not_le.1 fun h => hearly (.inr h)) hfits (hfits.units_lt hentries)
      (hfits.xferLat_mul_lt hentries hrate)
    have hahead' : (ch'.advance curTime).estimateAhead a b = ch'.estimateAhead a b := rfl
    have hlat' : (ch'.advance curTime).xferLat = ch'.xferLat := rfl
    rw [hahead', hlat'] at hle
    have hslot : (unitTimeInterval - ch'.xferLat * (unitsOf b - unitsOf a)) *
        ch'.estimateAhead a b ≤ 4000 * 1 := Nat.mul_le_mul (Nat.sub_le _ _) hahead
    unfold u64
    omega
  refine ⟨hle, hahead, fun hpos => ?_, fun heq => ?_⟩
  · by_cases hmore : unitsOf b = unitsOf a
    · rw [hsame hmore, Nat.mul_zero] at hle
      unfold unitTimeInterval
      omega
    · have hslot := Nat.mul_le_mul_left
        (unitTimeInterval - ch'.xferLat * (unitsOf b - unitsOf a)) hahead
      have hfurther : 1 ≤ ch'.xferLat * (unitsOf b - unitsOf a) := by
        have := unitsOf_mono hab
        exact Nat.mul_pos hpos (by omega)
      unfold unitTimeInterval at hle hslot ⊢
      omega
  · have hzero : ch'.estimateAhead a b = 0 := by
      unfold estimateAhead
      rw [heq, Nat.sub_self, Nat.zero_sub]
    rwa [hzero, Nat.mul_zero] at hle

/-- A transfer of 25 units, one less than the credits of a slot at 800 MB/s. -/
def almostFull : List ChannelCall := [⟨0, 0, 3200⟩]

/-- The second slot behind that transfer pays for another one. -/
def SecondSlotFull (ch : ChannelModel) : Prop :=
  requestTimeOffs 0 0 = 0 ∧
    (ch.advance 0).availCredits (((ch.advance 0).head + (0 + 1)) % nrCreditEntries) = 26

instance (ch : ChannelModel) : Decidable ch.SecondSlotFull := inferInstanceAs (Decidable (_ ∧ _))

theorem SecondSlotFull.fitsRing (h : ch.SecondSlotFull) : ch.FitsRing ⟨0, 0, 3328⟩ := by
  refine fitsRing_of_slot (k := 1) ?_ ?_
  · dsimp only
    rw [h.1]
    decide
  · dsimp only
    rw [h.1, h.2]
    decide

/-- **A longer transfer finishes earlier:** behind 25 of the 26 units of a slot, another 25 units
take till 7800 ns, and 26 units till 3952 ns. -/
theorem almostFull_not_neverEarlier : ∃ ch ch', chmodelInit (fun _ => 0) 800 = .ok ch ∧
    runList ChannelModel.step ch almostFull = .ok ch' ∧ ¬ ch'.NeverEarlier := by
  have hcheck : (chmodelInit (fun _ => 0) 800).toOption.any (fun ch =>
      (runList ChannelModel.step ch almostFull).toOption.any fun ch' =>
        (ch'.chmodelRequest 0 0 3200).toOption.any (fun r => decide (r.2 = 7800)) &&
        (ch'.chmodelRequest 0 0 3328).toOption.any (fun r => decide (r.2 = 3952)) &&
        decide ch'.SecondSlotFull) = true := by
    decide +kernel
  obtain ⟨ch, hinit, hp⟩ := exists_ok_of_any hcheck
  obtain ⟨ch', hrun, hp⟩ := exists_ok_of_any hp
  rw [Bool.and_eq_true, Bool.and_eq_true] at hp
  obtain ⟨⟨h25, h26⟩, hring⟩ := hp
  obtain ⟨⟨ch₁, ta⟩, ha, hta⟩ := exists_ok_of_any h25
  obtain ⟨⟨ch₂, tb⟩, hb, htb⟩ := exists_ok_of_any h26
  refine ⟨ch, ch', hinit, hrun, fun h => ?_⟩
  have hle := h 0 0 3200 3328 (by norm_num) (SecondSlotFull.fitsRing (of_decide_eq_true hring))
    ch₁ ch₂ ta tb ha hb
  have hta := of_decide_eq_true hta
  have htb := of_decide_eq_true htb
  dsimp only at hta htb
  omega

/-- In that state the longer transfer finishes earlier by a slot less the time of the further unit. -/
theorem chmodelRequest_order_almostFull : ∃ ch ch' ch₁ ch₂ ta tb,
    chmodelInit (fun _ => 0) 800 = .ok ch ∧ runList ChannelModel.step ch almostFull = .ok ch' ∧
    ch'.chmodelRequest 0 0 3200 = .ok (ch₁, ta) ∧ ch'.chmodelRequest 0 0 3328 = .ok (ch₂, tb) ∧
    ta ≤ tb + (4000 - 152 * 1) * 1 ∧ ta < tb + 4000 ∧ ta = 7800 ∧ tb = 3952 := by
  have hcheck : (chmodelInit (fun _ => 0) 800).toOption.any (fun ch =>
      (runList ChannelModel.step ch almostFull).toOption.any fun ch' =>
        (ch'.chmodelRequest 0 0 3200).toOption.any (fun r => decide (r.2 = 7800)) &&
        (ch'.chmodelRequest 0 0 3328).toOption.any (fun r => decide (r.2 = 3952)) &&
        decide (ch'.SecondSlotFull ∧ ch'.xferLat = 152 ∧ ch'.estimateAhead 3200 3328 = 1)) = true := by
    decide +kernel
  obtain ⟨ch, hinit, hp⟩ := exists_ok_of_any hcheck
  obtain ⟨ch', hrun, hp⟩ := exists_ok_of_any hp
  rw [Bool.and_eq_true, Bool.and_eq_true] at hp
  obtain ⟨⟨h25, h26⟩, hring⟩ := hp
  obtain ⟨⟨ch₁, ta⟩, ha, hta⟩ := exists_ok_of_any h25
  obtain ⟨⟨ch₂, tb⟩, hb, htb⟩ := exists_ok_of_any h26
  obtain ⟨hring, hlat, hahead⟩ := of_decide_eq_true hring
  obtain ⟨hle, -, hlt, -⟩ := chmodelRequest_order hinit hrun (by norm_num)
    (SecondSlotFull.fitsRing hring) (by norm_num) ha hb
  rw [hlat, hahead] at hle
  exact ⟨ch, ch', ch₁, ch₂, ta, tb, hinit, hrun, ha, hb, hle, hlt (by omega),
    of_decide_eq_true hta, of_decide_eq_true htb⟩

end ChannelModel

end NvmeVirt
