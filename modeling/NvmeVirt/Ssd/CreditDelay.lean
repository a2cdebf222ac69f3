/-
# The queueing delay of a transfer

The loop of `chmodel_request` counts the slots it moves on to.  Where the slots of
a transfer are unused that count is the one `default_delay` makes up for, so the
transfer takes the time of its units and no more: exactly for the bandwidths whose
credits a slot fit into the byte the ring keeps of them.
-/

import NvmeVirt.Ssd.CreditRing

namespace NvmeVirt

open Outcome

/-- The units of a transfer, the last one rounded up. -/
def unitsOf (length : ℕ) : ℕ := (length + 127) / 128

/-- Behind the division the units of a transfer are computed in 32 bits. -/
theorem unitsToXfer_eq {length : ℕ} (h : unitsOf length < 2 ^ 32) :
    ChannelModel.unitsToXfer length = unitsOf length := by
  unfold unitsOf at h
  unfold ChannelModel.unitsToXfer divRoundUp toUint32 unitXferSize u64 unitsOf
  omega

namespace CreditWalk

variable {w : CreditWalk} {head fuel k max : ℕ}

/-- The loop moves on. -/
theorem loop_moves (hrem : w.consume.remainingCredits ≠ 0)
    (hnext : (w.pos + 1) % nrCreditEntries ≠ head) :
    loop head (fuel + 1) w = loop head fuel { w.consume with
      delay := w.delay + 1, pos := (w.pos + 1) % nrCreditEntries } := by
  have hnext : (w.consume.pos + 1) % nrCreditEntries ≠ head := hnext
  rw [loop]
  dsimp only
  rw [if_pos hrem, if_pos hnext]
  rfl

/-- The loop ends. -/
theorem loop_ends
    (h : ¬ (w.consume.remainingCredits ≠ 0 ∧ (w.pos + 1) % nrCreditEntries ≠ head)) :
    loop head (fuel + 1) w = w.consume := by
  rw [loop]
  dsimp only
  by_cases hrem : w.consume.remainingCredits ≠ 0
  · have hnext : ¬ (w.consume.pos + 1) % nrCreditEntries ≠ head := fun hne => h ⟨hrem, hne⟩
    rw [if_pos hrem, if_neg hnext]
  · rw [if_neg hrem]

/-- The credits a round leaves. -/
theorem remainingCredits_consume :
    w.consume.remainingCredits = w.remainingCredits - w.availCredits w.pos := by
  show w.remainingCredits - w.consumedCredits = _
  unfold consumedCredits
  split_ifs <;> omega

theorem loop_pos_lt (hpos : w.pos < nrCreditEntries) :
    (loop head fuel w).pos < nrCreditEntries := by
  induction fuel generalizing w with
  | zero => exact hpos
  | succ fuel ih =>
    unfold loop
    dsimp only
    split_ifs
    · exact ih (Nat.mod_lt _ (by decide))
    · exact hpos
    · exact hpos

/-- A slot of the ring is not the one a walk has moved on from. -/
theorem ring_ne {j : ℕ} (hj : j < nrCreditEntries) (hk : k < j) :
    (head + j) % nrCreditEntries ≠ (head + k) % nrCreditEntries := by
  intro h
  have := SlotLedger.ring_index_inj hj (by omega) h
  omega

/-- **The delay on unused slots:** the walk moves on once for every full slot before its last. -/
theorem loop_delay_unused (hhead : head < nrCreditEntries) (hmax : 0 < max)
    (hrem : 0 < w.remainingCredits) (hfuel : nrCreditEntries ≤ fuel + k)
    (hpos : w.pos = (head + k) % nrCreditEntries)
    (hroom : k + (w.remainingCredits - 1) / max < nrCreditEntries)
    (hunused : ∀ j, k ≤ j → j ≤ k + (w.remainingCredits - 1) / max →
      w.availCredits ((head + j) % nrCreditEntries) = max) :
    (loop head fuel w).delay = w.delay + (w.remainingCredits - 1) / max := by
  induction fuel generalizing w k with
  | zero =>
    have hk : k < nrCreditEntries := lt_of_le_of_lt (Nat.le_add_right _ _) hroom
    omega
  | succ fuel ih =>
    have havail : w.availCredits w.pos = max := by
      rw [hpos]
      exact hunused k le_rfl (Nat.le_add_right _ _)
    have hleft := remainingCredits_consume (w := w)
    rw [havail] at hleft
    by_cases hlast : w.remainingCredits ≤ max
    · rw [loop_ends fun h => h.1 (by omega), Nat.div_eq_of_lt (by omega), Nat.add_zero]
      rfl
    · have hdiv : (w.remainingCredits - 1) / max = (w.remainingCredits - max - 1) / max + 1 := by
        rw [← Nat.add_div_right _ hmax]
        congr 1
        omega
      have hk : k + 1 < nrCreditEntries := by
        have := Nat.zero_le ((w.remainingCredits - max - 1) / max)
        omega
      have hnext : (w.pos + 1) % nrCreditEntries = (head + (k + 1)) % nrCreditEntries := by
        rw [hpos, Nat.mod_add_mod, Nat.add_assoc]
      have hne : (w.pos + 1) % nrCreditEntries ≠ head := by
        have hself : head = (head + 0) % nrCreditEntries := by
          rw [Nat.add_zero, Nat.mod_eq_of_lt hhead]
        rw [hnext]
        intro h
        exact ring_ne hk (Nat.succ_pos k) (h.trans hself)
      rw [loop_moves (by omega) hne, hdiv]
      -- the other slots are as they were
      have hrest := ih (k := k + 1) (w := { w.consume with
        delay := w.delay + 1, pos := (w.pos + 1) % nrCreditEntries })
        (by show 0 < w.consume.remainingCredits; omega) (by omega) hnext
        (by show k + 1 + (w.consume.remainingCredits - 1) / max < _; rw [hleft]; omega)
        (fun j hj hle => by
          have hle : j ≤ k + 1 + (w.consume.remainingCredits - 1) / max := hle
          rw [hleft] at hle
          have hjroom : j < nrCreditEntries := by omega
          show Function.update w.availCredits w.pos _ _ = max
          rw [Function.update_of_ne (by rw [hpos]; exact ring_ne hjroom hj)]
          exact hunused j (by omega) (by omega))
      rw [hrest]
      show w.delay + 1 + (w.consume.remainingCredits - 1) / max = _
      rw [hleft]
      omega

end CreditWalk

namespace ChannelModel

variable {ch ch' : ChannelModel} {call : ChannelCall}

/-- **What every call keeps:** the parameters of the channel, and the ring in order. -/
structure Keeps (ch ch' : ChannelModel) : Prop where
  head : ch'.head < nrCreditEntries
  validLen : ch'.validLen ≤ nrCreditEntries
  maxCredits : ch'.maxCredits = ch.maxCredits
  commandCredits : ch'.commandCredits = ch.commandCredits
  xferLat : ch'.xferLat = ch.xferLat

/-- A new channel is in order. -/
theorem chmodelInit_keeps {avail : ℕ → ℕ} {bandwidth : ℕ}
    (hinit : chmodelInit avail bandwidth = .ok ch) : Keeps ch ch := by
  unfold chmodelInit at hinit
  obtain ⟨_, -, hinit⟩ := bind_eq_ok.1 hinit
  cases hinit
  exact ⟨(by decide : 0 < nrCreditEntries), Nat.zero_le _, rfl, rfl, rfl⟩

theorem Keeps.advance (h : Keeps ch ch') (curTime : ℕ) : Keeps ch (ch'.advance curTime) where
  head := Nat.mod_lt _ (by decide)
  validLen := (Nat.sub_le _ _).trans h.validLen
  maxCredits := h.maxCredits
  commandCredits := h.commandCredits
  xferLat := h.xferLat

/-- The used length a walk leaves is that of the ring at most. -/
theorem validLength_le (hhead : ch.head < nrCreditEntries) {pos : ℕ}
    (hpos : pos < nrCreditEntries) : ch.validLength pos ≤ nrCreditEntries := by
  unfold validLength
  split_ifs <;> omega

theorem Keeps.transfer (h : Keeps ch ch') {requestTime length offs t : ℕ} {ch'' : ChannelModel}
    (ht : ch'.transfer requestTime length offs = .ok (ch'', t)) : Keeps ch ch'' := by
  unfold ChannelModel.transfer at ht
  obtain ⟨_, -, ht⟩ := bind_eq_ok.1 ht
  cases ht
  refine ⟨h.head, ?_, h.maxCredits, h.commandCredits, h.xferLat⟩
  have hpos : (CreditWalk.loop ch'.head nrCreditEntries {
      availCredits := ch'.availCredits, pos := (ch'.head + offs) % nrCreditEntries
      remainingCredits := ch'.creditsFor length, delay := 0 }).pos < nrCreditEntries :=
    CreditWalk.loop_pos_lt (Nat.mod_lt _ (by decide))
  have := validLength_le h.head hpos
  have := h.validLen
  dsimp only
  split_ifs <;> assumption

/-- **A call keeps them.** -/
theorem Keeps.request (h : Keeps ch ch') {curTime requestTime length t : ℕ} {ch'' : ChannelModel}
    (hr : ch'.chmodelRequest curTime requestTime length = .ok (ch'', t)) : Keeps ch ch'' := by
  have hadv := h.advance curTime
  unfold chmodelRequest at hr
  dsimp only at hr
  rw [nvmevAssert_bind hadv.validLen] at hr
  split_ifs at hr
  · cases hr
    exact hadv
  · cases hr
    exact hadv
  · exact hadv.transfer hr

/-- **A run keeps them.** -/
theorem Keeps.run (h : Keeps ch ch') {calls : List ChannelCall} {ch'' : ChannelModel}
    (hrun : runList ChannelModel.step ch' calls = .ok ch'') : Keeps ch ch'' := by
  induction calls generalizing ch' with
  | nil =>
    cases hrun
    exact h
  | cons call calls ih =>
    obtain ⟨ch₁, hstep, hrun⟩ := bind_eq_ok.1 hrun
    obtain ⟨⟨ch₂, t⟩, hreq, hstep⟩ := bind_eq_ok.1 hstep
    cases hstep
    exact ih (h.request hreq) hrun

/-! ### The latency of a transfer -/

/-- The walk of a transfer. -/
def walk (ch : ChannelModel) (length offs : ℕ) : CreditWalk :=
  CreditWalk.loop ch.head nrCreditEntries {
    availCredits := ch.availCredits
    pos := (ch.head + offs) % nrCreditEntries
    remainingCredits := ch.creditsFor length
    delay := 0 }

/-- `total_latency`. -/
def latency (ch : ChannelModel) (length offs : ℕ) : ℕ :=
  u64 (toUint32 (ch.xferLat * unitsToXfer length) +
    ((ch.walk length offs).delay - ch.creditsFor length / ch.maxCredits) * unitTimeInterval)

/-- **The time a transfer returns.** -/
theorem transfer_eq (hmax : 0 < ch.maxCredits) (requestTime length offs : ℕ) :
    ∃ ch', ch.transfer requestTime length offs
      = .ok (ch', u64 (requestTime + ch.latency length offs)) := by
  have hdelay : ∀ a b : ℕ, (if a < b then b - a else 0) = b - a := by
    intro a b
    split_ifs <;> omega
  unfold ChannelModel.transfer
  rw [defined_bind hmax]
  refine ⟨_, congrArg (fun t => Except.ok (_, t)) ?_⟩
  rw [hdelay]
  rfl

/-- **The time a request returns:** its own one if that has passed or lies behind the ring. -/
theorem chmodelRequest_eq (hmax : 0 < ch.maxCredits) (hlen : ch.validLen ≤ nrCreditEntries)
    (curTime requestTime length : ℕ) :
    ∃ ch', ch.chmodelRequest curTime requestTime length = .ok (ch',
      if requestTime < curTime ∨ nrCreditEntries ≤ requestTimeOffs curTime requestTime then
        requestTime
      else u64 (requestTime +
        (ch.advance curTime).latency length (requestTimeOffs curTime requestTime))) := by
  have hvalid : (ch.advance curTime).validLen ≤ nrCreditEntries := (Nat.sub_le _ _).trans hlen
  unfold chmodelRequest
  dsimp only
  rw [nvmevAssert_bind hvalid]
  by_cases hpast : requestTime < curTime
  · rw [if_pos hpast, if_pos (.inl hpast)]
    exact ⟨_, rfl⟩
  rw [if_neg hpast]
  by_cases hfar : nrCreditEntries ≤ requestTimeOffs curTime requestTime
  · rw [if_pos hfar, if_pos (.inr hfar)]
    exact ⟨_, rfl⟩
  rw [if_neg hfar, if_neg (not_or.2 ⟨hpast, hfar⟩)]
  have hmax : 0 < (ch.advance curTime).maxCredits := hmax
  exact transfer_eq hmax _ _ _

/-- The time a request returns, if it returns one. -/
theorem chmodelRequest_time {curTime requestTime length t : ℕ}
    (hr : ch.chmodelRequest curTime requestTime length = .ok (ch', t)) :
    t = if requestTime < curTime ∨ nrCreditEntries ≤ requestTimeOffs curTime requestTime then
        requestTime
      else u64 (requestTime +
        (ch.advance curTime).latency length (requestTimeOffs curTime requestTime)) := by
  unfold chmodelRequest at hr
  dsimp only at hr
  obtain ⟨_, -, hr⟩ := bind_eq_ok.1 hr
  split_ifs at hr with hpast hfar
  · cases hr
    exact (if_pos (.inl hpast)).symm
  · cases hr
    exact (if_pos (.inr hfar)).symm
  · obtain ⟨_, hdef, -⟩ := bind_eq_ok.1 hr
    obtain ⟨ch₁, heq⟩ := transfer_eq (defined_eq_ok.1 hdef) requestTime length
      (requestTimeOffs curTime requestTime)
    rw [heq] at hr
    cases hr
    exact (if_neg (not_or.2 ⟨hpast, hfar⟩)).symm

/-! ### Transfers over unused slots -/

/-- **The slots of a request are unused:** the request is not for a time that has passed, and the
slots it needs, counted from the one it is for, are in the ring and have all their credits left. -/
structure SlotsUnused (ch : ChannelModel) (call : ChannelCall) : Prop where
  now : call.curTime ≤ call.requestTime
  room : ∀ k, k * ch.maxCredits < unitsOf call.length →
    requestTimeOffs call.curTime call.requestTime + k < nrCreditEntries
  unused : ∀ k, k * ch.maxCredits < unitsOf call.length →
    (ch.advance call.curTime).availCredits (((ch.advance call.curTime).head +
      (requestTimeOffs call.curTime call.requestTime + k)) % nrCreditEntries) = ch.maxCredits

/-- A request on unused slots asks for what the ring can give at most. -/
theorem SlotsUnused.units_le (h : ch.SlotsUnused call) :
    unitsOf call.length ≤ nrCreditEntries * ch.maxCredits := by
  by_contra hlt
  have := h.room nrCreditEntries (not_le.1 hlt)
  omega

/-- **A request on unused slots takes the time of its units.** -/
theorem SlotsUnused.request (h : ch'.SlotsUnused call) (hkeeps : Keeps ch ch')
    (hmax : 1 ≤ ch.maxCredits ∧ ch.maxCredits ≤ 255) (hcmd : ch.commandCredits = 0)
    (hlat : ch.xferLat * (nrCreditEntries * ch.maxCredits) < 2 ^ 32) (hlength : 0 < call.length) :
    ∃ ch'', ch'.chmodelRequest call.curTime call.requestTime call.length
      = .ok (ch'', u64 (call.requestTime + ch.xferLat * unitsOf call.length)) := by
  have hadv := hkeeps.advance call.curTime
  have hmax' : 0 < ch'.maxCredits := by
    rw [hkeeps.maxCredits]
    exact hmax.1
  have hle : unitsOf call.length ≤ nrCreditEntries * ch.maxCredits := by
    rw [← hkeeps.maxCredits]
    exact h.units_le
  have hring : nrCreditEntries * ch.maxCredits ≤ nrCreditEntries * 255 :=
    Nat.mul_le_mul_left _ hmax.2
  have hsmall : unitsOf call.length < 2 ^ 32 :=
    lt_of_le_of_lt (hle.trans hring) (by decide)
  have hpos : 0 < unitsOf call.length := by
    unfold unitsOf
    omega
  have hoffs := h.room 0 (by omega)
  rw [Nat.add_zero] at hoffs
  set d := ch'.advance call.curTime
  set offs := requestTimeOffs call.curTime call.requestTime
  have hunits := unitsToXfer_eq hsmall
  have hcredits : d.creditsFor call.length = unitsOf call.length := by
    rw [creditsFor_eq (hadv.commandCredits.trans hcmd), hunits]
  have hlastslot : (unitsOf call.length - 1) / d.maxCredits * d.maxCredits
      < unitsOf call.length := by
    have := Nat.div_mul_le_self (unitsOf call.length - 1) d.maxCredits
    omega
  have hdelay : (d.walk call.length offs).delay = (unitsOf call.length - 1) / d.maxCredits := by
    have hloop := CreditWalk.loop_delay_unused (k := offs) (w := {
        availCredits := d.availCredits, pos := (d.head + offs) % nrCreditEntries
        remainingCredits := d.creditsFor call.length, delay := 0 })
      hadv.head hmax' (by dsimp only; omega) (Nat.le_add_right _ _) rfl
      (by dsimp only; rw [hcredits]; exact h.room _ hlastslot)
      (fun j hj hjle => by
        dsimp only at hjle
        rw [hcredits] at hjle
        obtain ⟨k, rfl⟩ := Nat.exists_eq_add_of_le hj
        refine h.unused k (lt_of_le_of_lt (Nat.mul_le_mul_right _ ?_) hlastslot)
        exact Nat.le_of_add_le_add_left hjle)
    dsimp only at hloop
    rw [Nat.zero_add, hcredits] at hloop
    unfold walk
    rw [hcredits]
    exact hloop
  -- the slots moved on to are no more than the default delay
  have hdefault : (unitsOf call.length - 1) / d.maxCredits ≤ unitsOf call.length / d.maxCredits :=
    Nat.div_le_div_right (Nat.sub_le _ _)
  have hproduct : ch.xferLat * unitsOf call.length < 2 ^ 32 :=
    lt_of_le_of_lt (Nat.mul_le_mul_left _ hle) hlat
  have hlatency : d.latency call.length offs = ch.xferLat * unitsOf call.length := by
    unfold latency
    rw [hdelay, hcredits, hunits, Nat.sub_eq_zero_of_le hdefault, hadv.xferLat, Nat.zero_mul,
      Nat.add_zero]
    unfold toUint32 u64
    omega
  obtain ⟨ch'', hreq⟩ := chmodelRequest_eq hmax' hkeeps.validLen call.curTime call.requestTime
    call.length
  refine ⟨ch'', ?_⟩
  rw [hreq, if_neg (not_or.2 ⟨not_lt.2 h.now, not_le.2 hoffs⟩), hlatency]

/-- The copy moves on once for every full slot before its last. -/
theorem copyDelay_eq {max : ℕ} (hmax : 0 < max) {fuel rem : ℕ} (hfuel : rem < fuel) (delay : ℕ) :
    copyDelay max fuel rem delay = delay + (rem - 1) / max := by
  induction fuel generalizing rem delay with
  | zero => omega
  | succ fuel ih =>
    unfold copyDelay
    dsimp only
    by_cases hlast : rem ≤ max
    · rw [if_pos hlast, Nat.sub_self, if_neg (by simp), Nat.div_eq_of_lt (by omega), Nat.add_zero]
    · have hdiv : (rem - 1) / max = (rem - max - 1) / max + 1 := by
        rw [← Nat.add_div_right _ hmax]
        congr 1
        omega
      rw [if_neg hlast, if_pos (by omega), ih (by omega), hdiv]
      omega

/-- **`chmodel_request_copy`** never waits for a slot. -/
theorem chmodelRequestCopy_eq (hmax : 0 < ch.maxCredits) (requestTime length : ℕ) :
    ch.chmodelRequestCopy requestTime length
      = .ok (u64 (requestTime + toUint32 (ch.xferLat * unitsToXfer length))) := by
  have hle : (ch.creditsFor length - 1) / ch.maxCredits ≤ ch.creditsFor length / ch.maxCredits :=
    Nat.div_le_div_right (Nat.sub_le _ _)
  unfold chmodelRequestCopy
  rw [defined_bind hmax]
  dsimp only
  rw [copyDelay_eq hmax (Nat.lt_succ_self _), Nat.zero_add, if_neg (not_lt.2 hle), Nat.zero_mul,
    Nat.add_zero]
  congr 3
  unfold toUint32 u64
  omega

/-- **The credit arithmetic is valid:** every entry of the ring holds the credits of a slot, at
least one, so in every state reached the copy is defined, and a transfer over unused slots takes
the time of its units. -/
structure CreditsValid (ch : ChannelModel) : Prop where
  full : ∀ i < nrCreditEntries, ch.availCredits i = ch.maxCredits
  positive : 1 ≤ ch.maxCredits
  copy : ∀ calls ch', runList ChannelModel.step ch calls = .ok ch' → ∀ requestTime length,
    ∃ t, ch'.chmodelRequestCopy requestTime length = .ok t
  latency : ∀ calls ch', runList ChannelModel.step ch calls = .ok ch' →
    ∀ call : ChannelCall, 0 < call.length → ch'.SlotsUnused call →
      ∃ ch'', ch'.chmodelRequest call.curTime call.requestTime call.length
        = .ok (ch'', u64 (call.requestTime + ch.xferLat * unitsOf call.length))

end ChannelModel

/-! ### Bandwidths -/

/-- The credits of a slot by the bandwidth; the product wraps in 64 bits. -/
theorem maxCredits_eq (bandwidth : ℕ) :
    toUint32 (bandwidthToMaxCredits bandwidth)
      = bandwidth * 2 ^ 20 * 4000 % 2 ^ 64 / 10 ^ 9 / 128 := by
  have hrate : u64 (mb bandwidth * unitTimeInterval) = bandwidth * 2 ^ 20 * 4000 % 2 ^ 64 := by
    unfold mb unitTimeInterval u64
    rw [Nat.shiftLeft_eq, Nat.mod_mul_mod]
  unfold bandwidthToMaxCredits nsPerSec unitXferSize unitXferCredits
  rw [hrate]
  generalize bandwidth * 2 ^ 20 * 4000 = rate
  unfold toUint32 u64
  omega

/-- A slot transfers no more than its credits in its time. -/
theorem xferLat_mul_maxCredits_le {bandwidth : ℕ} :
    toUint32 (bandwidthToTxTime bandwidth) * toUint32 (bandwidthToMaxCredits bandwidth) ≤ 4000 := by
  set lat := toUint32 (bandwidthToTxTime bandwidth) with hlat
  set max := toUint32 (bandwidthToMaxCredits bandwidth) with hmax
  have h1 : lat * mb bandwidth ≤ 128 * 10 ^ 9 := by
    calc lat * mb bandwidth ≤ bandwidthToTxTime bandwidth * mb bandwidth :=
          Nat.mul_le_mul_right _ (Nat.mod_le _ _)
      _ ≤ u64 (unitXferSize * nsPerSec) := Nat.div_mul_le_self _ _
      _ ≤ 128 * 10 ^ 9 := Nat.mod_le _ _
  have h2 : max * (128 * 10 ^ 9) ≤ mb bandwidth * 4000 := by
    have hrate : max = mb bandwidth * 4000 % 2 ^ 64 / 10 ^ 9 / 128 := by
      rw [hmax, maxCredits_eq]
      unfold mb u64
      rw [Nat.shiftLeft_eq, Nat.mod_mul_mod]
    omega
  by_contra hlt
  have h3 : lat * (max * (128 * 10 ^ 9)) ≤ lat * (mb bandwidth * 4000) := Nat.mul_le_mul_left _ h2
  have h4 : lat * (mb bandwidth * 4000) = lat * mb bandwidth * 4000 := (mul_assoc ..).symm
  have h5 : lat * (max * (128 * 10 ^ 9)) = lat * max * (128 * 10 ^ 9) := (mul_assoc ..).symm
  omega

/-- **Exactly which bandwidths the credit arithmetic is valid for:** those of 1 to 255 credits a
slot. -/
theorem chmodelInit_creditsValid_iff (avail : ℕ → ℕ) (bandwidth : ℕ) :
    (∃ ch, chmodelInit avail bandwidth = .ok ch ∧ ch.CreditsValid) ↔
      128 * 10 ^ 9 ≤ bandwidth * 2 ^ 20 * 4000 % 2 ^ 64 ∧
        bandwidth * 2 ^ 20 * 4000 % 2 ^ 64 < 256 * (128 * 10 ^ 9) := by
  have hcredits := maxCredits_eq bandwidth
  constructor
  · rintro ⟨ch, hinit, hvalid⟩
    unfold chmodelInit at hinit
    obtain ⟨_, -, hinit⟩ := bind_eq_ok.1 hinit
    cases hinit
    have hfirst := hvalid.full 0 (by decide)
    have hpositive := hvalid.positive
    dsimp only at hfirst hpositive
    unfold memsetCredits at hfirst
    rw [if_pos ⟨le_rfl, by decide⟩] at hfirst
    rw [hcredits] at hfirst hpositive
    omega
  · intro hrange
    have hmb : 0 < mb bandwidth := by
      unfold mb u64
      rw [Nat.shiftLeft_eq]
      omega
    have hmax : 1 ≤ toUint32 (bandwidthToMaxCredits bandwidth) ∧
        toUint32 (bandwidthToMaxCredits bandwidth) ≤ 255 := by
      rw [hcredits]
      omega
    obtain ⟨ch, hinit⟩ : ∃ ch, chmodelInit avail bandwidth = .ok ch := by
      unfold chmodelInit
      rw [defined_bind hmb]
      exact ⟨_, rfl⟩
    have hkeeps := ChannelModel.chmodelInit_keeps hinit
    refine ⟨ch, hinit, ?_⟩
    unfold chmodelInit at hinit
    rw [defined_bind hmb] at hinit
    cases hinit
    refine ⟨fun i hi => ?_, hmax.1, fun calls ch' hrun requestTime length => ?_,
      fun calls ch' hrun call hlength hunused => ?_⟩
    · dsimp only
      unfold memsetCredits
      rw [if_pos ⟨Nat.zero_le i, by omega⟩]
      exact Nat.mod_eq_of_lt (by omega)
    · have hmax' : 0 < ch'.maxCredits := by
        rw [(hkeeps.run hrun).maxCredits]
        exact hmax.1
      exact ⟨_, ChannelModel.chmodelRequestCopy_eq hmax' requestTime length⟩
    · refine hunused.request (hkeeps.run hrun) hmax rfl ?_ hlength
      have hle : toUint32 (bandwidthToTxTime bandwidth) *
          toUint32 (bandwidthToMaxCredits bandwidth) ≤ 4000 := xferLat_mul_maxCredits_le
      calc _ = nrCreditEntries * (toUint32 (bandwidthToTxTime bandwidth) *
            toUint32 (bandwidthToMaxCredits bandwidth)) := by ring
        _ ≤ nrCreditEntries * 4000 := Nat.mul_le_mul_left _ hle
        _ < 2 ^ 32 := by decide

/-- At 30 MB/s a slot has no credits to divide by. -/
example : toUint32 (bandwidthToMaxCredits 30) = 0 := by decide

/-- **At 8000 MB/s** a slot has 262 credits and its entry 6. -/
theorem eightGigabytes_not_creditsValid :
    ¬ ∃ ch, chmodelInit (fun _ => 0) 8000 = .ok ch ∧ ch.CreditsValid := by
  rintro ⟨ch, hinit, hvalid⟩
  have hfirst := hvalid.full 0 (by decide)
  cases hinit
  exact absurd hfirst (by decide)

end NvmeVirt
