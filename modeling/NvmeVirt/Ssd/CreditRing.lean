/-
# The credit ring is a window of a ledger

`chmodel_request` of `channel_model.c` keeps no more than the next slots, and fills the
entries up that it passes.  As long as the distance of two slots fits into 32 bits, the
ring shows what an unbounded ledger of the slots has left.
-/

import NvmeVirt.Lib.SlotLedger
import NvmeVirt.Ssd.ChannelModel

namespace NvmeVirt

open Outcome SlotLedger

/-- The slot of a time. -/
def slotOf (time : ℕ) : ℕ := time / unitTimeInterval

/-- The arguments of a call of `chmodel_request`, with the wall clock. -/
structure ChannelCall where
  curTime : ℕ
  requestTime : ℕ
  length : ℕ
  deriving DecidableEq, Repr

/-- **What a call is to the ledger:** a request for a time that has passed, or that lies behind the
window of the ring, takes nothing. -/
def ledgerStep (maxCredits : ℕ) (used : ℕ → ℕ) (call : ChannelCall) : ℕ → ℕ :=
  let ahead := slotOf call.requestTime - slotOf call.curTime
  if call.requestTime < call.curTime ∨ nrCreditEntries ≤ ahead then used
  else take maxCredits (nrCreditEntries - ahead) (slotOf call.requestTime)
    (ChannelModel.unitsToXfer call.length) used

/-- The credits each slot has spent after some calls. -/
def ledger (maxCredits : ℕ) (calls : List ChannelCall) : ℕ → ℕ :=
  calls.foldl (ledgerStep maxCredits) fun _ => 0

namespace ChannelModel

variable {ch : ChannelModel} {used : ℕ → ℕ} {call : ChannelCall} {k offs : ℕ}

/-- One call. -/
def step (ch : ChannelModel) (call : ChannelCall) : Except Fault ChannelModel := do
  let (ch, _) ← ch.chmodelRequest call.curTime call.requestTime call.length
  .ok ch

/-- The channel shows the ledger: entry by entry, and nothing behind the used length has been
spent. -/
structure Tracks (ch : ChannelModel) (used : ℕ → ℕ) : Prop where
  head : ch.head < nrCreditEntries
  validLen : ch.validLen ≤ nrCreditEntries
  credits : 1 ≤ ch.maxCredits ∧ ch.maxCredits ≤ 255
  noCommand : ch.commandCredits = 0
  shows : Shows nrCreditEntries ch.maxCredits ch.availCredits ch.head (slotOf ch.curTime) used
  rest : ∀ k, ch.validLen ≤ k → used (slotOf ch.curTime + k) = 0
  bound : ∀ x, used x ≤ ch.maxCredits

/-- **The distances a call computes in 32 bits do not come out too small:** neither the one of the
wall clock, within the used length, nor the one of the request, within the ring. -/
def DistancesFit (ch : ChannelModel) (call : ChannelCall) : Prop :=
  let passed := slotOf call.curTime - slotOf ch.curTime
  let ahead := slotOf call.requestTime - slotOf call.curTime
  (passed < 2 ^ 32 ∨ ch.validLen ≤ passed % 2 ^ 32) ∧
    (call.requestTime < call.curTime ∨ ahead < 2 ^ 32 ∨ nrCreditEntries ≤ ahead % 2 ^ 32)

instance (ch : ChannelModel) (call : ChannelCall) : Decidable (ch.DistancesFit call) :=
  inferInstanceAs (Decidable (_ ∧ _))

/-! ### The advance of the head -/

/-- The entries the head passes are filled up, before and behind the end of the array. -/
theorem refilled_eq (hhead : ch.head < nrCreditEntries) (hk : k < nrCreditEntries) :
    ch.refilled offs ((ch.head + k) % nrCreditEntries) =
      if k < offs then ch.maxCredits % 2 ^ 8
      else ch.availCredits ((ch.head + k) % nrCreditEntries) := by
  have hpos : (ch.head + k) % nrCreditEntries =
      if ch.head + k < nrCreditEntries then ch.head + k else ch.head + k - nrCreditEntries := by
    split_ifs with h
    · exact Nat.mod_eq_of_lt h
    · rw [Nat.mod_eq_sub_mod (by omega), Nat.mod_eq_of_lt (by omega)]
  generalize (ch.head + k) % nrCreditEntries = i at hpos
  unfold refilled
  by_cases hwrap : nrCreditEntries ≤ ch.head + offs
  · rw [if_pos hwrap]
    unfold memsetCredits
    split_ifs at hpos ⊢ <;> first | rfl | omega
  · rw [if_neg hwrap]
    unfold memsetCredits
    split_ifs at hpos ⊢ <;> first | rfl | omega

/-- The head moves by the slots that have passed, or by the used length. -/
theorem curTimeOffs_eq (hmono : slotOf ch.curTime ≤ slotOf call.curTime)
    (hfit : ch.DistancesFit call) :
    ch.curTimeOffs call.curTime =
      min (slotOf call.curTime - slotOf ch.curTime) ch.validLen := by
  have hdist : ch.curTimeDistance call.curTime =
      (slotOf call.curTime - slotOf ch.curTime) % 2 ^ 32 := by
    unfold curTimeDistance toUint32 slotOf at *
    omega
  obtain ⟨hpassed, -⟩ := hfit
  unfold curTimeOffs
  rw [hdist]
  split_ifs <;> omega

/-- **The advance keeps the ring on the ledger.** -/
theorem Tracks.advance (h : ch.Tracks used) (hmono : slotOf ch.curTime ≤ slotOf call.curTime)
    (hfit : ch.DistancesFit call) : (ch.advance call.curTime).Tracks used := by
  have hoffs := curTimeOffs_eq hmono hfit
  have hlen := h.validLen
  have hbyte : ch.maxCredits % 2 ^ 8 = ch.maxCredits :=
    Nat.mod_eq_of_lt (by have := h.credits; omega)
  obtain ⟨d, hd⟩ := Nat.exists_eq_add_of_le hmono
  rw [hd, Nat.add_sub_cancel_left] at hoffs
  -- Behind the used length nothing has been spent, so the head may stop there.
  have hunspent : ∀ k, ch.validLen ≤ d + k → used (slotOf call.curTime + k) = 0 := fun k hk => by
    rw [hd, Nat.add_assoc]
    exact h.rest _ hk
  refine ⟨Nat.mod_lt _ (by decide), ?_, h.credits, h.noCommand, ?_, fun k hk => ?_, h.bound⟩
  · show ch.validLen - ch.curTimeOffs call.curTime ≤ _
    omega
  · refine h.shows.advance (by omega) (fun k hk => ?_) (fun k hk => ?_) fun k hk => ?_
    · rw [← hbyte]
      exact refilled_eq h.head hk
    · show used (slotOf ch.curTime + (ch.curTimeOffs call.curTime + k)) =
        used (slotOf call.curTime + k)
      by_cases hstop : ch.validLen ≤ d
      · rw [hunspent k (by omega), h.rest _ (by omega)]
      · rw [hd, hoffs, Nat.min_eq_left (by omega), Nat.add_assoc]
    · exact hunspent k (by omega)
  · replace hk : ch.validLen - ch.curTimeOffs call.curTime ≤ k := hk
    exact hunspent k (by omega)

/-! ### The walk -/

/-- **The loop of `chmodel_request`** takes from the ring what the request takes from the ledger,
and ends at the last slot it has taken from. -/
theorem loop_spec {head fuel max t : ℕ} {w : CreditWalk} (hhead : head < nrCreditEntries)
    (hk : k < nrCreditEntries) (hfuel : nrCreditEntries - k ≤ fuel)
    (hpos : w.pos = (head + k) % nrCreditEntries)
    (hshows : Shows nrCreditEntries max w.availCredits head t used) :
    ∃ k' < nrCreditEntries, k ≤ k' ∧
      (CreditWalk.loop head fuel w).pos = (head + k') % nrCreditEntries ∧
      Shows nrCreditEntries max (CreditWalk.loop head fuel w).availCredits head t
        (take max (nrCreditEntries - k) (t + k) w.remainingCredits used) ∧
      ∀ x, t + k' < x →
        take max (nrCreditEntries - k) (t + k) w.remainingCredits used x = used x := by
  induction fuel generalizing k w used with
  | zero => omega
  | succ fuel ih =>
    have havail : w.availCredits w.pos = max - used (t + k) := by
      rw [hpos]
      exact hshows k hk
    have hshare : w.consumedCredits = share max w.remainingCredits (used (t + k)) := by
      unfold CreditWalk.consumedCredits share
      rw [havail]
      split_ifs <;> omega
    set used' := Function.update used (t + k) (used (t + k) + w.consumedCredits) with hused'
    have hcons : Shows nrCreditEntries max w.consume.availCredits head t used' := by
      have := hshows.consume hk w.consumedCredits
      rwa [← hpos] at this
    have htake : take max (nrCreditEntries - k) (t + k) w.remainingCredits used =
        take max (nrCreditEntries - (k + 1)) (t + (k + 1)) w.consume.remainingCredits used' := by
      rw [show nrCreditEntries - k = nrCreditEntries - (k + 1) + 1 by omega, take, ← hshare]
      rfl
    have hlater : ∀ x, t + k < x → used' x = used x := fun x hx =>
      Function.update_of_ne (by omega) _ _
    unfold CreditWalk.loop
    dsimp only
    by_cases hrem : w.consume.remainingCredits ≠ 0
    · rw [if_pos hrem]
      have hnext : (w.consume.pos + 1) % nrCreditEntries = (head + (k + 1)) % nrCreditEntries := by
        show (w.pos + 1) % nrCreditEntries = _
        rw [hpos, Nat.mod_add_mod, Nat.add_assoc]
      by_cases hlast : k + 1 < nrCreditEntries
      · have hne : (w.consume.pos + 1) % nrCreditEntries ≠ head := by
          rw [hnext]
          intro heq
          have hzero : (head + (k + 1)) % nrCreditEntries = (head + 0) % nrCreditEntries := by
            rw [heq, Nat.add_zero, Nat.mod_eq_of_lt hhead]
          exact absurd (ring_index_inj hlast (by decide) hzero) (Nat.succ_ne_zero k)
        rw [if_pos hne, htake]
        obtain ⟨k', hk', hle, hpos', hshows', hrest⟩ := ih
          (w := { w.consume with
            delay := w.consume.delay + 1, pos := (w.consume.pos + 1) % nrCreditEntries })
          hlast (by omega) hnext hcons
        exact ⟨k', hk', by omega, hpos', hshows', fun x hx =>
          (hrest x hx).trans (hlater x (by omega))⟩
      · have heq : (w.consume.pos + 1) % nrCreditEntries = head := by
          rw [hnext, show k + 1 = nrCreditEntries by omega, Nat.add_mod_right,
            Nat.mod_eq_of_lt hhead]
        rw [if_neg (not_not.2 heq), htake, show nrCreditEntries - (k + 1) = 0 by omega]
        exact ⟨k, hk, le_rfl, hpos, hcons, hlater⟩
    · rw [if_neg hrem, htake, not_not.1 hrem, take_zero]
      exact ⟨k, hk, le_rfl, hpos, hcons, hlater⟩

/-- The used length counts up to the entry a walk ends at. -/
theorem validLength_eq (hhead : ch.head < nrCreditEntries) (hk : k < nrCreditEntries) :
    ch.validLength ((ch.head + k) % nrCreditEntries) = k + 1 := by
  unfold validLength
  rcases Nat.lt_or_ge (ch.head + k) nrCreditEntries with h | h
  · rw [Nat.mod_eq_of_lt h, if_pos (Nat.le_add_right _ _)]
    omega
  · rw [Nat.mod_eq_sub_mod h, Nat.mod_eq_of_lt (by omega), if_neg (by omega)]
    omega

/-- Without command credits a transfer asks for its units. -/
theorem creditsFor_eq (h : ch.commandCredits = 0) (length : ℕ) :
    ch.creditsFor length = unitsToXfer length := by
  unfold creditsFor unitsToXfer unitXferCredits toUint32
  rw [h]
  omega

/-- **A transfer is charged to ring and ledger alike.** -/
theorem Tracks.transfer (h : ch.Tracks used) (hoffs : offs < nrCreditEntries)
    (requestTime length : ℕ) :
    ∃ ch' t, ch.transfer requestTime length offs = .ok (ch', t) ∧ ch'.curTime = ch.curTime ∧
      ch'.maxCredits = ch.maxCredits ∧ ch'.Tracks (take ch.maxCredits (nrCreditEntries - offs)
        (slotOf ch.curTime + offs) (unitsToXfer length) used) := by
  obtain ⟨k', hk', hle, hpos, hshows, hrest⟩ := loop_spec (w := {
    availCredits := ch.availCredits, pos := (ch.head + offs) % nrCreditEntries
    remainingCredits := ch.creditsFor length, delay := 0 }) h.head hoffs (Nat.sub_le _ _) rfl h.shows
  unfold ChannelModel.transfer
  rw [defined_bind (by have := h.credits; omega)]
  refine ⟨_, _, rfl, rfl, rfl, h.head, ?_, h.credits, h.noCommand, ?_, ?_, fun x => take_le h.bound⟩
  · have := h.validLen
    dsimp only
    rw [hpos, validLength_eq h.head hk']
    split_ifs <;> omega
  · rw [← creditsFor_eq h.noCommand]
    exact hshows
  · intro k hk
    dsimp only at hk
    rw [hpos, validLength_eq h.head hk'] at hk
    rw [← creditsFor_eq h.noCommand]
    have hunused : ch.validLen ≤ k ∧ k' < k := by split_ifs at hk <;> omega
    exact (hrest _ (Nat.add_lt_add_left hunused.2 _)).trans (h.rest k hunused.1)

/-! ### Runs -/

/-- **One call keeps the ring on the ledger.** -/
theorem Tracks.step (h : ch.Tracks used) (hmono : ch.curTime ≤ call.curTime)
    (hfit : ch.DistancesFit call) :
    ∃ ch', ch.step call = .ok ch' ∧ ch'.curTime = call.curTime ∧ ch'.maxCredits = ch.maxCredits ∧
      ch'.Tracks (ledgerStep ch.maxCredits used call) := by
  have hadv := h.advance (Nat.div_le_div_right hmono) hfit
  have hassert : (ch.advance call.curTime).validLen ≤ nrCreditEntries := hadv.validLen
  unfold ChannelModel.step chmodelRequest ledgerStep
  dsimp only
  rw [nvmevAssert_bind hassert]
  by_cases hpast : call.requestTime < call.curTime
  · rw [if_pos hpast, if_pos (.inl hpast)]
    exact ⟨_, rfl, rfl, rfl, hadv⟩
  rw [if_neg hpast]
  have hslot : slotOf call.curTime ≤ slotOf call.requestTime :=
    Nat.div_le_div_right (Nat.le_of_not_lt hpast)
  have hdist : requestTimeOffs call.curTime call.requestTime =
      (slotOf call.requestTime - slotOf call.curTime) % 2 ^ 32 := by
    unfold requestTimeOffs toUint32 slotOf at *
    omega
  obtain ⟨d, hd⟩ := Nat.exists_eq_add_of_le hslot
  have hahead := hfit.2.resolve_left hpast
  rw [hd, Nat.add_sub_cancel_left] at hdist hahead
  rw [hdist, hd, Nat.add_sub_cancel_left]
  by_cases hfar : nrCreditEntries ≤ d
  · have hcut : nrCreditEntries ≤ d % 2 ^ 32 := hahead.elim
      (fun hlt => by rwa [Nat.mod_eq_of_lt hlt]) id
    rw [if_pos hcut, if_pos (.inr hfar)]
    exact ⟨_, rfl, rfl, rfl, hadv⟩
  · have hcut : d % 2 ^ 32 = d := Nat.mod_eq_of_lt (by unfold nrCreditEntries at hfar; omega)
    rw [hcut, if_neg hfar, if_neg (not_or.2 ⟨hpast, hfar⟩)]
    obtain ⟨ch', t, htransfer, hcur, hmax, htracks⟩ :=
      hadv.transfer (Nat.lt_of_not_le hfar) call.requestTime call.length
    rw [htransfer]
    exact ⟨ch', rfl, hcur, hmax, htracks⟩

/-- **Every run whose distances fit keeps the ring on the ledger.** -/
theorem Tracks.run {calls : List ChannelCall} (h : ch.Tracks used)
    (hclock : (ch.curTime :: calls.map ChannelCall.curTime).Pairwise (· ≤ ·))
    (hfit : Along ChannelModel.step DistancesFit ch calls) :
    ∃ ch', runList ChannelModel.step ch calls = .ok ch' ∧ ch'.maxCredits = ch.maxCredits ∧
      ch'.Tracks (calls.foldl (ledgerStep ch.maxCredits) used) := by
  induction calls generalizing ch used with
  | nil => exact ⟨ch, rfl, rfl, h⟩
  | cons call calls ih =>
    rw [List.map_cons, List.pairwise_cons] at hclock
    obtain ⟨ch₁, hstep, hcur, hmax, h₁⟩ := h.step (hclock.1 _ List.mem_cons_self) hfit.1
    obtain ⟨ch₂, hrun, hmax₂, h₂⟩ := ih h₁ (hcur ▸ hclock.2) (hfit.2 ch₁ hstep)
    rw [hmax] at hmax₂ h₂
    exact ⟨ch₂, bind_eq_ok.2 ⟨ch₁, hstep, hrun⟩, hmax₂, h₂⟩

/-- A new channel has spent nothing. -/
theorem chmodelInit_tracks {avail : ℕ → ℕ} {bandwidth : ℕ} (hinit : chmodelInit avail bandwidth = .ok ch)
    (hmax : 1 ≤ ch.maxCredits ∧ ch.maxCredits ≤ 255) :
    ch.curTime = 0 ∧ ch.Tracks fun _ => 0 := by
  unfold chmodelInit at hinit
  obtain ⟨-, -, hinit⟩ := bind_eq_ok.1 hinit
  cases hinit
  refine ⟨rfl, (by decide : 0 < nrCreditEntries), Nat.zero_le _, hmax, rfl, fun k hk => ?_,
    fun _ _ => rfl, fun _ => Nat.zero_le _⟩
  dsimp only at hmax ⊢
  unfold memsetCredits
  rw [Nat.zero_add, Nat.mod_eq_of_lt hk, Nat.zero_add, if_pos ⟨Nat.zero_le k, hk⟩, Nat.sub_zero,
    Nat.mod_eq_of_lt (by omega)]

/-- **The credit ring refines the ledger:** in every run of calls under a clock that does not go
back, and whose distances fit, each entry of the ring is what its slot has left, and no slot has
spent more than it had. -/
theorem creditRing_refines_ledger {avail : ℕ → ℕ} {bandwidth : ℕ}
    (hinit : chmodelInit avail bandwidth = .ok ch)
    (hmax : 1 ≤ ch.maxCredits ∧ ch.maxCredits ≤ 255) {calls : List ChannelCall}
    (hclock : (calls.map ChannelCall.curTime).Pairwise (· ≤ ·))
    (hfit : Along ChannelModel.step DistancesFit ch calls) :
    ∃ ch', runList ChannelModel.step ch calls = .ok ch' ∧
      (∀ k < nrCreditEntries, ch'.availCredits ((ch'.head + k) % nrCreditEntries) =
        ch.maxCredits - ledger ch.maxCredits calls (slotOf ch'.curTime + k)) ∧
      ∀ slot, ledger ch.maxCredits calls slot ≤ ch.maxCredits := by
  obtain ⟨hcur, htracks⟩ := chmodelInit_tracks hinit hmax
  obtain ⟨ch', hrun, hmax', h⟩ := htracks.run
    (List.pairwise_cons.2 ⟨fun _ _ => hcur ▸ Nat.zero_le _, hclock⟩) hfit
  refine ⟨ch', hrun, ?_, ?_⟩
  · rw [← hmax']
    exact fun k hk => hmax' ▸ h.shows k hk
  · intro slot
    rw [← hmax']
    exact hmax' ▸ h.bound slot

/-- A transfer of two units, and a call 2³² + 1 slots later: the ring shows the second slot. -/
def lateCalls : List ChannelCall := [⟨0, 0, 256⟩, ⟨(2 ^ 32 + 1) * 4000, 0, 0⟩]

/-- Over a channel of one credit a slot, the late call finds a spent slot at the head. -/
theorem lateCalls_not_refined : ∃ ch, chmodelInit (fun _ => 0) 31 = .ok ch ∧
    (1 ≤ ch.maxCredits ∧ ch.maxCredits ≤ 255) ∧
    (lateCalls.map ChannelCall.curTime).Pairwise (· ≤ ·) ∧
    ¬ ∃ ch', runList ChannelModel.step ch lateCalls = .ok ch' ∧
      (∀ k < nrCreditEntries, ch'.availCredits ((ch'.head + k) % nrCreditEntries) =
        ch.maxCredits - ledger ch.maxCredits lateCalls (slotOf ch'.curTime + k)) ∧
      ∀ slot, ledger ch.maxCredits lateCalls slot ≤ ch.maxCredits := by
  obtain ⟨ch, hinit⟩ : ∃ ch, chmodelInit (fun _ => 0) 31 = .ok ch := ⟨_, rfl⟩
  have hrun : (runList ChannelModel.step ch lateCalls).toOption.any (fun ch' => decide (
      ch'.availCredits (ch'.head % nrCreditEntries) = 0 ∧
        slotOf ch'.curTime = 2 ^ 32 + 1)) = true ∧ ch.maxCredits = 1 := by
    cases hinit
    decide +kernel
  obtain ⟨hrun, hmax⟩ := hrun
  obtain ⟨ch₂, hrun₂, hp⟩ := exists_ok_of_any hrun
  obtain ⟨hspent, hslot⟩ := of_decide_eq_true hp
  refine ⟨ch, hinit, by omega, by decide, ?_⟩
  rintro ⟨ch', hch', hshows, -⟩
  rw [hrun₂] at hch'
  cases hch'
  have hfirst := hshows 0 (by decide)
  rw [Nat.add_zero, Nat.add_zero, hspent, hslot, hmax] at hfirst
  have hunspent : ledger 1 lateCalls (2 ^ 32 + 1) = 0 := by
    unfold ledger lateCalls ledgerStep
    rw [List.foldl_cons, List.foldl_cons, List.foldl_nil]
    dsimp only
    rw [if_pos (.inl (by decide)), if_neg (by decide)]
    exact take_of_outside (.inr (by decide))
  rw [hunspent] at hfirst
  exact absurd hfirst (by decide)

/-- Two units for the first slot, one for the second while they fill it, one for a slot that has
passed, and two for a slot ahead of the clock. -/
def fourCalls : List ChannelCall :=
  [⟨0, 0, 256⟩, ⟨4000, 4000, 128⟩, ⟨8000, 4000, 128⟩, ⟨40000, 80000, 256⟩]

/-- The clock passes the slots of the first calls, and the last one spends two slots ahead. -/
theorem creditRing_refines_ledger_four : ∃ ch ch', chmodelInit (fun _ => 0) 31 = .ok ch ∧
    runList ChannelModel.step ch fourCalls = .ok ch' ∧
    (slotOf ch'.curTime = 10 ∧ ch'.availCredits ((ch'.head + 10) % nrCreditEntries) = 0 ∧
      ch'.availCredits ((ch'.head + 12) % nrCreditEntries) = 1) ∧
    (∀ k < nrCreditEntries, ch'.availCredits ((ch'.head + k) % nrCreditEntries) =
      ch.maxCredits - ledger ch.maxCredits fourCalls (slotOf ch'.curTime + k)) ∧
    ∀ slot, ledger ch.maxCredits fourCalls slot ≤ ch.maxCredits := by
  obtain ⟨ch, hinit⟩ : ∃ ch, chmodelInit (fun _ => 0) 31 = .ok ch := ⟨_, rfl⟩
  have hcheck : (decide (ch.maxCredits = 1 ∧ Along ChannelModel.step DistancesFit ch fourCalls) &&
      (runList ChannelModel.step ch fourCalls).toOption.any fun ch' => decide (
        slotOf ch'.curTime = 10 ∧ ch'.availCredits ((ch'.head + 10) % nrCreditEntries) = 0 ∧
          ch'.availCredits ((ch'.head + 12) % nrCreditEntries) = 1)) = true := by
    cases hinit
    decide +kernel
  obtain ⟨hstart, hrun⟩ := Bool.and_eq_true_iff.1 hcheck
  obtain ⟨hmax, hfit⟩ := of_decide_eq_true hstart
  obtain ⟨ch₄, hrun₄, hp⟩ := exists_ok_of_any hrun
  obtain ⟨ch', hch', hshows⟩ :=
    creditRing_refines_ledger hinit (by omega) (by decide) hfit
  cases hrun₄.symm.trans hch'
  exact ⟨ch, ch₄, hinit, hrun₄, of_decide_eq_true hp, hshows⟩

end ChannelModel

end NvmeVirt
