/-
# The channel model

`chmodel_init`, `chmodel_request` and `chmodel_request_copy` of `channel_model.c`.  Time is cut into slots of
`UNIT_TIME_INTERVAL`; the ring `avail_credits` holds what each of the next slots has
left, from the slot of `cur_time` at `head` on.  Only the first `valid_len` entries
may have been used.
-/

import NvmeVirt.Ssd.Params

namespace NvmeVirt

open Outcome

/-- `NR_CREDIT_ENTRIES`. -/
def nrCreditEntries : ℕ := 1024 * 96

/-- `UNIT_TIME_INTERVAL`. -/
def unitTimeInterval : ℕ := 4000

/-- `UNIT_XFER_SIZE`. -/
def unitXferSize : ℕ := 128

/-- `UNIT_XFER_CREDITS`. -/
def unitXferCredits : ℕ := 1

/-- `MB(m)` in 64 bits. -/
def mb (m : ℕ) : ℕ := u64 (m <<< 20)

/-- `NS_PER_SEC(1)`. -/
def nsPerSec : ℕ := 10 ^ 9

/-- A `uint32_t` of the channel model. -/
def toUint32 (n : ℕ) : ℕ := n % 2 ^ 32

/-- `BANDWIDTH_TO_TX_TIME`. -/
def bandwidthToTxTime (mbS : ℕ) : ℕ := u64 (unitXferSize * nsPerSec) / mb mbS

/-- `BANDWIDTH_TO_MAX_CREDITS`. -/
def bandwidthToMaxCredits (mbS : ℕ) : ℕ :=
  u64 (u64 (mb mbS * unitTimeInterval) / nsPerSec / unitXferSize * unitXferCredits)

/-- `struct channel_model`; a `credit_t` is a byte. -/
structure ChannelModel where
  curTime : ℕ
  head : ℕ
  validLen : ℕ
  maxCredits : ℕ
  commandCredits : ℕ
  xferLat : ℕ
  availCredits : ℕ → ℕ

/-- `MEMSET` from the entry `first` on; the value is cut to a byte. -/
def memsetCredits (avail : ℕ → ℕ) (first value length : ℕ) (i : ℕ) : ℕ :=
  if first ≤ i ∧ i < first + length then value % 2 ^ 8 else avail i

/-- `chmodel_init` on memory that holds `avail`. -/
def chmodelInit (avail : ℕ → ℕ) (bandwidth : ℕ) : Except Fault ChannelModel := do
  defined (0 < mb bandwidth)
  let maxCredits := toUint32 (bandwidthToMaxCredits bandwidth)
  .ok {
    curTime := 0
    head := 0
    validLen := 0
    maxCredits := maxCredits
    commandCredits := 0
    xferLat := toUint32 (bandwidthToTxTime bandwidth)
    availCredits := memsetCredits avail 0 maxCredits nrCreditEntries }

/-- The variables of the loop of `chmodel_request`. -/
structure CreditWalk where
  availCredits : ℕ → ℕ
  pos : ℕ
  remainingCredits : ℕ
  delay : ℕ

namespace CreditWalk

variable (w : CreditWalk)

/-- `consumed_credits`. -/
def consumedCredits : ℕ :=
  if w.remainingCredits ≤ w.availCredits w.pos then w.remainingCredits else w.availCredits w.pos

/-- The credits of the entry at `pos` are taken. -/
def consume : CreditWalk :=
  { w with
    availCredits := Function.update w.availCredits w.pos
      (w.availCredits w.pos - w.consumedCredits)
    remainingCredits := w.remainingCredits - w.consumedCredits }

/-- The loop of `chmodel_request`; it comes to each entry once at most. -/
def loop (head : ℕ) : ℕ → CreditWalk → CreditWalk
  | 0, w => w
  | fuel + 1, w =>
    let w := w.consume
    if w.remainingCredits ≠ 0 then
      let nextPos := (w.pos + 1) % nrCreditEntries
      if nextPos ≠ head then loop head fuel { w with delay := w.delay + 1, pos := nextPos }
      else w
    else w

end CreditWalk

namespace ChannelModel

variable (ch : ChannelModel)

/-- `cur_time_offs` before it is cut to the used length; the difference is computed in 64 bits and
stored in 32. -/
def curTimeDistance (curTime : ℕ) : ℕ :=
  toUint32 (curTime / unitTimeInterval + 2 ^ 64 - ch.curTime / unitTimeInterval)

/-- `cur_time_offs`. -/
def curTimeOffs (curTime : ℕ) : ℕ :=
  if ch.curTimeDistance curTime < ch.validLen then ch.curTimeDistance curTime else ch.validLen

/-- The `MEMSET`s of `chmodel_request`: one before the end of the array, one behind it. -/
def refilled (offs : ℕ) : ℕ → ℕ :=
  if nrCreditEntries ≤ ch.head + offs then
    memsetCredits (memsetCredits ch.availCredits ch.head ch.maxCredits (nrCreditEntries - ch.head))
      0 ch.maxCredits (offs - (nrCreditEntries - ch.head))
  else memsetCredits ch.availCredits ch.head ch.maxCredits offs

/-- The head moves to the current time. -/
def advance (curTime : ℕ) : ChannelModel :=
  let offs := ch.curTimeOffs curTime
  { ch with
    availCredits := ch.refilled offs
    head := (ch.head + offs) % nrCreditEntries
    curTime := curTime
    validLen := ch.validLen - offs }

/-- `units_to_xfer`. -/
def unitsToXfer (length : ℕ) : ℕ := toUint32 (divRoundUp length unitXferSize)

/-- `remaining_credits` before the loop. -/
def creditsFor (length : ℕ) : ℕ :=
  toUint32 (toUint32 (unitsToXfer length * unitXferCredits) + ch.commandCredits)

/-- `request_time_offs`. -/
def requestTimeOffs (curTime requestTime : ℕ) : ℕ :=
  toUint32 (requestTime / unitTimeInterval + 2 ^ 64 - curTime / unitTimeInterval)

/-- `valid_length` of a walk that has ended at `pos`. -/
def validLength (pos : ℕ) : ℕ :=
  if ch.head ≤ pos then pos - ch.head + 1 else nrCreditEntries - (ch.head - pos - 1)

/-- `chmodel_request` behind the search for the request time. -/
def transfer (requestTime length offs : ℕ) : Except Fault (ChannelModel × ℕ) := do
  let remainingCredits := ch.creditsFor length
  defined (0 < ch.maxCredits)
  let defaultDelay := remainingCredits / ch.maxCredits
  let w := CreditWalk.loop ch.head nrCreditEntries {
    availCredits := ch.availCredits
    pos := (ch.head + offs) % nrCreditEntries
    remainingCredits := remainingCredits
    delay := 0 }
  let validLength := ch.validLength w.pos
  let delay := if defaultDelay < w.delay then w.delay - defaultDelay else 0
  let totalLatency :=
    u64 (toUint32 (ch.xferLat * unitsToXfer length) + delay * unitTimeInterval)
  .ok ({ ch with
    availCredits := w.availCredits
    validLen := if ch.validLen < validLength then validLength else ch.validLen },
    u64 (requestTime + totalLatency))

/-- `chmodel_request` at wall clock `curTime`, with the time it returns. -/
def chmodelRequest (curTime requestTime length : ℕ) : Except Fault (ChannelModel × ℕ) := do
  let ch := ch.advance curTime
  nvmevAssert .chmodelRequest (ch.validLen ≤ nrCreditEntries)
  if requestTime < curTime then return (ch, requestTime)
  let offs := requestTimeOffs curTime requestTime
  if nrCreditEntries ≤ offs then return (ch, requestTime)
  ch.transfer requestTime length offs

/-- The loop of `chmodel_request_copy`, over slots that are never used up. -/
def copyDelay (maxCredits : ℕ) : ℕ → ℕ → ℕ → ℕ
  | 0, _, delay => delay
  | fuel + 1, remainingCredits, delay =>
    let consumedCredits := if remainingCredits ≤ maxCredits then remainingCredits else maxCredits
    let remainingCredits := remainingCredits - consumedCredits
    if remainingCredits ≠ 0 then copyDelay maxCredits fuel remainingCredits (delay + 1) else delay

/-- `chmodel_request_copy`: the time alone, the channel is left as it is. -/
def chmodelRequestCopy (requestTime length : ℕ) : Except Fault ℕ := do
  let remainingCredits := ch.creditsFor length
  defined (0 < ch.maxCredits)
  let defaultDelay := remainingCredits / ch.maxCredits
  let delay := copyDelay ch.maxCredits (remainingCredits + 1) remainingCredits 0
  let delay := if defaultDelay < delay then delay - defaultDelay else 0
  let totalLatency :=
    u64 (toUint32 (ch.xferLat * unitsToXfer length) + delay * unitTimeInterval)
  .ok (u64 (requestTime + totalLatency))

end ChannelModel

end NvmeVirt
