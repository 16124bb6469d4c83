/-
# From a frame to a response

`getWaitingTimeInfo` answers for an amount that is not in the queue yet,
`getWaitingTimeInfoById` for a request id. Both read the stores behind the
readiness gate and turn the frame of an estimate into a delay.

An estimate for a queued request measures from the time of the request, so it
may end in the past; `checkInPastCase` then recalculates with the exit epoch of
today, and falls back to the next report when that does not help either.

The clock is read once: every `Date.now()` of one call has the value `now`.
-/

import WithdrawalsApi.WaitingTime.Frame

namespace WithdrawalsApi

open Js

inductive WaitingTimeStatus
  | initializing
  | calculating
  | finalized
  | calculated
  deriving DecidableEq, Repr

structure CalculateTimeByIdRequestInfo where
  finalizationIn : ℤ
  finalizationAt : ℤ
  requestId : Option ℕ := none
  requestedAt : Option ℤ := none
  type : WaitingTimeCalculationType
  deriving DecidableEq, Repr

structure GetWaitingTimeInfoResult where
  requestInfo : Option CalculateTimeByIdRequestInfo
  status : WaitingTimeStatus
  nextCalculationAt : Option ℤ
  deriving DecidableEq, Repr

/-- The response of both endpoints while the gate is closed. -/
def initializingResult : GetWaitingTimeInfoResult where
  requestInfo := none
  status := .initializing
  nextCalculationAt := none

/-- The amounts read from the chain at one block. -/
structure BlockState where
  unfinalized : ℤ
  buffer : ℤ
  vaultsBalance : ℤ

/-- A negative delay is replaced by five days. -/
def validateTimeResponseWithFallback (ms : ℤ) : ℤ :=
  if ms < 0 then 5 * 3600 * 24 * 1000 else ms

/-- What the queue up to and including a request asks for. -/
def calculateUnfinalizedEthToRequestId :
    List WithdrawalRequest → WithdrawalRequest → ℤ
  | [], _ => 0
  | entry :: requests, request =>
      if entry.id = request.id then entry.amountOfStETH
      else entry.amountOfStETH + calculateUnfinalizedEthToRequestId requests request

/-- `toEth(amount).toNumber()`, the value of a balance gauge. -/
def balanceGauge (amount : ℤ) : Outcome ℤ := do
  let eth ← BigNumber.div amount (10 ^ 18)
  BigNumber.toNumber eth

structure CheckInPastCaseResult where
  type : WaitingTimeCalculationType
  finalizationIn : ℤ

namespace Readings

variable (r : Readings) (now : ℤ)

/-- The exit epoch of the last validator that leaves, or the earliest epoch a
new exit can have when that one has passed. -/
def getMaxExitEpoch : ℤ :=
  max r.maxExitEpoch (r.time.getCurrentEpoch now + maxSeedLookahead + 1)

/-- The arguments of the estimate for an amount on top of the queue. -/
def amountArgs (state : BlockState) (amount : ℕ) : CalculateWaitingTimeV2Args where
  unfinalized := state.unfinalized + amount
  buffer := state.buffer
  vaultsBalance := state.vaultsBalance
  requestTimestamp := now
  latestEpoch := r.getMaxExitEpoch now

/-- `getWaitingTimeInfo` behind the readiness gate. -/
def getWaitingTimeInfo (state : BlockState) (amount : ℕ) : Outcome GetWaitingTimeInfoResult := do
  let nextCalculationAt := r.nextUpdate.toISOString
  let _balancesStateUnfinalized ← balanceGauge state.unfinalized
  let _balancesStateBuffer ← balanceGauge state.buffer
  let _balancesStateVaults ← balanceGauge state.vaultsBalance
  let result ← r.calculateWithdrawalFrame now (r.amountArgs now state amount)
  let ms := r.time.timeToWithdrawalFrame result.frame now
  let finalizationIn := validateTimeResponseWithFallback ms + gapAfterReport
  let finalizationAt ← toISOString (now + finalizationIn)
  pure {
    requestInfo := some { finalizationIn, finalizationAt, type := result.type }
    status := .calculated
    nextCalculationAt := some nextCalculationAt }

/-! ## The checks of `getWaitingTimeInfoById` -/

def checkIsEmptyQueue (requestId : ℕ) : Option GetWaitingTimeInfoResult :=
  let nextCalculationAt := r.nextUpdate.toISOString
  let isEmptyQueue := r.requests.length = 0 ∧ requestId < r.lastRequestId
  if isEmptyQueue then
    some { requestInfo := none, status := .finalized, nextCalculationAt := some nextCalculationAt }
  else none

def checkIsFinalized (requestId : ℕ) : Option GetWaitingTimeInfoResult :=
  let nextCalculationAt := r.nextUpdate.toISOString
  let firstRequestId := r.requests.head?.map WithdrawalRequest.id
  let isFinalized := firstRequestId.any fun first => decide (requestId < first)
  if isFinalized then
    some { requestInfo := none, status := .finalized, nextCalculationAt := some nextCalculationAt }
  else none

/-- For an unknown request the estimate for no additional ether is returned, under
another status. -/
def checkIsNotInQueueYet (requestId : ℕ) (state : BlockState) :
    Outcome (Option GetWaitingTimeInfoResult) := do
  let request := r.requests.find? fun item => decide (item.id = requestId)
  let isNotInQueueYet := request = none ∧ r.lastRequestId ≤ requestId
  if isNotInQueueYet then do
    let lastRequestResult ← r.getWaitingTimeInfo now state 0
    pure (some { lastRequestResult with
      status := .calculating
      requestInfo := lastRequestResult.requestInfo.map fun info =>
        { info with requestId := some requestId } })
  else pure none

/-! ## Estimates for a queued request -/

/-- The arguments of an estimate for a queued request. -/
def requestArgs (state : BlockState) (request : WithdrawalRequest) (latestEpoch : ℤ) :
    CalculateWaitingTimeV2Args where
  unfinalized := calculateUnfinalizedEthToRequestId r.requests request
  buffer := state.buffer
  vaultsBalance := state.vaultsBalance
  requestTimestamp := request.timestamp * 1000
  latestEpoch := latestEpoch

/-- The exit epoch the first estimate assumes: that of today, as far ahead of
the request as it is ahead of the clock. -/
def maxExitEpochInPast (request : WithdrawalRequest) : ℤ :=
  let currentExitValidatorsDiffEpochs :=
    max (r.getMaxExitEpoch now - r.time.getCurrentEpoch now) maxSeedLookahead
  r.time.getEpochByTimestamp (request.timestamp * 1000) + currentExitValidatorsDiffEpochs

/-- The delay that a frame gives a request. -/
def finalizationDelay (request : WithdrawalRequest) (frame : ℤ) : ℤ :=
  validateTimeResponseWithFallback
    (r.time.timeToWithdrawalFrame frame (request.timestamp * 1000)) + gapAfterReport

/-- Whether a delay of a request ends before the clock. -/
def isInPast (request : WithdrawalRequest) (finalizationIn : ℤ) : Bool :=
  decide (request.timestamp * 1000 + finalizationIn - now < 0)

def checkInPastCase (state : BlockState) (request : WithdrawalRequest)
    (estimate : CalculateWaitingTimeV2Result) : Outcome CheckInPastCaseResult := do
  let _timestamp ← BigNumber.toNumber request.timestamp
  let finalizationIn := r.finalizationDelay request estimate.frame
  let corrected ←
    if isInPast now request finalizationIn then do
      -- the validators did not exit in time
      let recalculatedResult ← r.calculateWithdrawalFrame now
        (r.requestArgs state request (r.getMaxExitEpoch now))
      pure (⟨recalculatedResult.type, r.finalizationDelay request recalculatedResult.frame⟩ :
        CheckInPastCaseResult)
    else pure ⟨estimate.type, finalizationIn⟩
  -- still in the past: fall back to the next frame
  if isInPast now request corrected.finalizationIn then
    pure { corrected with
      finalizationIn := r.time.timeToWithdrawalFrame (r.currentFrame now + 1)
        (request.timestamp * 1000) + gapAfterReport }
  else pure corrected

/-- The part of `getWaitingTimeInfoById` for a request of the queue. -/
def estimateRequest (state : BlockState) (request : WithdrawalRequest) :
    Outcome GetWaitingTimeInfoResult := do
  let nextCalculationAt := r.nextUpdate.toISOString
  let timestamp ← BigNumber.toNumber request.timestamp
  let requestTimestamp := timestamp * 1000
  let estimate ← r.calculateWithdrawalFrame now
    (r.requestArgs state request (r.maxExitEpochInPast now request))
  let settled ← r.checkInPastCase now state request estimate
  let requestedAt ← toISOString requestTimestamp
  let finalizationAt ← toISOString (requestTimestamp + settled.finalizationIn)
  pure {
    requestInfo := some {
      requestId := some request.id
      requestedAt := some requestedAt
      finalizationIn := requestTimestamp + settled.finalizationIn - now
      finalizationAt
      type := settled.type }
    status := .calculated
    nextCalculationAt := some nextCalculationAt }

/-- `getWaitingTimeInfoById` behind the readiness gate. -/
def getWaitingTimeInfoById (state : BlockState) (requestId : ℕ) :
    Outcome GetWaitingTimeInfoResult := do
  if let some isEmptyQueue := r.checkIsEmptyQueue requestId then return isEmptyQueue
  if let some isFinalized := r.checkIsFinalized requestId then return isFinalized
  if let some isNotInQueueYet ← r.checkIsNotInQueueYet now requestId state then
    return isNotInQueueYet
  match r.requests.find? fun item => decide (item.id = requestId) with
  | some request => r.estimateRequest now state request
  -- a gap in the queue: the source reads the id of a request it did not find
  | none => throw .undefinedRead

variable {r now} {state : BlockState}

theorem getCurrentEpoch_le_getMaxExitEpoch :
    r.time.getCurrentEpoch now ≤ r.getMaxExitEpoch now := by
  simp only [getMaxExitEpoch, maxSeedLookahead]
  omega

/-- A response for an amount rests on one estimate. -/
theorem getWaitingTimeInfo_eq_ok {amount : ℕ} {info : GetWaitingTimeInfoResult}
    (h : r.getWaitingTimeInfo now state amount = .ok info) :
    ∃ result, r.calculateWithdrawalFrame now (r.amountArgs now state amount) = .ok result ∧
      info.status = .calculated ∧
      ∃ requestInfo, info.requestInfo = some requestInfo ∧ requestInfo.type = result.type ∧
        requestInfo.finalizationIn = validateTimeResponseWithFallback
          (r.time.timeToWithdrawalFrame result.frame now) + gapAfterReport ∧
        requestInfo.finalizationAt = now + requestInfo.finalizationIn := by
  simp only [getWaitingTimeInfo, Outcome.bind_eq_ok, Outcome.pure_eq_ok] at h
  obtain ⟨_, -, _, -, _, -, result, hresult, finalizationAt, hat, rfl⟩ := h
  rw [toISOString_eq_ok] at hat
  exact ⟨result, hresult, rfl, _, rfl, rfl, rfl, hat.2.symm⟩

end Readings

namespace Stores

def getWaitingTimeInfo (stores : Stores) (now : ℤ) (state : BlockState) (amount : ℕ) :
    Outcome GetWaitingTimeInfoResult :=
  if stores.isInitialized then do
    let r ← stores.readings
    r.getWaitingTimeInfo now state amount
  else pure initializingResult

def getWaitingTimeInfoById (stores : Stores) (now : ℤ) (state : BlockState) (requestId : ℕ) :
    Outcome GetWaitingTimeInfoResult :=
  if stores.isInitialized then do
    let r ← stores.readings
    r.getWaitingTimeInfoById now state requestId
  else pure initializingResult

variable {stores : Stores} {r : Readings} {now : ℤ} {state : BlockState} {requestId : ℕ}

/-- Behind an open gate the response is computed from the readings. -/
theorem getWaitingTimeInfo_of_readings {amount : ℕ} (hinitialized : stores.isInitialized = true)
    (hreadings : stores.readings = .ok r) :
    stores.getWaitingTimeInfo now state amount = r.getWaitingTimeInfo now state amount := by
  rw [getWaitingTimeInfo, if_pos hinitialized, hreadings, Outcome.ok_bind]

theorem getWaitingTimeInfoById_of_readings (hinitialized : stores.isInitialized = true)
    (hreadings : stores.readings = .ok r) :
    stores.getWaitingTimeInfoById now state requestId =
      r.getWaitingTimeInfoById now state requestId := by
  rw [getWaitingTimeInfoById, if_pos hinitialized, hreadings, Outcome.ok_bind]

/-- Only an open gate lets the status `calculated` through. -/
theorem getWaitingTimeInfo_eq_ok {amount : ℕ} {info : GetWaitingTimeInfoResult}
    (h : stores.getWaitingTimeInfo now state amount = .ok info)
    (hcalculated : info.status = .calculated) :
    stores.isInitialized = true ∧
      ∃ r, stores.readings = .ok r ∧ r.getWaitingTimeInfo now state amount = .ok info := by
  unfold getWaitingTimeInfo at h
  split at h
  case isTrue hinitialized => exact ⟨hinitialized, Outcome.bind_eq_ok.mp h⟩
  case isFalse =>
    obtain rfl := Outcome.pure_eq_ok.mp h
    cases hcalculated

theorem getWaitingTimeInfoById_eq_ok {info : GetWaitingTimeInfoResult}
    (h : stores.getWaitingTimeInfoById now state requestId = .ok info)
    (hcalculated : info.status = .calculated) :
    stores.isInitialized = true ∧
      ∃ r, stores.readings = .ok r ∧ r.getWaitingTimeInfoById now state requestId = .ok info := by
  unfold getWaitingTimeInfoById at h
  split at h
  case isTrue hinitialized => exact ⟨hinitialized, Outcome.bind_eq_ok.mp h⟩
  case isFalse =>
    obtain rfl := Outcome.pure_eq_ok.mp h
    cases hcalculated

end Stores

end WithdrawalsApi
