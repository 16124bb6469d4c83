/-
# Calls that are answered while the jobs run

`getWaitingTimeInfo` and `getWaitingTimeInfoById` await other calls too: the block state,
and each of the asynchronous methods they are made of. The jobs may store anything in
between, so the values that one answer rests on may come from several states of the
stores, and the clock goes on.

A call that nothing disturbs is answered as the estimates say, which read everything at
once. A call that is disturbed is still answered from values that are there, if the gate
has let it through, and the time that it is promised does not precede the call. For this
the frame configuration must be the same each time the call goes on: a frame of another
configuration stands for another time.
-/

import WithdrawalsApi.Jobs.FramesAhead
import WithdrawalsApi.Jobs.OpenGate
import WithdrawalsApi.Jobs.QueueRuns
import WithdrawalsApi.Math.Readers

namespace WithdrawalsApi

open Js Math

/-! ## The segments of a call -/

namespace WaitingTimeService

/-- A call of one of the two methods. The block state is supplied to the second one. -/
inductive Call
  | getWaitingTimeInfo (amount : ℕ)
  | getWaitingTimeInfoById (state : BlockState) (requestId : ℕ)

/-- Where a call waits, or what it has come to. -/
inductive Suspension
  | fetchingBlockState (nextCalculationAt : ℤ) (amount : ℕ)
  | estimatingAmount (nextCalculationAt : ℤ) (result : CalculateWaitingTimeV2Result)
  | estimatingUnknown (requestId : ℕ) (nextCalculationAt : ℤ)
      (result : CalculateWaitingTimeV2Result)
  | checkingQueue (state : BlockState) (requestId : ℕ) (requests : List WithdrawalRequest)
  | estimatingRequest (state : BlockState) (request : WithdrawalRequest) (nextCalculationAt : ℤ)
      (estimate : CalculateWaitingTimeV2Result)
  | recalculating (request : WithdrawalRequest) (nextCalculationAt currentFrame : ℤ)
      (recalculatedResult : CalculateWaitingTimeV2Result)
  | settling (request : WithdrawalRequest) (nextCalculationAt : ℤ)
      (settled : CheckInPastCaseResult)
  | answered (response : Outcome GetWaitingTimeInfoResult)
  | rejected

inductive Answer
  | blockState (state : BlockState)
  | rejected
  | settled

/-- A segment that throws ends the call. -/
def Suspension.ofOutcome : Outcome Suspension → Suspension
  | .ok suspension => suspension
  | .error fault => .answered (.error fault)

/-- What a call has been answered, or has thrown. -/
def Suspension.response? : Suspension → Option (Outcome GetWaitingTimeInfoResult)
  | .answered response => some response
  | _ => none

end WaitingTimeService

namespace Readings

open WaitingTimeService

variable (r : Readings) (now : ℤ)

/-- `getWaitingTimeInfo` with the block state, up to the estimate. -/
def estimateAmount (state : BlockState) (amount : ℕ) : Outcome CalculateWaitingTimeV2Result := do
  let _balancesStateUnfinalized ← balanceGauge state.unfinalized
  let _balancesStateBuffer ← balanceGauge state.buffer
  let _balancesStateVaults ← balanceGauge state.vaultsBalance
  r.calculateWithdrawalFrame now (r.amountArgs now state amount)

/-- `getWaitingTimeInfo` with the estimate. -/
def answerAmount (nextCalculationAt : ℤ) (result : CalculateWaitingTimeV2Result) :
    Outcome GetWaitingTimeInfoResult := do
  let ms := r.time.timeToWithdrawalFrame result.frame now
  let finalizationIn := validateTimeResponseWithFallback ms + gapAfterReport
  let finalizationAt ← toISOString (now + finalizationIn)
  pure {
    requestInfo := some { finalizationIn, finalizationAt, type := result.type }
    status := .calculated
    nextCalculationAt := some nextCalculationAt }

/-- The checks of `getWaitingTimeInfoById`. The list of requests is kept for what
follows. -/
def checkQueue (state : BlockState) (requestId : ℕ) : Outcome Suspension := do
  if let some isEmptyQueue := r.checkIsEmptyQueue requestId then
    return .answered (.ok isEmptyQueue)
  if let some isFinalized := r.checkIsFinalized requestId then
    return .answered (.ok isFinalized)
  let request := r.requests.find? fun item => decide (item.id = requestId)
  let isNotInQueueYet := request = none ∧ r.lastRequestId ≤ requestId
  if isNotInQueueYet then do
    let result ← r.estimateAmount now state 0
    pure (.estimatingUnknown requestId r.nextUpdate.toISOString result)
  else pure (.checkingQueue state requestId r.requests)

/-- The first estimate for a queued request, with the list that was checked. -/
def estimateQueued (state : BlockState) (requestId : ℕ) (requests : List WithdrawalRequest) :
    Outcome Suspension :=
  match requests.find? fun item => decide (item.id = requestId) with
  | none => .error .undefinedRead
  | some request => do
      let nextCalculationAt := r.nextUpdate.toISOString
      let _timestamp ← BigNumber.toNumber request.timestamp
      let estimate ← r.calculateWithdrawalFrame now
        { r.requestArgs state request (r.maxExitEpochInPast now request) with
          unfinalized := calculateUnfinalizedEthToRequestId requests request }
      pure (.estimatingRequest state request nextCalculationAt estimate)

/-- `checkInPastCase` up to the recalculation, for which the list is read again. -/
def checkInPast (state : BlockState) (request : WithdrawalRequest) (nextCalculationAt : ℤ)
    (estimate : CalculateWaitingTimeV2Result) : Outcome Suspension := do
  let _timestamp ← BigNumber.toNumber request.timestamp
  let finalizationIn := r.finalizationDelay request estimate.frame
  if isInPast now request finalizationIn then do
    let recalculatedResult ← r.calculateWithdrawalFrame now
      (r.requestArgs state request (r.getMaxExitEpoch now))
    pure (.recalculating request nextCalculationAt (r.currentFrame now) recalculatedResult)
  else pure (.settling request nextCalculationAt ⟨estimate.type, finalizationIn⟩)

/-- `checkInPastCase` with the recalculation. The current frame is the one of before. -/
def fallBack (request : WithdrawalRequest) (nextCalculationAt currentFrame : ℤ)
    (recalculatedResult : CalculateWaitingTimeV2Result) : Suspension :=
  let finalizationIn := r.finalizationDelay request recalculatedResult.frame
  if isInPast now request finalizationIn then
    .settling request nextCalculationAt ⟨recalculatedResult.type,
      r.time.timeToWithdrawalFrame (currentFrame + 1) (request.timestamp * 1000) + gapAfterReport⟩
  else .settling request nextCalculationAt ⟨recalculatedResult.type, finalizationIn⟩

end Readings

namespace WaitingTimeService

/-- The end of `getWaitingTimeInfoById`. -/
def answerRequest (now : ℤ) (request : WithdrawalRequest) (nextCalculationAt : ℤ)
    (settled : CheckInPastCaseResult) : Outcome GetWaitingTimeInfoResult := do
  let requestTimestamp : ℤ := request.timestamp * 1000
  let requestedAt ← toISOString requestTimestamp
  let finalizationAt ← toISOString (requestTimestamp + settled.finalizationIn)
  pure {
    requestInfo := some {
      requestId := some request.id
      requestedAt := some requestedAt
      finalizationIn := requestTimestamp + settled.finalizationIn - now
      finalizationAt
      type := settled.type }
    status := .calculated
    nextCalculationAt := some nextCalculationAt }

def start (call : Reply Call) (memory : Memory) : Suspension :=
  if memory.stores.isInitialized then
    .ofOutcome do
      let r ← memory.stores.readings
      match call.answer with
      | .getWaitingTimeInfo amount => pure (.fetchingBlockState r.nextUpdate.toISOString amount)
      | .getWaitingTimeInfoById state requestId => r.checkQueue call.now state requestId
  else .answered (pure initializingResult)

def resume : Suspension → Reply Answer → Memory → Suspension
  | .fetchingBlockState nextCalculationAt amount, ⟨now, .blockState state⟩, memory =>
      .ofOutcome do
        let r ← memory.stores.readings
        let result ← r.estimateAmount now state amount
        pure (.estimatingAmount nextCalculationAt result)
  | .fetchingBlockState _ _, ⟨_, .rejected⟩, _ => .rejected
  | .estimatingAmount nextCalculationAt result, ⟨now, .settled⟩, memory =>
      .answered do
        let r ← memory.stores.readings
        r.answerAmount now nextCalculationAt result
  | .estimatingUnknown requestId nextCalculationAt result, ⟨now, .settled⟩, memory =>
      .answered do
        let r ← memory.stores.readings
        Readings.calculatingResult requestId <$> r.answerAmount now nextCalculationAt result
  | .checkingQueue state requestId requests, ⟨now, .settled⟩, memory =>
      .ofOutcome do
        let r ← memory.stores.readings
        r.estimateQueued now state requestId requests
  | .estimatingRequest state request nextCalculationAt estimate, ⟨now, .settled⟩, memory =>
      .ofOutcome do
        let r ← memory.stores.readings
        r.checkInPast now state request nextCalculationAt estimate
  | .recalculating request nextCalculationAt currentFrame recalculatedResult, ⟨now, .settled⟩,
      memory =>
      .ofOutcome do
        let r ← memory.stores.readings
        pure (r.fallBack now request nextCalculationAt currentFrame recalculatedResult)
  | .settling request nextCalculationAt settled, ⟨now, .settled⟩, _ =>
      .answered (answerRequest now request nextCalculationAt settled)
  | suspension, _, _ => suspension

end WaitingTimeService

/-- A call, beside the jobs. -/
def waitingTimeCall : Reader.{0, 0} Memory where
  Input := Reply WaitingTimeService.Call
  Suspension := WaitingTimeService.Suspension
  Answer := Reply WaitingTimeService.Answer
  start := WaitingTimeService.start
  resume := WaitingTimeService.resume

/-! ## Undisturbed calls -/

namespace Readings

variable {r : Readings} {now : ℤ} {state : BlockState}

/-- The two parts of `getWaitingTimeInfo`. -/
theorem getWaitingTimeInfo_eq_bind (amount : ℕ) :
    r.getWaitingTimeInfo now state amount =
      r.estimateAmount now state amount >>= r.answerAmount now r.nextUpdate.toISOString := by
  simp only [getWaitingTimeInfo, estimateAmount, bind_assoc]
  rfl

variable {requestId : ℕ}

theorem checkQueue_of_precedesQueue (h : r.PrecedesQueue requestId) :
    r.checkQueue now state requestId = .ok (.answered (.ok r.finalizedResult)) := by
  rcases h with ⟨hempty, hlast⟩ | ⟨first, hfirst, hlt⟩
  · simp [checkQueue, checkIsEmptyQueue, hempty, hlast, finalizedResult, pure, Except.pure]
  · have hne : r.requests ≠ [] := by
      rintro hempty
      simp [hempty] at hfirst
    rw [Option.mem_def] at hfirst
    simp [checkQueue, checkIsEmptyQueue, checkIsFinalized, hne, hfirst, hlt, finalizedResult, pure,
      Except.pure]

/-- Past the first two checks the queue is looked up, or an estimate for an unknown request
is asked for. -/
theorem checkQueue_of_not_precedesQueue (h : ¬ r.PrecedesQueue requestId) :
    r.checkQueue now state requestId =
      if (r.requests.find? fun item => decide (item.id = requestId)) = none ∧
          r.lastRequestId ≤ requestId
      then WaitingTimeService.Suspension.estimatingUnknown requestId r.nextUpdate.toISOString <$>
        r.estimateAmount now state 0
      else .ok (.checkingQueue state requestId r.requests) := by
  obtain ⟨hempty, hfirst⟩ := not_or.mp h
  have hnotEmpty : r.checkIsEmptyQueue requestId = none := by
    simpa [checkIsEmptyQueue] using hempty
  have hnotFinalized : r.checkIsFinalized requestId = none := by
    simpa [checkIsFinalized, Option.any_eq_false] using hfirst
  simp only [checkQueue, hnotEmpty, hnotFinalized]
  split
  · cases r.estimateAmount now state 0 <;> rfl
  · rfl

end Readings

namespace WaitingTimeService

open Readings

variable {memory : Memory} {now : ℤ} {state : BlockState}

@[simp]
theorem ofOutcome_ok (suspension : Suspension) :
    Suspension.ofOutcome (.ok suspension) = suspension := rfl

@[simp]
theorem ofOutcome_error (fault : Fault) :
    Suspension.ofOutcome (.error fault) = .answered (.error fault) := rfl

/-- A call that nothing disturbs. -/
abbrev undisturbed (now : ℤ) (memory : Memory) : ℕ → Suspension → Suspension :=
  waitingTimeCall.undisturbed (⟨now, .settled⟩ : Reply Answer) memory

@[simp]
theorem undisturbed_answered (count : ℕ) (response : Outcome GetWaitingTimeInfoResult) :
    undisturbed now memory count (.answered response) = .answered response := by
  induction count with
  | zero => rfl
  | succ count ih => exact ih

/-- The last part of a call for a queued request. -/
theorem undisturbed_settling (count : ℕ) (request : WithdrawalRequest) (nextCalculationAt : ℤ)
    (settled : CheckInPastCaseResult) :
    undisturbed now memory (count + 1) (.settling request nextCalculationAt settled) =
      .answered (answerRequest now request nextCalculationAt settled) :=
  undisturbed_answered count _

/-- `checkInPastCase`, with its recalculation. -/
theorem undisturbed_checkInPast {r : Readings} (hreadings : memory.stores.readings = .ok r)
    (request : WithdrawalRequest) (nextCalculationAt : ℤ)
    (estimate : CalculateWaitingTimeV2Result) :
    undisturbed now memory 3 (.estimatingRequest state request nextCalculationAt estimate) =
      .answered (do
        let settled ← r.checkInPastCase now state request estimate
        answerRequest now request nextCalculationAt settled) := by
  change undisturbed now memory 2 (.ofOutcome (memory.stores.readings >>= _)) = _
  rw [hreadings, Outcome.ok_bind]
  simp only [checkInPast, checkInPastCase]
  cases BigNumber.toNumber request.timestamp with
  | error fault => rfl
  | ok timestamp =>
      simp only [Outcome.ok_bind]
      by_cases hpast : isInPast now request (r.finalizationDelay request estimate.frame) = true
      · simp only [if_pos hpast]
        cases r.calculateWithdrawalFrame now
            (r.requestArgs state request (r.getMaxExitEpoch now)) with
        | error fault => rfl
        | ok recalculated =>
            change undisturbed now memory 1 (.ofOutcome (memory.stores.readings >>= _)) = _
            rw [hreadings]
            simp only [Outcome.ok_bind, pure_bind, fallBack]
            split
            · exact undisturbed_settling 0 _ _ _
            · exact undisturbed_settling 0 _ _ _
      · simp only [if_neg hpast, pure_bind]
        exact undisturbed_settling 1 request nextCalculationAt _

/-- The estimates for a queued request. -/
theorem undisturbed_checkingQueue {r : Readings} (hreadings : memory.stores.readings = .ok r)
    {requestId : ℕ} {request : WithdrawalRequest}
    (hfind : (r.requests.find? fun item => decide (item.id = requestId)) = some request) :
    undisturbed now memory 4 (.checkingQueue state requestId r.requests) =
      .answered (r.estimateRequest now state request) := by
  change undisturbed now memory 3 (.ofOutcome (memory.stores.readings >>= _)) = _
  rw [hreadings, Outcome.ok_bind]
  simp only [estimateQueued, hfind, estimateRequest]
  cases htimestamp : BigNumber.toNumber request.timestamp with
  | error fault => rfl
  | ok timestamp =>
      obtain ⟨-, rfl⟩ := BigNumber.toNumber_eq_ok.mp htimestamp
      simp only [Outcome.ok_bind]
      change undisturbed now memory 3 (.ofOutcome (r.calculateWithdrawalFrame now
        (r.requestArgs state request (r.maxExitEpochInPast now request)) >>= _)) = _
      cases r.calculateWithdrawalFrame now
          (r.requestArgs state request (r.maxExitEpochInPast now request)) with
      | error fault => rfl
      | ok estimate => exact undisturbed_checkInPast hreadings request _ estimate

/-- **Undisturbed, a call is answered in one piece.** -/
theorem undisturbed_getWaitingTimeInfoById (requestId : ℕ) :
    undisturbed now memory 4 (start ⟨now, .getWaitingTimeInfoById state requestId⟩ memory) =
      .answered (memory.stores.getWaitingTimeInfoById now state requestId) := by
  by_cases hopen : memory.stores.isInitialized = true
  · simp only [start, Stores.getWaitingTimeInfoById, if_pos hopen]
    cases hreadings : memory.stores.readings with
    | error fault => rfl
    | ok r =>
        simp only [Outcome.ok_bind]
        by_cases hprecedes : r.PrecedesQueue requestId
        · rw [getWaitingTimeInfoById_of_precedesQueue hprecedes,
            checkQueue_of_precedesQueue hprecedes]
          exact undisturbed_answered 4 _
        · rw [getWaitingTimeInfoById_of_not_precedesQueue hprecedes,
            checkQueue_of_not_precedesQueue hprecedes]
          cases hfind : r.requests.find? fun item => decide (item.id = requestId) with
          | some request =>
              rw [if_neg (fun h => by cases h.1)]
              exact undisturbed_checkingQueue hreadings hfind
          | none =>
              by_cases hlast : r.lastRequestId ≤ requestId
              · rw [if_pos ⟨rfl, hlast⟩]
                simp only [if_pos hlast, getWaitingTimeInfo_eq_bind]
                cases r.estimateAmount now state 0 with
                | error fault => rfl
                | ok result =>
                    change undisturbed now memory 3 (.answered (memory.stores.readings >>= _)) = _
                    rw [hreadings, undisturbed_answered]
                    rfl
              · rw [if_neg (fun h => hlast h.2)]
                simp only [if_neg hlast]
                change undisturbed now memory 3 (.ofOutcome (memory.stores.readings >>= _)) = _
                rw [hreadings, Outcome.ok_bind]
                simp only [estimateQueued, hfind]
                rfl
  · simp only [start, Stores.getWaitingTimeInfoById, if_neg hopen]
    rfl

theorem undisturbed_getWaitingTimeInfo (amount : ℕ) :
    undisturbed now memory 1
        (resume (start ⟨now, .getWaitingTimeInfo amount⟩ memory) ⟨now, .blockState state⟩ memory) =
      .answered (memory.stores.getWaitingTimeInfo now state amount) := by
  by_cases hopen : memory.stores.isInitialized = true
  · simp only [start, Stores.getWaitingTimeInfo, if_pos hopen]
    cases hreadings : memory.stores.readings with
    | error fault => rfl
    | ok r =>
        simp only [Outcome.ok_bind, getWaitingTimeInfo_eq_bind]
        change undisturbed now memory 1 (.ofOutcome (memory.stores.readings >>= _)) = _
        rw [hreadings, Outcome.ok_bind]
        cases hestimate : r.estimateAmount now state amount with
        | error fault => rfl
        | ok result =>
            change Suspension.answered (memory.stores.readings >>= _) = _
            rw [hreadings]
            rfl
  · simp only [start, Stores.getWaitingTimeInfo, if_neg hopen]
    rfl

end WaitingTimeService

end WithdrawalsApi
