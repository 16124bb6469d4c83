/-
# The queue job

`updateQueueInfo` reads the state of the withdrawal queue, extends the stored
list of unfinalized requests by the ones it does not hold yet, and stores
everything in one go. Requests are fetched in pages; a stored list that is not
contiguous from the first unfinalized request is fetched anew.
-/

import WithdrawalsApi.Jobs.Memory
import WithdrawalsApi.Math.Jobs

namespace WithdrawalsApi

open Js Math

namespace QueueInfoService

/-- What the batch of reads answers about the queue. The buffered ether is read too,
for the log. -/
structure QueueState where
  lastRequestId : ℕ
  unfinalizedRequests : ℕ
  bunkerModeActive : Bool
  unfinalizedStETH : ℕ
  minStethAmount : ℕ
  maxStethAmount : ℕ
  depositableEther : ℕ

/-- What the contract reports about one request. -/
structure WithdrawalStatus where
  amountOfStETH : ℕ
  timestamp : ℕ
  deriving DecidableEq

/-- The clock and the dates of the cron job, far inside the range of `Date`. -/
structure CronClock where
  now : ℤ
  nextDate : ℤ
  lastDate : Option ℤ
  valid : ∀ nextUpdate, nextUpdate = (match lastDate with
      | none => nextDate
      | some startOfLastJob => nextDate + (now - startOfLastJob)) →
    -maxTimeValue ≤ nextUpdate ∧ nextUpdate ≤ maxTimeValue

/-- The next tick, later by as long as the running job has taken. -/
def getNextUpdateDate (clock : CronClock) : Date where
  time := match clock.lastDate with
    | none => clock.nextDate
    | some startOfLastJob => clock.nextDate + (clock.now - startOfLastJob)
  valid := clock.valid _ rfl

/-- The length of an array is below `2 ^ 32`. -/
def maxArrayLength : ℕ := 2 ^ 32 - 1

/-- The ids of the unfinalized requests. -/
def getRequestIds (lastRequestId unfinalizedRequests : ℕ) : Outcome (List ℤ) := do
  if unfinalizedRequests = 0 then pure []
  else
    let firstRequestId : ℤ := lastRequestId - unfinalizedRequests + 1
    let _ ← BigNumber.toNumber unfinalizedRequests
    if maxArrayLength < unfinalizedRequests then .error .overflow
    else pure ((List.range unfinalizedRequests).map fun i : ℕ => firstRequestId + (i : ℤ))

def hasContiguousIds (requests : List WithdrawalRequest) (firstExpectedRequestId : ℤ) : Bool :=
  requests.zipIdx.all fun entry => decide ((entry.1.id : ℤ) = firstExpectedRequestId + entry.2)

/-- The requests that are already there, and the ids still to be fetched. -/
def getUpdatedRequests (cachedRequests : List WithdrawalRequest) (queue : QueueState) :
    Outcome (List WithdrawalRequest × List ℤ) := do
  let requestIds ← getRequestIds queue.lastRequestId queue.unfinalizedRequests
  match requestIds with
  | [] => pure ([], [])
  | firstExpectedRequestId :: _ =>
      let cachedActiveRequests := cachedRequests.filter fun request =>
        decide (firstExpectedRequestId ≤ (request.id : ℤ) ∧ request.id ≤ queue.lastRequestId)
      if hasContiguousIds cachedActiveRequests firstExpectedRequestId then
        let nextRequestId := match cachedActiveRequests.getLast? with
          | some lastCachedRequest => (lastCachedRequest.id : ℤ) + 1
          | none => firstExpectedRequestId
        let nextRequestIndex ← BigNumber.toNumber (nextRequestId - firstExpectedRequestId)
        pure (cachedActiveRequests, requestIds.drop nextRequestIndex.toNat)
      else pure ([], requestIds)

/-- `WITHDRAWAL_STATUS_PAGE_SIZE`. -/
def withdrawalStatusPageSize : ℕ := 50

inductive Suspension
  | fetchingQueue
  | fetchingPage (queue : QueueState) (requests : List WithdrawalRequest) (requestIds : List ℤ)

inductive Answer
  | queue (state : QueueState)
  | page (withdrawalStatuses : List WithdrawalStatus)
  | rejected

/-- A completed update of the store. -/
def published (queue : QueueState) (requests : List WithdrawalRequest) (clock : CronClock) :
    QueueInfoStorageService where
  requests
  unfinalizedStETH := some queue.unfinalizedStETH
  lastRequestId := some queue.lastRequestId
  unfinalizedRequestsCount := some queue.unfinalizedRequests
  minStethAmount := some queue.minStethAmount
  maxStethAmount := some queue.maxStethAmount
  depositableEther := some queue.depositableEther
  lastUpdate := some (clock.now / 1000)
  nextUpdate := some (getNextUpdateDate clock)
  bunkerModeActive := some queue.bunkerModeActive

/-- The loop over the pages, and the end of the job. -/
def nextPage (queue : QueueState) (requests : List WithdrawalRequest) (requestIds : List ℤ)
    (clock : CronClock) (memory : Memory) : Memory × Option Suspension :=
  match requestIds with
  | [] => (memory.setQueueInfo (published queue requests clock), none)
  | _ :: _ => (memory, some (.fetchingPage queue requests requestIds))

/-- The page that is asked for first. -/
def pageOf (requestIds : List ℤ) : List ℤ := requestIds.take withdrawalStatusPageSize

def resume : Suspension → CronClock × Answer → Memory → Memory × Option Suspension
  | .fetchingQueue, ⟨clock, .queue queue⟩, memory =>
      match getUpdatedRequests memory.stores.queueInfo.requests queue with
      | .ok (requests, requestIds) => nextPage queue requests requestIds clock memory
      | .error _ => (memory, none)
  | .fetchingPage queue requests requestIds, ⟨clock, .page withdrawalStatuses⟩, memory =>
      -- the contract rejects an id that is not positive
      if (pageOf requestIds).all fun id => decide (0 < id) then
        let fetched := List.zipWith
          (fun (id : ℤ) (status : WithdrawalStatus) =>
            { id := id.toNat
              amountOfStETH := status.amountOfStETH
              timestamp := status.timestamp : WithdrawalRequest })
          (pageOf requestIds) withdrawalStatuses
        nextPage queue (requests ++ fetched) (requestIds.drop withdrawalStatusPageSize) clock memory
      else (memory, none)
  | _, _, memory => (memory, none)

private theorem nextPage_fst (queue : QueueState) (requests : List WithdrawalRequest)
    (requestIds : List ℤ) (clock : CronClock) (memory : Memory) :
    (nextPage queue requests requestIds clock memory).1 = memory ∨
      (nextPage queue requests requestIds clock memory).1 =
        memory.setQueueInfo (published queue requests clock) := by
  cases requestIds with
  | nil => exact Or.inr rfl
  | cons id requestIds => exact Or.inl rfl

/-- One segment of the queue job writes a completed update or nothing. -/
theorem resume_fst (suspension : Suspension) (answer : CronClock × Answer) (memory : Memory) :
    (resume suspension answer memory).1 = memory ∨
      ∃ queue requests clock, (resume suspension answer memory).1 =
        memory.setQueueInfo (published queue requests clock) := by
  unfold resume
  split
  · split
    · exact (nextPage_fst _ _ _ _ memory).imp_right fun h => ⟨_, _, _, h⟩
    · exact Or.inl rfl
  · split
    · exact (nextPage_fst _ _ _ _ memory).imp_right fun h => ⟨_, _, _, h⟩
    · exact Or.inl rfl
  · exact Or.inl rfl

/-- The cron job has not run yet; its first tick is five minutes ahead. -/
def sampleClock : CronClock where
  now := 10000000
  nextDate := 10300000
  lastDate := none
  valid := by
    rintro nextUpdate rfl
    decide

/-- A queue with one request of one ether, the fifth. -/
def sampleQueue : QueueState where
  lastRequestId := 5
  unfinalizedRequests := 1
  bunkerModeActive := false
  unfinalizedStETH := 1000000000000000000
  minStethAmount := 100
  maxStethAmount := 1000000000000000000000
  depositableEther := 0

end QueueInfoService

def updateQueueInfoJob : Job.{0, 0} Memory where
  Input := Unit
  Suspension := QueueInfoService.Suspension
  Answer := QueueInfoService.CronClock × QueueInfoService.Answer
  start _ memory := (memory, some .fetchingQueue)
  resume := QueueInfoService.resume

end WithdrawalsApi
