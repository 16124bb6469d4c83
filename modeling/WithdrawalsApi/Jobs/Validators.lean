/-
# The validators jobs

`updateValidators` recomputes the whole validators store,
`updateLidoWithdrawableValidators` re-reads the balances of the validators that
the last full update found withdrawable, and `initializeFromCache` restores part
of the store at the start. Each is cut at its awaited calls; a suspension holds
the local variables that are still in use. An answer of another kind than the
awaited one, or a rejection, ends the job: `wrapJob` swallows the error and the
store stays as it is.

Helpers that await nothing of their own are not suspensions, with one exception:
between the return of `findAndSetLidoValidatorsWithdrawableBalances` and the
assignment of the update time the other jobs may run.
-/

import WithdrawalsApi.Jobs.Memory
import WithdrawalsApi.Math.Jobs

namespace WithdrawalsApi

open Js Math

/-- An answer with the clock at which the job goes on, in milliseconds. -/
structure Reply (α : Type) where
  now : ℤ
  answer : α

/-! ## The cache file -/

namespace ValidatorsCacheService

inductive Suspension
  | opening
  | reading
  | closing (content : List Char)

inductive Answer
  | settled
  | rejected

/-- Reading a file that is not there fails. -/
def resume : Suspension → Reply Answer → Memory → Memory × Option Suspension
  | .opening, ⟨_, .settled⟩, memory =>
      match memory.cacheFile with
      | some _ => (memory, some .reading)
      | none => (memory, none)
  | .reading, ⟨_, .settled⟩, memory =>
      match memory.cacheFile with
      | some content => (memory, some (.closing content))
      | none => (memory, none)
  | .closing content, ⟨now, .settled⟩, memory =>
      (memory.setValidators (initializeFromCache content now memory.stores.validators), none)
  | _, ⟨_, .rejected⟩, memory => (memory, none)

/-- A load writes the validators store, if anything. -/
theorem resume_fst (suspension : Suspension) (reply : Reply Answer) (memory : Memory) :
    ∃ validators, (resume suspension reply memory).1 = memory.setValidators validators := by
  unfold resume
  split
  · split <;> exact ⟨memory.stores.validators, rfl⟩
  · split <;> exact ⟨memory.stores.validators, rfl⟩
  · exact ⟨_, rfl⟩
  · exact ⟨memory.stores.validators, rfl⟩

end ValidatorsCacheService

namespace ValidatorsService

/-! ## Estimates of one validator -/

def readEstimate (stores : Stores) (now : ℤ) : Estimate where
  currentEpoch := stores.getCurrentEpoch now
  totalValidatorsCount := stores.validators.totalValidatorsCount
  activeValidatorCount := stores.validators.activeValidatorsCount
  now

/-- The frame after the one in which the sweep reaches a validator, and its
balance. -/
def contribution (stores : Stores) (estimate : Estimate) (sweepState : WithdrawalSweepState)
    (item : IndexedValidator) : Outcome Contribution := do
  let estimatedWithdrawalTimestamp ← getValidatorWithdrawalTimestamp item.index sweepState
    estimate.totalValidatorsCount estimate.activeValidatorCount estimate.currentEpoch
    item.validator.withdrawableEpoch estimate.now
  pure {
    validatorIndex := item.index
    frame := (stores.getFrameByTimestamp estimatedWithdrawalTimestamp).map (· + 1)
    balance := parseGwei item.balance
    source := {
      record := item
      sweepState
      estimate
      genesisTime := stores.genesisTime
      contractConfig := stores.contractConfig } }

theorem validatorIndex_of_contribution_eq_ok {stores : Stores} {estimate : Estimate}
    {sweepState : WithdrawalSweepState} {item : IndexedValidator} {result : Contribution}
    (h : contribution stores estimate sweepState item = .ok result) :
    result.validatorIndex = item.index := by
  obtain ⟨timestamp, -, hresult⟩ := Outcome.bind_eq_ok.mp h
  rw [← Outcome.pure_eq_ok.mp hresult]

theorem ofRecord_of_contribution_eq_ok {stores : Stores} {estimate : Estimate}
    {sweepState : WithdrawalSweepState} {item : IndexedValidator} {result : Contribution}
    (h : contribution stores estimate sweepState item = .ok result) :
    result.OfRecord ∧ result.source.record = item := by
  obtain ⟨timestamp, htimestamp, hresult⟩ := Outcome.bind_eq_ok.mp h
  rw [← Outcome.pure_eq_ok.mp hresult]
  exact ⟨⟨rfl, rfl, timestamp, htimestamp, rfl⟩, rfl⟩

/-! ## The full update -/

/-- The accumulators of the loop over all validators. -/
structure Count where
  activeValidatorCount : ℕ := 0
  /-- In gwei. -/
  totalActiveBalance : ℕ := 0
  maxExitEpoch : ℤ

def isActiveStatus (status : ValidatorStatus) : Bool :=
  status ∈ [ValidatorStatus.activeOngoing, .activeExiting, .activeSlashed]

def Count.add (count : Count) (item : IndexedValidator) : Count where
  activeValidatorCount :=
    if isActiveStatus item.status then count.activeValidatorCount + 1
    else count.activeValidatorCount
  totalActiveBalance :=
    if isActiveStatus item.status then count.totalActiveBalance + item.balance
    else count.totalActiveBalance
  maxExitEpoch :=
    if item.validator.exitEpoch ≠ farFutureEpoch ∧ count.maxExitEpoch < item.validator.exitEpoch
    then item.validator.exitEpoch else count.maxExitEpoch

/-- The local variables of `updateValidators`. -/
structure Update where
  indexedValidators : List IndexedValidator
  sweepMeanEpochs : ℕ
  count : Count

namespace UpdateValidators

inductive Suspension
  | fetchingValidators
  | fetchingPendingPartialWithdrawals (indexedValidators : List IndexedValidator)
      (currentEpoch : ℤ)
  | counting (update : Update) (rest : List IndexedValidator)
  | fetchingKeys (update : Update)
  | fetchingSweepState (update : Update) (lidoValidators : List IndexedValidator)
      (estimate : Estimate)
  | summing (update : Update) (estimate : Estimate) (sweepState : WithdrawalSweepState)
      (rest : List IndexedValidator) (tally : Tally) (withdrawableLidoValidatorIds : List ℕ)
  | storedFrameBalances (update : Update) (tally : Tally) (withdrawableLidoValidatorIds : List ℕ)
  /-- What the run has stored is kept for the history. -/
  | creatingCacheDirectory (stored : ValidatorsStorageService)
  | writingCache (stored : ValidatorsStorageService) (data : List Char)

inductive Answer
  | validators (indexedValidators : List IndexedValidator)
  | pendingPartialWithdrawals (data : List PendingPartialWithdrawal)
  | keys (data : List (List Char))
  | sweepData (state : BeaconStateSweepData)
  | settled
  | rejected
  /-- The file is written in part and the call fails. -/
  | truncated (kept : ℕ)

end UpdateValidators

open UpdateValidators

/-- The fields that are set when all validators have been counted. -/
def setCounts (update : Update) (store : ValidatorsStorageService) : ValidatorsStorageService :=
  { store with
    activeValidatorsCount := some (.finite update.count.activeValidatorCount)
    churnLimit := some (.finite (getChurnLimit update.count.totalActiveBalance))
    totalValidatorsCount := some update.indexedValidators.length
    maxExitEpoch := some (integerText update.count.maxExitEpoch) }

/-- The store that an update writes, field by field. -/
def stored (update : Update) (tally : Tally) (withdrawableLidoValidatorIds : List ℕ)
    (now : ℤ) : ValidatorsStorageService where
  maxExitEpoch := some (integerText update.count.maxExitEpoch)
  activeValidatorsCount := some (.finite update.count.activeValidatorCount)
  totalValidatorsCount := some update.indexedValidators.length
  lastUpdate := some (.finite (now / 1000 : ℤ))
  frameBalances := some tally.frameBalances
  sweepMeanEpochs := some (.finite update.sweepMeanEpochs)
  churnLimit := some (.finite (getChurnLimit update.count.totalActiveBalance))
  withdrawableLidoValidatorIds

/-- Storing the table and the list of its validators. -/
def storeFrameBalances (tally : Tally) (withdrawableLidoValidatorIds : List ℕ)
    (memory : Memory) : Memory :=
  { memory.setValidators { memory.stores.validators with
      frameBalances := some tally.frameBalances
      withdrawableLidoValidatorIds } with
    history := { memory.history with ledger := some tally.contributions } }

/-- The end of a full update: the file is written. -/
def complete (stored : ValidatorsStorageService) (data : List Char) (memory : Memory) : Memory :=
  { memory with
    cacheFile := some data
    history := { memory.history with
      published := stored :: memory.history.published
      completedUpdates := memory.history.completedUpdates + 1 } }

/-- The loop over all validators, and what follows it up to the next await. -/
def countNext (update : Update) (rest : List IndexedValidator) (memory : Memory) :
    Memory × Option Suspension :=
  match rest with
  | item :: rest => (memory, some (.counting { update with count := update.count.add item } rest))
  | [] =>
      (memory.setValidators (setCounts update memory.stores.validators),
        some (.fetchingKeys update))

def getLidoValidatorsByKeys (keys : List (List Char)) (validators : List IndexedValidator) :
    List IndexedValidator :=
  validators.filter fun item => keys.contains item.validator.pubkey

/-- The loop over the Lido validators, and what follows it up to the next
await. -/
def sumNext (update : Update) (estimate : Estimate) (sweepState : WithdrawalSweepState)
    (rest : List IndexedValidator) (tally : Tally) (withdrawableLidoValidatorIds : List ℕ)
    (memory : Memory) : Memory × Option Suspension :=
  match rest with
  | item :: rest =>
      if item.validator.withdrawableEpoch ≠ farFutureEpoch ∧ 0 < item.balance then
        match contribution memory.stores estimate sweepState item with
        | .ok row =>
            (memory, some (.summing update estimate sweepState rest (tally.add row)
              (withdrawableLidoValidatorIds ++ [item.index])))
        | .error _ => (memory, none)
      else
        (memory,
          some (.summing update estimate sweepState rest tally withdrawableLidoValidatorIds))
  | [] =>
      (storeFrameBalances tally withdrawableLidoValidatorIds memory,
        some (.storedFrameBalances update tally withdrawableLidoValidatorIds))

def resumeUpdateValidators :
    Suspension → Reply Answer → Memory → Memory × Option Suspension
  | .fetchingValidators, ⟨now, .validators indexedValidators⟩, memory =>
      (memory, some (.fetchingPendingPartialWithdrawals indexedValidators
        (memory.stores.getCurrentEpoch now)))
  | .fetchingPendingPartialWithdrawals indexedValidators currentEpoch,
      ⟨_, .pendingPartialWithdrawals data⟩, memory =>
      match SweepService.getSweepDelayInEpochs data indexedValidators currentEpoch with
      | .ok sweepMeanEpochs =>
          countNext
            { indexedValidators
              sweepMeanEpochs
              count := { maxExitEpoch := currentEpoch + maxSeedLookahead + 1 } }
            indexedValidators
            (memory.setValidators { memory.stores.validators with
              sweepMeanEpochs := some (.finite sweepMeanEpochs) })
      | .error _ => (memory, none)
  | .counting update rest, ⟨_, .settled⟩, memory => countNext update rest memory
  | .fetchingKeys update, ⟨now, .keys data⟩, memory =>
      (memory, some (.fetchingSweepState update
        (getLidoValidatorsByKeys data update.indexedValidators) (readEstimate memory.stores now)))
  | .fetchingSweepState update lidoValidators estimate, ⟨_, .sweepData state⟩, memory =>
      match getWithdrawalSweepState state with
      | .ok sweepState => sumNext update estimate sweepState lidoValidators Tally.empty [] memory
      | .error _ => (memory, none)
  | .summing update estimate sweepState rest tally withdrawableLidoValidatorIds,
      ⟨_, .settled⟩, memory =>
      sumNext update estimate sweepState rest tally withdrawableLidoValidatorIds memory
  | .storedFrameBalances update tally withdrawableLidoValidatorIds, ⟨now, .settled⟩, memory =>
      (memory.setValidators { memory.stores.validators with
          lastUpdate := some (.finite (now / 1000 : ℤ)) },
        some (.creatingCacheDirectory (stored update tally withdrawableLidoValidatorIds now)))
  | .creatingCacheDirectory stored, ⟨_, .settled⟩, memory =>
      match saveDataToCache memory.stores.validators with
      | some data => (memory, some (.writingCache stored data))
      | none => (memory, none)
  | .writingCache stored data, ⟨_, .settled⟩, memory => (complete stored data memory, none)
  | .writingCache _ data, ⟨_, .truncated kept⟩, memory =>
      ({ memory with cacheFile := some (data.take kept) }, none)
  | _, _, memory => (memory, none)

/-- The loop over the Lido validators reaches its next await. -/
def sumSucceeds (stores : Stores) (estimate : Estimate) (sweepState : WithdrawalSweepState) :
    List IndexedValidator → Bool
  | item :: _ =>
      if item.validator.withdrawableEpoch ≠ farFutureEpoch ∧ 0 < item.balance then
        (contribution stores estimate sweepState item).isOk
      else true
  | [] => true

/-- The awaited call answers as awaited, and nothing throws before the next await
or the end. -/
def succeeds : Suspension → Reply Answer → Memory → Bool
  | .fetchingValidators, ⟨_, .validators _⟩, _ => true
  | .fetchingPendingPartialWithdrawals indexedValidators currentEpoch,
      ⟨_, .pendingPartialWithdrawals data⟩, _ =>
      (SweepService.getSweepDelayInEpochs data indexedValidators currentEpoch).isOk
  | .counting _ _, ⟨_, .settled⟩, _ => true
  | .fetchingKeys _, ⟨_, .keys _⟩, _ => true
  | .fetchingSweepState _ lidoValidators estimate, ⟨_, .sweepData state⟩, memory =>
      match getWithdrawalSweepState state with
      | .ok sweepState => sumSucceeds memory.stores estimate sweepState lidoValidators
      | .error _ => false
  | .summing _ estimate sweepState rest _ _, ⟨_, .settled⟩, memory =>
      sumSucceeds memory.stores estimate sweepState rest
  | .storedFrameBalances _ _ _, ⟨_, .settled⟩, _ => true
  | .creatingCacheDirectory _, ⟨_, .settled⟩, memory =>
      (saveDataToCache memory.stores.validators).isSome
  | .writingCache _ _, ⟨_, .settled⟩, _ => true
  | _, _, _ => false

/-! ### What a segment of the full update does -/

/-- The loop over all validators goes on, or the counts are stored. -/
inductive Counts (update : Update) (memory : Memory) : Memory × Option Suspension → Prop
  | next (count : Count) (rest : List IndexedValidator) :
      Counts update memory (memory, some (.counting { update with count } rest))
  | done :
      Counts update memory
        (memory.setValidators (setCounts update memory.stores.validators),
          some (.fetchingKeys update))

theorem counts_countNext (update : Update) (rest : List IndexedValidator) (memory : Memory) :
    Counts update memory (countNext update rest memory) := by
  cases rest with
  | nil => exact .done
  | cons item rest => exact .next _ rest

/-- The loop over the Lido validators throws, goes on, or the table is stored;
the list grows with the tally. -/
inductive Sums (update : Update) (memory : Memory) (tally : Tally) (ids : List ℕ) :
    Memory × Option Suspension → Prop
  | threw : Sums update memory tally ids (memory, none)
  | next {tally' : Tally} {ids' : List ℕ} (estimate : Estimate)
      (sweepState : WithdrawalSweepState) (rest : List IndexedValidator)
      (hids : ids = tally.validatorIds → ids' = tally'.validatorIds) :
      Sums update memory tally ids
        (memory, some (.summing update estimate sweepState rest tally' ids'))
  | done :
      Sums update memory tally ids
        (storeFrameBalances tally ids memory, some (.storedFrameBalances update tally ids))

theorem sums_sumNext (update : Update) (estimate : Estimate) (sweepState : WithdrawalSweepState)
    (rest : List IndexedValidator) (tally : Tally) (ids : List ℕ) (memory : Memory) :
    Sums update memory tally ids (sumNext update estimate sweepState rest tally ids memory) := by
  cases rest with
  | nil => exact .done
  | cons item rest =>
      rw [sumNext]
      split
      · split
        next row hrow =>
          apply Sums.next
          intro hids
          rw [Tally.validatorIds_add, validatorIndex_of_contribution_eq_ok hrow, hids]
        next => exact .threw
      · exact .next estimate sweepState rest id

/-- The segments of the full update. -/
inductive UpdateSegment : Suspension → Memory → Memory × Option Suspension → Prop
  | ended {suspension : Suspension} {memory : Memory} :
      UpdateSegment suspension memory (memory, none)
  | fetched {memory : Memory} (indexedValidators : List IndexedValidator) (currentEpoch : ℤ) :
      UpdateSegment .fetchingValidators memory
        (memory, some (.fetchingPendingPartialWithdrawals indexedValidators currentEpoch))
  | setSweep {memory : Memory} {indexedValidators : List IndexedValidator} {currentEpoch : ℤ}
      {result : Memory × Option Suspension} (update : Update)
      (hcounts : Counts update (memory.setValidators { memory.stores.validators with
        sweepMeanEpochs := some (.finite update.sweepMeanEpochs) }) result) :
      UpdateSegment (.fetchingPendingPartialWithdrawals indexedValidators currentEpoch) memory
        result
  | counted {memory : Memory} {update : Update} {rest : List IndexedValidator}
      {result : Memory × Option Suspension} (hcounts : Counts update memory result) :
      UpdateSegment (.counting update rest) memory result
  | gotKeys {memory : Memory} {update : Update} (lidoValidators : List IndexedValidator)
      (estimate : Estimate) :
      UpdateSegment (.fetchingKeys update) memory
        (memory, some (.fetchingSweepState update lidoValidators estimate))
  | gotSweepState {memory : Memory} {update : Update} {lidoValidators : List IndexedValidator}
      {estimate : Estimate} {result : Memory × Option Suspension}
      (hsums : Sums update memory Tally.empty [] result) :
      UpdateSegment (.fetchingSweepState update lidoValidators estimate) memory result
  | summed {memory : Memory} {update : Update} {estimate : Estimate}
      {sweepState : WithdrawalSweepState} {rest : List IndexedValidator} {tally : Tally}
      {ids : List ℕ} {result : Memory × Option Suspension}
      (hsums : Sums update memory tally ids result) :
      UpdateSegment (.summing update estimate sweepState rest tally ids) memory result
  | setLastUpdate {memory : Memory} {update : Update} {tally : Tally} {ids : List ℕ} (now : ℤ) :
      UpdateSegment (.storedFrameBalances update tally ids) memory
        (memory.setValidators { memory.stores.validators with
            lastUpdate := some (.finite (now / 1000 : ℤ)) },
          some (.creatingCacheDirectory (stored update tally ids now)))
  | joined {memory : Memory} {result : ValidatorsStorageService} {data : List Char}
      (hdata : saveDataToCache memory.stores.validators = some data) :
      UpdateSegment (.creatingCacheDirectory result) memory
        (memory, some (.writingCache result data))
  | wrote {memory : Memory} {result : ValidatorsStorageService} {data : List Char} :
      UpdateSegment (.writingCache result data) memory (complete result data memory, none)
  | wroteInPart {memory : Memory} {result : ValidatorsStorageService} {data : List Char}
      (kept : ℕ) :
      UpdateSegment (.writingCache result data) memory
        ({ memory with cacheFile := some (data.take kept) }, none)

/-- What follows an answer is one of the segments. -/
theorem updateSegment_resume (suspension : Suspension) (reply : Reply Answer) (memory : Memory) :
    UpdateSegment suspension memory (resumeUpdateValidators suspension reply memory) := by
  unfold resumeUpdateValidators
  split
  · exact .fetched _ _
  · split
    · exact .setSweep _ (counts_countNext _ _ _)
    · exact .ended
  · exact .counted (counts_countNext _ _ _)
  · exact .gotKeys _ _
  · split
    · exact .gotSweepState (sums_sumNext _ _ _ _ _ _ _)
    · exact .ended
  · exact .summed (sums_sumNext _ _ _ _ _ _ _)
  · exact .setLastUpdate _
  · split
    next data hdata => exact .joined hdata
    next => exact .ended
  · exact .wrote
  · exact .wroteInPart _
  · exact .ended

/-- The full update writes no store but that of the validators. -/
theorem UpdateSegment.stores_eq {suspension : Suspension} {memory : Memory}
    {result : Memory × Option Suspension} (h : UpdateSegment suspension memory result) :
    ∃ validators, result.1.stores = { memory.stores with validators } := by
  cases h with
  | setSweep update hcounts => cases hcounts <;> exact ⟨_, rfl⟩
  | counted hcounts =>
      cases hcounts with
      | next => exact ⟨memory.stores.validators, rfl⟩
      | done => exact ⟨_, rfl⟩
  | gotSweepState hsums =>
      cases hsums with
      | done => exact ⟨_, rfl⟩
      | _ => exact ⟨memory.stores.validators, rfl⟩
  | summed hsums =>
      cases hsums with
      | done => exact ⟨_, rfl⟩
      | _ => exact ⟨memory.stores.validators, rfl⟩
  | setLastUpdate => exact ⟨_, rfl⟩
  | _ => exact ⟨memory.stores.validators, rfl⟩

private theorem countNext_suspends (update : Update) (rest : List IndexedValidator)
    (memory : Memory) : (countNext update rest memory).2 ≠ none := by
  cases rest with
  | nil => exact Option.some_ne_none _
  | cons item rest => exact Option.some_ne_none _

private theorem sumNext_suspends_iff (update : Update) (estimate : Estimate)
    (sweepState : WithdrawalSweepState) (rest : List IndexedValidator) (tally : Tally)
    (ids : List ℕ) (memory : Memory) :
    (sumNext update estimate sweepState rest tally ids memory).2 ≠ none ∨
        (sumNext update estimate sweepState rest tally ids memory).1.history.completedUpdates =
          memory.history.completedUpdates + 1 ↔
      sumSucceeds memory.stores estimate sweepState rest = true := by
  cases rest with
  | nil => simp [sumSucceeds, sumNext]
  | cons item rest =>
      rw [sumSucceeds, sumNext]
      split
      · cases contribution memory.stores estimate sweepState item with
        | ok row => simp [Except.isOk, Except.toBool]
        | error fault => simp [Except.isOk, Except.toBool]
      · simp

/-- The full update fails at an await exactly when this does not hold. -/
theorem succeeds_iff (suspension : Suspension) (reply : Reply Answer) (memory : Memory) :
    succeeds suspension reply memory = true ↔
      (resumeUpdateValidators suspension reply memory).2 ≠ none ∨
        (resumeUpdateValidators suspension reply memory).1.history.completedUpdates =
          memory.history.completedUpdates + 1 := by
  unfold resumeUpdateValidators
  split
  · simp [succeeds]
  · rw [succeeds]
    cases SweepService.getSweepDelayInEpochs _ _ _ with
    | ok sweepMeanEpochs => simp [Except.isOk, Except.toBool, countNext_suspends]
    | error fault => simp [Except.isOk, Except.toBool]
  · simp [succeeds, countNext_suspends]
  · simp [succeeds]
  next state =>
    rw [succeeds]
    cases getWithdrawalSweepState state with
    | ok sweepState => exact (sumNext_suspends_iff _ _ _ _ _ _ memory).symm
    | error fault => simp
  · exact (sumNext_suspends_iff _ _ _ _ _ _ memory).symm
  · simp [succeeds]
  · rw [succeeds]
    cases saveDataToCache memory.stores.validators with
    | some data => simp
    | none => simp
  · simp [succeeds, complete]
  · simp [succeeds]
  · simp [succeeds]

/-! ## The refresh of the balances -/

namespace UpdateLidoWithdrawableValidators

inductive Suspension
  | fetchingSweepState (validatorIds : List ℕ) (estimate : Estimate)
  | fetchingBatch (validatorIds : List ℕ) (estimate : Estimate)
      (sweepState : WithdrawalSweepState) (i : ℕ) (tally : Tally)

inductive Answer
  | sweepData (state : BeaconStateSweepData)
  | stateValidators (data : List IndexedValidator)
  | rejected

/-- The list of validators a refresh has started from. -/
def Suspension.validatorIds : Suspension → List ℕ
  | .fetchingSweepState validatorIds _ => validatorIds
  | .fetchingBatch validatorIds _ _ _ _ => validatorIds

end UpdateLidoWithdrawableValidators

def batchSize : ℕ := 20

/-- The part of the list that is asked for at a position. -/
def batchAt (validatorIds : List ℕ) (i : ℕ) : List ℕ := (validatorIds.drop i).take batchSize

/-- The loop over a batch and its answer; a missing record throws. -/
def addBatch (stores : Stores) (estimate : Estimate) (sweepState : WithdrawalSweepState) :
    List ℕ → List IndexedValidator → Tally → Outcome Tally
  | [], _, tally => .ok tally
  | _ :: _, [], _ => .error .undefinedRead
  | _ :: batch, stateValidator :: data, tally => do
      let row ← contribution stores estimate sweepState stateValidator
      addBatch stores estimate sweepState batch data (tally.add row)

/-- Storing a refreshed table. It renews the last snapshot if the stored list is the
one the refresh has read; otherwise nothing is published. -/
def storeRefreshed (validatorIds : List ℕ) (tally : Tally) (memory : Memory) : Memory :=
  { memory.setValidators { memory.stores.validators with
      frameBalances := some tally.frameBalances } with
    history := { memory.history with
      ledger := some tally.contributions
      published :=
        if memory.stores.validators.withdrawableLidoValidatorIds = validatorIds then
          match memory.history.published with
          | last :: earlier =>
              { last with frameBalances := some tally.frameBalances } :: last :: earlier
          | [] => []
        else memory.history.published } }

/-- The loop over the batches, and the end of the job. -/
def nextBatch (validatorIds : List ℕ) (estimate : Estimate) (sweepState : WithdrawalSweepState)
    (i : ℕ) (tally : Tally) (memory : Memory) :
    Memory × Option UpdateLidoWithdrawableValidators.Suspension :=
  if i < validatorIds.length then
    (memory, some (.fetchingBatch validatorIds estimate sweepState i tally))
  else
    (storeRefreshed validatorIds tally memory, none)

def resumeUpdateLidoWithdrawableValidators :
    UpdateLidoWithdrawableValidators.Suspension →
      Reply UpdateLidoWithdrawableValidators.Answer → Memory →
        Memory × Option UpdateLidoWithdrawableValidators.Suspension
  | .fetchingSweepState validatorIds estimate, ⟨_, .sweepData state⟩, memory =>
      match getWithdrawalSweepState state with
      | .ok sweepState => nextBatch validatorIds estimate sweepState 0 Tally.empty memory
      | .error _ => (memory, none)
  | .fetchingBatch validatorIds estimate sweepState i tally, ⟨_, .stateValidators data⟩, memory =>
      match addBatch memory.stores estimate sweepState (batchAt validatorIds i) data tally with
      | .ok tally => nextBatch validatorIds estimate sweepState (i + batchSize) tally memory
      | .error _ => (memory, none)
  | _, _, memory => (memory, none)

/-- The refresh stores its table with this answer. -/
def storesTable : UpdateLidoWithdrawableValidators.Suspension →
    Reply UpdateLidoWithdrawableValidators.Answer → Memory → Bool
  | .fetchingSweepState validatorIds _, ⟨_, .sweepData state⟩, _ =>
      (getWithdrawalSweepState state).isOk && decide (validatorIds.length ≤ 0)
  | .fetchingBatch validatorIds estimate sweepState i tally, ⟨_, .stateValidators data⟩, memory =>
      (addBatch memory.stores estimate sweepState (batchAt validatorIds i) data tally).isOk &&
        decide (validatorIds.length ≤ i + batchSize)
  | _, _, _ => false

/-! ### What a segment of the refresh does -/

/-- The loop over the batches goes on, or the table is stored. -/
theorem nextBatch_cases (validatorIds : List ℕ) (estimate : Estimate)
    (sweepState : WithdrawalSweepState) (i : ℕ) (tally : Tally) (memory : Memory) :
    (i < validatorIds.length ∧ nextBatch validatorIds estimate sweepState i tally memory =
        (memory, some (.fetchingBatch validatorIds estimate sweepState i tally))) ∨
      (validatorIds.length ≤ i ∧ nextBatch validatorIds estimate sweepState i tally memory =
        (storeRefreshed validatorIds tally memory, none)) := by
  unfold nextBatch
  by_cases hi : i < validatorIds.length
  · exact Or.inl ⟨hi, if_pos hi⟩
  · exact Or.inr ⟨not_lt.mp hi, if_neg hi⟩

private theorem nextBatch_fst (validatorIds : List ℕ) (estimate : Estimate)
    (sweepState : WithdrawalSweepState) (i : ℕ) (tally : Tally) (memory : Memory) :
    (decide (validatorIds.length ≤ i) = false ∧
        (nextBatch validatorIds estimate sweepState i tally memory).1 = memory) ∨
      (decide (validatorIds.length ≤ i) = true ∧
        ∃ result, (nextBatch validatorIds estimate sweepState i tally memory).1 =
          storeRefreshed validatorIds result memory) := by
  rcases nextBatch_cases validatorIds estimate sweepState i tally memory with
    ⟨hopen, hnext⟩ | ⟨hall, hnext⟩
  · left
    exact ⟨decide_eq_false (not_le.mpr hopen), by rw [hnext]⟩
  · right
    exact ⟨decide_eq_true hall, tally, by rw [hnext]⟩

/-- A segment of the refresh writes nothing, or it stores a table. -/
theorem refresh_fst (suspension : UpdateLidoWithdrawableValidators.Suspension)
    (reply : Reply UpdateLidoWithdrawableValidators.Answer) (memory : Memory) :
    (storesTable suspension reply memory = false ∧
        (resumeUpdateLidoWithdrawableValidators suspension reply memory).1 = memory) ∨
      (storesTable suspension reply memory = true ∧
        ∃ tally, (resumeUpdateLidoWithdrawableValidators suspension reply memory).1 =
          storeRefreshed suspension.validatorIds tally memory) := by
  unfold resumeUpdateLidoWithdrawableValidators
  split
  next validatorIds estimate now state =>
    rw [storesTable]
    cases getWithdrawalSweepState state with
    | ok sweepState => exact nextBatch_fst validatorIds estimate sweepState 0 Tally.empty memory
    | error fault => exact Or.inl ⟨rfl, rfl⟩
  next validatorIds estimate sweepState i tally now data =>
    rw [storesTable]
    cases addBatch memory.stores estimate sweepState (batchAt validatorIds i) data tally with
    | ok tally => exact nextBatch_fst validatorIds estimate sweepState (i + batchSize) tally memory
    | error fault => exact Or.inl ⟨rfl, rfl⟩
  · simp [storesTable]

/-- A batch that does not throw counts one record of the answer for each
validator asked for. -/
theorem addBatch_spec {stores : Stores} {estimate : Estimate} {sweepState : WithdrawalSweepState}
    {batch : List ℕ} {data : List IndexedValidator} {tally result : Tally}
    (h : addBatch stores estimate sweepState batch data tally = .ok result) :
    batch.length ≤ data.length ∧ result.validatorIds =
      tally.validatorIds ++ (data.take batch.length).map IndexedValidator.index := by
  induction batch generalizing data tally with
  | nil =>
      cases h
      simp
  | cons id batch ih =>
      cases data with
      | nil => cases h
      | cons stateValidator data =>
          obtain ⟨row, hrow, hrest⟩ := Outcome.bind_eq_ok.mp h
          obtain ⟨hlength, hids⟩ := ih hrest
          refine ⟨Nat.succ_le_succ hlength, ?_⟩
          rw [hids, Tally.validatorIds_add, validatorIndex_of_contribution_eq_ok hrow,
            List.append_assoc, List.singleton_append, List.length_cons, List.take_succ_cons,
            List.map_cons]

/-- A batch adds rows of its answer only. -/
theorem ofRecords_of_addBatch_eq_ok {stores : Stores} {estimate : Estimate}
    {sweepState : WithdrawalSweepState} {batch : List ℕ} {data : List IndexedValidator}
    {tally result : Tally} {answered : Set IndexedValidator}
    (h : addBatch stores estimate sweepState batch data tally = .ok result)
    (hanswered : ∀ item ∈ data, item ∈ answered) (hrows : tally.OfRecords answered) :
    result.OfRecords answered := by
  induction batch generalizing data tally with
  | nil =>
      cases h
      exact hrows
  | cons id batch ih =>
      cases data with
      | nil => cases h
      | cons stateValidator data =>
          obtain ⟨row, hrow, hrest⟩ := Outcome.bind_eq_ok.mp h
          obtain ⟨hrecord, rfl⟩ := ofRecord_of_contribution_eq_ok hrow
          exact ih hrest (fun item hitem => hanswered item (List.mem_cons_of_mem _ hitem))
            (hrows.add hrecord (hanswered _ List.mem_cons_self))

end ValidatorsService

/-! ## The jobs -/

def initializeFromCacheJob : Job.{0, 0} Memory where
  Input := Unit
  Suspension := ValidatorsCacheService.Suspension
  Answer := Reply ValidatorsCacheService.Answer
  start _ memory := (memory, some .opening)
  resume := ValidatorsCacheService.resume

def updateValidatorsJob : Job.{0, 0} Memory where
  Input := Unit
  Suspension := ValidatorsService.UpdateValidators.Suspension
  Answer := Reply ValidatorsService.UpdateValidators.Answer
  start _ memory := (memory, some .fetchingValidators)
  resume := ValidatorsService.resumeUpdateValidators

/-- The refresh reads the list and the counts when it is started. -/
def updateLidoWithdrawableValidatorsJob : Job.{0, 0} Memory where
  Input := Reply Unit
  Suspension := ValidatorsService.UpdateLidoWithdrawableValidators.Suspension
  Answer := Reply ValidatorsService.UpdateLidoWithdrawableValidators.Answer
  start input memory :=
    (memory, some (.fetchingSweepState memory.stores.validators.withdrawableLidoValidatorIds
      (ValidatorsService.readEstimate memory.stores input.now)))
  resume := ValidatorsService.resumeUpdateLidoWithdrawableValidators

end WithdrawalsApi
