/-
# The withdrawal sweep

How long a sweep over the validators takes, where its cursor will be when a
validator becomes withdrawable, and how many validators may exit in an epoch.
The activity ratio and the quotients by it are exact; a ratio of counts that are
missing or zero is `NaN` and so is every timestamp computed from it.
-/

import WithdrawalsApi.Consensus
import WithdrawalsApi.GenesisTime
import WithdrawalsApi.Js.Outcome

namespace WithdrawalsApi

open Js

structure Withdrawal where
  validatorIndex : ℕ
  /-- In wei. -/
  amount : ℤ
  deriving DecidableEq, Repr

namespace SweepService

/-- `MAX_WITHDRAWALS_PER_PAYLOAD`. -/
def maxWithdrawalsPerPayload : ℕ := 16

/-- `MAX_PENDING_PARTIALS_PER_WITHDRAWALS_SWEEP`. -/
def maxPendingPartialsPerWithdrawalsSweep : ℕ := 8

/-- The withdrawals that pending requests will make. -/
def getPendingPartialWithdrawals (pendingPartialWithdrawalsData : List PendingPartialWithdrawal)
    (indexedValidators : List IndexedValidator) : List Withdrawal :=
  let indexedValidatorsMap : Record IndexedValidator := indexedValidators.foldl
    (fun acc indexedValidator => acc.set (.integer indexedValidator.index) indexedValidator)
    Record.empty
  pendingPartialWithdrawalsData.filterMap fun pendingPartialWithdrawal => do
    let index : ℕ := pendingPartialWithdrawal.validatorIndex
    let indexedValidator ← indexedValidatorsMap.get? (.integer index)
    let validator := indexedValidator.validator
    let balance := parseGwei indexedValidator.balance
    let hasSufficientEffectiveBalance :=
      decide (minActivationBalance ≤ parseGwei validator.effectiveBalance)
    let hasExcessBalance := decide (minActivationBalance < balance)
    if validator.exitEpoch = farFutureEpoch ∧ hasSufficientEffectiveBalance ∧ hasExcessBalance then
      let withdrawableBalance :=
        min (balance - minActivationBalance) (parseGwei pendingPartialWithdrawal.amount)
      some { validatorIndex := index, amount := withdrawableBalance }
    else none

/-- The texts under which the predicted withdrawals of a validator are added up:
`+` on a number or a text and a `BigNumber` joins texts. -/
def partiallyWithdrawnMap (partialWithdrawals : List Withdrawal) : Record (List Char) :=
  partialWithdrawals.foldl
    (fun map withdrawal =>
      let key := PropertyKey.integer withdrawal.validatorIndex
      map.set key ((map.get? key).getD ['0'] ++ integerText withdrawal.amount))
    Record.empty

def getValidatorsWithdrawalsNumber (partialWithdrawals : List Withdrawal)
    (indexedValidators : List IndexedValidator) (epoch : ℤ) : Outcome ℕ :=
  let map := partiallyWithdrawnMap partialWithdrawals
  indexedValidators.foldlM
    (fun withdrawalsNumber indexedValidator => do
      let validator := indexedValidator.validator
      let partiallyWithdrawnBalance ←
        match map.get? (.integer indexedValidator.index) with
        | none => .ok 0
        | some text =>
            match bigNumberOfText text with
            | some value => .ok value
            | none => .error .invalidNumber
      let balance := parseGwei indexedValidator.balance - partiallyWithdrawnBalance
      if validator.isFullyWithdrawableValidator balance epoch then pure (withdrawalsNumber + 1)
      else if validator.isPartiallyWithdrawableValidator balance then pure (withdrawalsNumber + 1)
      else pure withdrawalsNumber)
    0

def predictWithdrawalsNumberInSweepCycle
    (pendingPartialWithdrawalsData : List PendingPartialWithdrawal)
    (indexedValidators : List IndexedValidator) (epoch : ℤ) : Outcome ℕ := do
  let pendingPartialWithdrawals :=
    getPendingPartialWithdrawals pendingPartialWithdrawalsData indexedValidators
  let validatorsWithdrawalsNumber ←
    getValidatorsWithdrawalsNumber pendingPartialWithdrawals indexedValidators epoch
  let partialWithdrawalsMaxRatio : ℚ := maxPendingPartialsPerWithdrawalsSweep /
    (maxWithdrawalsPerPayload - maxPendingPartialsPerWithdrawalsSweep)
  let pendingPartialWithdrawalsMaxNumberInCycle :=
    ⌈validatorsWithdrawalsNumber * partialWithdrawalsMaxRatio⌉₊
  let pendingPartialWithdrawalsNumberInCycle :=
    min pendingPartialWithdrawals.length pendingPartialWithdrawalsMaxNumberInCycle
  pure (validatorsWithdrawalsNumber + pendingPartialWithdrawalsNumberInCycle)

/-- The mean delay until the sweep reaches a validator, in epochs. -/
def getSweepDelayInEpochs (pendingPartialWithdrawals : List PendingPartialWithdrawal)
    (indexedValidators : List IndexedValidator) (epoch : ℤ) : Outcome ℕ := do
  let withdrawalsNumberInSweepCycle ←
    predictWithdrawalsNumberInSweepCycle pendingPartialWithdrawals indexedValidators epoch
  let fullSweepCycleInEpochs :=
    ⌈(withdrawalsNumberInSweepCycle : ℚ) / maxWithdrawalsPerPayload / slotsPerEpoch⌉₊
  pure ⌊(fullSweepCycleInEpochs : ℚ) / 2⌋₊

end SweepService

/-- The validator the sweep processes next, and for how many slots it is
blocked. -/
structure WithdrawalSweepState where
  sweepCursorValidatorIndex : ℕ
  blockedByDeferredSlots : ℤ
  deriving DecidableEq, Repr

/-- The sweep state of a beacon state, which must know the next validator. -/
def getWithdrawalSweepState (state : BeaconStateSweepData) : Outcome WithdrawalSweepState := do
  let sweepCursorValidatorIndex ←
    match state.nextWithdrawalValidatorIndex with
    | some index => .ok index
    | none => .error .undefinedRead
  let blockedByDeferredSlots ←
    match state.latestFullSlot with
    | some latestFullSlot => do
        let slots ← BigNumber.toNumber ((state.slot : ℤ) - latestFullSlot)
        pure (max 0 slots)
    | none => .ok 0
  pure { sweepCursorValidatorIndex, blockedByDeferredSlots }

/-- `WITHDRAWALS_VALIDATORS_PER_SLOT`. -/
def withdrawalsValidatorsPerSlot : ℤ := 16

/-- The share of active validators; `none` is `NaN`, an infinity or zero, by
which no timestamp is finite. -/
def percentOfActiveValidators (activeValidatorCount : Option JsNumber)
    (totalValidatorsCount : Option ℕ) : Option ℚ := do
  let active ← activeValidatorCount.bind JsNumber.natural?
  let total ← totalValidatorsCount
  if active = 0 ∨ total = 0 then none else some (active / total)

/-- When the sweep is expected to reach a validator, in milliseconds; `none` is
`NaN`. -/
def getValidatorWithdrawalTimestamp (validatorIndex : ℕ) (sweepState : WithdrawalSweepState)
    (totalValidatorsCount : Option ℕ) (activeValidatorCount : Option JsNumber)
    (currentEpoch : ℤ) (withdrawableEpoch : ℕ) (nowMs : ℤ) : Outcome (Option ℤ) := do
  let vIdx ← BigNumber.toNumber validatorIndex
  let sweepStartIdx ← BigNumber.toNumber sweepState.sweepCursorValidatorIndex
  let total : ℤ := totalValidatorsCount.getD 0
  pure ((percentOfActiveValidators activeValidatorCount totalValidatorsCount).map fun ratio =>
    let epochsUntilWE := max 0 (withdrawableEpoch - currentEpoch)
    let slotsUntilWE := epochsUntilWE * slotsPerEpoch
    let effectiveSweepSlotsBeforeWE := max 0 (slotsUntilWE - sweepState.blockedByDeferredSlots)
    let blockedSlotsAfterWE := max 0 (sweepState.blockedByDeferredSlots - slotsUntilWE)
    let expectedIndexAdvanceToWE :=
      ⌊((effectiveSweepSlotsBeforeWE * withdrawalsValidatorsPerSlot : ℤ) : ℚ) / ratio⌋
    let cursorAtWE := (sweepStartIdx + expectedIndexAdvanceToWE % total) % total
    let queuePosInclusive := (vIdx - cursorAtWE + total) % total + 1
    let expectedActivesToProcess := ⌈((queuePosInclusive - 1 : ℤ) : ℚ) * ratio⌉ + 1
    let slotsAfterWE := ⌈(expectedActivesToProcess : ℚ) / withdrawalsValidatorsPerSlot⌉
    let totalSlots := slotsUntilWE + blockedSlotsAfterWE + slotsAfterWE
    let totalSeconds := totalSlots * secondsPerSlot
    nowMs + totalSeconds * 1000)

/-! ## The churn limit -/

/-- `MIN_PER_EPOCH_CHURN_LIMIT`, in validators. -/
def minPerEpochChurnLimit : ℕ := 4

/-- `MIN_ACTIVATION_BALANCE` of the churn limit, in gwei. -/
def minActivationBalanceGwei : ℕ := 32000000000

/-- `MAX_PER_EPOCH_CHURN_LIMIT`, in gwei. -/
def maxPerEpochChurnLimit : ℕ := 256000000000

/-- `CHURN_LIMIT_QUOTIENT`. -/
def churnLimitQuotient : ℕ := 65536

def getChurnLimitGwei (totalActiveBalanceGwei : ℕ) : ℕ :=
  let minLimit := minPerEpochChurnLimit * minActivationBalanceGwei
  let dynamicLimit := totalActiveBalanceGwei / churnLimitQuotient
  let maxedLimit := if dynamicLimit > minLimit then dynamicLimit else minLimit
  if maxedLimit > maxPerEpochChurnLimit then maxPerEpochChurnLimit else maxedLimit

def getChurnLimit (totalActiveBalanceGwei : ℕ) : ℕ :=
  getChurnLimitGwei totalActiveBalanceGwei / minActivationBalanceGwei

/-- The dynamic limit is clamped. -/
theorem getChurnLimitGwei_eq (totalActiveBalanceGwei : ℕ) :
    getChurnLimitGwei totalActiveBalanceGwei =
      min (max (totalActiveBalanceGwei / churnLimitQuotient)
        (minPerEpochChurnLimit * minActivationBalanceGwei)) maxPerEpochChurnLimit := by
  have hmax (a b : ℕ) : (if a > b then a else b) = max a b := by
    split_ifs <;> omega
  have hmin (a b : ℕ) : (if a > b then b else a) = min a b := by
    split_ifs <;> omega
  simp only [getChurnLimitGwei, hmax, hmin]

/-- The churn limit is never zero: a stored churn limit of zero is none that the
validators job has computed. -/
theorem getChurnLimit_bounds (totalActiveBalanceGwei : ℕ) :
    4 ≤ getChurnLimit totalActiveBalanceGwei ∧ getChurnLimit totalActiveBalanceGwei ≤ 8 := by
  rw [getChurnLimit, getChurnLimitGwei_eq, minPerEpochChurnLimit, minActivationBalanceGwei,
    maxPerEpochChurnLimit]
  omega

end WithdrawalsApi
