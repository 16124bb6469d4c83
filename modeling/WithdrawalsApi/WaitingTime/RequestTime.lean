/-
# The estimate in days

`getRequestTime` is the first version of the estimate: the queue leaves through
the exit churn after the last exit, a sweep follows, and whole days are counted.
It answers for an amount on top of the queue, from the stores alone.

An estimate that is not positive is replaced by five days. Half a day is no day
for `calculateRequestTimeSimple`, so the replacement also meets estimates that
are sound, and a larger amount may be promised earlier than a smaller one.
-/

import WithdrawalsApi.Jobs.Memory
import WithdrawalsApi.WaitingTime.ExitChurn
import WithdrawalsApi.WaitingTime.Response

namespace WithdrawalsApi

open Js

/-- While the gate is closed the status is the only field. -/
structure RequestTimeDto where
  days : Option ℤ := none
  stethLastUpdate : Option ℤ := none
  validatorsLastUpdate : Option JsNumber := none
  /-- Decimal text. -/
  steth : Option (List Char) := none
  requests : Option ℤ := none
  status : WaitingTimeStatus
  deriving DecidableEq

namespace Stores

variable (stores : Stores) (now : ℤ)

/-- `+maxExitEpoch` is `NaN` for a text that was never stored. -/
def getMaxExitEpoch : JsNumber :=
  let maxExitEpoch := (stores.validators.maxExitEpoch.map JsNumber.ofText).getD .nan
  maxExitEpoch.maxInteger (stores.getCurrentEpoch now + maxSeedLookahead + 1)

def calculateRequestTimeSimple (unfinalizedETH : ℤ) : Outcome ℤ := do
  let currentEpoch := stores.getCurrentEpoch now
  let maxExitEpoch := stores.getMaxExitEpoch now
  let exitChurnEthPerEpoch ← stores.exitChurnEthPerEpoch
  let lidoQueueInEpoch ← BigNumber.div unfinalizedETH exitChurnEthPerEpoch
  let exitEpoch ← BigNumber.ofNumber maxExitEpoch
  let sweepingMean ← defined stores.validators.sweepMeanEpochs
  let sweepEpochs ← BigNumber.ofNumber sweepingMean
  let potentialExitEpoch := exitEpoch + lidoQueueInEpoch + sweepEpochs
  let waitingTime ← BigNumber.div
    ((potentialExitEpoch - currentEpoch) * secondsPerSlot * slotsPerEpoch) (60 * 60 * 24)
  let days ← BigNumber.toNumber waitingTime
  pure (roundQuotient days 1)

/-- `getRequestTime` for an amount of wei on top of the queue. -/
def getRequestTime (amount : ℕ) : Outcome RequestTimeDto :=
  if stores.isInitialized = false then .ok { status := .initializing }
  else do
    let validatorsLastUpdate := stores.validators.lastUpdate
    let unfinalizedETH ← defined stores.queueInfo.unfinalizedStETH
    let queueStETH := unfinalizedETH + amount
    let stethLastUpdate := stores.queueInfo.lastUpdate
    let days ← stores.calculateRequestTimeSimple now queueStETH
    let requestsCount ← defined stores.queueInfo.unfinalizedRequestsCount
    let days := if days ≤ 0 then 5 else days
    let requests ← BigNumber.toNumber requestsCount
    pure {
      days := some days
      stethLastUpdate
      validatorsLastUpdate
      steth := some (integerText unfinalizedETH)
      requests := some requests
      status := .calculated }

end Stores

/-! ## The pace of the queue -/

/-- How a queue leaves: the epochs until the last exit, the churn limit and the
mean sweep, in the ranges of an initialised service. -/
structure ExitPace where
  /-- In wei, without the amount that is asked for. -/
  queue : ℕ
  untilLastExit : ℤ
  churnLimit : ℤ
  sweepMeanEpochs : ℤ
  five_le_untilLastExit : 5 ≤ untilLastExit
  four_le_churnLimit : 4 ≤ churnLimit
  sweepMeanEpochs_nonneg : 0 ≤ sweepMeanEpochs

namespace ExitPace

variable (pace : ExitPace)

/-- The epochs until the queue with an amount on top of it has left. -/
def waitingEpochs (amount : ℕ) : ℤ :=
  pace.untilLastExit + (pace.queue + amount) / (minActivationBalance * pace.churnLimit) +
    pace.sweepMeanEpochs

theorem exitChurn_pos : 0 < minActivationBalance * pace.churnLimit := by
  have := pace.four_le_churnLimit
  simp only [minActivationBalance]
  omega

theorem waitingEpochs_mono {small large : ℕ} (hle : small ≤ large) :
    pace.waitingEpochs small ≤ pace.waitingEpochs large := by
  have hqueue : ((pace.queue + small : ℤ)) / (minActivationBalance * pace.churnLimit) ≤
      (pace.queue + large) / (minActivationBalance * pace.churnLimit) :=
    Int.ediv_le_ediv pace.exitChurn_pos (by omega)
  simp only [waitingEpochs]
  omega

theorem five_le_waitingEpochs (amount : ℕ) : 5 ≤ pace.waitingEpochs amount := by
  have hqueue : 0 ≤ ((pace.queue + amount : ℤ)) / (minActivationBalance * pace.churnLimit) :=
    Int.ediv_nonneg (by omega) pace.exitChurn_pos.le
  have hexit := pace.five_le_untilLastExit
  have hsweep := pace.sweepMeanEpochs_nonneg
  simp only [waitingEpochs]
  omega

end ExitPace

/-- The epochs of a day. -/
def epochsPerDay : ℤ := 225

/-- A pace is that of the stores at a time. -/
structure Stores.HasPace (stores : Stores) (now : ℤ) (pace : ExitPace) : Prop where
  queue : stores.queueInfo.unfinalizedStETH = some pace.queue
  untilLastExit : BigNumber.ofNumber (stores.getMaxExitEpoch now) =
    .ok (stores.getCurrentEpoch now + pace.untilLastExit)
  churnLimit : stores.exitChurnEthPerEpoch = .ok (minActivationBalance * pace.churnLimit)
  sweepMeanEpochs : (defined stores.validators.sweepMeanEpochs >>= BigNumber.ofNumber) =
    .ok pace.sweepMeanEpochs

section Pace

variable {stores : Stores} {now : ℤ} {pace : ExitPace} {amount : ℕ} {dto : RequestTimeDto}

/-- A calculated response holds the days of the queue, or five. -/
theorem days_of_calculated (h : stores.getRequestTime now amount = .ok dto)
    (hstatus : dto.status = .calculated) :
    ∃ queue : ℕ, ∃ days, stores.queueInfo.unfinalizedStETH = some queue ∧
      stores.calculateRequestTimeSimple now (queue + amount) = .ok days ∧
      dto.days = some (if days ≤ 0 then 5 else days) := by
  unfold Stores.getRequestTime at h
  split at h
  · cases h
    cases hstatus
  · obtain ⟨queue, hqueue, h⟩ := Outcome.bind_eq_ok.mp h
    obtain ⟨days, hdays, h⟩ := Outcome.bind_eq_ok.mp h
    obtain ⟨requestsCount, -, h⟩ := Outcome.bind_eq_ok.mp h
    obtain ⟨requests, -, h⟩ := Outcome.bind_eq_ok.mp h
    refine ⟨queue, days, ?_, hdays, by rw [← Outcome.pure_eq_ok.mp h]⟩
    cases hstored : stores.queueInfo.unfinalizedStETH with
    | none => rw [hstored] at hqueue; cases hqueue
    | some value => rw [hstored] at hqueue; cases hqueue; rfl

/-- The last exit is never closer than a new one may be. -/
theorem le_of_ofNumber_getMaxExitEpoch {exitEpoch : ℤ}
    (h : BigNumber.ofNumber (stores.getMaxExitEpoch now) = .ok exitEpoch) :
    stores.getCurrentEpoch now + 5 ≤ exitEpoch := by
  have hle := JsNumber.le_of_maxInteger_eq_finite (BigNumber.ofNumber_eq_ok h)
  rw [Int.cast_le, maxSeedLookahead] at hle
  omega

/-- What the days of an amount are computed from. -/
theorem exists_of_calculateRequestTimeSimple_eq_ok {unfinalizedETH days : ℤ}
    (h : stores.calculateRequestTimeSimple now unfinalizedETH = .ok days) :
    ∃ exitChurn lidoQueueInEpoch exitEpoch sweepEpochs,
      stores.exitChurnEthPerEpoch = .ok exitChurn ∧
      BigNumber.div unfinalizedETH exitChurn = .ok lidoQueueInEpoch ∧
      BigNumber.ofNumber (stores.getMaxExitEpoch now) = .ok exitEpoch ∧
      (defined stores.validators.sweepMeanEpochs >>= BigNumber.ofNumber) = .ok sweepEpochs ∧
      BigNumber.div ((exitEpoch + lidoQueueInEpoch + sweepEpochs - stores.getCurrentEpoch now) *
        secondsPerSlot * slotsPerEpoch) (60 * 60 * 24) = .ok days := by
  obtain ⟨exitChurn, hexitChurn, h⟩ := Outcome.bind_eq_ok.mp h
  obtain ⟨lidoQueueInEpoch, hqueueEpochs, h⟩ := Outcome.bind_eq_ok.mp h
  obtain ⟨exitEpoch, hexitEpoch, h⟩ := Outcome.bind_eq_ok.mp h
  obtain ⟨sweepingMean, hsweepingMean, h⟩ := Outcome.bind_eq_ok.mp h
  obtain ⟨sweepEpochs, hsweepEpochs, h⟩ := Outcome.bind_eq_ok.mp h
  obtain ⟨waitingTime, hwaitingTime, h⟩ := Outcome.bind_eq_ok.mp h
  obtain ⟨wholeDays, hwholeDays, h⟩ := Outcome.bind_eq_ok.mp h
  obtain ⟨-, rfl⟩ := BigNumber.toNumber_eq_ok.mp hwholeDays
  -- whole days are not rounded
  have hround := roundQuotient_mul_self waitingTime Int.one_pos
  rw [mul_one] at hround
  rw [← Outcome.pure_eq_ok.mp h, hround]
  exact ⟨exitChurn, lidoQueueInEpoch, exitEpoch, sweepEpochs, hexitChurn, hqueueEpochs, hexitEpoch,
    Outcome.bind_eq_ok.mpr ⟨sweepingMean, hsweepingMean, hsweepEpochs⟩, hwaitingTime⟩

/-- The exit churn counts the validators of the churn limit in whole. -/
theorem exitChurnEthPerEpoch_eq_of_eq_ok {churn : ℚ} {exitChurn : ℤ}
    (hchurn : stores.validators.churnLimit = some (.finite churn))
    (h : stores.exitChurnEthPerEpoch = .ok exitChurn) :
    minActivationBalance * ⌊churn⌋ = exitChurn := by
  rw [Stores.exitChurnEthPerEpoch, hchurn, defined, Outcome.ok_bind] at h
  obtain ⟨whole, hwhole, hexit⟩ := Outcome.bind_eq_ok.mp h
  have hfloor : ⌊churn⌋ = whole := by
    exact_mod_cast JsNumber.finite.inj (BigNumber.ofNumber_eq_ok hwhole)
  rw [hfloor]
  exact Outcome.pure_eq_ok.mp hexit

/-- Where the days of some amount are returned, the stores have a pace. -/
theorem exists_hasPace {churn sweep : ℚ} {queue : ℕ} {unfinalizedETH days : ℤ}
    (hqueue : stores.queueInfo.unfinalizedStETH = some queue)
    (hchurn : stores.validators.churnLimit = some (.finite churn)) (hfour : 4 ≤ churn)
    (hsweep : stores.validators.sweepMeanEpochs = some (.finite sweep)) (hnonneg : 0 ≤ sweep)
    (h : stores.calculateRequestTimeSimple now unfinalizedETH = .ok days) :
    ∃ pace, stores.HasPace now pace := by
  obtain ⟨exitChurn, _, exitEpoch, sweepEpochs, hexitChurn, -, hexitEpoch, hsweepEpochs, -⟩ :=
    exists_of_calculateRequestTimeSimple_eq_ok h
  -- the stored numbers are whole, since `BigNumber.from` accepted them
  have hlastExit := le_of_ofNumber_getMaxExitEpoch hexitEpoch
  have hwhole : 0 ≤ sweepEpochs := by
    rw [hsweep, defined, Outcome.ok_bind] at hsweepEpochs
    rw [JsNumber.finite.inj (BigNumber.ofNumber_eq_ok hsweepEpochs)] at hnonneg
    exact_mod_cast hnonneg
  exact ⟨{
      queue
      untilLastExit := exitEpoch - stores.getCurrentEpoch now
      churnLimit := ⌊churn⌋
      sweepMeanEpochs := sweepEpochs
      five_le_untilLastExit := by omega
      four_le_churnLimit := Int.le_floor.mpr (by exact_mod_cast hfour)
      sweepMeanEpochs_nonneg := hwhole }, {
    queue := hqueue
    untilLastExit := by rw [hexitEpoch, add_sub_cancel]
    churnLimit := by rw [exitChurnEthPerEpoch_eq_of_eq_ok hchurn hexitChurn, hexitChurn]
    sweepMeanEpochs := hsweepEpochs }⟩

/-- The days of a queue with a pace are its epochs, counted in whole days. -/
theorem Stores.HasPace.calculateRequestTimeSimple_eq (hpace : stores.HasPace now pace) {days : ℤ}
    (h : stores.calculateRequestTimeSimple now (pace.queue + amount) = .ok days) :
    days = pace.waitingEpochs amount / epochsPerDay := by
  have hexitChurn_pos := pace.exitChurn_pos
  obtain ⟨exitChurn, lidoQueueInEpoch, exitEpoch, sweepEpochs, hexitChurn, hqueueEpochs,
    hexitEpoch, hsweepEpochs, hdays⟩ := exists_of_calculateRequestTimeSimple_eq_ok h
  obtain rfl : minActivationBalance * pace.churnLimit = exitChurn := by
    simpa [hpace.churnLimit] using hexitChurn
  obtain rfl : stores.getCurrentEpoch now + pace.untilLastExit = exitEpoch := by
    simpa [hpace.untilLastExit] using hexitEpoch
  obtain rfl : pace.sweepMeanEpochs = sweepEpochs :=
    Except.ok.inj (hpace.sweepMeanEpochs.symm.trans hsweepEpochs)
  obtain rfl : (pace.queue + amount : ℤ) / (minActivationBalance * pace.churnLimit) =
      lidoQueueInEpoch := by
    rw [BigNumber.div_of_pos (by omega) hexitChurn_pos, Except.ok.injEq] at hqueueEpochs
    exact hqueueEpochs
  have hepochs : stores.getCurrentEpoch now + pace.untilLastExit +
      (pace.queue + amount) / (minActivationBalance * pace.churnLimit) + pace.sweepMeanEpochs -
      stores.getCurrentEpoch now = pace.waitingEpochs amount := by
    rw [ExitPace.waitingEpochs]
    ring
  have hpositive := pace.five_le_waitingEpochs amount
  rw [hepochs, BigNumber.div_of_pos (by simp only [secondsPerSlot, slotsPerEpoch]; omega)
    (by norm_num), Except.ok.injEq] at hdays
  rw [← hdays]
  simp only [secondsPerSlot, slotsPerEpoch, epochsPerDay]
  omega

/-- The days that are answered for an amount. -/
theorem Stores.HasPace.days_eq (hpace : stores.HasPace now pace)
    (h : stores.getRequestTime now amount = .ok dto) (hstatus : dto.status = .calculated) :
    dto.days = some (if pace.waitingEpochs amount / epochsPerDay ≤ 0 then 5
      else pace.waitingEpochs amount / epochsPerDay) := by
  obtain ⟨queue, days, hqueue, hdays, hanswer⟩ := days_of_calculated h hstatus
  rw [hpace.queue, Option.some.injEq] at hqueue
  rw [← hqueue] at hdays
  rw [hanswer, hpace.calculateRequestTimeSimple_eq hdays]

end Pace

/-! ## The larger amount -/

/-- The larger amount does not look earlier: the smaller one takes a day, or both
are within the first day, or the larger one takes the five days that replace
none. -/
def ExitPace.KeepsOrder (pace : ExitPace) (small large : ℕ) : Prop :=
  epochsPerDay ≤ pace.waitingEpochs small ∨ pace.waitingEpochs large < epochsPerDay ∨
    5 * epochsPerDay ≤ pace.waitingEpochs large

/-- **Fewer days are never answered for more, exactly when** the smaller amount
takes a day, the larger one takes none, or it takes five. -/
theorem getRequestTime_days_le_iff {stores : Stores} {now : ℤ} {churn sweep : ℚ} {small large : ℕ}
    {dtoSmall dtoLarge : RequestTimeDto}
    (hchurn : stores.validators.churnLimit = some (.finite churn)) (hfour : 4 ≤ churn)
    (hsweep : stores.validators.sweepMeanEpochs = some (.finite sweep)) (hnonneg : 0 ≤ sweep)
    (hle : small ≤ large)
    (hsmall : stores.getRequestTime now small = .ok dtoSmall)
    (hsmallStatus : dtoSmall.status = .calculated)
    (hlarge : stores.getRequestTime now large = .ok dtoLarge)
    (hlargeStatus : dtoLarge.status = .calculated) :
    ∃ pace daysSmall daysLarge, stores.HasPace now pace ∧ dtoSmall.days = some daysSmall ∧
      dtoLarge.days = some daysLarge ∧
      (daysSmall ≤ daysLarge ↔ pace.KeepsOrder small large) := by
  obtain ⟨queue, days, hqueue, hdays, -⟩ := days_of_calculated hsmall hsmallStatus
  obtain ⟨pace, hpace⟩ := exists_hasPace hqueue hchurn hfour hsweep hnonneg hdays
  refine ⟨pace, _, _, hpace, hpace.days_eq hsmall hsmallStatus,
    hpace.days_eq hlarge hlargeStatus, ?_⟩
  have hmono := pace.waitingEpochs_mono hle
  have hpositive := pace.five_le_waitingEpochs small
  simp only [ExitPace.KeepsOrder, epochsPerDay]
  split_ifs <;> omega

/-- A queue that is empty, with no exit ahead and a sweep of four epochs. -/
def emptyQueueStores : Stores where
  genesisTime := 0
  validators := {
    maxExitEpoch := some ['0']
    lastUpdate := some (.finite 1)
    sweepMeanEpochs := some (.finite 4)
    churnLimit := some (.finite 8) }
  contractConfig := { lastUpdate := some 1 }
  queueInfo := {
    unfinalizedStETH := some 0
    unfinalizedRequestsCount := some 0
    lastUpdate := some 1 }

/-- What is answered on top of an empty queue, in genesis. -/
def emptyQueueDto (days : ℤ) : RequestTimeDto where
  days := some days
  stethLastUpdate := some 1
  validatorsLastUpdate := some (.finite 1)
  steth := some ['0']
  requests := some 0
  status := .calculated

/-- Five days for an ether, and ten days for 591200 of them. -/
theorem getRequestTime_days_le_iff_tenDays :
    ∃ pace daysSmall daysLarge, emptyQueueStores.HasPace 0 pace ∧
      (emptyQueueDto 5).days = some daysSmall ∧ (emptyQueueDto 10).days = some daysLarge ∧
      (daysSmall ≤ daysLarge ↔ pace.KeepsOrder (10 ^ 18) (591200 * 10 ^ 18)) :=
  getRequestTime_days_le_iff
    (rfl : emptyQueueStores.validators.churnLimit = some (.finite (8 : ℚ))) (by norm_num)
    (rfl : emptyQueueStores.validators.sweepMeanEpochs = some (.finite (4 : ℚ))) (by norm_num)
    (by norm_num) (by decide +kernel) rfl (by decide +kernel) rfl

/-- Five days for an ether, and one day for 55296 of them. -/
theorem getRequestTime_days_not_monotone :
    ¬ ∀ (stores : Stores) (now : ℤ) (churn sweep : ℚ) (small large : ℕ)
      (dtoSmall dtoLarge : RequestTimeDto) (daysSmall daysLarge : ℤ),
      stores.validators.churnLimit = some (.finite churn) → 4 ≤ churn →
      stores.validators.sweepMeanEpochs = some (.finite sweep) → 0 ≤ sweep → small ≤ large →
      stores.getRequestTime now small = .ok dtoSmall → dtoSmall.status = .calculated →
      stores.getRequestTime now large = .ok dtoLarge → dtoLarge.status = .calculated →
      dtoSmall.days = some daysSmall → dtoLarge.days = some daysLarge →
      daysSmall ≤ daysLarge := by
  intro hmonotone
  have hdays := hmonotone emptyQueueStores 0 8 4 (10 ^ 18) (55296 * 10 ^ 18) (emptyQueueDto 5)
    (emptyQueueDto 1) 5 1 rfl (by norm_num) rfl (by norm_num) (by norm_num)
    (by decide +kernel) rfl (by decide +kernel) rfl rfl rfl
  exact absurd hdays (by decide)

end WithdrawalsApi
