/-
# The four stores and the readiness gate

The jobs fill the stores and the estimates read them. A field that no job has
set is `undefined`, which is `none` here; the fields that a class initializer
sets have that default. Counters written by the validators job are numbers,
since the cache file restores them with `Number(..)`.

`checkIsInitializing` looks at five fields only. `readings` is what the
estimates obtain from the getters when every value they use is there: the gate
says nothing about most of these values, and that it may be trusted is a
statement about the jobs.
-/

import WithdrawalsApi.GenesisTime
import WithdrawalsApi.Js.Double
import WithdrawalsApi.Js.Record
import Mathlib.Data.PNat.Basic

namespace WithdrawalsApi

open Js

/-- The property name under which a frame is stored; a frame number that is not
finite is stored under `NaN`. -/
def frameKey : Option ℤ → PropertyKey
  | some frame => .integer frame
  | none => .name ['N', 'a', 'N']

structure ValidatorsStorageService where
  /-- Decimal text. -/
  maxExitEpoch : Option (List Char) := none
  activeValidatorsCount : Option JsNumber := none
  totalValidatorsCount : Option ℕ := none
  lastUpdate : Option JsNumber := none
  frameBalances : Option (Record ℤ) := none
  sweepMeanEpochs : Option JsNumber := none
  churnLimit : Option JsNumber := none
  withdrawableLidoValidatorIds : List ℕ := []

/-- A withdrawal request as the queue contract reports it; owner, shares and
the two flags are read by no estimate. -/
structure WithdrawalRequest where
  id : ℕ
  amountOfStETH : ℕ
  timestamp : ℕ
  deriving DecidableEq, Repr

/-- The queue data; the estimates read the last request id, the requests, the next
update and the bunker mode. -/
structure QueueInfoStorageService where
  unfinalizedStETH : Option ℕ := none
  unfinalizedRequestsCount : Option ℕ := none
  lastUpdate : Option ℤ := none
  minStethAmount : Option ℕ := none
  maxStethAmount : Option ℕ := none
  depositableEther : Option ℕ := none
  lastRequestId : Option ℕ := none
  requests : List WithdrawalRequest := []
  nextUpdate : Option Date := none
  bunkerModeActive : Option Bool := none

/-- A request timestamp margin as the limits reader admits it: whole seconds,
at most a day. -/
structure RequestTimestampMargin where
  seconds : ℕ
  seconds_le : seconds ≤ 86400
  deriving DecidableEq

/-- The stored margin is in milliseconds. -/
def RequestTimestampMargin.toMs (margin : RequestTimestampMargin) : ℤ := margin.seconds * 1000

theorem RequestTimestampMargin.toMs_nonneg (margin : RequestTimestampMargin) :
    0 ≤ margin.toMs := by
  simp only [toMs]
  omega

/-- A cap on the ether whose exit may be requested in one report, in whole
ether, as the limits reader admits it. -/
structure ExitRequestCap where
  eth : ℕ
  eth_le : eth ≤ 65535
  deriving DecidableEq

structure ContractConfigStorageService where
  requestTimestampMargin : Option RequestTimestampMargin := none
  initialEpoch : Option ℕ := none
  epochsPerFrameVEBO : Option ℕ+ := none
  epochsPerFrame : Option ℕ+ := none
  maxBalanceExitRequestedPerReportInEth : Option ExitRequestCap := none
  lidoSupportsDepositsReserve : Bool := false
  depositsReserveTarget : ℕ := 0
  lastUpdate : Option ℤ := none

/-- The rewards per frame may be negative: a validator balance may shrink. -/
structure RewardsStorageService where
  rewardsPerFrame : ℤ := 0
  clRewardsPerFrame : ℤ := 0
  elRewardsPerFrame : ℤ := 0

/-- The state of the service: the four stores, and the genesis time that is
fetched before the service starts to listen. -/
structure Stores where
  genesisTime : ℤ
  validators : ValidatorsStorageService := {}
  contractConfig : ContractConfigStorageService := {}
  rewards : RewardsStorageService := {}
  queueInfo : QueueInfoStorageService := {}

/-- `Boolean(value)` of an optional number: `undefined` is falsy. -/
def truthyNumber (value : Option JsNumber) : Bool := value.any JsNumber.truthy

/-- `Boolean(value)` of an optional whole number. -/
def truthyInteger (value : Option ℤ) : Bool := value.any fun n => decide (n ≠ 0)

namespace Stores

/-- The condition under which `checkIsInitializing` returns `null`; the list of
requests is an array, hence always truthy. -/
def isInitialized (stores : Stores) : Bool :=
  truthyNumber stores.validators.lastUpdate && truthyNumber stores.validators.churnLimit &&
    truthyInteger stores.queueInfo.lastUpdate && truthyInteger stores.contractConfig.lastUpdate

end Stores

/-- The values the estimates read, all of them present. -/
structure Readings where
  time : GenesisTimeService
  epochsPerFrameVEBO : ℕ+
  requestTimestampMargin : RequestTimestampMargin
  maxBalanceExitRequestedPerReportInEth : ExitRequestCap
  depositsReserveTarget : ℕ
  rewardsPerFrame : ℤ
  maxExitEpoch : ℕ
  sweepMeanEpochs : ℕ
  churnLimit : ℕ
  frameBalances : Record ℤ
  requests : List WithdrawalRequest
  lastRequestId : ℕ
  nextUpdate : Date
  bunkerModeActive : Bool

/-- A read of a value that was never stored. -/
def defined {α : Type} : Option α → Outcome α
  | some value => .ok value
  | none => .error .undefinedRead

/-- A read of a stored number that the estimates use as a natural number, as
every job writes it. -/
def definedNatural (value : Option JsNumber) : Outcome ℕ := do
  let number ← defined value
  match number.natural? with
  | some n => .ok n
  | none => .error .invalidNumber

theorem definedNatural_eq_ok {value : Option JsNumber} {n : ℕ} :
    definedNatural value = .ok n ↔ ∃ number, value = some number ∧ number.natural? = some n := by
  cases value with
  | none => simp [definedNatural, defined]
  | some number => cases h : number.natural? <;> simp [definedNatural, defined, h]

/-- A configured frame is not empty. -/
theorem natCast_epochsPerFrame_pos (epochsPerFrame : ℕ+) : (0 : ℤ) < (epochsPerFrame : ℕ) :=
  Int.natCast_pos.mpr epochsPerFrame.pos

/-- The values behind the getters. -/
def Stores.readings (stores : Stores) : Outcome Readings := do
  let initialEpoch ← defined stores.contractConfig.initialEpoch
  let epochsPerFrame ← defined stores.contractConfig.epochsPerFrame
  let epochsPerFrameVEBO ← defined stores.contractConfig.epochsPerFrameVEBO
  let requestTimestampMargin ← defined stores.contractConfig.requestTimestampMargin
  let cap ← defined stores.contractConfig.maxBalanceExitRequestedPerReportInEth
  let maxExitEpoch ← definedNatural (stores.validators.maxExitEpoch.map JsNumber.ofText)
  let sweepMeanEpochs ← definedNatural stores.validators.sweepMeanEpochs
  let churnLimit ← definedNatural stores.validators.churnLimit
  let frameBalances ← defined stores.validators.frameBalances
  let lastRequestId ← defined stores.queueInfo.lastRequestId
  let nextUpdate ← defined stores.queueInfo.nextUpdate
  let bunkerModeActive ← defined stores.queueInfo.bunkerModeActive
  pure {
    time := {
      genesisTime := stores.genesisTime
      initialEpoch
      epochsPerFrame := epochsPerFrame
      epochsPerFrame_pos := natCast_epochsPerFrame_pos epochsPerFrame }
    epochsPerFrameVEBO
    requestTimestampMargin
    maxBalanceExitRequestedPerReportInEth := cap
    depositsReserveTarget := stores.contractConfig.depositsReserveTarget
    rewardsPerFrame := stores.rewards.rewardsPerFrame
    maxExitEpoch
    sweepMeanEpochs
    churnLimit
    frameBalances
    requests := stores.queueInfo.requests
    lastRequestId
    nextUpdate
    bunkerModeActive }

/-- The readings hold the stored churn limit. -/
theorem Stores.churnLimit_of_readings {stores : Stores} {r : Readings}
    (h : stores.readings = .ok r) :
    ∃ number, stores.validators.churnLimit = some number ∧
      number.natural? = some r.churnLimit := by
  obtain ⟨initialEpoch, -, h⟩ := Outcome.bind_eq_ok.mp h
  obtain ⟨epochsPerFrame, -, h⟩ := Outcome.bind_eq_ok.mp h
  obtain ⟨epochsPerFrameVEBO, -, h⟩ := Outcome.bind_eq_ok.mp h
  obtain ⟨margin, -, h⟩ := Outcome.bind_eq_ok.mp h
  obtain ⟨cap, -, h⟩ := Outcome.bind_eq_ok.mp h
  obtain ⟨maxExitEpoch, -, h⟩ := Outcome.bind_eq_ok.mp h
  obtain ⟨sweepMeanEpochs, -, h⟩ := Outcome.bind_eq_ok.mp h
  obtain ⟨churnLimit, hchurn, h⟩ := Outcome.bind_eq_ok.mp h
  obtain ⟨frameBalances, -, h⟩ := Outcome.bind_eq_ok.mp h
  obtain ⟨lastRequestId, -, h⟩ := Outcome.bind_eq_ok.mp h
  obtain ⟨nextUpdate, -, h⟩ := Outcome.bind_eq_ok.mp h
  obtain ⟨bunkerModeActive, -, h⟩ := Outcome.bind_eq_ok.mp h
  rw [← Outcome.pure_eq_ok.mp h]
  exact definedNatural_eq_ok.mp hchurn

/-- Behind an open gate the churn limit is not zero. -/
theorem Stores.churnLimit_pos_of_readings {stores : Stores} {r : Readings}
    (hinitialized : stores.isInitialized = true) (h : stores.readings = .ok r) :
    0 < r.churnLimit := by
  obtain ⟨number, hnumber, hnatural⟩ := churnLimit_of_readings h
  rw [JsNumber.eq_of_natural?_eq_some hnatural] at hnumber
  simp only [isInitialized, Bool.and_eq_true, hnumber, truthyNumber, Option.any_some,
    JsNumber.truthy, decide_eq_true_eq, ne_eq, Nat.cast_eq_zero] at hinitialized
  omega

/-- The values of given readings, stored. -/
def Readings.toStores (r : Readings) : Stores where
  genesisTime := r.time.genesisTime
  validators := {
    maxExitEpoch := some (Nat.toDigits 10 r.maxExitEpoch)
    lastUpdate := some (.finite 1)
    frameBalances := some r.frameBalances
    sweepMeanEpochs := some (.finite r.sweepMeanEpochs)
    churnLimit := some (.finite r.churnLimit) }
  contractConfig := {
    requestTimestampMargin := some r.requestTimestampMargin
    initialEpoch := some r.time.initialEpoch.toNat
    epochsPerFrameVEBO := some r.epochsPerFrameVEBO
    epochsPerFrame := some
      ⟨r.time.epochsPerFrame.toNat, by have := r.time.epochsPerFrame_pos; omega⟩
    maxBalanceExitRequestedPerReportInEth := some r.maxBalanceExitRequestedPerReportInEth
    depositsReserveTarget := r.depositsReserveTarget
    lastUpdate := some 1 }
  rewards := { rewardsPerFrame := r.rewardsPerFrame }
  queueInfo := {
    lastUpdate := some 1
    lastRequestId := some r.lastRequestId
    requests := r.requests
    nextUpdate := some r.nextUpdate
    bunkerModeActive := some r.bunkerModeActive }

/-- Readings whose exit epoch has at most 53 bits are those of some state: a result about
readings is about the states of the service. -/
theorem Readings.readings_toStores (r : Readings) (h : 0 ≤ r.time.initialEpoch)
    (hexit : r.maxExitEpoch ≤ 2 ^ 53) : r.toStores.readings = .ok r := by
  have hmaxExitEpoch : definedNatural (r.toStores.validators.maxExitEpoch.map JsNumber.ofText) =
      .ok r.maxExitEpoch :=
    definedNatural_eq_ok.mpr
      ⟨_, rfl, by rw [JsNumber.ofText_toDigits_of_le hexit, JsNumber.natural?_natCast]⟩
  have hsweep : definedNatural r.toStores.validators.sweepMeanEpochs = .ok r.sweepMeanEpochs :=
    definedNatural_eq_ok.mpr ⟨_, rfl, JsNumber.natural?_natCast _⟩
  have hchurn : definedNatural r.toStores.validators.churnLimit = .ok r.churnLimit :=
    definedNatural_eq_ok.mpr ⟨_, rfl, JsNumber.natural?_natCast _⟩
  have hframe : (r.time.epochsPerFrame.toNat : ℤ) = r.time.epochsPerFrame :=
    Int.toNat_of_nonneg r.time.epochsPerFrame_pos.le
  have hreadings : r.toStores.readings = .ok { r with
      time := {
        genesisTime := r.time.genesisTime
        initialEpoch := r.time.initialEpoch.toNat
        epochsPerFrame := r.time.epochsPerFrame.toNat
        epochsPerFrame_pos := by rw [hframe]; exact r.time.epochsPerFrame_pos } } := by
    simp only [Stores.readings, hmaxExitEpoch, hsweep, hchurn]
    rfl
  rw [hreadings]
  simp only [Int.toNat_of_nonneg h, hframe]

theorem Readings.isInitialized_toStores (r : Readings) (h : r.churnLimit ≠ 0) :
    r.toStores.isInitialized = true := by
  simp [Stores.isInitialized, Readings.toStores, truthyNumber, truthyInteger, JsNumber.truthy, h]

end WithdrawalsApi
