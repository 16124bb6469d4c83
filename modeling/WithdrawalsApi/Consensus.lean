/-
# What the consensus node answers

The records of the beacon node that the jobs read, and the predicates on a
validator. Quantities are decimal texts in the answers of the node and numbers
here; balances are in gwei until `parseGwei` turns them into wei.

Two of the predicates compare `BigNumber` objects with operators of the
language, which work on the decimal texts of the two numbers.
-/

import WithdrawalsApi.Js.Text

namespace WithdrawalsApi

open Js

inductive ValidatorStatus
  | pendingInitialized
  | pendingQueued
  | activeOngoing
  | activeExiting
  | activeSlashed
  | exitedUnslashed
  | exitedSlashed
  | withdrawalPossible
  | withdrawalDone
  deriving DecidableEq, Repr

structure Validator where
  pubkey : List Char
  withdrawalCredentials : List Char
  /-- In gwei. -/
  effectiveBalance : ℕ
  exitEpoch : ℕ
  withdrawableEpoch : ℕ
  deriving DecidableEq, Repr

structure IndexedValidator where
  index : ℕ
  /-- In gwei. -/
  balance : ℕ
  status : ValidatorStatus
  validator : Validator
  deriving DecidableEq, Repr

structure PendingPartialWithdrawal where
  validatorIndex : ℕ
  /-- In gwei. -/
  amount : ℕ
  deriving DecidableEq, Repr

/-- The part of the beacon state that tells where the withdrawal sweep stands. -/
structure BeaconStateSweepData where
  slot : ℕ
  nextWithdrawalValidatorIndex : Option ℕ
  latestFullSlot : Option ℕ
  deriving DecidableEq, Repr

/-- `FAR_FUTURE_EPOCH`. -/
def farFutureEpoch : ℕ := 2 ^ 64 - 1

/-- `MAX_SEED_LOOKAHEAD`. -/
def maxSeedLookahead : ℤ := 4

/-- Gwei to wei. -/
def parseGwei (gweiValue : ℕ) : ℤ := gweiValue * 1000000000

/-- `MIN_ACTIVATION_BALANCE`, in wei. -/
def minActivationBalance : ℤ := 32 * 10 ^ 18

/-- `MAX_EFFECTIVE_BALANCE_ELECTRA`, in wei. -/
def maxEffectiveBalanceElectra : ℤ := 2048 * 10 ^ 18

namespace Validator

def hasCompoundingWithdrawalCredential (validator : Validator) : Bool :=
  ['0', 'x', '0', '2'].isPrefixOf validator.withdrawalCredentials

def hasEth1WithdrawalCredential (validator : Validator) : Bool :=
  ['0', 'x', '0', '1'].isPrefixOf validator.withdrawalCredentials

def hasExecutionWithdrawalCredential (validator : Validator) : Bool :=
  validator.hasCompoundingWithdrawalCredential || validator.hasEth1WithdrawalCredential

def getMaxEffectiveBalance (validator : Validator) : ℤ :=
  if validator.hasCompoundingWithdrawalCredential then maxEffectiveBalanceElectra
  else minActivationBalance

def isPartiallyWithdrawableValidator (validator : Validator) (balance : ℤ) : Bool :=
  let maxEffectiveBalance := validator.getMaxEffectiveBalance
  let hasMaxEffectiveBalance := decide (parseGwei validator.effectiveBalance = maxEffectiveBalance)
  -- `>` on two objects compares their texts
  let hasExcessBalance := decide (integerText maxEffectiveBalance < integerText balance)
  validator.hasExecutionWithdrawalCredential && hasMaxEffectiveBalance && hasExcessBalance

def isFullyWithdrawableValidator (validator : Validator) (balance epoch : ℤ) : Bool :=
  validator.hasExecutionWithdrawalCredential &&
    decide ((validator.withdrawableEpoch : ℤ) ≤ epoch) && decide (0 < balance)

end Validator

end WithdrawalsApi
