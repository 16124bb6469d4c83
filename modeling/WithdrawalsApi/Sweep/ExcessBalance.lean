/-
# Balances above the maximum

A validator is partially withdrawable once its balance exceeds its maximum effective
balance. The comparison is made on two `BigNumber` objects, so it compares their
decimal texts: a balance of 100 ether does not exceed 32 ether. The texts are in the
order of the numbers when these have equally many digits, or when the sign or the
leading digits decide in the same way.
-/

import WithdrawalsApi.Js.TextOrder
import WithdrawalsApi.Sweep.PartialWithdrawals

namespace WithdrawalsApi

open Js

namespace Validator

/-- The predicate of the consensus specification. -/
def PartiallyWithdrawable (validator : Validator) (balance : ℤ) : Prop :=
  validator.hasExecutionWithdrawalCredential = true ∧
    parseGwei validator.effectiveBalance = validator.getMaxEffectiveBalance ∧
      validator.getMaxEffectiveBalance < balance

instance (validator : Validator) (balance : ℤ) :
    Decidable (validator.PartiallyWithdrawable balance) :=
  inferInstanceAs (Decidable (_ ∧ _ ∧ _))

/-- What the comparison of a validator's balance comes to. -/
def ComparedRightly (validator : Validator) (balance : ℤ) : Prop :=
  validator.hasExecutionWithdrawalCredential = false ∨
    parseGwei validator.effectiveBalance ≠ validator.getMaxEffectiveBalance ∨
      DigitsAgree validator.getMaxEffectiveBalance balance

instance (validator : Validator) (balance : ℤ) :
    Decidable (validator.ComparedRightly balance) :=
  inferInstanceAs (Decidable (_ ∨ _ ∨ _))

theorem exists_getMaxEffectiveBalance_eq_natCast (validator : Validator) :
    ∃ maximum : ℕ, validator.getMaxEffectiveBalance = maximum := by
  unfold getMaxEffectiveBalance
  split
  · exact ⟨2048 * 10 ^ 18, by decide⟩
  · exact ⟨32 * 10 ^ 18, by decide⟩

/-- The predicate is that of the specification where the balance is compared rightly, and
nowhere else. -/
theorem isPartiallyWithdrawableValidator_iff_iff (validator : Validator) (balance : ℤ) :
    (validator.isPartiallyWithdrawableValidator balance = true ↔
        validator.PartiallyWithdrawable balance) ↔
      validator.ComparedRightly balance := by
  obtain ⟨maximum, hmaximum⟩ := validator.exists_getMaxEffectiveBalance_eq_natCast
  have horder := integerText_lt_iff_lt_iff maximum balance
  rw [← hmaximum] at horder
  simp only [isPartiallyWithdrawableValidator, PartiallyWithdrawable, ComparedRightly,
    Bool.and_eq_true, decide_eq_true_eq, and_assoc, ← horder]
  cases hcredential : validator.hasExecutionWithdrawalCredential with
  | false => simp
  | true =>
      by_cases heffective : parseGwei validator.effectiveBalance = validator.getMaxEffectiveBalance
      · simp [heffective]
      · simp [heffective]

end Validator

namespace SweepService

/-- The specification makes a withdrawal for a validator with the balance that is left. -/
def specifiesWithdrawal (partialWithdrawals : List Withdrawal) (epoch : ℤ)
    (indexedValidator : IndexedValidator) : Bool :=
  match balanceLeft partialWithdrawals indexedValidator with
  | .ok balance =>
      indexedValidator.validator.isFullyWithdrawableValidator balance epoch ||
        decide (indexedValidator.validator.PartiallyWithdrawable balance)
  | .error _ => false

/-- The balance that is left is compared rightly. -/
def LeftComparedRightly (partialWithdrawals : List Withdrawal)
    (indexedValidator : IndexedValidator) : Prop :=
  ∀ balance, balanceLeft partialWithdrawals indexedValidator = .ok balance →
    indexedValidator.validator.ComparedRightly balance

variable {partialWithdrawals : List Withdrawal} {epoch : ℤ}

/-- A validator whose balance is compared rightly. -/
theorem isCounted_eq_specifiesWithdrawal {indexedValidator : IndexedValidator}
    (hright : LeftComparedRightly partialWithdrawals indexedValidator) :
    isCounted partialWithdrawals epoch indexedValidator =
      specifiesWithdrawal partialWithdrawals epoch indexedValidator := by
  unfold isCounted specifiesWithdrawal
  cases hleft : balanceLeft partialWithdrawals indexedValidator with
  | error fault => rfl
  | ok balance =>
      have hpredicate : indexedValidator.validator.isPartiallyWithdrawableValidator balance =
          decide (indexedValidator.validator.PartiallyWithdrawable balance) := by
        rw [Bool.eq_iff_iff, decide_eq_true_iff]
        exact (indexedValidator.validator.isPartiallyWithdrawableValidator_iff_iff balance).mpr
          (hright balance hleft)
      simp only [hpredicate]

/-- The withdrawals that are counted are those of the specification, once every balance
is compared rightly. -/
theorem getValidatorsWithdrawalsNumber_of_comparedRightly
    {indexedValidators : List IndexedValidator} {withdrawalsNumber : ℕ}
    (hright : ∀ indexedValidator ∈ indexedValidators,
      LeftComparedRightly partialWithdrawals indexedValidator)
    (h : getValidatorsWithdrawalsNumber partialWithdrawals indexedValidators epoch =
      .ok withdrawalsNumber) :
    withdrawalsNumber =
      indexedValidators.countP (specifiesWithdrawal partialWithdrawals epoch) := by
  rw [getValidatorsWithdrawalsNumber_eq_countP h]
  apply List.countP_congr
  intro indexedValidator hmem
  rw [isCounted_eq_specifiesWithdrawal (hright indexedValidator hmem)]

/-- **A validator is partially withdrawable as specified exactly when** it cannot be for
its credentials or its effective balance, or the digits of its balance agree with those
of its maximum. Where this holds for all validators, the withdrawals of the
specification are counted, and no others; for amounts in wei the count returns. -/
theorem partiallyWithdrawable_asSpecified_iff (validator : Validator) (balance : ℤ) :
    ((validator.isPartiallyWithdrawableValidator balance = true ↔
        validator.PartiallyWithdrawable balance) ↔
      validator.ComparedRightly balance) ∧
      ∀ (partialWithdrawals : List Withdrawal) (indexedValidators : List IndexedValidator)
        (epoch : ℤ),
        ((∀ withdrawal ∈ partialWithdrawals, 0 ≤ withdrawal.amount) →
          ∃ withdrawalsNumber,
            getValidatorsWithdrawalsNumber partialWithdrawals indexedValidators epoch =
              .ok withdrawalsNumber) ∧
        ∀ withdrawalsNumber : ℕ,
          (∀ indexedValidator ∈ indexedValidators,
            LeftComparedRightly partialWithdrawals indexedValidator) →
          getValidatorsWithdrawalsNumber partialWithdrawals indexedValidators epoch =
            .ok withdrawalsNumber →
          withdrawalsNumber =
            indexedValidators.countP (specifiesWithdrawal partialWithdrawals epoch) :=
  ⟨validator.isPartiallyWithdrawableValidator_iff_iff balance,
    fun _ indexedValidators epoch =>
      ⟨fun hwei => exists_getValidatorsWithdrawalsNumber hwei indexedValidators epoch,
        fun _ hright h => getValidatorsWithdrawalsNumber_of_comparedRightly hright h⟩⟩

/-- A validator of 32 ether, to which 68 ether have been added. -/
def toppedUpValidator : Validator where
  pubkey := ['7']
  withdrawalCredentials := ['0', 'x', '0', '1']
  effectiveBalance := 32000000000
  exitEpoch := farFutureEpoch
  withdrawableEpoch := farFutureEpoch

/-- One ether more than the maximum is seen, and the withdrawal is counted. -/
theorem partiallyWithdrawable_asSpecified_thirtyThreeEther :
    (toppedUpValidator.isPartiallyWithdrawableValidator (33 * 10 ^ 18) = true ↔
        toppedUpValidator.PartiallyWithdrawable (33 * 10 ^ 18)) ∧
      1 = [(⟨7, 33000000000, .activeOngoing, toppedUpValidator⟩ : IndexedValidator)].countP
        (specifiesWithdrawal [] 100) := by
  constructor
  · apply (partiallyWithdrawable_asSpecified_iff _ _).1.mpr
    decide +kernel
  · apply ((partiallyWithdrawable_asSpecified_iff toppedUpValidator 0).2 [] _ 100).2
    · intro indexedValidator hmem balance hleft
      obtain rfl := List.mem_singleton.mp hmem
      have hbalance : balance = 33 * 10 ^ 18 := (Except.ok.inj hleft).symm
      rw [hbalance]
      decide +kernel
    · decide +kernel

/-- 100 ether exceed 32 ether, but their texts are in the other order. -/
theorem partiallyWithdrawable_not_asSpecified :
    ¬ ∀ (validator : Validator) (balance : ℤ),
      validator.isPartiallyWithdrawableValidator balance = true ↔
        validator.PartiallyWithdrawable balance := by
  intro h
  have hspecified : toppedUpValidator.PartiallyWithdrawable (100 * 10 ^ 18) := by decide
  exact absurd ((h toppedUpValidator (100 * 10 ^ 18)).mpr hspecified) (by decide +kernel)

end SweepService

end WithdrawalsApi
