/-
# Partial withdrawals that are subtracted

Before the withdrawals of a sweep are counted, the partial withdrawals that are
predicted for a validator are taken off its balance. They are added up with `+`, and
on a `BigNumber` that joins decimal texts: an amount is moved to the left by the
digits of every amount behind it. Where the amounts in front of the last one are
zero nothing is moved, and the text denotes the sum.
-/

import WithdrawalsApi.Sweep
import Mathlib.Algebra.BigOperators.Ring.Finset

namespace WithdrawalsApi

open Js

/-- The amounts that are predicted for a validator, in the order of the list. -/
def amountsOf (partialWithdrawals : List Withdrawal) (validatorIndex : ℕ) : List ℤ :=
  (partialWithdrawals.filter fun withdrawal =>
    decide (withdrawal.validatorIndex = validatorIndex)).map Withdrawal.amount

theorem amountsOf_append_singleton (partialWithdrawals : List Withdrawal)
    (withdrawal : Withdrawal) (validatorIndex : ℕ) :
    amountsOf (partialWithdrawals ++ [withdrawal]) validatorIndex =
      if withdrawal.validatorIndex = validatorIndex then
        amountsOf partialWithdrawals validatorIndex ++ [withdrawal.amount]
      else amountsOf partialWithdrawals validatorIndex := by
  rw [amountsOf, List.filter_append, List.map_append, ← amountsOf]
  by_cases h : withdrawal.validatorIndex = validatorIndex <;> simp [h]

namespace SweepService

/-- A predicted withdrawal is not negative. -/
theorem amount_nonneg_of_mem {pendingPartialWithdrawalsData : List PendingPartialWithdrawal}
    {indexedValidators : List IndexedValidator} {withdrawal : Withdrawal}
    (h : withdrawal ∈
      getPendingPartialWithdrawals pendingPartialWithdrawalsData indexedValidators) :
    0 ≤ withdrawal.amount := by
  rw [getPendingPartialWithdrawals, List.mem_filterMap] at h
  obtain ⟨pending, -, h⟩ := h
  obtain ⟨indexedValidator, -, h⟩ := Option.bind_eq_some_iff.mp h
  simp only at h
  split at h
  case isTrue hpredicted =>
    have hexcess := of_decide_eq_true hpredicted.2.2
    rw [← Option.some.inj h]
    apply le_min
    · omega
    · exact mul_nonneg (Int.natCast_nonneg _) (by decide)
  case isFalse => cases h

/-- What is stored under an index: a zero, and behind it the texts of all amounts. -/
theorem get?_partiallyWithdrawnMap (partialWithdrawals : List Withdrawal) (validatorIndex : ℕ) :
    (partiallyWithdrawnMap partialWithdrawals).get? (.integer validatorIndex) =
      if amountsOf partialWithdrawals validatorIndex = [] then none
      else some ('0' :: (amountsOf partialWithdrawals validatorIndex).flatMap integerText) := by
  induction partialWithdrawals using List.reverseRecOn with
  | nil => rfl
  | append_singleton partialWithdrawals withdrawal ih =>
      have hmap : partiallyWithdrawnMap (partialWithdrawals ++ [withdrawal]) =
          (partiallyWithdrawnMap partialWithdrawals).set (.integer withdrawal.validatorIndex)
            (((partiallyWithdrawnMap partialWithdrawals).get?
              (.integer withdrawal.validatorIndex)).getD ['0'] ++
                integerText withdrawal.amount) := by
        rw [partiallyWithdrawnMap, List.foldl_append]
        rfl
      rw [hmap, Record.get?_set, amountsOf_append_singleton]
      by_cases hindex : withdrawal.validatorIndex = validatorIndex
      · subst hindex
        rw [if_pos rfl, if_pos rfl, ih]
        by_cases hnone : amountsOf partialWithdrawals withdrawal.validatorIndex = []
        · simp [hnone]
        · simp [hnone]
      · rw [if_neg hindex, if_neg (by simpa using hindex), ih]

/-- The balance that is checked for a validator: its own, less what is stored under its
index. -/
def balanceLeft (partialWithdrawals : List Withdrawal) (indexedValidator : IndexedValidator) :
    Outcome ℤ := do
  let partiallyWithdrawnBalance ←
    match (partiallyWithdrawnMap partialWithdrawals).get? (.integer indexedValidator.index) with
    | none => .ok 0
    | some text =>
        match bigNumberOfText text with
        | some value => .ok value
        | none => .error .invalidNumber
  pure (parseGwei indexedValidator.balance - partiallyWithdrawnBalance)

/-- One validator of the count. -/
def countWithdrawal (partialWithdrawals : List Withdrawal) (epoch : ℤ) (withdrawalsNumber : ℕ)
    (indexedValidator : IndexedValidator) : Outcome ℕ := do
  let balance ← balanceLeft partialWithdrawals indexedValidator
  if indexedValidator.validator.isFullyWithdrawableValidator balance epoch ||
      indexedValidator.validator.isPartiallyWithdrawableValidator balance then
    pure (withdrawalsNumber + 1)
  else pure withdrawalsNumber

/-- A validator counts once, by the balance that is left. -/
theorem getValidatorsWithdrawalsNumber_eq (partialWithdrawals : List Withdrawal)
    (indexedValidators : List IndexedValidator) (epoch : ℤ) :
    getValidatorsWithdrawalsNumber partialWithdrawals indexedValidators epoch =
      indexedValidators.foldlM (countWithdrawal partialWithdrawals epoch) 0 := by
  show List.foldlM _ 0 indexedValidators = _
  congr 1
  funext withdrawalsNumber indexedValidator
  have hcounts (balance : ℤ) :
      (if indexedValidator.validator.isFullyWithdrawableValidator balance epoch then
          pure (withdrawalsNumber + 1)
        else if indexedValidator.validator.isPartiallyWithdrawableValidator balance then
          pure (withdrawalsNumber + 1)
        else pure withdrawalsNumber : Outcome ℕ) =
      if indexedValidator.validator.isFullyWithdrawableValidator balance epoch ||
          indexedValidator.validator.isPartiallyWithdrawableValidator balance then
        pure (withdrawalsNumber + 1)
      else pure withdrawalsNumber := by
    cases indexedValidator.validator.isFullyWithdrawableValidator balance epoch <;> rfl
  simp only [countWithdrawal, balanceLeft, hcounts]
  cases (partiallyWithdrawnMap partialWithdrawals).get? (.integer indexedValidator.index) with
  | none => rfl
  | some text => cases hvalue : bigNumberOfText text <;> simp only [hvalue] <;> rfl

/-- The balance that is left is the balance less the joined amounts. -/
theorem balanceLeft_eq {partialWithdrawals : List Withdrawal} {indexedValidator : IndexedValidator}
    {amounts : List ℕ}
    (hamounts : amountsOf partialWithdrawals indexedValidator.index = amounts.map Nat.cast) :
    balanceLeft partialWithdrawals indexedValidator =
      .ok (parseGwei indexedValidator.balance - joinedValue amounts) := by
  have htexts : (amounts.map Nat.cast).flatMap integerText =
      amounts.flatMap (Nat.toDigits 10) := List.flatMap_map _ _ _
  rw [balanceLeft, get?_partiallyWithdrawnMap, hamounts, htexts]
  by_cases hnone : amounts = []
  · subst hnone
    rfl
  · have hdigits : ∀ c ∈ '0' :: amounts.flatMap (Nat.toDigits 10), c.isDigit = true := by
      intro c hc
      rcases List.mem_cons.mp hc with rfl | hc
      · decide
      · obtain ⟨amount, -, hc⟩ := List.mem_flatMap.mp hc
        exact Nat.isDigit_of_mem_toDigits (by decide) (by decide) hc
    have hvalue : JsNumber.ofDecimalDigits ('0' :: amounts.flatMap (Nat.toDigits 10)) =
        joinedValue amounts := Nat.ofDigitChars_cons
    rw [if_neg (by simpa using hnone)]
    simp only [bigNumberOfText_of_digits (List.cons_ne_nil _ _) hdigits, hvalue]
    rfl

/-- Amounts in wei are natural numbers. -/
theorem exists_amountsOf_eq_map {partialWithdrawals : List Withdrawal}
    (hwei : ∀ withdrawal ∈ partialWithdrawals, 0 ≤ withdrawal.amount) (validatorIndex : ℕ) :
    ∃ amounts : List ℕ, amountsOf partialWithdrawals validatorIndex = amounts.map Nat.cast := by
  refine ⟨(amountsOf partialWithdrawals validatorIndex).map Int.toNat, ?_⟩
  rw [List.map_map]
  apply (List.map_id _).symm.trans
  apply List.map_congr_left
  intro amount hamount
  obtain ⟨withdrawal, hmem, rfl⟩ := List.mem_map.mp hamount
  exact (Int.toNat_of_nonneg (hwei withdrawal (List.mem_of_mem_filter hmem))).symm

/-- Behind zeros, an amount is subtracted as it is. -/
theorem balanceLeft_of_zeros {partialWithdrawals : List Withdrawal}
    (hwei : ∀ withdrawal ∈ partialWithdrawals, 0 ≤ withdrawal.amount)
    {indexedValidator : IndexedValidator}
    (h : ∀ amount ∈ (amountsOf partialWithdrawals indexedValidator.index).dropLast, amount = 0) :
    balanceLeft partialWithdrawals indexedValidator = .ok (parseGwei indexedValidator.balance -
      (amountsOf partialWithdrawals indexedValidator.index).sum) := by
  obtain ⟨amounts, hamounts⟩ := exists_amountsOf_eq_map hwei indexedValidator.index
  rw [hamounts, ← List.map_dropLast, List.forall_mem_map] at h
  simp only [Nat.cast_eq_zero] at h
  rw [balanceLeft_eq hamounts, hamounts, ← Nat.cast_list_sum,
    (joinedValue_eq_sum_iff amounts).mpr h]

/-- **Partial withdrawals are subtracted exactly when** all amounts of the validator but
the last one are zero. -/
theorem balanceLeft_exact_iff {partialWithdrawals : List Withdrawal}
    (hwei : ∀ withdrawal ∈ partialWithdrawals, 0 ≤ withdrawal.amount)
    (indexedValidator : IndexedValidator) :
    balanceLeft partialWithdrawals indexedValidator = .ok (parseGwei indexedValidator.balance -
        (amountsOf partialWithdrawals indexedValidator.index).sum) ↔
      ∀ amount ∈ (amountsOf partialWithdrawals indexedValidator.index).dropLast, amount = 0 := by
  constructor
  · intro h
    obtain ⟨amounts, hamounts⟩ := exists_amountsOf_eq_map hwei indexedValidator.index
    rw [balanceLeft_eq hamounts, hamounts, Except.ok.injEq, sub_right_inj, ← Nat.cast_list_sum,
      Nat.cast_inj, joinedValue_eq_sum_iff] at h
    rw [hamounts, ← List.map_dropLast, List.forall_mem_map]
    simpa only [Nat.cast_eq_zero] using h
  · exact balanceLeft_of_zeros hwei

/-- A validator of 34 ether. -/
def excessValidator : IndexedValidator where
  index := 5
  balance := 34000000000
  status := .activeOngoing
  validator := {
    pubkey := ['5']
    withdrawalCredentials := ['0', 'x', '0', '2']
    effectiveBalance := 34000000000
    exitEpoch := farFutureEpoch
    withdrawableEpoch := farFutureEpoch }

/-- One withdrawal of one ether is subtracted. -/
theorem balanceLeft_exact_oneWithdrawal :
    balanceLeft [⟨5, 1000000000000000000⟩, ⟨6, 1000000000000000000⟩] excessValidator =
      .ok 33000000000000000000 := by
  have hleft : parseGwei excessValidator.balance - (amountsOf
      [⟨5, 1000000000000000000⟩, ⟨6, 1000000000000000000⟩] excessValidator.index).sum =
        33000000000000000000 := by decide +kernel
  rw [← hleft]
  exact (balanceLeft_exact_iff (by decide) excessValidator).mpr (by decide)

/-- Two withdrawals of one ether are read as one number of 38 digits. -/
theorem balanceLeft_not_exact :
    ¬ ∀ (partialWithdrawals : List Withdrawal) (indexedValidator : IndexedValidator),
      (∀ withdrawal ∈ partialWithdrawals, 0 ≤ withdrawal.amount) →
      balanceLeft partialWithdrawals indexedValidator = .ok
        (parseGwei indexedValidator.balance -
          (amountsOf partialWithdrawals indexedValidator.index).sum) := by
  intro h
  let twice : List Withdrawal := [⟨5, 1000000000000000000⟩, ⟨5, 1000000000000000000⟩]
  have hexact := h twice excessValidator (by decide)
  have hjoined : balanceLeft twice excessValidator ≠ .ok
      (parseGwei excessValidator.balance - (amountsOf twice excessValidator.index).sum) := by
    decide +kernel
  exact hjoined hexact

/-! ## The validators that count -/

/-- The code counts a validator for the balance that is left to it. -/
def isCounted (partialWithdrawals : List Withdrawal) (epoch : ℤ)
    (indexedValidator : IndexedValidator) : Bool :=
  match balanceLeft partialWithdrawals indexedValidator with
  | .ok balance =>
      indexedValidator.validator.isFullyWithdrawableValidator balance epoch ||
        indexedValidator.validator.isPartiallyWithdrawableValidator balance
  | .error _ => false

section Counted

variable {partialWithdrawals : List Withdrawal} {indexedValidators : List IndexedValidator}
  {epoch : ℤ}

/-- One validator of the count. -/
theorem countWithdrawal_of_balanceLeft {indexedValidator : IndexedValidator} {balance : ℤ}
    (h : balanceLeft partialWithdrawals indexedValidator = .ok balance) (before : ℕ) :
    countWithdrawal partialWithdrawals epoch before indexedValidator =
      .ok (before + if isCounted partialWithdrawals epoch indexedValidator then 1 else 0) := by
  rw [countWithdrawal, h, Outcome.ok_bind, isCounted, h]
  split <;> rfl

theorem eq_add_of_countWithdrawal {indexedValidator : IndexedValidator} {before after : ℕ}
    (h : countWithdrawal partialWithdrawals epoch before indexedValidator = .ok after) :
    after = before + if isCounted partialWithdrawals epoch indexedValidator then 1 else 0 := by
  obtain ⟨balance, hleft, -⟩ := Outcome.bind_eq_ok.mp h
  rw [countWithdrawal_of_balanceLeft hleft] at h
  exact (Except.ok.inj h).symm

/-- The number of withdrawals is the number of counted validators. -/
theorem getValidatorsWithdrawalsNumber_eq_countP {withdrawalsNumber : ℕ}
    (h : getValidatorsWithdrawalsNumber partialWithdrawals indexedValidators epoch =
      .ok withdrawalsNumber) :
    withdrawalsNumber = indexedValidators.countP (isCounted partialWithdrawals epoch) := by
  have hfold (before after : ℕ)
      (hcount : indexedValidators.foldlM (countWithdrawal partialWithdrawals epoch) before =
        .ok after) :
      after = before + indexedValidators.countP (isCounted partialWithdrawals epoch) := by
    clear h
    induction indexedValidators generalizing before with
    | nil => exact (Except.ok.inj hcount).symm
    | cons indexedValidator indexedValidators ih =>
        rw [List.foldlM_cons, Outcome.bind_eq_ok] at hcount
        obtain ⟨next, hnext, hrest⟩ := hcount
        rw [ih next hrest, eq_add_of_countWithdrawal hnext, List.countP_cons]
        omega
  rw [getValidatorsWithdrawalsNumber_eq] at h
  rw [hfold 0 withdrawalsNumber h, Nat.zero_add]

/-- Amounts in wei are all read, and the count returns. -/
theorem exists_getValidatorsWithdrawalsNumber
    (hwei : ∀ withdrawal ∈ partialWithdrawals, 0 ≤ withdrawal.amount)
    (indexedValidators : List IndexedValidator) (epoch : ℤ) :
    ∃ withdrawalsNumber,
      getValidatorsWithdrawalsNumber partialWithdrawals indexedValidators epoch =
        .ok withdrawalsNumber := by
  have hfold (before : ℕ) : ∃ after,
      indexedValidators.foldlM (countWithdrawal partialWithdrawals epoch) before = .ok after := by
    induction indexedValidators generalizing before with
    | nil => exact ⟨before, rfl⟩
    | cons indexedValidator indexedValidators ih =>
        obtain ⟨amounts, hamounts⟩ := exists_amountsOf_eq_map hwei indexedValidator.index
        rw [List.foldlM_cons, countWithdrawal_of_balanceLeft (balanceLeft_eq hamounts),
          Outcome.ok_bind]
        exact ih _
  rw [getValidatorsWithdrawalsNumber_eq]
  exact hfold 0

end Counted

end SweepService

end WithdrawalsApi
