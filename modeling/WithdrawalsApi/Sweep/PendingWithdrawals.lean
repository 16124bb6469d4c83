/-
# Pending partial withdrawals of one validator

A pending request may withdraw what a validator holds beyond 32 ether. Every request
is capped on its own, against the whole excess, and not against what the requests
before it have left: two requests that exhaust the excess are predicted to withdraw
it twice. What is taken off the balance afterwards is more than the sum once two of
the amounts are not zero, since they are joined.
-/

import WithdrawalsApi.Sweep.PartialWithdrawals
import Mathlib.Algebra.Order.BigOperators.Group.List

namespace WithdrawalsApi

open Js

/-! ## Amounts that are capped on their own -/

/-- Below the cap nothing has been capped. -/
theorem map_min_eq_self {cap : ℕ} {amounts : List ℕ} (h : ∀ amount ∈ amounts, amount ≤ cap) :
    amounts.map (min cap) = amounts := by
  apply (List.map_congr_left fun amount hmem => ?_).trans (List.map_id amounts)
  exact min_eq_right (h amount hmem)

/-- What sums up to less than the cap has not been capped. -/
theorem map_min_eq_self_of_sum_lt {cap : ℕ} {amounts : List ℕ}
    (h : (amounts.map (min cap)).sum < cap) : amounts.map (min cap) = amounts := by
  apply map_min_eq_self
  intro amount hmem
  have hle := List.le_sum_of_mem (List.mem_map_of_mem (f := min cap) hmem)
  omega

/-- Capping leaves nothing exactly when there is nothing. -/
theorem sum_map_min_eq_zero_iff {cap : ℕ} (hcap : 0 < cap) (amounts : List ℕ) :
    (amounts.map (min cap)).sum = 0 ↔
      amounts.countP (fun amount => decide (amount ≠ 0)) = 0 := by
  rw [List.sum_eq_zero_iff_forall_eq_nat, List.forall_mem_map, List.countP_eq_zero]
  apply forall₂_congr
  intro amount _
  rw [decide_eq_true_iff]
  omega

/-- Amounts that are capped on their own sum up to at most the cap exactly when they do
so without it, or when only one of them is not zero. -/
theorem sum_map_min_le_iff {cap : ℕ} (hcap : 0 < cap) (amounts : List ℕ) :
    (amounts.map (min cap)).sum ≤ cap ↔
      amounts.sum ≤ cap ∨ amounts.countP (fun amount => decide (amount ≠ 0)) ≤ 1 := by
  induction amounts with
  | nil => simp
  | cons amount amounts ih =>
      rw [List.map_cons, List.sum_cons, List.sum_cons, List.countP_cons]
      by_cases hzero : amount = 0
      · subst hzero
        simpa using ih
      have hnone := sum_map_min_eq_zero_iff hcap amounts
      rw [if_pos (by simpa using hzero)]
      by_cases hrest : amounts.countP (fun amount => decide (amount ≠ 0)) = 0
      · have hsum := hnone.mpr hrest
        exact iff_of_true (by omega) (Or.inr (by omega))
      · -- another one is not zero, so neither can have been capped
        have hsum := mt hnone.mp hrest
        rw [or_iff_left (by omega)]
        constructor
        · intro hle
          have hsame := map_min_eq_self_of_sum_lt (by omega : (amounts.map (min cap)).sum < cap)
          rw [hsame] at hle hsum
          omega
        · intro hle
          have hsame : amounts.map (min cap) = amounts := by
            apply map_min_eq_self
            intro other hmem
            have := List.le_sum_of_mem hmem
            omega
          rw [hsame]
          omega

/-- A cap makes no amount zero. -/
theorem joinedValue_map_min_eq_zero_iff {cap : ℕ} (hcap : 0 < cap) (amounts : List ℕ) :
    joinedValue (amounts.map (min cap)) = 0 ↔ joinedValue amounts = 0 := by
  rw [joinedValue_eq_zero_iff, joinedValue_eq_zero_iff, List.forall_mem_map]
  apply forall₂_congr
  intro other hmem
  omega

/-- Amounts that denote less than the cap once they are capped are not capped at all. -/
theorem map_min_eq_self_of_joinedValue_lt {cap : ℕ} {amounts : List ℕ}
    (h : joinedValue (amounts.map (min cap)) < cap) : amounts.map (min cap) = amounts :=
  map_min_eq_self_of_sum_lt ((sum_le_joinedValue _).trans_lt h)

theorem map_min_eq_self_of_joinedValue_le {cap : ℕ} {amounts : List ℕ}
    (h : joinedValue amounts ≤ cap) : amounts.map (min cap) = amounts := by
  apply map_min_eq_self
  intro other hmem
  exact ((List.le_sum_of_mem hmem).trans (sum_le_joinedValue amounts)).trans h

/-- Amounts that are capped on their own and joined denote at most the cap exactly when
they do so without it, or when all but the last one are zero. -/
theorem joinedValue_map_min_le_iff {cap : ℕ} (hcap : 0 < cap) (amounts : List ℕ) :
    joinedValue (amounts.map (min cap)) ≤ cap ↔
      joinedValue amounts ≤ cap ∨ ∀ amount ∈ amounts.dropLast, amount = 0 := by
  cases amounts using List.reverseRecOn with
  | nil => exact iff_of_true (Nat.zero_le _) (Or.inl (Nat.zero_le _))
  | append_singleton amounts amount =>
      rw [List.map_append, List.map_singleton, joinedValue_append_singleton,
        joinedValue_append_singleton, List.dropLast_concat, ← joinedValue_eq_zero_iff]
      have hmoved (value number : ℕ) : value * 2 ≤ value * 10 ^ (Nat.toDigits 10 number).length :=
        Nat.mul_le_mul_left value (Nat.one_lt_pow Nat.length_toDigits_pos.ne' (by decide))
      have hcapped := hmoved (joinedValue (amounts.map (min cap))) (min cap amount)
      have hjoined := hmoved (joinedValue amounts) amount
      have hzero := joinedValue_map_min_eq_zero_iff hcap amounts
      by_cases hall : joinedValue amounts = 0
      · rw [hzero.mpr hall]
        exact iff_of_true (by omega) (Or.inr hall)
      · have hpos := mt hzero.mp hall
        constructor
        · intro hle
          have hlast : min cap amount = amount := by omega
          rw [map_min_eq_self_of_joinedValue_lt (by omega), hlast] at hle
          exact Or.inl hle
        · rintro (hle | hnone)
          · have hlast : min cap amount = amount := by omega
            rw [map_min_eq_self_of_joinedValue_le (by omega), hlast]
            exact hle
          · exact absurd hnone hall

/-! ## The withdrawals that are predicted for a validator -/

/-- A pending request of the validator is predicted to withdraw something. -/
def IndexedValidator.AllowsPartialWithdrawals (indexedValidator : IndexedValidator) : Prop :=
  indexedValidator.validator.exitEpoch = farFutureEpoch ∧
    minActivationBalance ≤ parseGwei indexedValidator.validator.effectiveBalance ∧
      minActivationBalance < parseGwei indexedValidator.balance

instance (indexedValidator : IndexedValidator) :
    Decidable indexedValidator.AllowsPartialWithdrawals :=
  inferInstanceAs (Decidable (_ ∧ _ ∧ _))

/-- What a validator holds beyond the activation balance, in wei. -/
def IndexedValidator.excess (indexedValidator : IndexedValidator) : ℕ :=
  (parseGwei indexedValidator.balance - minActivationBalance).toNat

/-- The amounts in wei that are requested from a validator, in the order of the list. -/
def requestedFrom (pendingPartialWithdrawals : List PendingPartialWithdrawal)
    (validatorIndex : ℕ) : List ℕ :=
  (pendingPartialWithdrawals.filter fun pending =>
    decide (pending.validatorIndex = validatorIndex)).map fun pending => pending.amount * 10 ^ 9

theorem requestedFrom_append_singleton
    (pendingPartialWithdrawals : List PendingPartialWithdrawal)
    (pending : PendingPartialWithdrawal) (validatorIndex : ℕ) :
    requestedFrom (pendingPartialWithdrawals ++ [pending]) validatorIndex =
      if pending.validatorIndex = validatorIndex then
        requestedFrom pendingPartialWithdrawals validatorIndex ++ [pending.amount * 10 ^ 9]
      else requestedFrom pendingPartialWithdrawals validatorIndex := by
  rw [requestedFrom, List.filter_append, List.map_append, ← requestedFrom]
  by_cases h : pending.validatorIndex = validatorIndex <;> simp [h]

namespace SweepService

/-- The withdrawal that is predicted for one pending request of a validator. -/
def predictedFor (indexedValidator : IndexedValidator) (pending : PendingPartialWithdrawal) :
    Option Withdrawal :=
  if indexedValidator.AllowsPartialWithdrawals then
    some { validatorIndex := pending.validatorIndex,
           amount := min (parseGwei indexedValidator.balance - minActivationBalance)
             (parseGwei pending.amount) }
  else none

/-- The validators by their index. -/
def indexedValidatorsMap (indexedValidators : List IndexedValidator) : Record IndexedValidator :=
  indexedValidators.foldl
    (fun acc indexedValidator => acc.set (.integer indexedValidator.index) indexedValidator)
    Record.empty

/-- Of validators with different indices, each is found under its own. -/
theorem get?_indexedValidatorsMap {indexedValidators : List IndexedValidator}
    (hdistinct : (indexedValidators.map IndexedValidator.index).Nodup)
    {indexedValidator : IndexedValidator} (hmem : indexedValidator ∈ indexedValidators) :
    (indexedValidatorsMap indexedValidators).get? (.integer indexedValidator.index) =
      some indexedValidator := by
  let entries := indexedValidators.map fun item => (PropertyKey.integer item.index, item)
  have hmap : indexedValidatorsMap indexedValidators = Record.ofEntries entries := by
    rw [indexedValidatorsMap, Record.ofEntries, List.foldl_map]
  have hnodup : (entries.map Prod.fst).Nodup := by
    have hkeys : entries.map Prod.fst =
        (indexedValidators.map IndexedValidator.index).map fun index : ℕ =>
          PropertyKey.integer index := by
      rw [List.map_map, List.map_map]
      rfl
    rw [hkeys]
    apply hdistinct.map
    intro first second heq
    exact Int.ofNat_inj.mp (PropertyKey.integer.inj heq)
  rw [hmap, Record.get?_eq_some_iff, Record.entries_ofEntries hnodup]
  exact List.mem_map_of_mem hmem

theorem getPendingPartialWithdrawals_eq
    (pendingPartialWithdrawalsData : List PendingPartialWithdrawal)
    (indexedValidators : List IndexedValidator) :
    getPendingPartialWithdrawals pendingPartialWithdrawalsData indexedValidators =
      pendingPartialWithdrawalsData.filterMap fun pending =>
        ((indexedValidatorsMap indexedValidators).get? (.integer pending.validatorIndex)).bind
          fun indexedValidator => predictedFor indexedValidator pending := by
  apply List.filterMap_congr
  intro pending _
  apply congrArg (Option.bind _)
  funext indexedValidator
  have hallows : (indexedValidator.validator.exitEpoch = farFutureEpoch ∧
      decide (minActivationBalance ≤ parseGwei indexedValidator.validator.effectiveBalance) ∧
        decide (minActivationBalance < parseGwei indexedValidator.balance)) ↔
      indexedValidator.AllowsPartialWithdrawals := by
    simp only [IndexedValidator.AllowsPartialWithdrawals, decide_eq_true_eq]
  exact if_congr hallows rfl rfl

/-- The excess of a validator that allows partial withdrawals. -/
theorem natCast_excess {indexedValidator : IndexedValidator}
    (h : indexedValidator.AllowsPartialWithdrawals) :
    (indexedValidator.excess : ℤ) =
      parseGwei indexedValidator.balance - minActivationBalance := by
  have hexcess := h.2.2
  exact Int.toNat_of_nonneg (by omega)

/-- **What is predicted for a validator**: each of its requests, capped by its excess. -/
theorem amountsOf_getPendingPartialWithdrawals
    (pendingPartialWithdrawalsData : List PendingPartialWithdrawal)
    {indexedValidators : List IndexedValidator}
    (hdistinct : (indexedValidators.map IndexedValidator.index).Nodup)
    {indexedValidator : IndexedValidator} (hmem : indexedValidator ∈ indexedValidators) :
    amountsOf (getPendingPartialWithdrawals pendingPartialWithdrawalsData indexedValidators)
        indexedValidator.index =
      if indexedValidator.AllowsPartialWithdrawals then
        ((requestedFrom pendingPartialWithdrawalsData indexedValidator.index).map
          (min indexedValidator.excess)).map Nat.cast
      else [] := by
  have hfound := get?_indexedValidatorsMap hdistinct hmem
  rw [getPendingPartialWithdrawals_eq]
  induction pendingPartialWithdrawalsData using List.reverseRecOn with
  | nil => split <;> rfl
  | append_singleton pendings pending ih =>
      have hlast (f : PendingPartialWithdrawal → Option Withdrawal) :
          [pending].filterMap f = (f pending).toList := by
        cases h : f pending <;> simp [h]
      rw [List.filterMap_append, hlast, requestedFrom_append_singleton]
      by_cases hindex : pending.validatorIndex = indexedValidator.index
      · rw [hindex, hfound, if_pos rfl, Option.bind_some, predictedFor]
        by_cases hallows : indexedValidator.AllowsPartialWithdrawals
        · rw [if_pos hallows] at ih ⊢
          rw [if_pos hallows, Option.toList_some, amountsOf_append_singleton, if_pos hindex, ih,
            List.map_append, List.map_append, ← natCast_excess hallows]
          simp [parseGwei]
        · rw [if_neg hallows] at ih ⊢
          rw [if_neg hallows, Option.toList_none, List.append_nil, ih]
      · rw [if_neg hindex, ← ih]
        cases (indexedValidatorsMap indexedValidators).get? (.integer pending.validatorIndex) with
        | none => simp
        | some other =>
            rw [Option.bind_some, predictedFor]
            split
            · rw [Option.toList_some, amountsOf_append_singleton, if_neg hindex]
            · simp

section Predicted

variable {pendingPartialWithdrawalsData : List PendingPartialWithdrawal}
  {indexedValidators : List IndexedValidator} {indexedValidator : IndexedValidator}

/-- A validator that allows no partial withdrawals keeps its balance. -/
theorem balanceLeft_of_not_allows
    (hdistinct : (indexedValidators.map IndexedValidator.index).Nodup)
    (hmem : indexedValidator ∈ indexedValidators)
    (h : ¬ indexedValidator.AllowsPartialWithdrawals) :
    amountsOf (getPendingPartialWithdrawals pendingPartialWithdrawalsData indexedValidators)
        indexedValidator.index = [] ∧
      balanceLeft (getPendingPartialWithdrawals pendingPartialWithdrawalsData indexedValidators)
        indexedValidator = .ok (parseGwei indexedValidator.balance) := by
  have hnone := amountsOf_getPendingPartialWithdrawals pendingPartialWithdrawalsData hdistinct hmem
  rw [if_neg h] at hnone
  have hamounts : amountsOf
      (getPendingPartialWithdrawals pendingPartialWithdrawalsData indexedValidators)
      indexedValidator.index = ([] : List ℕ).map Nat.cast := hnone
  refine ⟨hnone, ?_⟩
  rw [balanceLeft_eq hamounts]
  exact congrArg Except.ok (sub_zero _)

/-- The predicted withdrawals of a validator stay within its excess. -/
def WithinExcess (pendingPartialWithdrawalsData : List PendingPartialWithdrawal)
    (indexedValidators : List IndexedValidator) (indexedValidator : IndexedValidator) : Prop :=
  (amountsOf (getPendingPartialWithdrawals pendingPartialWithdrawalsData indexedValidators)
      indexedValidator.index).sum ≤
    max 0 (parseGwei indexedValidator.balance - minActivationBalance)

/-- What is left for a validator is its balance or at least the activation balance. -/
def LeavesActivationBalance (pendingPartialWithdrawalsData : List PendingPartialWithdrawal)
    (indexedValidators : List IndexedValidator) (indexedValidator : IndexedValidator) : Prop :=
  ∃ left, balanceLeft
      (getPendingPartialWithdrawals pendingPartialWithdrawalsData indexedValidators)
      indexedValidator = .ok left ∧
    min (parseGwei indexedValidator.balance) minActivationBalance ≤ left

theorem withinExcess_iff (hdistinct : (indexedValidators.map IndexedValidator.index).Nodup)
    (hmem : indexedValidator ∈ indexedValidators) :
    WithinExcess pendingPartialWithdrawalsData indexedValidators indexedValidator ↔
      ¬ indexedValidator.AllowsPartialWithdrawals ∨
        (requestedFrom pendingPartialWithdrawalsData indexedValidator.index).sum ≤
          indexedValidator.excess ∨
        (requestedFrom pendingPartialWithdrawalsData indexedValidator.index).countP
          (fun amount => decide (amount ≠ 0)) ≤ 1 := by
  rw [WithinExcess]
  by_cases hallows : indexedValidator.AllowsPartialWithdrawals
  · have hexcess := natCast_excess hallows
    have hpositive := hallows.2.2
    rw [amountsOf_getPendingPartialWithdrawals _ hdistinct hmem, if_pos hallows, ← hexcess,
      max_eq_right (Int.natCast_nonneg _), ← Nat.cast_list_sum, Int.ofNat_le,
      sum_map_min_le_iff (by omega)]
    exact (or_iff_right (not_not_intro hallows)).symm
  · rw [(balanceLeft_of_not_allows hdistinct hmem hallows).1]
    exact iff_of_true (le_max_left _ _) (Or.inl hallows)

theorem leavesActivationBalance_iff
    (hdistinct : (indexedValidators.map IndexedValidator.index).Nodup)
    (hmem : indexedValidator ∈ indexedValidators) :
    LeavesActivationBalance pendingPartialWithdrawalsData indexedValidators indexedValidator ↔
      ¬ indexedValidator.AllowsPartialWithdrawals ∨
        joinedValue (requestedFrom pendingPartialWithdrawalsData indexedValidator.index) ≤
          indexedValidator.excess ∨
        ∀ amount ∈
          (requestedFrom pendingPartialWithdrawalsData indexedValidator.index).dropLast,
          amount = 0 := by
  rw [LeavesActivationBalance]
  by_cases hallows : indexedValidator.AllowsPartialWithdrawals
  · have hexcess := natCast_excess hallows
    have hpositive := hallows.2.2
    have hamounts := amountsOf_getPendingPartialWithdrawals pendingPartialWithdrawalsData
      hdistinct hmem
    rw [if_pos hallows] at hamounts
    rw [balanceLeft_eq hamounts, or_iff_right (not_not_intro hallows),
      ← joinedValue_map_min_le_iff (by omega)]
    constructor
    · rintro ⟨left, hleft, hle⟩
      rw [← Except.ok.inj hleft] at hle
      omega
    · intro hle
      exact ⟨_, rfl, by omega⟩
  · refine iff_of_true ?_ (Or.inl hallows)
    exact ⟨_, (balanceLeft_of_not_allows hdistinct hmem hallows).2, min_le_left _ _⟩

/-- Joined amounts are at least their sum. -/
theorem LeavesActivationBalance.withinExcess
    (h : LeavesActivationBalance pendingPartialWithdrawalsData indexedValidators
      indexedValidator) :
    WithinExcess pendingPartialWithdrawalsData indexedValidators indexedValidator := by
  obtain ⟨left, hleft, hle⟩ := h
  have hwei : ∀ withdrawal ∈
      getPendingPartialWithdrawals pendingPartialWithdrawalsData indexedValidators,
      0 ≤ withdrawal.amount := fun _ hmem => amount_nonneg_of_mem hmem
  obtain ⟨amounts, hamounts⟩ := exists_amountsOf_eq_map hwei indexedValidator.index
  rw [balanceLeft_eq hamounts] at hleft
  have hvalue := Except.ok.inj hleft
  have hsum := sum_le_joinedValue amounts
  rw [WithinExcess, hamounts, ← Nat.cast_list_sum]
  omega

/-- **The predicted withdrawals of a validator stay within its excess exactly when** it
allows none, or its requests do so together, or only one of them is not zero. **What is
left is the activation balance or the whole balance exactly when** it allows none, or
its requests do so joined, or all but the last one are zero. -/
theorem pendingWithdrawals_withinExcess_iff
    (hdistinct : (indexedValidators.map IndexedValidator.index).Nodup)
    (hmem : indexedValidator ∈ indexedValidators) :
    let requested := requestedFrom pendingPartialWithdrawalsData indexedValidator.index
    (WithinExcess pendingPartialWithdrawalsData indexedValidators indexedValidator ↔
      ¬ indexedValidator.AllowsPartialWithdrawals ∨
        requested.sum ≤ indexedValidator.excess ∨
        requested.countP (fun amount => decide (amount ≠ 0)) ≤ 1) ∧
    (WithinExcess pendingPartialWithdrawalsData indexedValidators indexedValidator ∧
        LeavesActivationBalance pendingPartialWithdrawalsData indexedValidators
          indexedValidator ↔
      ¬ indexedValidator.AllowsPartialWithdrawals ∨
        joinedValue requested ≤ indexedValidator.excess ∨
        ∀ amount ∈ requested.dropLast, amount = 0) := by
  intro requested
  refine ⟨withinExcess_iff hdistinct hmem, ?_⟩
  rw [← leavesActivationBalance_iff hdistinct hmem]
  exact ⟨And.right, fun hleaves => ⟨hleaves.withinExcess, hleaves⟩⟩

end Predicted

/-- Two requests of one ether each, from a validator of 34 ether. -/
theorem pendingWithdrawals_withinExcess_twoRequests :
    WithinExcess [⟨5, 1000000000⟩, ⟨5, 1000000000⟩] [excessValidator] excessValidator :=
  (pendingWithdrawals_withinExcess_iff (by decide) List.mem_cons_self).1.mpr
    (Or.inr (Or.inl (by decide +kernel)))

/-- Two requests of two ether each, from a validator that has two ether more than it
needs. -/
theorem pendingWithdrawals_not_withinExcess :
    ¬ ∀ (pendingPartialWithdrawalsData : List PendingPartialWithdrawal)
      (indexedValidators : List IndexedValidator),
      (indexedValidators.map IndexedValidator.index).Nodup →
      ∀ indexedValidator ∈ indexedValidators,
        WithinExcess pendingPartialWithdrawalsData indexedValidators indexedValidator ∧
          LeavesActivationBalance pendingPartialWithdrawalsData indexedValidators
            indexedValidator := by
  intro h
  have hwithin := (h [⟨5, 2000000000⟩, ⟨5, 2000000000⟩] [excessValidator] (by decide)
    excessValidator List.mem_cons_self).1
  have hbeyond : ¬ WithinExcess [⟨5, 2000000000⟩, ⟨5, 2000000000⟩] [excessValidator]
      excessValidator := by
    unfold WithinExcess
    decide +kernel
  exact hbeyond hwithin

end SweepService

end WithdrawalsApi
