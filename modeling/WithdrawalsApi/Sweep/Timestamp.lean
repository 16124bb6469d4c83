/-
# The order of the sweep

The sweep goes around the validators. A validator that becomes withdrawable waits
until the cursor, projected to that moment, has come around to it: what counts is
how far ahead of the projected cursor it is on the cycle. The delay grows with
this distance, and it is at least one slot, since the validator at the cursor
itself is processed in the next one, and at most the slots in which all active
validators are processed.

Slots in which the sweep is blocked count once, whether they lie before or after
the epoch of the validator.
-/

import WithdrawalsApi.Sweep
import Mathlib.Algebra.Order.Floor.Ring

namespace WithdrawalsApi

open Js

/-- How far ahead of one position another is on a cycle. -/
def cyclicDistance (total first second : ℤ) : ℤ := (second - first) % total

theorem cyclicDistance_nonneg {total : ℤ} (htotal : 0 < total) (first second : ℤ) :
    0 ≤ cyclicDistance total first second := Int.emod_nonneg _ htotal.ne'

theorem cyclicDistance_lt {total : ℤ} (htotal : 0 < total) (first second : ℤ) :
    cyclicDistance total first second < total := Int.emod_lt_of_pos _ htotal

@[simp]
theorem cyclicDistance_self (total position : ℤ) : cyclicDistance total position position = 0 := by
  simp [cyclicDistance]

/-- The slots until a validator becomes withdrawable. -/
def slotsUntilWithdrawable (currentEpoch : ℤ) (withdrawableEpoch : ℕ) : ℤ :=
  max 0 (withdrawableEpoch - currentEpoch) * slotsPerEpoch

/-- The share of active validators. -/
def activityRatio (active total : ℕ) : ℚ := active / total

/-- The position of the cursor when a validator becomes withdrawable. -/
def projectedCursor (sweepState : WithdrawalSweepState) (total active : ℕ) (currentEpoch : ℤ)
    (withdrawableEpoch : ℕ) : ℤ :=
  let sweepSlots := max 0
    (slotsUntilWithdrawable currentEpoch withdrawableEpoch - sweepState.blockedByDeferredSlots)
  let advance :=
    ⌊((sweepSlots * withdrawalsValidatorsPerSlot : ℤ) : ℚ) / activityRatio active total⌋
  (sweepState.sweepCursorValidatorIndex + advance % total) % total

/-- The slots in which the active validators up to a distance are processed. -/
def slotsToProcess (total active : ℕ) (distance : ℤ) : ℤ :=
  ⌈((⌈(distance : ℚ) * activityRatio active total⌉ + 1 : ℤ) : ℚ) / withdrawalsValidatorsPerSlot⌉

/-- A timestamp is the time of a number of slots: those until the validator is
withdrawable or the sweep goes on, whichever is later, and those until the cursor
has come around to it. -/
theorem getValidatorWithdrawalTimestamp_eq {total active : ℕ} (htotal : 0 < total)
    (hactive : 0 < active) (validatorIndex : ℕ) (sweepState : WithdrawalSweepState)
    (currentEpoch : ℤ) (withdrawableEpoch : ℕ) (nowMs : ℤ) :
    getValidatorWithdrawalTimestamp validatorIndex sweepState (some total)
        (some (.finite active)) currentEpoch withdrawableEpoch nowMs = (do
      let _ ← BigNumber.toNumber validatorIndex
      let _ ← BigNumber.toNumber sweepState.sweepCursorValidatorIndex
      pure (some (nowMs + 12000 *
        (max (slotsUntilWithdrawable currentEpoch withdrawableEpoch)
            sweepState.blockedByDeferredSlots +
          slotsToProcess total active
            (cyclicDistance total
              (projectedCursor sweepState total active currentEpoch withdrawableEpoch)
              validatorIndex))))) := by
  have hratio : percentOfActiveValidators (some (.finite active)) (some total) =
      some (activityRatio active total) := by
    simp [percentOfActiveValidators, activityRatio, hactive.ne', htotal.ne']
  unfold getValidatorWithdrawalTimestamp
  cases hindex : BigNumber.toNumber (validatorIndex : ℤ) with
  | error fault => rfl
  | ok vIdx =>
      cases hcursor : BigNumber.toNumber (sweepState.sweepCursorValidatorIndex : ℤ) with
      | error fault => rfl
      | ok sweepStartIdx =>
          obtain rfl := (BigNumber.toNumber_eq_ok.mp hindex).2
          obtain rfl := (BigNumber.toNumber_eq_ok.mp hcursor).2
          have hdistance (cursor : ℤ) :
              (validatorIndex - cursor + total) % total =
                cyclicDistance total cursor validatorIndex := Int.add_emod_right _ _
          have hslots (slots blocked after : ℤ) :
              (slots + max 0 (blocked - slots) + after) * secondsPerSlot * 1000 =
                12000 * (max slots blocked + after) := by
            simp only [secondsPerSlot]
            omega
          simp only [Outcome.ok_bind, hratio, Option.map_some, Option.getD_some, hdistance,
            add_sub_cancel_right, hslots]
          rfl

/-- A validator that is farther ahead is not processed earlier. -/
theorem slotsToProcess_mono (total active : ℕ) {near far : ℤ} (h : near ≤ far) :
    slotsToProcess total active near ≤ slotsToProcess total active far := by
  have hratio : 0 ≤ activityRatio active total := by
    unfold activityRatio
    positivity
  have hactives : ⌈(near : ℚ) * activityRatio active total⌉ ≤
      ⌈(far : ℚ) * activityRatio active total⌉ := by
    apply Int.ceil_mono
    apply mul_le_mul_of_nonneg_right _ hratio
    exact_mod_cast h
  apply Int.ceil_mono
  apply div_le_div_of_nonneg_right _ (by norm_num [withdrawalsValidatorsPerSlot])
  exact_mod_cast add_le_add_left hactives 1

/-- The validator at the cursor is processed in the next slot. -/
@[simp]
theorem slotsToProcess_zero (total active : ℕ) : slotsToProcess total active 0 = 1 := by
  norm_num [slotsToProcess, withdrawalsValidatorsPerSlot]

/-- Less than once around the cycle, no more than all active validators are
processed. -/
theorem slotsToProcess_le {total active : ℕ} (htotal : 0 < total) {distance : ℤ}
    (hdistance : distance < total) :
    slotsToProcess total active distance ≤
      ⌈((active + 1 : ℕ) : ℚ) / withdrawalsValidatorsPerSlot⌉ := by
  have hactives : ⌈(distance : ℚ) * activityRatio active total⌉ ≤ active := by
    rw [Int.ceil_le, activityRatio, ← mul_div_assoc, div_le_iff₀ (by exact_mod_cast htotal),
      mul_comm]
    apply mul_le_mul_of_nonneg_left _ (by positivity)
    exact_mod_cast hdistance.le
  apply Int.ceil_mono
  apply div_le_div_of_nonneg_right _ (by norm_num [withdrawalsValidatorsPerSlot])
  exact_mod_cast add_le_add_left hactives 1

/-- A projection returns unless an index is no safe integer, and then it is as many slots
after the clock as the wait and the sweep take. -/
theorem getValidatorWithdrawalTimestamp_eq_ok_iff {total active : ℕ} (htotal : 0 < total)
    (hactive : 0 < active) {validatorIndex : ℕ} {sweepState : WithdrawalSweepState}
    {currentEpoch : ℤ} {withdrawableEpoch : ℕ} {nowMs : ℤ} {result : Option ℤ} :
    getValidatorWithdrawalTimestamp validatorIndex sweepState (some total)
        (some (.finite active)) currentEpoch withdrawableEpoch nowMs = .ok result ↔
      (IsSafeInteger validatorIndex ∧ IsSafeInteger sweepState.sweepCursorValidatorIndex) ∧
        some (nowMs + 12000 *
          (max (slotsUntilWithdrawable currentEpoch withdrawableEpoch)
              sweepState.blockedByDeferredSlots +
            slotsToProcess total active
              (cyclicDistance total
                (projectedCursor sweepState total active currentEpoch withdrawableEpoch)
                validatorIndex))) = result := by
  rw [getValidatorWithdrawalTimestamp_eq htotal hactive]
  simp only [Outcome.bind_eq_ok, BigNumber.toNumber_eq_ok, Outcome.pure_eq_ok]
  constructor
  · rintro ⟨_, ⟨hsafe, -⟩, _, ⟨hcursor, -⟩, hresult⟩
    exact ⟨⟨hsafe, hcursor⟩, hresult⟩
  · rintro ⟨⟨hsafe, hcursor⟩, hresult⟩
    exact ⟨_, ⟨hsafe, rfl⟩, _, ⟨hcursor, rfl⟩, hresult⟩

/-- A projection is later than the clock. -/
theorem lt_of_getValidatorWithdrawalTimestamp_eq_ok {total active : ℕ} (htotal : 0 < total)
    (hactive : 0 < active) {validatorIndex : ℕ} {sweepState : WithdrawalSweepState}
    {currentEpoch : ℤ} {withdrawableEpoch : ℕ} {nowMs : ℤ} {result : Option ℤ}
    (h : getValidatorWithdrawalTimestamp validatorIndex sweepState (some total)
      (some (.finite active)) currentEpoch withdrawableEpoch nowMs = .ok result) :
    ∃ timestamp, result = some timestamp ∧ nowMs < timestamp := by
  obtain ⟨-, rfl⟩ := (getValidatorWithdrawalTimestamp_eq_ok_iff htotal hactive).mp h
  refine ⟨_, rfl, ?_⟩
  have hdistance := cyclicDistance_nonneg (Int.natCast_pos.mpr htotal)
    (projectedCursor sweepState total active currentEpoch withdrawableEpoch) validatorIndex
  have hslots := slotsToProcess_mono total active hdistance
  rw [slotsToProcess_zero] at hslots
  have hwaiting : 0 ≤ slotsUntilWithdrawable currentEpoch withdrawableEpoch :=
    mul_nonneg (le_max_left _ _) (by decide)
  have hlater := le_max_left (slotsUntilWithdrawable currentEpoch withdrawableEpoch)
    sweepState.blockedByDeferredSlots
  omega

/-- **The sweep projection, its order and its bounds.** A projection returns unless an
index is no safe integer. It is the clock and a number of slots: at least one more
than those for which the validator or the sweep has to wait, exactly one more for
the validator at the projected cursor, and at most as many more as all active
validators take. A validator that is farther ahead of the cursor is never earlier. -/
theorem getValidatorWithdrawalTimestamp_spec {total active validatorIndex : ℕ}
    (hactive : 0 < active) (hindex : validatorIndex < total) (sweepState : WithdrawalSweepState)
    (currentEpoch : ℤ) (withdrawableEpoch : ℕ) (nowMs : ℤ) :
    let timestamp (index : ℕ) := getValidatorWithdrawalTimestamp index sweepState (some total)
      (some (.finite active)) currentEpoch withdrawableEpoch nowMs
    let waiting := max (max 0 (withdrawableEpoch - currentEpoch) * 32)
      sweepState.blockedByDeferredSlots
    let cursor := projectedCursor sweepState total active currentEpoch withdrawableEpoch
    ((∃ result, timestamp validatorIndex = .ok result) ↔
        IsSafeInteger validatorIndex ∧ IsSafeInteger sweepState.sweepCursorValidatorIndex) ∧
      (∀ result, timestamp validatorIndex = .ok result → ∃ slots,
        result = some (nowMs + 12000 * slots) ∧ waiting + 1 ≤ slots ∧
        slots ≤ waiting + ⌈((active + 1 : ℕ) : ℚ) / 16⌉ ∧
        (cursor = validatorIndex → slots = waiting + 1)) ∧
      ∀ other : ℕ, other < total →
        cyclicDistance total cursor validatorIndex ≤ cyclicDistance total cursor other →
        ∀ earlier later, timestamp validatorIndex = .ok (some earlier) →
          timestamp other = .ok (some later) → earlier ≤ later := by
  intro timestamp waiting cursor
  have htotal : 0 < total := by omega
  have htimestamp (index : ℕ) (result : Option ℤ) : timestamp index = .ok result ↔
      (IsSafeInteger index ∧ IsSafeInteger sweepState.sweepCursorValidatorIndex) ∧
        some (nowMs + 12000 *
          (waiting + slotsToProcess total active (cyclicDistance total cursor index))) =
            result := getValidatorWithdrawalTimestamp_eq_ok_iff htotal hactive
  have hdistance := cyclicDistance_nonneg (Int.natCast_pos.mpr htotal) cursor validatorIndex
  refine ⟨?_, ?_, ?_⟩
  · simp only [htimestamp]
    constructor
    · rintro ⟨_, hsafe, -⟩
      exact hsafe
    · exact fun hsafe => ⟨_, hsafe, rfl⟩
  · intro result hresult
    obtain ⟨-, rfl⟩ := (htimestamp validatorIndex result).mp hresult
    refine ⟨_, rfl, ?_, ?_, ?_⟩
    · have hone := slotsToProcess_mono total active hdistance
      rw [slotsToProcess_zero] at hone
      omega
    · have hlt := cyclicDistance_lt (Int.natCast_pos.mpr htotal) cursor validatorIndex
      exact add_le_add_right (slotsToProcess_le htotal hlt) waiting
    · intro hcursor
      rw [hcursor, cyclicDistance_self, slotsToProcess_zero]
  · intro other _ hle earlier later hearlier hlater
    obtain ⟨-, hfirst⟩ := (htimestamp validatorIndex _).mp hearlier
    obtain ⟨-, hsecond⟩ := (htimestamp other _).mp hlater
    have hslots := slotsToProcess_mono total active hle
    obtain rfl := Option.some.inj hfirst
    obtain rfl := Option.some.inj hsecond
    omega

/-- One hundred validators, half of them active; the sweep stands at the ninetieth and
has been blocked for ten slots. -/
theorem getValidatorWithdrawalTimestamp_spec_wrapped :
    let timestamp (index : ℕ) := getValidatorWithdrawalTimestamp index ⟨90, 10⟩ (some 100)
      (some (.finite (50 : ℕ))) 1000 1001 1600000000000
    let waiting := max (max 0 (((1001 : ℕ) : ℤ) - 1000) * 32)
      (WithdrawalSweepState.mk 90 10).blockedByDeferredSlots
    let cursor := projectedCursor ⟨90, 10⟩ 100 50 1000 1001
    ((∃ result, timestamp 5 = .ok result) ↔
        IsSafeInteger (5 : ℕ) ∧
          IsSafeInteger (WithdrawalSweepState.mk 90 10).sweepCursorValidatorIndex) ∧
      (∀ result, timestamp 5 = .ok result → ∃ slots,
        result = some (1600000000000 + 12000 * slots) ∧ waiting + 1 ≤ slots ∧
        slots ≤ waiting + ⌈((50 + 1 : ℕ) : ℚ) / 16⌉ ∧
        (cursor = (5 : ℕ) → slots = waiting + 1)) ∧
      ∀ other : ℕ, other < 100 →
        cyclicDistance (100 : ℕ) cursor (5 : ℕ) ≤ cyclicDistance (100 : ℕ) cursor other →
        ∀ earlier later, timestamp 5 = .ok (some earlier) →
          timestamp other = .ok (some later) → earlier ≤ later :=
  getValidatorWithdrawalTimestamp_spec (by decide) (by decide) ⟨90, 10⟩ 1000 1001 1600000000000

end WithdrawalsApi
