/-
# A full cycle of the sweep

The sweep delay rests on a count: the withdrawals of validators, and as many
pending partial withdrawals as fall into one cycle. What the count is for is a
run of payloads. Every payload takes pending partial withdrawals off the head of
their queue, up to eight, and fills up with withdrawals of validators to sixteen
in all; a cycle ends once the validators' withdrawals are made.

The count is exact. With it the code finds the least number of epochs whose
payloads complete the cycle, however the two queues are mixed, and returns half
of it.
-/

import WithdrawalsApi.Math.Batches
import WithdrawalsApi.Sweep.ExcessBalance
import Mathlib.Algebra.Order.Floor.Semifield
import Mathlib.Data.Rat.Floor

namespace WithdrawalsApi

open Js Math

namespace SweepService

/-! ## Payloads -/

/-- One payload for the queue of pending partial withdrawals and the withdrawals of
the sweep. -/
def payload (queues : List Withdrawal × List IndexedValidator) :
    List Withdrawal × List IndexedValidator :=
  fillBatch maxWithdrawalsPerPayload maxPendingPartialsPerWithdrawalsSweep queues

/-- `SLOTS_PER_EPOCH` payloads in every epoch: the validators have their withdrawals
by the end of a number of epochs. -/
def CompletesWithin (partialWithdrawals : List Withdrawal) (validators : List IndexedValidator)
    (epochs : ℕ) : Prop :=
  (payload^[epochs * slotsPerEpoch.toNat] (partialWithdrawals, validators)).2 = []

variable {indexedValidators : List IndexedValidator} {epoch : ℤ}

/-! ## The count -/

/-- The ratio of the code, rounded up, gives the places that are shared. -/
theorem natCeil_mul_ratio (second : ℕ) :
    ⌈(second : ℚ) * (maxPendingPartialsPerWithdrawalsSweep /
        (maxWithdrawalsPerPayload - maxPendingPartialsPerWithdrawalsSweep))⌉₊ =
      sharedPlaces maxWithdrawalsPerPayload maxPendingPartialsPerWithdrawalsSweep second := by
  have hreserved : maxPendingPartialsPerWithdrawalsSweep < maxWithdrawalsPerPayload := by decide
  have hfree :
      (0 : ℚ) < (maxWithdrawalsPerPayload - maxPendingPartialsPerWithdrawalsSweep : ℕ) := by
    exact_mod_cast Nat.sub_pos_of_lt hreserved
  apply eq_of_forall_ge_iff
  intro places
  rw [Nat.ceil_le, sharedPlaces_le_iff hreserved, ← Nat.cast_sub hreserved.le, ← mul_div_assoc,
    div_le_iff₀ hfree, mul_comm (places : ℚ)]
  exact_mod_cast Iff.rfl

/-- The number of withdrawals in a cycle, without the ratio. -/
theorem predictWithdrawalsNumberInSweepCycle_eq_ok
    {pendingPartialWithdrawalsData : List PendingPartialWithdrawal} {withdrawalsNumber : ℕ}
    (h : predictWithdrawalsNumberInSweepCycle pendingPartialWithdrawalsData indexedValidators
      epoch = .ok withdrawalsNumber) :
    let pending := getPendingPartialWithdrawals pendingPartialWithdrawalsData indexedValidators
    let counted := indexedValidators.filter (isCounted pending epoch)
    withdrawalsNumber = counted.length + min pending.length (sharedPlaces maxWithdrawalsPerPayload
      maxPendingPartialsPerWithdrawalsSweep counted.length) := by
  simp only [predictWithdrawalsNumberInSweepCycle, Outcome.bind_eq_ok, Outcome.pure_eq_ok,
    natCeil_mul_ratio] at h
  obtain ⟨validatorsWithdrawalsNumber, hcount, rfl⟩ := h
  rw [getValidatorsWithdrawalsNumber_eq_countP hcount, List.countP_eq_length_filter]

/-- Two quotients, rounded up once, are the slots that are rounded up to epochs. -/
theorem natCeil_epochs_le_iff {withdrawalsNumber epochs : ℕ} :
    ⌈(withdrawalsNumber : ℚ) / maxWithdrawalsPerPayload / slotsPerEpoch⌉₊ ≤ epochs ↔
      withdrawalsNumber ⌈/⌉ maxWithdrawalsPerPayload ≤ epochs * slotsPerEpoch.toNat := by
  have hsize : 0 < maxWithdrawalsPerPayload := by decide
  rw [Nat.ceil_le, ceilDiv_le_iff_le_mul hsize, div_div, div_le_iff₀ (by
    norm_num [maxWithdrawalsPerPayload, slotsPerEpoch])]
  have hslots : (slotsPerEpoch : ℚ) = (slotsPerEpoch.toNat : ℕ) :=
    Int.cast_natCast 32
  rw [hslots, mul_comm (epochs : ℚ), mul_assoc, mul_comm (slotsPerEpoch.toNat : ℚ)]
  exact_mod_cast Iff.rfl

/-- **The sweep delay is half of the least number of epochs whose payloads complete
the cycle.** -/
theorem getSweepDelayInEpochs_spec
    {pendingPartialWithdrawalsData : List PendingPartialWithdrawal} {delay : ℕ}
    (h : getSweepDelayInEpochs pendingPartialWithdrawalsData indexedValidators epoch =
      .ok delay) :
    let pending := getPendingPartialWithdrawals pendingPartialWithdrawalsData indexedValidators
    ∃ cycle, IsLeast
        { epochs | CompletesWithin pending
          (indexedValidators.filter (isCounted pending epoch)) epochs } cycle ∧
      delay = cycle / 2 := by
  intro pending
  have hreserved : maxPendingPartialsPerWithdrawalsSweep < maxWithdrawalsPerPayload := by decide
  simp only [getSweepDelayInEpochs, Outcome.bind_eq_ok, Outcome.pure_eq_ok] at h
  obtain ⟨withdrawalsNumber, hpredicted, rfl⟩ := h
  have hnumber := predictWithdrawalsNumberInSweepCycle_eq_ok hpredicted
  have hcompletes (epochs : ℕ) :
      CompletesWithin pending (indexedValidators.filter (isCounted pending epoch)) epochs ↔
        ⌈(withdrawalsNumber : ℚ) / maxWithdrawalsPerPayload / slotsPerEpoch⌉₊ ≤ epochs := by
    rw [natCeil_epochs_le_iff, hnumber]
    exact fillBatch_iterate_snd_eq_nil_iff_ceilDiv_le hreserved _ _
  refine ⟨_, ⟨(hcompletes _).mpr le_rfl, fun epochs hmem => (hcompletes epochs).mp hmem⟩, ?_⟩
  rw [Nat.floor_div_ofNat, Nat.floor_natCast]

/-- Validators of 33 ether, of which one ether is paid out. -/
def rewardedValidators (number : ℕ) : List IndexedValidator :=
  (List.range number).map fun index => ⟨index, 33000000000, .activeOngoing, toppedUpValidator⟩

/-- Two of them have asked for half an ether and for two ether. -/
def askedFor : List PendingPartialWithdrawal := [⟨3, 500000000⟩, ⟨5, 2000000000⟩]

/-- Six hundred of them keep the sweep busy for two epochs. -/
theorem getSweepDelayInEpochs_spec_rewardedValidators :
    let pending := getPendingPartialWithdrawals askedFor (rewardedValidators 600)
    ∃ cycle, IsLeast
        { epochs | CompletesWithin pending
          ((rewardedValidators 600).filter (isCounted pending 0)) epochs } cycle ∧
      1 = cycle / 2 := by
  have hdelay : getSweepDelayInEpochs askedFor (rewardedValidators 600) 0 = .ok 1 := by
    decide +kernel
  exact getSweepDelayInEpochs_spec hdelay

end SweepService

end WithdrawalsApi
