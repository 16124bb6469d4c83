/-
# The exit churn behind the estimates

The validators job turns the total active balance into a churn limit in gwei and
stores it as a count of 32 ether; two estimates multiply the count by 32 ether
again. The way through the count rounds down to whole multiples of 32 ether, so
it is an identity at the two bounds of the churn limit, and between them for
multiples only.
-/

import WithdrawalsApi.Jobs.Validators
import WithdrawalsApi.Js.Arithmetic
import WithdrawalsApi.WaitingTime.Frame

namespace WithdrawalsApi

open Js SweepService ValidatorsService

/-- `MIN_ACTIVATION_BALANCE.mul(Math.floor(churnLimit))` of the stored churn limit:
the ether that exits release per epoch, in wei. -/
def Stores.exitChurnEthPerEpoch (stores : Stores) : Outcome ℤ := do
  let churnLimit ← defined stores.validators.churnLimit
  let whole ← BigNumber.ofNumber churnLimit.floor
  pure (minActivationBalance * whole)

theorem Stores.exitChurnEthPerEpoch_of_natCast {stores : Stores} {n : ℕ}
    (h : stores.validators.churnLimit = some (.finite n)) (hsafe : n < maxSafeInteger) :
    stores.exitChurnEthPerEpoch = .ok (minActivationBalance * n) := by
  have hpositive : -maxSafeInteger < (n : ℤ) := by
    simp only [maxSafeInteger]
    omega
  rw [exitChurnEthPerEpoch, h, defined, Outcome.ok_bind, JsNumber.floor_natCast,
    BigNumber.ofNumber_intCast hpositive hsafe]
  rfl

/-! ## What the count of 32 ether keeps -/

/-- The stored count stands for the churn limit of a total active balance, which
is the clamped quotient of the consensus rules. -/
structure ChurnLossless (stores : Stores) (totalActiveBalanceGwei : ℕ) : Prop where
  throughput : stores.exitChurnEthPerEpoch =
    .ok ((getChurnLimitGwei totalActiveBalanceGwei * 10 ^ 9 : ℕ) : ℤ)
  clamp : getChurnLimitGwei totalActiveBalanceGwei * 10 ^ 9 =
    min (max (totalActiveBalanceGwei / 2 ^ 16 * 10 ^ 9) (128 * 10 ^ 18)) (256 * 10 ^ 18)

/-- What the estimates read after an update: whole multiples of 32 ether of the
churn limit. -/
theorem exitChurnEthPerEpoch_setCounts (stores : Stores) (update : Update) :
    { stores with validators := setCounts update stores.validators }.exitChurnEthPerEpoch =
      .ok ((getChurnLimitGwei update.count.totalActiveBalance / minActivationBalanceGwei *
        minActivationBalanceGwei * 10 ^ 9 : ℕ) : ℤ) := by
  have hbounds := getChurnLimit_bounds update.count.totalActiveBalance
  have hsafe : (getChurnLimit update.count.totalActiveBalance : ℤ) < maxSafeInteger := by
    simp only [maxSafeInteger]
    omega
  rw [Stores.exitChurnEthPerEpoch_of_natCast rfl hsafe, getChurnLimit, minActivationBalance,
    minActivationBalanceGwei]
  push_cast
  congr 1
  ring

/-- Dividing by 32 ether and multiplying again is the identity on multiples. -/
theorem getChurnLimitGwei_div_mul_eq_iff (totalActiveBalanceGwei : ℕ) :
    getChurnLimitGwei totalActiveBalanceGwei / minActivationBalanceGwei *
        minActivationBalanceGwei = getChurnLimitGwei totalActiveBalanceGwei ↔
      totalActiveBalanceGwei / churnLimitQuotient ≤ 128 * 10 ^ 9 ∨
        256 * 10 ^ 9 ≤ totalActiveBalanceGwei / churnLimitQuotient ∨
        minActivationBalanceGwei ∣ totalActiveBalanceGwei / churnLimitQuotient := by
  rw [getChurnLimitGwei_eq, minPerEpochChurnLimit, minActivationBalanceGwei, maxPerEpochChurnLimit]
  omega

/-- **The stored churn limit loses nothing, exactly when** the total active
balance puts it at one of its bounds or at a multiple of 32 ether. -/
theorem churnLossless_iff (stores : Stores) (update : Update) :
    ChurnLossless { stores with validators := setCounts update stores.validators }
        update.count.totalActiveBalance ↔
      update.count.totalActiveBalance / churnLimitQuotient ≤ 128 * 10 ^ 9 ∨
        256 * 10 ^ 9 ≤ update.count.totalActiveBalance / churnLimitQuotient ∨
        minActivationBalanceGwei ∣ update.count.totalActiveBalance / churnLimitQuotient := by
  rw [← getChurnLimitGwei_div_mul_eq_iff]
  have hscale (a b : ℕ) : a * 10 ^ 9 = b * 10 ^ 9 ↔ a = b := by omega
  constructor
  · intro h
    have hthroughput := h.throughput
    rw [exitChurnEthPerEpoch_setCounts, Except.ok.injEq, Int.natCast_inj, hscale] at hthroughput
    exact hthroughput
  · intro h
    refine ⟨by rw [exitChurnEthPerEpoch_setCounts, h], ?_⟩
    rw [getChurnLimitGwei_eq, minPerEpochChurnLimit, minActivationBalanceGwei,
      maxPerEpochChurnLimit, churnLimitQuotient]
    omega

/-- At a total active balance of twelve million ether the churn limit is 183 ether
and a fraction; the estimates reckon with 160 ether. -/
theorem not_churnLossless_twelveMillionEther :
    ¬ ChurnLossless
      { genesisTime := 0
        validators := setCounts
          { indexedValidators := []
            sweepMeanEpochs := 0
            count := { totalActiveBalance := 12000000 * 10 ^ 9, maxExitEpoch := 5 } } {} }
      (12000000 * 10 ^ 9) := by
  intro h
  have hthroughput := h.throughput
  revert hthroughput
  decide +kernel

end WithdrawalsApi
