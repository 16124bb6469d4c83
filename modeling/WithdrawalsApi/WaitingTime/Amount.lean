/-
# Estimates and the amount

Asking for more cannot help: a larger deficit is covered by fewer reports. The
comparison of two estimates is nevertheless decided by more than their deficits.
An amount that is still covered may be postponed past the next report, while a
larger one that is not covered is promised to that very report. And two
projections need not be comparable when frame zero is still to come, since it is
taken for no frame, or when the table is not listed in ascending order.
-/

import WithdrawalsApi.WaitingTime.Inflow
import WithdrawalsApi.WaitingTime.NextReport
import WithdrawalsApi.WaitingTime.Response

namespace WithdrawalsApi

open Js Math

namespace Readings

variable (r : Readings) (now : ℤ)

/-- An amount that is covered is postponed, while a larger one that is not
covered reaches the next report. -/
def PostponesCoveredOnly (state : BlockState) (small large : ℕ) : Prop :=
  truthyFrame (r.getFrameIsBunker now) = none ∧
    (r.amountArgs now state small).Covered ∧ ¬ (r.amountArgs now state large).Covered ∧
    r.TooClose now (r.gapAdjustedFrame now + 1) ∧
    r.gapAdjustedFrame now + 1 ∈
      r.projectedReach now (r.amountArgs now state large).deficit (r.getMaxExitEpoch now)

/-- An amount that is not covered compares with larger ones: the table is listed in
ascending order, and no projection of the amount ends at frame zero. -/
def ComparesWithLarger (state : BlockState) (amount : ℕ) : Prop :=
  truthyFrame (r.getFrameIsBunker now) = none → ¬ (r.amountArgs now state amount).Covered →
    r.frameBalances.ListedAscending ∧
      ¬ r.EndsAtFrameZero now (r.amountArgs now state amount).deficit

variable {r now} {state : BlockState} {small large : ℕ}

theorem covered_of_le (hle : small ≤ large) (h : (r.amountArgs now state large).Covered) :
    (r.amountArgs now state small).Covered := by
  simp only [CalculateWaitingTimeV2Args.Covered, amountArgs] at h ⊢
  omega

theorem deficit_le_of_le (hle : small ≤ large) :
    (r.amountArgs now state small).deficit ≤ (r.amountArgs now state large).deficit := by
  simp only [CalculateWaitingTimeV2Args.deficit, amountArgs]
  omega

/-- A covered amount and a larger one that is not. -/
private theorem frame_le_iff_of_covered_of_not_covered
    {resultSmall resultLarge : CalculateWaitingTimeV2Result}
    (hbunker : truthyFrame (r.getFrameIsBunker now) = none)
    (hkeys : ∀ row ∈ r.frameBalances.rows, r.currentFrame now < row.1)
    (hcovered : (r.amountArgs now state small).Covered)
    (hopen : ¬ (r.amountArgs now state large).Covered)
    (hsmall : r.calculateWithdrawalFrame now (r.amountArgs now state small) = .ok resultSmall)
    (hlarge : r.calculateWithdrawalFrame now (r.amountArgs now state large) = .ok resultLarge) :
    resultSmall.frame ≤ resultLarge.frame ↔ ¬ r.PostponesCoveredOnly now state small large := by
  have hframe := r.frame_of_covered now hbunker hcovered hsmall
  obtain ⟨hmem, hleast⟩ := r.isLeast_calculateWithdrawalFrame now hbunker hopen hlarge
  have hfuture := r.currentFrame_lt_of_mem_projectedReach now
    (CalculateWaitingTimeV2Args.deficit_nonneg hopen) hkeys
    getCurrentEpoch_le_getMaxExitEpoch hmem
  have hgap := r.gapAdjustedFrame_le_currentFrame now
  rw [hframe]
  split
  case isTrue hpostponed =>
    have hclose := (r.isRequestShouldBePostponed_iff now).mp hpostponed
    constructor
    · rintro hle ⟨-, -, -, -, hnext⟩
      have := hleast hnext
      omega
    · intro hslip
      by_contra hlt
      have hnext : resultLarge.frame = r.gapAdjustedFrame now + 1 := by omega
      exact hslip ⟨hbunker, hcovered, hopen, hclose, hnext ▸ hmem⟩
  case isFalse hkept =>
    refine iff_of_true (by omega) ?_
    rintro ⟨-, -, -, hclose, -⟩
    exact hkept ((r.isRequestShouldBePostponed_iff now).mpr hclose)

/-- Two amounts that are not covered. -/
private theorem frame_le_of_not_covered
    {resultSmall resultLarge : CalculateWaitingTimeV2Result} (hle : small ≤ large)
    (hbunker : truthyFrame (r.getFrameIsBunker now) = none)
    (hopenSmall : ¬ (r.amountArgs now state small).Covered)
    (hopenLarge : ¬ (r.amountArgs now state large).Covered)
    (hcompares : r.ComparesWithLarger now state small)
    (hsmall : r.calculateWithdrawalFrame now (r.amountArgs now state small) = .ok resultSmall)
    (hlarge : r.calculateWithdrawalFrame now (r.amountArgs now state large) = .ok resultLarge) :
    resultSmall.frame ≤ resultLarge.frame := by
  obtain ⟨hascending, hzero⟩ := hcompares hbunker hopenSmall
  obtain ⟨-, hleast⟩ := r.isLeast_calculateWithdrawalFrame now hbunker hopenSmall hsmall
  obtain ⟨hmem, -⟩ := r.isLeast_calculateWithdrawalFrame now hbunker hopenLarge hlarge
  exact hleast
    (r.projectedReach_antitone now hascending hzero (deficit_le_of_le hle) le_rfl hmem)

/-- **A larger amount is not promised earlier** when the smaller one is not postponed
while the larger one reaches the next report, and when the projections of the smaller one
can be compared. The first condition is also necessary. -/
theorem amount_frame_le_of_comparesWithLarger {infoSmall infoLarge : GetWaitingTimeInfoResult}
    (hle : small ≤ large) (hkeys : ∀ row ∈ r.frameBalances.rows, r.currentFrame now < row.1)
    (hsmall : r.getWaitingTimeInfo now state small = .ok infoSmall)
    (hlarge : r.getWaitingTimeInfo now state large = .ok infoLarge) :
    ∃ resultSmall resultLarge,
      r.calculateWithdrawalFrame now (r.amountArgs now state small) = .ok resultSmall ∧
      r.calculateWithdrawalFrame now (r.amountArgs now state large) = .ok resultLarge ∧
      (¬ r.PostponesCoveredOnly now state small large → r.ComparesWithLarger now state small →
        resultSmall.frame ≤ resultLarge.frame) ∧
      (resultSmall.frame ≤ resultLarge.frame → ¬ r.PostponesCoveredOnly now state small large) := by
  obtain ⟨resultSmall, hresultSmall, -⟩ := getWaitingTimeInfo_eq_ok hsmall
  obtain ⟨resultLarge, hresultLarge, -⟩ := getWaitingTimeInfo_eq_ok hlarge
  refine ⟨resultSmall, resultLarge, hresultSmall, hresultLarge, ?_⟩
  cases hbunker : truthyFrame (r.getFrameIsBunker now) with
  | some frame =>
      have hclosed : ¬ truthyFrame (r.getFrameIsBunker now) = none := by simp [hbunker]
      rw [r.calculateWithdrawalFrame_of_bunker now hbunker] at hresultSmall hresultLarge
      cases hresultSmall
      cases hresultLarge
      exact ⟨fun _ _ => le_rfl, fun _ h => hclosed h.1⟩
  | none =>
      by_cases hcoveredSmall : (r.amountArgs now state small).Covered
      · by_cases hcoveredLarge : (r.amountArgs now state large).Covered
        · have hsame : resultSmall.frame = resultLarge.frame := by
            rw [r.frame_of_covered now hbunker hcoveredSmall hresultSmall,
              r.frame_of_covered now hbunker hcoveredLarge hresultLarge]
            rfl
          exact ⟨fun _ _ => hsame.le, fun _ h => h.2.2.1 hcoveredLarge⟩
        · have hiff := frame_le_iff_of_covered_of_not_covered hbunker hkeys hcoveredSmall
            hcoveredLarge hresultSmall hresultLarge
          exact ⟨fun hkept _ => hiff.mpr hkept, hiff.mp⟩
      · have hcoveredLarge := mt (covered_of_le hle) hcoveredSmall
        refine ⟨fun _ hcompares => ?_, fun _ h => hcoveredSmall h.2.1⟩
        exact frame_le_of_not_covered hle hbunker hcoveredSmall hcoveredLarge hcompares
          hresultSmall hresultLarge

/-- With a table of array indices, and once the frames are counted from zero on, every
amount compares with larger ones. -/
theorem comparesWithLarger_of_arrayIndexed (hframe : 0 ≤ r.currentFrame now)
    (hindexed : r.frameBalances.ArrayIndexed)
    (hkeys : ∀ row ∈ r.frameBalances.rows, r.currentFrame now < row.1) :
    r.ComparesWithLarger now state small := by
  intro _ hopen
  refine ⟨hindexed.rows_ascending, r.not_endsAtFrameZero now
    (CalculateWaitingTimeV2Args.deficit_nonneg hopen) hframe fun row hrow => ?_⟩
  exact hframe.trans_lt (hkeys row hrow)

/-- A queue that the buffer covers by five ether. -/
def fiveEtherBuffer : BlockState where
  unfinalized := 0
  buffer := 5 * 10 ^ 18
  vaultsBalance := 0

theorem amount_frame_le_of_comparesWithLarger_ether :
    ∃ resultSmall resultLarge,
      sampleReadings.calculateWithdrawalFrame 1744714823000
          (sampleReadings.amountArgs 1744714823000 fiveEtherBuffer (10 ^ 19)) = .ok resultSmall ∧
      sampleReadings.calculateWithdrawalFrame 1744714823000
          (sampleReadings.amountArgs 1744714823000 fiveEtherBuffer (10 ^ 21)) = .ok resultLarge ∧
      (¬ sampleReadings.PostponesCoveredOnly 1744714823000 fiveEtherBuffer (10 ^ 19) (10 ^ 21) →
        sampleReadings.ComparesWithLarger 1744714823000 fiveEtherBuffer (10 ^ 19) →
        resultSmall.frame ≤ resultLarge.frame) ∧
      (resultSmall.frame ≤ resultLarge.frame → ¬ sampleReadings.PostponesCoveredOnly
        1744714823000 fiveEtherBuffer (10 ^ 19) (10 ^ 21)) := by
  have hsmall : sampleReadings.getWaitingTimeInfo 1744714823000 fiveEtherBuffer (10 ^ 19) =
      .ok ⟨some ⟨5400000, 1744720223000, none, none, .rewardsOnly⟩,
        .calculated, some 0⟩ := by decide
  have hlarge : sampleReadings.getWaitingTimeInfo 1744714823000 fiveEtherBuffer (10 ^ 21) =
      .ok ⟨some ⟨178200000, 1744893023000, none, none, .rewardsOnly⟩,
        .calculated, some 0⟩ := by decide
  exact amount_frame_le_of_comparesWithLarger (by norm_num) (by decide) hsmall hlarge

/-- One ether is covered and postponed to the report of frame 701; ten ether are
promised to that of frame 700, one hour away. -/
theorem amount_frame_not_monotone :
    ¬ ∀ (r : Readings) (now : ℤ) (state : BlockState) (small large : ℕ)
      (resultSmall resultLarge : CalculateWaitingTimeV2Result), small ≤ large →
      (∀ row ∈ r.frameBalances.rows, r.currentFrame now < row.1) →
      (r.getWaitingTimeInfo now state small).isOk → (r.getWaitingTimeInfo now state large).isOk →
      r.calculateWithdrawalFrame now (r.amountArgs now state small) = .ok resultSmall →
      r.calculateWithdrawalFrame now (r.amountArgs now state large) = .ok resultLarge →
      resultSmall.frame ≤ resultLarge.frame := by
  intro hmonotone
  have := hmonotone sampleReadings 1744714823000 fiveEtherBuffer (10 ^ 18) (10 ^ 19)
    ⟨701, .requestTimestampMargin⟩ ⟨700, .rewardsOnly⟩ (by norm_num) (by decide) (by decide)
    (by decide) (by decide) (by decide)
  revert this
  decide

end Readings

end WithdrawalsApi
