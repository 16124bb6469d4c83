/-
# The margin before a report

The queue contract finalizes no request that is younger than a margin at the
reference slot of the report. An estimate keeps to that margin when the buffer
or the vaults cover the request, because it then compares the next report with
the request. The three projections never make that comparison: they promise a
report that is too close as soon as an inflow reaches it.
-/

import WithdrawalsApi.WaitingTime.Inflow
import WithdrawalsApi.WaitingTime.NextReport

namespace WithdrawalsApi

open Js

namespace Readings

variable (r : Readings) (now : ℤ)

/-- What the buffer and the vaults leave open is covered by a report that is too
close to the request. -/
def ReachesTooClose (args : CalculateWaitingTimeV2Args) : Prop :=
  ¬ args.Covered ∧ ∃ frame, r.TooClose args.requestTimestamp frame ∧
    frame ∈ r.projectedReach now args.deficit args.latestEpoch

variable {r now}

/-- A covered request is never promised to a report that is too close. -/
theorem not_tooClose_of_covered {args : CalculateWaitingTimeV2Args}
    {result : CalculateWaitingTimeV2Result}
    (hbunker : truthyFrame (r.getFrameIsBunker now) = none) (hcovered : args.Covered)
    (hnow : args.requestTimestamp ≤ now)
    (hlength : r.requestTimestampMargin.toMs + gapAfterReport ≤ r.time.frameLength)
    (h : r.calculateWithdrawalFrame now args = .ok result) :
    ¬ r.TooClose args.requestTimestamp result.frame := by
  rw [r.frame_of_covered now hbunker hcovered h]
  split
  case isTrue => exact r.not_tooClose_of_next now hnow hlength
  case isFalse hkept => rwa [r.isRequestShouldBePostponed_iff now] at hkept

/-- A projection is promised to a report that is too close exactly when an inflow
reaches such a report. -/
theorem not_tooClose_iff_of_not_covered {args : CalculateWaitingTimeV2Args}
    {result : CalculateWaitingTimeV2Result}
    (hbunker : truthyFrame (r.getFrameIsBunker now) = none) (hcovered : ¬ args.Covered)
    (h : r.calculateWithdrawalFrame now args = .ok result) :
    ¬ r.TooClose args.requestTimestamp result.frame ↔ ¬ r.ReachesTooClose now args := by
  obtain ⟨hmem, hleast⟩ := r.isLeast_calculateWithdrawalFrame now hbunker hcovered h
  rw [not_iff_not]
  constructor
  · exact fun hclose => ⟨hcovered, result.frame, hclose, hmem⟩
  · rintro ⟨-, frame, hclose, hreach⟩
    exact hclose.earlier r (hleast hreach)

/-- **The margin is kept exactly when no inflow reaches a report that is too
close**: outside bunker mode, for a request that is not from the future, and for
frames that leave room for the margin and the gap. -/
theorem margin_respected_iff {args : CalculateWaitingTimeV2Args}
    {result : CalculateWaitingTimeV2Result} (hbunker : r.bunkerModeActive = false)
    (hnow : args.requestTimestamp ≤ now)
    (hlength : r.requestTimestampMargin.toMs + gapAfterReport ≤ r.time.frameLength)
    (h : r.calculateWithdrawalFrame now args = .ok result) :
    r.requestTimestampMargin.toMs ≤
        r.time.timeToWithdrawalFrame result.frame args.requestTimestamp ↔
      ¬ r.ReachesTooClose now args := by
  have hframe := r.truthyFrame_getFrameIsBunker now hbunker
  rw [← not_lt]
  change ¬ r.TooClose args.requestTimestamp result.frame ↔ _
  by_cases hcovered : args.Covered
  · have hkept := not_tooClose_of_covered hframe hcovered hnow hlength h
    exact iff_of_true hkept fun hreach => hreach.1 hcovered
  · exact not_tooClose_iff_of_not_covered hframe hcovered h

theorem margin_respected_iff_tenEther :
    sampleReadings.requestTimestampMargin.toMs ≤
        sampleReadings.time.timeToWithdrawalFrame 700 tenEther.requestTimestamp ↔
      ¬ sampleReadings.ReachesTooClose 1744714823000 tenEther := by
  have hframe : sampleReadings.calculateWithdrawalFrame 1744714823000 tenEther =
      .ok ⟨700, .rewardsOnly⟩ := by decide
  have hiff := margin_respected_iff rfl (by decide) (by decide) hframe
  exact hiff

/-- The rewards of three epochs cover the request, and it is promised to the
report that is one hour away. -/
theorem margin_not_always_respected :
    ¬ ∀ (r : Readings) (now : ℤ) (args : CalculateWaitingTimeV2Args)
      (result : CalculateWaitingTimeV2Result), r.bunkerModeActive = false →
      args.requestTimestamp ≤ now →
      r.requestTimestampMargin.toMs + gapAfterReport ≤ r.time.frameLength →
      r.calculateWithdrawalFrame now args = .ok result →
      r.requestTimestampMargin.toMs ≤
        r.time.timeToWithdrawalFrame result.frame args.requestTimestamp := by
  intro hkept
  have := hkept sampleReadings 1744714823000 tenEther ⟨700, .rewardsOnly⟩ rfl
    (by decide) (by decide) (by decide)
  revert this
  decide

end Readings

end WithdrawalsApi
