/-
# The next report and the margin before it

For 30 minutes after its reference time a report may still be on its way, and
the estimates count it as the next one. `gapAdjustedFrame` is the frame of the
last report that is surely over; these lemmas place the clock between that
report and its successors, and relate the margin to distances between times.
-/

import WithdrawalsApi.WaitingTime.Frame

namespace WithdrawalsApi

open Js

namespace Readings

variable (r : Readings) (now : ℤ)

/-! ## The clock between two reports -/

theorem gapAdjustedFrame_le_currentFrame : r.gapAdjustedFrame now ≤ r.currentFrame now := by
  unfold gapAdjustedFrame
  split <;> omega

theorem currentFrame_le_gapAdjustedFrame_succ :
    r.currentFrame now ≤ r.gapAdjustedFrame now + 1 := by
  unfold gapAdjustedFrame
  split <;> omega

theorem reportTime_currentFrame_le : r.time.reportTime (r.currentFrame now) ≤ now :=
  r.time.reportTime_le_now_iff.mpr le_rfl

/-- The report after the current frame is strictly in the future. -/
theorem now_lt_reportTime_currentFrame_succ :
    now < r.time.reportTime (r.currentFrame now + 1) :=
  r.time.now_lt_reportTime_iff.mpr (lt_add_one _)

/-- The next report is not over for longer than the gap. -/
theorem now_lt_reportTime_next_add_gap :
    now < r.time.reportTime (r.gapAdjustedFrame now + 1) + gapAfterReport := by
  unfold gapAdjustedFrame
  split
  case isTrue hgap =>
    have hmono := r.time.getFrameOfEpoch_mono (r.time.getCurrentEpoch_mono
      (show now - gapAfterReport ≤ now by simp [gapAfterReport]))
    rw [r.time.getFrameByTimestamp_eq] at hgap
    have hlt := lt_of_le_of_ne hmono hgap
    have hafter := r.time.now_lt_reportTime_iff.mpr hlt
    rw [sub_add_cancel]
    change now - gapAfterReport < r.time.reportTime (r.currentFrame now) at hafter
    linarith
  case isFalse =>
    have := r.now_lt_reportTime_currentFrame_succ now
    simp only [gapAfterReport]
    omega

/-- When frames are not shorter than the gap, the last report is over for at
least the gap. -/
theorem reportTime_gapAdjustedFrame_add_gap_le
    (hlength : gapAfterReport ≤ r.time.frameLength) :
    r.time.reportTime (r.gapAdjustedFrame now) + gapAfterReport ≤ now := by
  unfold gapAdjustedFrame
  split
  case isTrue =>
    have hsucc := r.time.reportTime_succ (r.currentFrame now - 1)
    have hreport := r.reportTime_currentFrame_le now
    rw [sub_add_cancel] at hsucc
    omega
  case isFalse hgap =>
    rw [not_not, r.time.getFrameByTimestamp_eq] at hgap
    have := r.time.reportTime_le_now_iff.mpr hgap.ge
    omega

/-- The report after the next one is at least the rest of a frame away. -/
theorem now_add_frameLength_lt :
    now + r.time.frameLength <
      r.time.reportTime (r.gapAdjustedFrame now + 2) + gapAfterReport := by
  have hsucc := r.time.reportTime_succ (r.gapAdjustedFrame now + 1)
  have hnext := r.now_lt_reportTime_next_add_gap now
  rw [add_assoc, one_add_one_eq_two] at hsucc
  omega

/-! ## The margin -/

/-- A report is too close to a request when less than the margin lies between
them. -/
def TooClose (requestTimestamp frame : ℤ) : Prop :=
  r.time.timeToWithdrawalFrame frame requestTimestamp < r.requestTimestampMargin.toMs

instance (requestTimestamp frame : ℤ) : Decidable (r.TooClose requestTimestamp frame) :=
  inferInstanceAs (Decidable (_ < _))

theorem isRequestShouldBePostponed_iff {requestTimestamp : ℤ} :
    r.isRequestShouldBePostponed now requestTimestamp = true ↔
      r.TooClose requestTimestamp (r.gapAdjustedFrame now + 1) := by
  simp [isRequestShouldBePostponed, TooClose]

/-- Distances are rounded to seconds, and the margin is a whole number of them. -/
theorem tooClose_iff {requestTimestamp frame : ℤ} :
    r.TooClose requestTimestamp frame ↔
      r.time.reportTime frame - requestTimestamp + 500 < r.requestTimestampMargin.toMs := by
  rw [TooClose, ← not_le, RequestTimestampMargin.toMs, r.time.le_timeToWithdrawalFrame_iff, not_le]

theorem TooClose.earlier {requestTimestamp first second : ℤ}
    (h : r.TooClose requestTimestamp second) (hle : first ≤ second) :
    r.TooClose requestTimestamp first :=
  (r.time.timeToWithdrawalFrame_mono hle).trans_lt h

theorem TooClose.later {earlier later frame : ℤ} (h : r.TooClose earlier frame)
    (hle : earlier ≤ later) : r.TooClose later frame :=
  (r.time.timeToWithdrawalFrame_antitone hle).trans_lt h

/-- The report after the next one is never too close, when frames leave room for
the margin and the gap. -/
theorem not_tooClose_of_next {requestTimestamp : ℤ} (hnow : requestTimestamp ≤ now)
    (hlength : r.requestTimestampMargin.toMs + gapAfterReport ≤ r.time.frameLength) :
    ¬ r.TooClose requestTimestamp (r.gapAdjustedFrame now + 2) := by
  have := r.now_add_frameLength_lt now
  rw [tooClose_iff]
  omega

/-- A configuration with a margin of two hours and rewards of 900 ether per frame;
the report of frame 700 is due at 1744718423. -/
def sampleReadings : Readings where
  time := {
    genesisTime := 1606824023
    initialEpoch := 201600
    epochsPerFrame := 225
    epochsPerFrame_pos := by norm_num }
  epochsPerFrameVEBO := 75
  requestTimestampMargin := ⟨7200, by norm_num⟩
  maxBalanceExitRequestedPerReportInEth := ⟨57600, by norm_num⟩
  depositsReserveTarget := 0
  rewardsPerFrame := 900 * 10 ^ 18
  maxExitEpoch := 359100
  sweepMeanEpochs := 1000
  churnLimit := 8
  frameBalances := Record.empty
  requests := []
  lastRequestId := 0
  nextUpdate := ⟨0, by decide⟩
  bunkerModeActive := false

/-- A request for ten ether, made one hour before the report of frame 700. -/
def tenEther : CalculateWaitingTimeV2Args where
  unfinalized := 10 * 10 ^ 18
  buffer := 0
  vaultsBalance := 0
  requestTimestamp := 1744714823000
  latestEpoch := 359100

end Readings

end WithdrawalsApi
