/-
# The same question, asked later

Nothing changes but the clock: the stores, the amounts read from the chain and
the amount asked about stay as they are. The time that the estimate promises
then does not move forward. The last report that is over advances, a covered
request is postponed as the next report comes closer, and each of the three
inflows starts later, so that it reaches no report which it did not reach before.

Promises are rounded to whole seconds, so they are compared up to one second. A
frame that is over is no promise but five days from the clock; as long as the
table holds no such frame, the first of the two answers is a report.
-/

import WithdrawalsApi.WaitingTime.FasterInflow
import WithdrawalsApi.WaitingTime.Settlement

namespace WithdrawalsApi

open Js Math

namespace Readings

variable {r : Readings} {now later : ℤ}

/-! ## The clock advances -/

theorem currentFrame_mono (h : now ≤ later) : r.currentFrame now ≤ r.currentFrame later :=
  r.time.getFrameOfEpoch_mono (r.time.getCurrentEpoch_mono h)

/-- The gap adjustment in terms of the frame half an hour ago. -/
theorem gapAdjustedFrame_eq (r : Readings) (clock : ℤ) :
    r.gapAdjustedFrame clock =
      if r.currentFrame (clock - gapAfterReport) ≠ r.currentFrame clock
      then r.currentFrame clock - 1 else r.currentFrame clock := by
  unfold gapAdjustedFrame
  rw [r.time.getFrameByTimestamp_eq]
  rfl

/-- The last report that is surely over does not go back. In one frame the clock
passes the gap at most once, and a new frame is one ahead of it. -/
theorem gapAdjustedFrame_mono (h : now ≤ later) :
    r.gapAdjustedFrame now ≤ r.gapAdjustedFrame later := by
  have hframe : r.currentFrame now ≤ r.currentFrame later := currentFrame_mono h
  have hgap : r.currentFrame (now - gapAfterReport) ≤ r.currentFrame (later - gapAfterReport) :=
    currentFrame_mono (by omega)
  have hbehind : r.currentFrame (later - gapAfterReport) ≤ r.currentFrame later :=
    currentFrame_mono (by simp [gapAfterReport])
  rw [gapAdjustedFrame_eq, gapAdjustedFrame_eq]
  split_ifs <;> omega

theorem getMaxExitEpoch_mono (h : now ≤ later) :
    r.getMaxExitEpoch now ≤ r.getMaxExitEpoch later := by
  have := r.time.getCurrentEpoch_mono h
  simp only [getMaxExitEpoch]
  omega

/-- From its initial epoch on the oracle counts frames from zero. -/
theorem currentFrame_nonneg (hstarted : r.time.initialEpoch ≤ r.time.getCurrentEpoch now) :
    0 ≤ r.currentFrame now :=
  Int.ediv_nonneg (sub_nonneg.mpr hstarted) r.time.epochsPerFrame_pos.le

/-! ## Each reached set shrinks -/

theorem rewardsReach_antitone_clock (h : now ≤ later) (deficit : ℤ) :
    r.rewardsReach later deficit ⊆ r.rewardsReach now deficit := by
  intro frame hframe
  have hepoch := r.time.getCurrentEpoch_mono h
  exact hframe.trans_le (mul_le_mul_of_nonneg_right (by omega) r.rewardsPerEpoch_nonneg)

theorem tableReach_antitone_clock (htable : r.frameBalances.ListedAscending) (h : now ≤ later)
    (deficit : ℤ) : r.tableReach later deficit ⊆ r.tableReach now deficit := by
  simp only [tableReach, stopped_eq_covers _ htable]
  exact covers_antitone_since r.rewardsAvailableForWithdrawals_nonneg (gapAdjustedFrame_mono h)

/-- Nothing is discarded at the earlier clock, so every report that is reached at
the later one is reached. -/
theorem projectedReach_antitone_clock (htable : r.frameBalances.ListedAscending)
    (h : now ≤ later) {deficit earlierEpoch laterEpoch : ℤ}
    (hzero : ¬ r.EndsAtFrameZero now deficit) (hepoch : earlierEpoch ≤ laterEpoch) :
    r.projectedReach later deficit laterEpoch ⊆ r.projectedReach now deficit earlierEpoch := by
  obtain ⟨htableZero, hrewardsZero⟩ := not_or.mp hzero
  rintro frame (hreach | hreach | hreach)
  · refine Or.inl ?_
    rw [discardLeast_eq_self htableZero]
    exact tableReach_antitone_clock htable h deficit (discardLeast_subset _ _ hreach)
  · refine Or.inr (Or.inl ?_)
    rw [discardLeast_eq_self hrewardsZero]
    exact rewardsReach_antitone_clock h deficit (discardLeast_subset _ _ hreach)
  · exact Or.inr (Or.inr (r.exitReach_antitone le_rfl hepoch hreach))

/-! ## The frame of the estimate -/

/-- A covered request goes to the next report, or to the one after it: when the
clock moves it to another next report, that is at least the one after it. -/
theorem frame_le_of_covered {args : CalculateWaitingTimeV2Args} {requestTimestamp latestEpoch : ℤ}
    {first second : CalculateWaitingTimeV2Result} (h : now ≤ later)
    (hfirstTurbo : truthyFrame (r.getFrameIsBunker now) = none)
    (hsecondTurbo : truthyFrame (r.getFrameIsBunker later) = none) (hcovered : args.Covered)
    (htimestamp : args.requestTimestamp ≤ requestTimestamp)
    (hfirst : r.calculateWithdrawalFrame now args = .ok first)
    (hsecond : r.calculateWithdrawalFrame later { args with requestTimestamp, latestEpoch } =
      .ok second) : first.frame ≤ second.frame := by
  have hgap : r.gapAdjustedFrame now ≤ r.gapAdjustedFrame later := gapAdjustedFrame_mono h
  have hstillCovered : CalculateWaitingTimeV2Args.Covered
      { args with requestTimestamp, latestEpoch } := hcovered
  have hsecondFrame := r.frame_of_covered later hsecondTurbo hstillCovered hsecond
  rw [r.frame_of_covered now hfirstTurbo hcovered hfirst, hsecondFrame]
  simp only [r.isRequestShouldBePostponed_iff]
  rcases hgap.eq_or_lt with hsame | hnext
  · by_cases hclose : r.TooClose args.requestTimestamp (r.gapAdjustedFrame now + 1)
    · have hlaterClose : r.TooClose requestTimestamp (r.gapAdjustedFrame later + 1) :=
        hsame ▸ hclose.later r htimestamp
      rw [if_pos hclose, if_pos hlaterClose, hsame]
    · rw [if_neg hclose, hsame]
      split_ifs <;> omega
  · split_ifs <;> omega

/-- **A later clock gives no earlier frame**, for a request that is not older and
exits that do not begin earlier. -/
theorem frame_le_of_later {args : CalculateWaitingTimeV2Args} {requestTimestamp latestEpoch : ℤ}
    {first second : CalculateWaitingTimeV2Result} (h : now ≤ later)
    (hstarted : r.time.initialEpoch ≤ r.time.getCurrentEpoch now)
    (htable : r.frameBalances.ListedAscending) (hkeys : ∀ row ∈ r.frameBalances.rows, 0 < row.1)
    (htimestamp : args.requestTimestamp ≤ requestTimestamp)
    (hepoch : args.latestEpoch ≤ latestEpoch)
    (hfirst : r.calculateWithdrawalFrame now args = .ok first)
    (hsecond : r.calculateWithdrawalFrame later { args with requestTimestamp, latestEpoch } =
      .ok second) : first.frame ≤ second.frame := by
  have hframe : r.currentFrame now ≤ r.currentFrame later := currentFrame_mono h
  have hcounted : 0 ≤ r.currentFrame now := currentFrame_nonneg hstarted
  cases hmode : r.bunkerModeActive with
  | true =>
      have hbunker (clock : ℤ) (hclock : 0 ≤ r.currentFrame clock) :
          truthyFrame (r.getFrameIsBunker clock) =
            some (r.currentFrame clock + withdrawalBunkerDelayFrames) := by
        have hne : r.currentFrame clock + withdrawalBunkerDelayFrames ≠ 0 := by
          simp only [withdrawalBunkerDelayFrames]
          omega
        simp [getFrameIsBunker, hmode, truthyFrame, Option.filter, hne]
      rw [r.calculateWithdrawalFrame_of_bunker now (hbunker now hcounted)] at hfirst
      rw [r.calculateWithdrawalFrame_of_bunker later (hbunker later (hcounted.trans hframe))]
        at hsecond
      cases hfirst
      cases hsecond
      exact add_le_add hframe le_rfl
  | false =>
      have hfirstTurbo := r.truthyFrame_getFrameIsBunker now hmode
      have hsecondTurbo := r.truthyFrame_getFrameIsBunker later hmode
      by_cases hcovered : args.Covered
      · exact frame_le_of_covered h hfirstTurbo hsecondTurbo hcovered htimestamp hfirst hsecond
      · have hstillOpen : ¬ CalculateWaitingTimeV2Args.Covered
            { args with requestTimestamp, latestEpoch } := hcovered
        have hdeficit := CalculateWaitingTimeV2Args.deficit_nonneg hcovered
        have hzero := r.not_endsAtFrameZero now hdeficit hcounted hkeys
        have hnow := r.isLeast_calculateWithdrawalFrame now hfirstTurbo hcovered hfirst
        have hlater := r.isLeast_calculateWithdrawalFrame later hsecondTurbo hstillOpen hsecond
        exact hnow.2 (projectedReach_antitone_clock htable h hzero hepoch hlater.1)

/-! ## The promised time -/

/-- A delay that is not replaced promises the report, up to half a second. -/
theorem abs_promise_sub_reportTime_le (r : Readings) {frame clock : ℤ}
    (h : 0 ≤ r.time.timeToWithdrawalFrame frame clock) :
    |clock + validateTimeResponseWithFallback (r.time.timeToWithdrawalFrame frame clock) -
      r.time.reportTime frame| ≤ 500 := by
  have hrounded := r.time.abs_timeToWithdrawalFrame_sub_le frame clock
  rw [validateTimeResponseWithFallback, if_neg (not_lt.mpr h)]
  convert hrounded using 2
  ring

/-- No promise lies more than half a second before the report of its frame. -/
theorem reportTime_le_promise_add (r : Readings) (frame clock : ℤ) :
    r.time.reportTime frame ≤
      clock + validateTimeResponseWithFallback (r.time.timeToWithdrawalFrame frame clock) +
        500 := by
  rcases le_or_gt 0 (r.time.timeToWithdrawalFrame frame clock) with hahead | hover
  · have := abs_le.mp (r.abs_promise_sub_reportTime_le hahead)
    omega
  · have := r.time.reportTime_lt_of_delay_neg hover
    rw [validateTimeResponseWithFallback, if_pos hover]
    omega

/-- A response for an amount that carries a time rests on one estimate. -/
theorem exists_result_of_requestInfo {stores : Stores} (hreadings : stores.readings = .ok r)
    {clock : ℤ} {state : BlockState} {amount : ℕ} {info : GetWaitingTimeInfoResult}
    {requestInfo : CalculateTimeByIdRequestInfo}
    (h : stores.getWaitingTimeInfo clock state amount = .ok info)
    (hinfo : info.requestInfo = some requestInfo) :
    ∃ result, r.calculateWithdrawalFrame clock (r.amountArgs clock state amount) = .ok result ∧
      requestInfo.finalizationAt = clock + validateTimeResponseWithFallback
        (r.time.timeToWithdrawalFrame result.frame clock) + gapAfterReport := by
  have hinitialized : stores.isInitialized = true := by
    by_contra hclosed
    rw [Stores.getWaitingTimeInfo, if_neg hclosed] at h
    obtain rfl := Outcome.pure_eq_ok.mp h
    cases hinfo
  rw [Stores.getWaitingTimeInfo_of_readings hinitialized hreadings] at h
  obtain ⟨result, hresult, -, requestInfo', hinfo', -, hin, hat⟩ := getWaitingTimeInfo_eq_ok h
  obtain rfl : requestInfo' = requestInfo := Option.some.inj (hinfo'.symm.trans hinfo)
  exact ⟨result, hresult, by rw [hat, hin, add_assoc]⟩

/-- With a table of frames to come, the estimate for an amount is not over. -/
theorem delay_nonneg_of_fresh (hfresh : ∀ row ∈ r.frameBalances.rows, r.currentFrame now < row.1)
    {state : BlockState} {amount : ℕ} {result : CalculateWaitingTimeV2Result}
    (h : r.calculateWithdrawalFrame now (r.amountArgs now state amount) = .ok result) :
    0 ≤ r.time.timeToWithdrawalFrame result.frame now := by
  by_contra hover
  have hnegative : r.time.timeToWithdrawalFrame result.frame
      (r.amountArgs now state amount).requestTimestamp < 0 := not_le.mp hover
  have hepoch : r.time.getCurrentEpoch (r.amountArgs now state amount).requestTimestamp ≤
      (r.amountArgs now state amount).latestEpoch := getCurrentEpoch_le_getMaxExitEpoch
  obtain ⟨row, hrow, hpast⟩ := exists_row_of_delay_neg (le_refl _) hepoch h hnegative
  have hahead := r.time.now_lt_reportTime_iff.mpr (hfresh row hrow)
  exact absurd hpast hahead.not_gt

/-- **Asked later, an amount is promised no earlier time**, up to the rounding to
seconds. -/
theorem finalizationAt_le_of_later {stores : Stores} (hreadings : stores.readings = .ok r)
    (h : now ≤ later) (hstarted : r.time.initialEpoch ≤ r.time.getCurrentEpoch now)
    (htable : r.frameBalances.ListedAscending)
    (hfresh : ∀ row ∈ r.frameBalances.rows, r.currentFrame now < row.1)
    {state : BlockState} {amount : ℕ} {first second : GetWaitingTimeInfoResult}
    {firstInfo secondInfo : CalculateTimeByIdRequestInfo}
    (hfirst : stores.getWaitingTimeInfo now state amount = .ok first)
    (hsecond : stores.getWaitingTimeInfo later state amount = .ok second)
    (hfirstInfo : first.requestInfo = some firstInfo)
    (hsecondInfo : second.requestInfo = some secondInfo) :
    firstInfo.finalizationAt ≤ secondInfo.finalizationAt + 1000 := by
  obtain ⟨firstResult, hfirstResult, hfirstAt⟩ :=
    exists_result_of_requestInfo hreadings hfirst hfirstInfo
  obtain ⟨secondResult, hsecondResult, hsecondAt⟩ :=
    exists_result_of_requestInfo hreadings hsecond hsecondInfo
  have hcounted : 0 ≤ r.currentFrame now := currentFrame_nonneg hstarted
  have hkeys (row : ℤ × ℤ) (hrow : row ∈ r.frameBalances.rows) : 0 < row.1 :=
    hcounted.trans_lt (hfresh row hrow)
  have hepoch : (r.amountArgs now state amount).latestEpoch ≤ r.getMaxExitEpoch later :=
    getMaxExitEpoch_mono h
  have hframe : firstResult.frame ≤ secondResult.frame :=
    frame_le_of_later h hstarted htable hkeys h hepoch hfirstResult hsecondResult
  have hreport := r.time.reportTime_le_iff.mpr hframe
  have hpromise := abs_le.mp
    (r.abs_promise_sub_reportTime_le (delay_nonneg_of_fresh hfresh hfirstResult))
  have hnotBefore := r.reportTime_le_promise_add secondResult.frame later
  omega

/-- Rewards of 900 ether per frame, and a known withdrawal in frame 701. -/
def freshTable : Readings :=
  { sampleReadings with frameBalances := Record.empty.set (.integer 701) (10 ^ 21) }

theorem freshTable_response {clock : ℤ} {info : GetWaitingTimeInfoResult}
    (h : freshTable.getWaitingTimeInfo clock ⟨0, 0, 0⟩ (10 ^ 19) = .ok info) :
    freshTable.toStores.getWaitingTimeInfo clock ⟨0, 0, 0⟩ (10 ^ 19) = .ok info := by
  rw [Stores.getWaitingTimeInfo_of_readings (freshTable.isInitialized_toStores (by decide))
    (freshTable.readings_toStores (by decide) (by decide))]
  exact h

/-- Ten ether, one hour before the report of frame 700 and one second after it. -/
theorem finalizationAt_le_of_later_freshTable :
    (⟨5400000, 1744720223000, none, none, .rewardsOnly⟩ :
        CalculateTimeByIdRequestInfo).finalizationAt ≤
      (⟨88199000, 1744806623000, none, none, .rewardsOnly⟩ :
        CalculateTimeByIdRequestInfo).finalizationAt + 1000 :=
  have hfirst : freshTable.getWaitingTimeInfo 1744714823000 ⟨0, 0, 0⟩ (10 ^ 19) =
      .ok ⟨some ⟨5400000, 1744720223000, none, none, .rewardsOnly⟩, .calculated, some 0⟩ := by
    decide
  have hsecond : freshTable.getWaitingTimeInfo 1744718424000 ⟨0, 0, 0⟩ (10 ^ 19) =
      .ok ⟨some ⟨88199000, 1744806623000, none, none, .rewardsOnly⟩, .calculated, some 0⟩ := by
    decide
  finalizationAt_le_of_later (freshTable.readings_toStores (by decide) (by decide)) (by decide)
    (by decide) (by decide) (by decide) (freshTable_response hfirst)
    (freshTable_response hsecond) rfl rfl

end Readings

end WithdrawalsApi
