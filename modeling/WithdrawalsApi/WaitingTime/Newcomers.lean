/-
# No newcomer overtakes the queue

An amount that is asked about stands behind the whole queue. At one clock it is
compared with a request that waits in the queue: the request asks for no more to
be released before it, it is older, and whichever of its three estimates it rests
on assumes exits that begin no later. So the request is promised its report
first, with one exception. A covered request that is too close to the next report
waits for the one after it; an amount that the buffer and the vaults do not cover
is not postponed, and its inflow may reach the next report.

The promise to an amount is rounded to whole seconds and the one to a request is
exact, so they are compared up to half a second.
-/

import WithdrawalsApi.WaitingTime.Fifo
import WithdrawalsApi.WaitingTime.LaterClock

namespace WithdrawalsApi

open Js Math

namespace Readings

variable {r : Readings} {now : ℤ} {state : BlockState} {request : WithdrawalRequest} {amount : ℕ}
  {settlement : Settlement} {frame : ℤ} {type : WaitingTimeCalculationType}

/-- The queued request waits for the report after the next one, and the inflow
reaches the next report with the amount. -/
def PostponesOnlyQueued (r : Readings) (now : ℤ) (state : BlockState)
    (request : WithdrawalRequest) (amount : ℕ) : Prop :=
  truthyFrame (r.getFrameIsBunker now) = none ∧
    r.RequestCovered state request ∧
    r.TooClose (request.timestamp * 1000) (r.gapAdjustedFrame now + 1) ∧
    ¬ (r.amountArgs now state amount).Covered ∧
    r.gapAdjustedFrame now + 1 ∈
      r.projectedReach now (r.amountArgs now state amount).deficit (r.getMaxExitEpoch now)

/-! ## What the request and the amount share -/

/-- What covers the amount covers the request. -/
theorem requestCovered_of_amount
    (hqueue : calculateUnfinalizedEthToRequestId r.requests request ≤ state.unfinalized)
    (hcovered : (r.amountArgs now state amount).Covered) : r.RequestCovered state request := by
  simp only [RequestCovered, CalculateWaitingTimeV2Args.Covered, requestArgs, amountArgs]
    at hcovered ⊢
  omega

theorem requestDeficit_le_amount
    (hqueue : calculateUnfinalizedEthToRequestId r.requests request ≤ state.unfinalized) :
    r.requestDeficit state request ≤ (r.amountArgs now state amount).deficit := by
  simp only [requestDeficit, CalculateWaitingTimeV2Args.deficit, requestArgs, amountArgs]
  omega

/-- A request of the past assumes exits that begin no later than today's. -/
theorem maxExitEpochInPast_le (hpast : (request.timestamp * 1000 : ℤ) ≤ now) :
    r.maxExitEpochInPast now request ≤ r.getMaxExitEpoch now := by
  have hepoch := r.time.getCurrentEpoch_mono hpast
  simp only [maxExitEpochInPast, getMaxExitEpoch, r.time.getEpochByTimestamp_eq, maxSeedLookahead]
  omega

/-- A request that was made at some epoch assumes exits that begin after it. -/
theorem getCurrentEpoch_le_maxExitEpochInPast :
    r.time.getCurrentEpoch (request.timestamp * 1000) ≤ r.maxExitEpochInPast now request := by
  simp only [maxExitEpochInPast, r.time.getEpochByTimestamp_eq, maxSeedLookahead]
  omega

/-! ## Reports to come -/

/-- A frame holds an epoch at least, so two reports are never promised for the
same second. -/
theorem second_lt_frameLength (time : GenesisTimeService) : 1000 < time.frameLength := by
  have := time.epochsPerFrame_pos
  simp only [GenesisTimeService.frameLength, secondsPerSlot, slotsPerEpoch]
  omega

/-- The report after the next one is not over. -/
theorem now_lt_reportTime_second (r : Readings) (now : ℤ) :
    now < r.time.reportTime (r.gapAdjustedFrame now + 2) := by
  have hbehind := r.currentFrame_le_gapAdjustedFrame_succ now
  exact r.time.now_lt_reportTime_iff.mpr (show r.currentFrame now < _ by omega)

/-- With a table of frames to come, an estimate for a request of the past is a
report that follows the request. -/
theorem timestamp_le_reportTime_of_fresh
    (hfresh : ∀ row ∈ r.frameBalances.rows, r.currentFrame now < row.1)
    (hpast : (request.timestamp * 1000 : ℤ) ≤ now) {latestEpoch : ℤ}
    (hepoch : r.time.getCurrentEpoch (request.timestamp * 1000) ≤ latestEpoch)
    {result : CalculateWaitingTimeV2Result}
    (h : r.calculateWithdrawalFrame now (r.requestArgs state request latestEpoch) = .ok result) :
    (request.timestamp * 1000 : ℤ) ≤ r.time.reportTime result.frame := by
  by_contra hover
  have hnegative : r.time.timeToWithdrawalFrame result.frame
      (r.requestArgs state request latestEpoch).requestTimestamp < 0 := by
    simp only [requestArgs, r.time.timeToWithdrawalFrame_of_seconds]
    omega
  have hmade : (r.requestArgs state request latestEpoch).requestTimestamp ≤ now := hpast
  obtain ⟨row, hrow, hbefore⟩ := exists_row_of_delay_neg hmade hepoch h hnegative
  have hahead : now < r.time.reportTime row.1 :=
    r.time.now_lt_reportTime_iff.mpr (hfresh row hrow)
  exact absurd (hbefore.trans_le hmade) hahead.not_gt

/-! ## The promise to the request -/

/-- A covered request is promised the next report, or the one after it. -/
theorem Settles.promisedAt_of_covered
    (h : r.Settles now state request settlement frame type)
    (hpast : (request.timestamp * 1000 : ℤ) ≤ now)
    (hbunker : truthyFrame (r.getFrameIsBunker now) = none)
    (hcovered : r.RequestCovered state request) :
    r.promisedAt request settlement frame = r.time.reportTime
      (if r.TooClose (request.timestamp * 1000) (r.gapAdjustedFrame now + 1)
        then r.gapAdjustedFrame now + 2 else r.gapAdjustedFrame now + 1) + gapAfterReport := by
  obtain ⟨first, hfirst⟩ := h.exists_firstEstimate
  rcases firstEstimate_of_covered hbunker hcovered hfirst with
    ⟨hclose, hframe⟩ | ⟨hkept, hframe, hexact⟩
  · obtain ⟨rfl, rfl⟩ := h.eq_firstEstimate hfirst (now_lt_of_next_le (by omega))
    have hsecond := r.now_lt_reportTime_second now
    rw [if_pos hclose, hframe]
    exact add_finalizationDelay_of_le (by omega)
  · obtain ⟨rfl, rfl⟩ := h.eq_firstEstimate hfirst (now_lt_of_next_le hframe.ge)
    rw [if_neg hkept, ← hframe]
    exact add_finalizationDelay_of_le hexact

/-- In bunker mode a request is promised the report of the bunker frame. -/
theorem Settles.promisedAt_of_bunker
    (h : r.Settles now state request settlement frame type)
    (hpast : (request.timestamp * 1000 : ℤ) ≤ now) {bunkerFrame : ℤ}
    (hbunker : truthyFrame (r.getFrameIsBunker now) = some bunkerFrame) :
    r.promisedAt request settlement frame = r.time.reportTime bunkerFrame + gapAfterReport := by
  have hfirst : r.firstEstimate now state request = .ok ⟨bunkerFrame, .bunker⟩ :=
    r.calculateWithdrawalFrame_of_bunker now hbunker
  have hahead : now < r.time.reportTime bunkerFrame := by
    refine r.time.now_lt_reportTime_iff.mpr ?_
    rw [r.frame_of_bunker now hbunker, withdrawalBunkerDelayFrames]
    exact lt_add_of_pos_right _ (by decide)
  obtain ⟨rfl, rfl⟩ := h.eq_firstEstimate hfirst (by
    simp only [gapAfterReport]
    omega)
  exact add_finalizationDelay_of_le (by omega)

/-- A request that is not covered is promised no later a report than an amount
for which as much or more has to come in. The cases are those of the request: an
estimate that it rests on is compared with the frame of the amount, and the next
report is the first that any inflow reaches. -/
theorem Settles.promisedAt_le_of_open
    (h : r.Settles now state request settlement frame type)
    (hindexed : r.frameBalances.ArrayIndexed)
    (hstarted : r.time.initialEpoch ≤ r.time.getCurrentEpoch now)
    (hfresh : ∀ row ∈ r.frameBalances.rows, r.currentFrame now < row.1)
    (hpast : (request.timestamp * 1000 : ℤ) ≤ now)
    (hbunker : truthyFrame (r.getFrameIsBunker now) = none)
    (hopen : ¬ r.RequestCovered state request) {deficit reached : ℤ}
    (hdeficit : r.requestDeficit state request ≤ deficit)
    (hreached : reached ∈ r.projectedReach now deficit (r.getMaxExitEpoch now)) :
    r.promisedAt request settlement frame ≤ r.time.reportTime reached + gapAfterReport := by
  have hargs (latestEpoch : ℤ) : ¬ (r.requestArgs state request latestEpoch).Covered := hopen
  have hnonneg : 0 ≤ r.requestDeficit state request :=
    CalculateWaitingTimeV2Args.deficit_nonneg (hargs 0)
  have hcounted : 0 ≤ r.currentFrame now := currentFrame_nonneg hstarted
  have hzero : ¬ r.EndsAtFrameZero now (r.requestDeficit state request) :=
    r.not_endsAtFrameZero now hnonneg hcounted fun row hrow => hcounted.trans_lt (hfresh row hrow)
  have hestimate {latestEpoch : ℤ} {result : CalculateWaitingTimeV2Result}
      (hmade : r.time.getCurrentEpoch (request.timestamp * 1000) ≤ latestEpoch)
      (hlatest : latestEpoch ≤ r.getMaxExitEpoch now)
      (hresult : r.calculateWithdrawalFrame now (r.requestArgs state request latestEpoch) =
        .ok result) :
      request.timestamp * 1000 + r.finalizationDelay request result.frame ≤
        r.time.reportTime reached + gapAfterReport := by
    have hleast := (r.isLeast_calculateWithdrawalFrame now hbunker (hargs _) hresult).2
    have hle : result.frame ≤ reached :=
      hleast (r.projectedReach_antitone now hindexed.rows_ascending hzero hdeficit hlatest hreached)
    have hreport := r.time.reportTime_le_iff.mpr hle
    rw [add_finalizationDelay_of_le (timestamp_le_reportTime_of_fresh hfresh hpast hmade hresult)]
    omega
  have hmadeToday : r.time.getCurrentEpoch (request.timestamp * 1000) ≤ r.getMaxExitEpoch now :=
    (r.time.getCurrentEpoch_mono hpast).trans getCurrentEpoch_le_getMaxExitEpoch
  cases h with
  | firstEstimate hfirst _ =>
      exact hestimate getCurrentEpoch_le_maxExitEpochInPast (maxExitEpochInPast_le hpast) hfirst
  | recalculation _ _ hsecond _ => exact hestimate hmadeToday le_rfl hsecond
  | nextReport _ _ _ _ =>
      have hahead := r.currentFrame_lt_of_mem_projectedReach now (hnonneg.trans hdeficit) hfresh
        getCurrentEpoch_le_getMaxExitEpoch hreached
      have hreport := r.time.reportTime_le_iff.mpr (Int.add_one_le_iff.mpr hahead)
      simp only [promisedAt]
      omega

/-! ## The report of the amount -/

variable {result : CalculateWaitingTimeV2Result}

/-- A covered amount is postponed when a covered request is. -/
theorem Settles.promisedAt_le_of_coveredAmount
    (h : r.Settles now state request settlement frame type)
    (hpast : (request.timestamp * 1000 : ℤ) ≤ now)
    (hbunker : truthyFrame (r.getFrameIsBunker now) = none)
    (hcovered : r.RequestCovered state request)
    (hamount : (r.amountArgs now state amount).Covered)
    (hresult : r.calculateWithdrawalFrame now (r.amountArgs now state amount) = .ok result) :
    r.promisedAt request settlement frame ≤
      r.time.reportTime result.frame + gapAfterReport := by
  rw [h.promisedAt_of_covered hpast hbunker hcovered,
    r.frame_of_covered now hbunker hamount hresult]
  simp only [r.isRequestShouldBePostponed_iff]
  refine add_le_add (r.time.reportTime_le_iff.mpr ?_) le_rfl
  by_cases hclose : r.TooClose (request.timestamp * 1000) (r.gapAdjustedFrame now + 1)
  · have hamountClose : r.TooClose (r.amountArgs now state amount).requestTimestamp
        (r.gapAdjustedFrame now + 1) := hclose.later r hpast
    rw [if_pos hclose, if_pos hamountClose]
  · rw [if_neg hclose]
    split_ifs <;> omega

/-- An amount that is not covered may reach the next report without a covered
request that is postponed; it then precedes the request by one frame. -/
theorem Settles.promisedAt_of_openAmount
    (h : r.Settles now state request settlement frame type)
    (hfresh : ∀ row ∈ r.frameBalances.rows, r.currentFrame now < row.1)
    (hpast : (request.timestamp * 1000 : ℤ) ≤ now)
    (hbunker : truthyFrame (r.getFrameIsBunker now) = none)
    (hcovered : r.RequestCovered state request)
    (hamount : ¬ (r.amountArgs now state amount).Covered)
    (hresult : r.calculateWithdrawalFrame now (r.amountArgs now state amount) = .ok result) :
    r.promisedAt request settlement frame =
        r.time.reportTime (result.frame + 1) + gapAfterReport ∧
        r.PostponesOnlyQueued now state request amount ∨
      r.promisedAt request settlement frame ≤
        r.time.reportTime result.frame + gapAfterReport ∧
        ¬ r.PostponesOnlyQueued now state request amount := by
  have hdeficit := CalculateWaitingTimeV2Args.deficit_nonneg hamount
  obtain ⟨hreached, hleast⟩ := r.isLeast_calculateWithdrawalFrame now hbunker hamount hresult
  have hahead : r.currentFrame now < result.frame :=
    r.currentFrame_lt_of_mem_projectedReach now hdeficit hfresh
      getCurrentEpoch_le_getMaxExitEpoch hreached
  have hgap := r.gapAdjustedFrame_le_currentFrame now
  rw [h.promisedAt_of_covered hpast hbunker hcovered]
  by_cases hclose : r.TooClose (request.timestamp * 1000) (r.gapAdjustedFrame now + 1)
  · rw [if_pos hclose]
    by_cases hnext : result.frame = r.gapAdjustedFrame now + 1
    · refine Or.inl ⟨by rw [hnext, add_assoc]; rfl, hbunker, hcovered, hclose, hamount, ?_⟩
      exact hnext ▸ hreached
    · refine Or.inr ⟨add_le_add (r.time.reportTime_le_iff.mpr (by omega)) le_rfl, ?_⟩
      intro hpostponed
      have hle := hleast hpostponed.2.2.2.2
      omega
  · rw [if_neg hclose]
    refine Or.inr ⟨add_le_add (r.time.reportTime_le_iff.mpr (by omega)) le_rfl, ?_⟩
    exact fun hpostponed => hclose hpostponed.2.2.1

/-- The report of an amount, and which of the two precedes the other. -/
theorem Settles.promisedAt_cases
    (h : r.Settles now state request settlement frame type)
    (hindexed : r.frameBalances.ArrayIndexed)
    (hstarted : r.time.initialEpoch ≤ r.time.getCurrentEpoch now)
    (hfresh : ∀ row ∈ r.frameBalances.rows, r.currentFrame now < row.1)
    (hpast : (request.timestamp * 1000 : ℤ) ≤ now)
    (hqueue : calculateUnfinalizedEthToRequestId r.requests request ≤ state.unfinalized)
    (hresult : r.calculateWithdrawalFrame now (r.amountArgs now state amount) = .ok result) :
    r.promisedAt request settlement frame =
        r.time.reportTime (result.frame + 1) + gapAfterReport ∧
        r.PostponesOnlyQueued now state request amount ∨
      r.promisedAt request settlement frame ≤
        r.time.reportTime result.frame + gapAfterReport ∧
        ¬ r.PostponesOnlyQueued now state request amount := by
  cases hbunker : truthyFrame (r.getFrameIsBunker now) with
  | some bunkerFrame =>
      rw [r.calculateWithdrawalFrame_of_bunker now hbunker] at hresult
      cases hresult
      refine Or.inr ⟨(h.promisedAt_of_bunker hpast hbunker).le, fun hpostponed => ?_⟩
      have hturbo := hpostponed.1
      rw [hbunker] at hturbo
      cases hturbo
  | none =>
      by_cases hamount : (r.amountArgs now state amount).Covered
      · refine Or.inr ⟨?_, fun hpostponed => hpostponed.2.2.2.1 hamount⟩
        exact h.promisedAt_le_of_coveredAmount hpast hbunker
          (requestCovered_of_amount hqueue hamount) hamount hresult
      · by_cases hcovered : r.RequestCovered state request
        · exact h.promisedAt_of_openAmount hfresh hpast hbunker hcovered hamount hresult
        · have hreached := (r.isLeast_calculateWithdrawalFrame now hbunker hamount hresult).1
          refine Or.inr ⟨?_, fun hpostponed => hcovered hpostponed.2.1⟩
          exact h.promisedAt_le_of_open hindexed hstarted hfresh hpast hbunker hcovered
            (requestDeficit_le_amount hqueue) hreached

/-! ## The two responses -/

/-- A response for a request of the queue carries the time that its settlement
promises. -/
theorem exists_settlement_of_calculated {stores : Stores} (hreadings : stores.readings = .ok r)
    (hqueue : InQueueOrder r.requests) (hmem : request ∈ r.requests)
    {info : GetWaitingTimeInfoResult} {requestInfo : CalculateTimeByIdRequestInfo}
    (h : stores.getWaitingTimeInfoById now state request.id = .ok info)
    (hcalculated : info.status = .calculated) (hinfo : info.requestInfo = some requestInfo) :
    ∃ settlement frame type, r.Settles now state request settlement frame type ∧
      requestInfo.finalizationAt = r.promisedAt request settlement frame := by
  obtain ⟨-, r', hr', hresponse⟩ := Stores.getWaitingTimeInfoById_eq_ok h hcalculated
  obtain rfl : r = r' := by simpa [hreadings] using hr'
  obtain ⟨found, hfound, hsame, hestimate⟩ := exists_request_of_calculated hresponse hcalculated
  obtain rfl := hqueue.eq_of_id_eq hfound hmem hsame
  obtain ⟨settlement, frame, type, hsettles, -, hpromise⟩ := estimateRequest_eq_ok hestimate
  rw [hinfo, Option.some.injEq] at hpromise
  exact ⟨settlement, frame, type, hsettles, by rw [hpromise]⟩

/-- **No newcomer overtakes the queue**, except past a covered request that alone
is postponed. -/
theorem finalizationAt_le_newcomer_iff {stores : Stores} (hreadings : stores.readings = .ok r)
    (hstarted : r.time.initialEpoch ≤ r.time.getCurrentEpoch now)
    (hindexed : r.frameBalances.ArrayIndexed)
    (hfresh : ∀ row ∈ r.frameBalances.rows, r.currentFrame now < row.1)
    (horder : InQueueOrder r.requests) (hmem : request ∈ r.requests)
    (hpast : (request.timestamp * 1000 : ℤ) ≤ now)
    (hqueue : calculateUnfinalizedEthToRequestId r.requests request ≤ state.unfinalized)
    {queued newcomer : GetWaitingTimeInfoResult}
    {queuedInfo newcomerInfo : CalculateTimeByIdRequestInfo}
    (hqueued : stores.getWaitingTimeInfoById now state request.id = .ok queued)
    (hcalculated : queued.status = .calculated)
    (hqueuedInfo : queued.requestInfo = some queuedInfo)
    (hnewcomer : stores.getWaitingTimeInfo now state amount = .ok newcomer)
    (hnewcomerInfo : newcomer.requestInfo = some newcomerInfo) :
    queuedInfo.finalizationAt ≤ newcomerInfo.finalizationAt + 500 ↔
      ¬ r.PostponesOnlyQueued now state request amount := by
  obtain ⟨settlement, frame, type, hsettles, hqueuedAt⟩ :=
    exists_settlement_of_calculated hreadings horder hmem hqueued hcalculated hqueuedInfo
  obtain ⟨result, hresult, hnewcomerAt⟩ :=
    exists_result_of_requestInfo hreadings hnewcomer hnewcomerInfo
  have hpromise := abs_le.mp
    (r.abs_promise_sub_reportTime_le (delay_nonneg_of_fresh hfresh hresult))
  rcases hsettles.promisedAt_cases hindexed hstarted hfresh hpast hqueue hresult with
    ⟨hafter, hpostponed⟩ | ⟨hbefore, hnotPostponed⟩
  · have hlength := second_lt_frameLength r.time
    rw [r.time.reportTime_succ] at hafter
    refine iff_of_false (fun hle => ?_) (not_not.mpr hpostponed)
    omega
  · exact iff_of_true (by omega) hnotPostponed

/-- A request for ten ether, one hour before the report of frame 700. -/
def lateRequest : WithdrawalRequest where
  id := 7
  amountOfStETH := 10 ^ 19
  timestamp := 1744714823

/-- Its queue. -/
def lateQueue : Readings :=
  { freshTable with requests := [lateRequest], lastRequestId := 7 }

/-- A buffer of eleven ether covers the request, which waits for frame 701, but
not five ether more, which the rewards reach at frame 700. -/
theorem finalizationAt_le_newcomer_iff_lateQueue :
    (⟨91799000, 1744806623000, some 7, some 1744714823000, .requestTimestampMargin⟩ :
        CalculateTimeByIdRequestInfo).finalizationAt ≤
      (⟨5399000, 1744720223000, none, none, .rewardsOnly⟩ :
        CalculateTimeByIdRequestInfo).finalizationAt + 500 ↔
      ¬ lateQueue.PostponesOnlyQueued 1744714824000 ⟨10 ^ 19, 11 * 10 ^ 18, 0⟩ lateRequest
        (5 * 10 ^ 18) := by
  have hinitialized := lateQueue.isInitialized_toStores (by decide)
  have hreadings := lateQueue.readings_toStores (by decide) (by decide)
  have hqueued : lateQueue.toStores.getWaitingTimeInfoById 1744714824000
      ⟨10 ^ 19, 11 * 10 ^ 18, 0⟩ lateRequest.id = .ok ⟨some ⟨91799000, 1744806623000, some 7,
        some 1744714823000, .requestTimestampMargin⟩, .calculated, some 0⟩ := by
    rw [Stores.getWaitingTimeInfoById_of_readings hinitialized hreadings]
    decide +kernel
  have hnewcomer : lateQueue.toStores.getWaitingTimeInfo 1744714824000
      ⟨10 ^ 19, 11 * 10 ^ 18, 0⟩ (5 * 10 ^ 18) = .ok ⟨some ⟨5399000, 1744720223000, none, none,
        .rewardsOnly⟩, .calculated, some 0⟩ := by
    rw [Stores.getWaitingTimeInfo_of_readings hinitialized hreadings]
    decide +kernel
  exact finalizationAt_le_newcomer_iff hreadings (by decide) (by decide) (by decide) (by decide)
    (by decide) (by decide) (by decide) hqueued rfl rfl hnewcomer rfl

end Readings

end WithdrawalsApi
