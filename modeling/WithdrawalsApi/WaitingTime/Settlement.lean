/-
# How the estimate for a queued request is settled

A queued request gets up to three estimates. The first assumes the exit epoch of
the time of the request; when it ends before the clock, a second one assumes
today's; when that one ends before the clock as well, the next report is taken.
`Settles` says which of them a response rests on.

What a response promises follows from the three cases: it never lies in the
past, and it is a report's reference time plus the gap, unless five days have
been substituted for a negative delay. That substitution needs a frame whose
report precedes the request, and only the table of known withdrawals can hold
one.
-/

import WithdrawalsApi.WaitingTime.Inflow
import WithdrawalsApi.WaitingTime.Classification
import WithdrawalsApi.WaitingTime.NextReport

namespace WithdrawalsApi

open Js Math

/-- The estimate a response rests on. -/
inductive Settlement
  | firstEstimate
  | recalculation
  | nextReport
  deriving DecidableEq, Repr

namespace Readings

variable (r : Readings) (now : ℤ) (state : BlockState) (request : WithdrawalRequest)

/-- The estimate with the exit epoch of the time of the request. -/
def firstEstimate : Outcome CalculateWaitingTimeV2Result :=
  r.calculateWithdrawalFrame now (r.requestArgs state request (r.maxExitEpochInPast now request))

/-- The estimate with the exit epoch of today. -/
def recalculation : Outcome CalculateWaitingTimeV2Result :=
  r.calculateWithdrawalFrame now (r.requestArgs state request (r.getMaxExitEpoch now))

/-- Whether a frame gives a request a delay that ends before the clock. -/
def FrameInPast (frame : ℤ) : Prop :=
  request.timestamp * 1000 + r.finalizationDelay request frame < now

instance (frame : ℤ) : Decidable (r.FrameInPast now request frame) :=
  inferInstanceAs (Decidable (_ < _))

/-- A response for a request rests on an estimate, a frame and a type. -/
inductive Settles : Settlement → ℤ → WaitingTimeCalculationType → Prop
  | firstEstimate {first : CalculateWaitingTimeV2Result}
      (hfirst : r.firstEstimate now state request = .ok first)
      (hpresent : ¬ r.FrameInPast now request first.frame) :
      Settles .firstEstimate first.frame first.type
  | recalculation {first second : CalculateWaitingTimeV2Result}
      (hfirst : r.firstEstimate now state request = .ok first)
      (hpast : r.FrameInPast now request first.frame)
      (hsecond : r.recalculation now state request = .ok second)
      (hpresent : ¬ r.FrameInPast now request second.frame) :
      Settles .recalculation second.frame second.type
  | nextReport {first second : CalculateWaitingTimeV2Result}
      (hfirst : r.firstEstimate now state request = .ok first)
      (hpast : r.FrameInPast now request first.frame)
      (hsecond : r.recalculation now state request = .ok second)
      (hstillPast : r.FrameInPast now request second.frame) :
      Settles .nextReport (r.currentFrame now + 1) second.type

/-- The time promised for a frame. Only an estimate may be replaced by five days. -/
def promisedAt : Settlement → ℤ → ℤ
  | .firstEstimate, frame => request.timestamp * 1000 + r.finalizationDelay request frame
  | .recalculation, frame => request.timestamp * 1000 + r.finalizationDelay request frame
  | .nextReport, frame => r.time.reportTime frame + gapAfterReport

variable {r now state request}

/-! ## Delays in terms of report times -/

/-- A delay that is not replaced ends at the report, and the gap. -/
theorem add_finalizationDelay_of_le {frame : ℤ}
    (h : (request.timestamp * 1000 : ℤ) ≤ r.time.reportTime frame) :
    request.timestamp * 1000 + r.finalizationDelay request frame =
      r.time.reportTime frame + gapAfterReport := by
  simp only [finalizationDelay, validateTimeResponseWithFallback,
    r.time.timeToWithdrawalFrame_of_seconds]
  rw [if_neg (by omega)]
  omega

/-- A delay to a report before the request is replaced by five days. -/
theorem add_finalizationDelay_of_lt {frame : ℤ}
    (h : r.time.reportTime frame < request.timestamp * 1000) :
    request.timestamp * 1000 + r.finalizationDelay request frame =
      request.timestamp * 1000 + 5 * 3600 * 24 * 1000 + gapAfterReport := by
  simp only [finalizationDelay, validateTimeResponseWithFallback,
    r.time.timeToWithdrawalFrame_of_seconds]
  rw [if_pos (by omega), add_assoc]

theorem isInPast_iff {frame : ℤ} :
    isInPast now request (r.finalizationDelay request frame) = true ↔
      r.FrameInPast now request frame := by
  simp only [isInPast, FrameInPast, decide_eq_true_eq]
  omega

/-! ## Inversion -/

theorem checkInPastCase_eq_ok {first : CalculateWaitingTimeV2Result}
    {settled : CheckInPastCaseResult} (hfirst : r.firstEstimate now state request = .ok first)
    (h : r.checkInPastCase now state request first = .ok settled) :
    ∃ settlement frame, r.Settles now state request settlement frame settled.type ∧
      request.timestamp * 1000 + settled.finalizationIn =
        r.promisedAt request settlement frame := by
  simp only [checkInPastCase, Outcome.bind_eq_ok] at h
  obtain ⟨_, -, h⟩ := h
  split at h
  case isTrue hpast =>
    rw [isInPast_iff] at hpast
    simp only [Outcome.bind_eq_ok, Outcome.pure_eq_ok] at h
    obtain ⟨second, hsecond, _, rfl, h⟩ := h
    split at h
    case isTrue hstillPast =>
      rw [isInPast_iff] at hstillPast
      obtain rfl := Outcome.pure_eq_ok.mp h
      refine ⟨.nextReport, _, .nextReport hfirst hpast hsecond hstillPast, ?_⟩
      simp only [promisedAt, r.time.timeToWithdrawalFrame_of_seconds]
      omega
    case isFalse hpresent =>
      rw [isInPast_iff] at hpresent
      obtain rfl := Outcome.pure_eq_ok.mp h
      exact ⟨.recalculation, _, .recalculation hfirst hpast hsecond hpresent, rfl⟩
  case isFalse hpresent =>
    simp only [Outcome.bind_eq_ok, Outcome.pure_eq_ok, exists_eq_left', if_neg hpresent] at h
    subst h
    rw [isInPast_iff] at hpresent
    exact ⟨.firstEstimate, _, .firstEstimate hfirst hpresent, rfl⟩

/-- The correction of an estimate returns unless it needs a second one that does not. -/
theorem exists_checkInPastCase_iff {first : CalculateWaitingTimeV2Result} :
    (∃ settled, r.checkInPastCase now state request first = .ok settled) ↔
      IsSafeInteger request.timestamp ∧ (r.FrameInPast now request first.frame →
        ∃ second, r.recalculation now state request = .ok second) := by
  constructor
  · rintro ⟨settled, hsettled⟩
    simp only [checkInPastCase, Outcome.bind_eq_ok, BigNumber.toNumber_eq_ok] at hsettled
    obtain ⟨_, ⟨hsafe, rfl⟩, hsettled⟩ := hsettled
    refine ⟨hsafe, fun hpast => ?_⟩
    rw [if_pos (isInPast_iff.mpr hpast)] at hsettled
    obtain ⟨second, hsecond, -⟩ := Outcome.bind_eq_ok.mp hsettled
    exact ⟨second, hsecond⟩
  · rintro ⟨hsafe, hrecalculation⟩
    have htimestamp : BigNumber.toNumber request.timestamp = .ok (request.timestamp : ℤ) :=
      BigNumber.toNumber_eq_ok.mpr ⟨hsafe, rfl⟩
    simp only [checkInPastCase, htimestamp, Outcome.ok_bind]
    by_cases hpast : r.FrameInPast now request first.frame
    · obtain ⟨second, hsecond⟩ := hrecalculation hpast
      unfold recalculation at hsecond
      simp only [if_pos (isInPast_iff.mpr hpast), hsecond, Outcome.bind_eq_ok,
        Outcome.pure_eq_ok, exists_eq_left', Except.ok.injEq]
      split <;> exact ⟨_, rfl⟩
    · have hpresent := mt isInPast_iff.mp hpast
      simp only [if_neg hpresent, Outcome.bind_eq_ok, Outcome.pure_eq_ok, exists_eq_left']
      exact ⟨_, rfl⟩

/-- A response for a queued request carries the time that its settlement promises. -/
theorem estimateRequest_eq_ok {info : GetWaitingTimeInfoResult}
    (h : r.estimateRequest now state request = .ok info) :
    ∃ settlement frame type, r.Settles now state request settlement frame type ∧
      info.status = .calculated ∧
      info.requestInfo = some {
        requestId := some request.id
        requestedAt := some (request.timestamp * 1000)
        finalizationIn := r.promisedAt request settlement frame - now
        finalizationAt := r.promisedAt request settlement frame
        type := type } := by
  simp only [estimateRequest, Outcome.bind_eq_ok, BigNumber.toNumber_eq_ok, toISOString_eq_ok,
    Outcome.pure_eq_ok] at h
  obtain ⟨_, ⟨-, rfl⟩, first, hfirst, settled, hsettled, _, ⟨-, rfl⟩, _, ⟨-, rfl⟩, rfl⟩ := h
  obtain ⟨settlement, frame, hsettles, hpromised⟩ := checkInPastCase_eq_ok hfirst hsettled
  exact ⟨settlement, frame, settled.type, hsettles, rfl, by rw [hpromised]⟩

/-! ## Never in the past -/

theorem Settles.now_le_promisedAt {settlement : Settlement} {frame : ℤ}
    {type : WaitingTimeCalculationType}
    (h : r.Settles now state request settlement frame type) :
    now ≤ r.promisedAt request settlement frame := by
  cases h with
  | firstEstimate hfirst hpresent => exact not_lt.mp hpresent
  | recalculation hfirst hpast hsecond hpresent => exact not_lt.mp hpresent
  | nextReport hfirst hpast hsecond hstillPast =>
      have hnext := r.now_lt_reportTime_currentFrame_succ now
      simp only [promisedAt, gapAfterReport]
      omega

/-- **No response promises a time in the past.** -/
theorem now_le_finalizationAt {stores : Stores} {requestId : ℕ} {info : GetWaitingTimeInfoResult}
    (h : stores.getWaitingTimeInfoById now state requestId = .ok info)
    (hcalculated : info.status = .calculated) :
    ∃ requestInfo, info.requestInfo = some requestInfo ∧ 0 ≤ requestInfo.finalizationIn ∧
      now ≤ requestInfo.finalizationAt := by
  obtain ⟨-, r, -, hresponse⟩ := Stores.getWaitingTimeInfoById_eq_ok h hcalculated
  obtain ⟨request, -, -, hestimate⟩ := exists_request_of_calculated hresponse hcalculated
  obtain ⟨settlement, frame, type, hsettles, -, hinfo⟩ := estimateRequest_eq_ok hestimate
  have hpromised := hsettles.now_le_promisedAt
  exact ⟨_, hinfo, by simpa using hpromised, hpromised⟩

/-- A queue of one request, made one hour before the report of frame 700, and a
table that has kept frame 695. -/
def staleTable : Readings :=
  { sampleReadings with
    frameBalances := Record.empty.set (.integer 695) (10 ^ 21)
    requests := [⟨7, 10 ^ 19, 1744714823⟩]
    lastRequestId := 7 }

theorem staleTable_response :
    staleTable.toStores.getWaitingTimeInfoById 1744714823000 ⟨0, 0, 0⟩ 7 =
      .ok ⟨some ⟨433800000, 1745148623000, some 7, some 1744714823000, .validatorBalances⟩,
        .calculated, some 0⟩ := by
  rw [Stores.getWaitingTimeInfoById_of_readings (staleTable.isInitialized_toStores (by decide))
    (staleTable.readings_toStores (by decide) (by decide))]
  decide

theorem now_le_finalizationAt_staleTable :
    ∃ requestInfo, some (⟨433800000, 1745148623000, some 7, some 1744714823000,
        .validatorBalances⟩ : CalculateTimeByIdRequestInfo) = some requestInfo ∧
      0 ≤ requestInfo.finalizationIn ∧ 1744714823000 ≤ requestInfo.finalizationAt := by
  have hpresent := now_le_finalizationAt staleTable_response rfl
  exact hpresent

/-! ## Every promise is a report -/

/-- A request from the past whose delay is negative is promised to a frame that
the table holds. -/
theorem exists_row_of_delay_neg {args : CalculateWaitingTimeV2Args}
    {result : CalculateWaitingTimeV2Result} (hnow : args.requestTimestamp ≤ now)
    (hepoch : r.time.getCurrentEpoch args.requestTimestamp ≤ args.latestEpoch)
    (h : r.calculateWithdrawalFrame now args = .ok result)
    (hnegative : r.time.timeToWithdrawalFrame result.frame args.requestTimestamp < 0) :
    ∃ row ∈ r.frameBalances.rows, r.time.reportTime row.1 < args.requestTimestamp := by
  have hpast := r.time.reportTime_lt_of_delay_neg hnegative
  have hover : result.frame ≤ r.currentFrame now := by
    by_contra hlt
    have := r.time.now_lt_reportTime_iff.mpr (not_le.mp hlt)
    omega
  cases hbunker : truthyFrame (r.getFrameIsBunker now) with
  | some frame =>
      rw [r.calculateWithdrawalFrame_of_bunker now hbunker] at h
      cases h
      have hframe := r.frame_of_bunker now hbunker
      simp only [hframe, withdrawalBunkerDelayFrames] at hover
      omega
  | none =>
      have hgap := r.currentFrame_le_gapAdjustedFrame_succ now
      by_cases hcovered : args.Covered
      · have hframe := r.frame_of_covered now hbunker hcovered h
        split at hframe
        case isTrue => omega
        case isFalse hkept =>
          rw [r.isRequestShouldBePostponed_iff now, ← hframe] at hkept
          exact absurd (hnegative.trans_le r.requestTimestampMargin.toMs_nonneg) hkept
      · have hdeficit := CalculateWaitingTimeV2Args.deficit_nonneg hcovered
        obtain ⟨hmem, hleast⟩ := r.isLeast_calculateWithdrawalFrame now hbunker hcovered h
        rcases hmem with htable | hrewards | hexits
        · obtain ⟨row, hrow, hle⟩ :=
            exists_release_le_of_mem_stopped (discardLeast_subset _ _ htable)
          exact ⟨row, hrow, (r.time.reportTime_le_iff.mpr hle).trans_lt hpast⟩
        · have := r.currentFrame_lt_of_mem_rewardsReach now hdeficit
            (discardLeast_subset _ _ hrewards)
          omega
        · have hreference := r.latestEpoch_lt_of_mem_exitReach hdeficit hexits
          have hafter := r.time.now_lt_reportTime_iff.mpr
            (r.time.getFrameOfEpoch_lt_iff.mpr (hepoch.trans_lt hreference))
          omega

/-- Five days have been substituted for a negative delay. A request from the past
suffers that only when the table holds a frame whose report precedes it. -/
def FiveDaysSubstituted (r : Readings) (now requestTimestamp promised : ℤ) : Prop :=
  promised = requestTimestamp + 5 * 3600 * 24 * 1000 + gapAfterReport ∧
    (requestTimestamp ≤ now →
      ∃ row ∈ r.frameBalances.rows, r.time.reportTime row.1 < requestTimestamp)

/-- An estimate for a queued request promises a report or substitutes five days. -/
theorem promised_of_estimate {latestEpoch : ℤ} {result : CalculateWaitingTimeV2Result}
    (hepoch : request.timestamp * 1000 ≤ now →
      r.time.getCurrentEpoch (request.timestamp * 1000) ≤ latestEpoch)
    (h : r.calculateWithdrawalFrame now (r.requestArgs state request latestEpoch) = .ok result) :
    (∃ frame, request.timestamp * 1000 + r.finalizationDelay request result.frame =
        r.time.reportTime frame + gapAfterReport) ∨
      r.FiveDaysSubstituted now (request.timestamp * 1000)
        (request.timestamp * 1000 + r.finalizationDelay request result.frame) := by
  rcases le_or_gt (request.timestamp * 1000 : ℤ) (r.time.reportTime result.frame) with hle | hlt
  · exact Or.inl ⟨result.frame, add_finalizationDelay_of_le hle⟩
  · refine Or.inr ⟨add_finalizationDelay_of_lt hlt, fun hnow => ?_⟩
    refine exists_row_of_delay_neg hnow (hepoch hnow) h ?_
    change r.time.timeToWithdrawalFrame result.frame (request.timestamp * 1000) < 0
    rw [r.time.timeToWithdrawalFrame_of_seconds]
    omega

theorem Settles.promised {settlement : Settlement} {frame : ℤ}
    {type : WaitingTimeCalculationType}
    (h : r.Settles now state request settlement frame type) :
    (∃ frame', r.promisedAt request settlement frame = r.time.reportTime frame' + gapAfterReport) ∨
      r.FiveDaysSubstituted now (request.timestamp * 1000)
        (r.promisedAt request settlement frame) := by
  cases h with
  | firstEstimate hfirst hpresent =>
      refine promised_of_estimate (fun _ => ?_) hfirst
      rw [maxExitEpochInPast, r.time.getEpochByTimestamp_eq]
      simp only [maxSeedLookahead]
      omega
  | recalculation hfirst hpast hsecond hpresent =>
      refine promised_of_estimate (fun hnow => ?_) hsecond
      exact (r.time.getCurrentEpoch_mono hnow).trans getCurrentEpoch_le_getMaxExitEpoch
  | nextReport hfirst hpast hsecond hstillPast => exact Or.inl ⟨_, rfl⟩

/-- **Every promise is a report, unless five days have been substituted.** For a
queued request the report time is exact, for an amount it is rounded to
seconds. -/
theorem promise_isReport {stores : Stores} {r : Readings} (hreadings : stores.readings = .ok r)
    (now : ℤ) (state : BlockState) :
    (∀ requestId info, stores.getWaitingTimeInfoById now state requestId = .ok info →
      info.status = .calculated →
      ∃ request ∈ r.requests, request.id = requestId ∧
        ∃ requestInfo, info.requestInfo = some requestInfo ∧
          ((∃ frame, requestInfo.finalizationAt - gapAfterReport = r.time.reportTime frame) ∨
            r.FiveDaysSubstituted now (request.timestamp * 1000) requestInfo.finalizationAt)) ∧
    (∀ amount info, stores.getWaitingTimeInfo now state amount = .ok info →
      info.status = .calculated →
      ∃ requestInfo, info.requestInfo = some requestInfo ∧
        ((∃ frame,
            |requestInfo.finalizationAt - gapAfterReport - r.time.reportTime frame| ≤ 500) ∨
          r.FiveDaysSubstituted now now requestInfo.finalizationAt)) := by
  constructor
  · intro requestId info h hcalculated
    obtain ⟨-, r', hr', hresponse⟩ := Stores.getWaitingTimeInfoById_eq_ok h hcalculated
    obtain rfl : r = r' := by simpa [hreadings] using hr'
    obtain ⟨request, hmem, hid, hestimate⟩ := exists_request_of_calculated hresponse hcalculated
    obtain ⟨settlement, frame, type, hsettles, -, hinfo⟩ := estimateRequest_eq_ok hestimate
    refine ⟨request, hmem, hid, _, hinfo, ?_⟩
    rcases hsettles.promised with ⟨frame', hreport⟩ | hsubstituted
    · exact Or.inl ⟨frame', sub_eq_of_eq_add hreport⟩
    · exact Or.inr hsubstituted
  · intro amount info h hcalculated
    obtain ⟨-, r', hr', hresponse⟩ := Stores.getWaitingTimeInfo_eq_ok h hcalculated
    obtain rfl : r = r' := by simpa [hreadings] using hr'
    obtain ⟨result, hresult, -, requestInfo, hinfo, -, hin, hat⟩ :=
      getWaitingTimeInfo_eq_ok hresponse
    have hepoch : r.time.getCurrentEpoch (r.amountArgs now state amount).requestTimestamp ≤
        (r.amountArgs now state amount).latestEpoch := getCurrentEpoch_le_getMaxExitEpoch
    refine ⟨requestInfo, hinfo, ?_⟩
    rw [hat, hin]
    by_cases hnegative : r.time.timeToWithdrawalFrame result.frame now < 0
    · refine Or.inr ⟨?_, fun _ => ?_⟩
      · rw [validateTimeResponseWithFallback, if_pos hnegative, add_assoc]
      · have hrow := exists_row_of_delay_neg (le_refl _) hepoch hresult hnegative
        exact hrow
    · refine Or.inl ⟨result.frame, ?_⟩
      have hrounded := r.time.abs_timeToWithdrawalFrame_sub_le result.frame now
      rw [validateTimeResponseWithFallback, if_neg hnegative]
      convert hrounded using 2
      ring

theorem promise_isReport_staleTable :
    (∀ requestId info,
      staleTable.toStores.getWaitingTimeInfoById 1744714823000 ⟨0, 0, 0⟩ requestId = .ok info →
      info.status = .calculated →
      ∃ request ∈ staleTable.requests, request.id = requestId ∧
        ∃ requestInfo, info.requestInfo = some requestInfo ∧
          ((∃ frame, requestInfo.finalizationAt - gapAfterReport =
              staleTable.time.reportTime frame) ∨
            staleTable.FiveDaysSubstituted 1744714823000 (request.timestamp * 1000)
              requestInfo.finalizationAt)) ∧
    (∀ amount info,
      staleTable.toStores.getWaitingTimeInfo 1744714823000 ⟨0, 0, 0⟩ amount = .ok info →
      info.status = .calculated →
      ∃ requestInfo, info.requestInfo = some requestInfo ∧
        ((∃ frame, |requestInfo.finalizationAt - gapAfterReport -
            staleTable.time.reportTime frame| ≤ 500) ∨
          staleTable.FiveDaysSubstituted 1744714823000 1744714823000
            requestInfo.finalizationAt)) :=
  promise_isReport (staleTable.readings_toStores (by decide) (by decide)) 1744714823000 ⟨0, 0, 0⟩

/-- The table covers the request with the balance of frame 695, the delay to its
report is negative, and the promise of five days is no report. -/
theorem promise_not_always_report :
    ¬ ∀ (stores : Stores) (r : Readings) (now : ℤ) (state : BlockState),
      stores.isInitialized = true → stores.readings = .ok r →
      (∀ requestId info requestInfo,
        stores.getWaitingTimeInfoById now state requestId = .ok info →
        info.status = .calculated → info.requestInfo = some requestInfo →
        ∃ frame, requestInfo.finalizationAt - gapAfterReport = r.time.reportTime frame) ∧
      (∀ amount info requestInfo, stores.getWaitingTimeInfo now state amount = .ok info →
        info.status = .calculated → info.requestInfo = some requestInfo →
        ∃ frame, |requestInfo.finalizationAt - gapAfterReport - r.time.reportTime frame| ≤
          1000) := by
  intro hreport
  obtain ⟨frame, hframe⟩ := (hreport staleTable.toStores staleTable 1744714823000 ⟨0, 0, 0⟩
    (staleTable.isInitialized_toStores (by decide))
    (staleTable.readings_toStores (by decide) (by decide))).1 7 _ _ staleTable_response rfl rfl
  simp only [gapAfterReport, GenesisTimeService.reportTime, staleTable, sampleReadings,
    secondsPerSlot, slotsPerEpoch] at hframe
  omega

end Readings

end WithdrawalsApi
