/-
# The status of every request id

A caller of `getWaitingTimeInfoById` expects one of three statuses, by the place of
the id relative to the queue. Two things stand in the way. The last id of an empty
queue is missed by the check for finalized ids. And the statuses of queued and of
future ids come with an estimate, so they are returned only when the estimate is:
when what it converts and divides by allows it, and when the time that it promises
is one that a `Date` can hold.
-/

import WithdrawalsApi.WaitingTime.NearestReport
import WithdrawalsApi.WaitingTime.Settlement

namespace WithdrawalsApi

open Js Math

namespace Readings

variable (r : Readings) (now : ℤ) (state : BlockState) (request : WithdrawalRequest)

/-! ## The reports that estimates promise -/

/-- The report that an estimate promises. -/
inductive Promises (args : CalculateWaitingTimeV2Args) : ℤ → Prop
  | bunker {frame : ℤ} (hbunker : truthyFrame (r.getFrameIsBunker now) = some frame) :
      Promises args frame
  | covered (hbunker : truthyFrame (r.getFrameIsBunker now) = none) (hcovered : args.Covered) :
      Promises args (r.nearestReport now args.requestTimestamp)
  | projection {frame : ℤ} (hbunker : truthyFrame (r.getFrameIsBunker now) = none)
      (hopen : ¬ args.Covered)
      (hleast : IsLeast (r.projectedReach now args.deficit args.latestEpoch) frame) :
      Promises args frame

/-- A time value that a `Date` can hold. -/
def Datable (time : ℤ) : Prop := |time| ≤ maxTimeValue

/-- The arguments of the first estimate for a request. -/
def firstArgs : CalculateWaitingTimeV2Args :=
  r.requestArgs state request (r.maxExitEpochInPast now request)

/-- The arguments of the second one. -/
def recalculationArgs : CalculateWaitingTimeV2Args :=
  r.requestArgs state request (r.getMaxExitEpoch now)

/-- The report on which the response for a request is settled. -/
inductive SettlesOn : Settlement → ℤ → Prop
  | firstEstimate {first : ℤ} (hfirst : r.Promises now (r.firstArgs now state request) first)
      (hpresent : ¬ r.FrameInPast now request first) : SettlesOn .firstEstimate first
  | recalculation {first second : ℤ}
      (hfirst : r.Promises now (r.firstArgs now state request) first)
      (hpast : r.FrameInPast now request first)
      (hsecond : r.Promises now (r.recalculationArgs now state request) second)
      (hpresent : ¬ r.FrameInPast now request second) : SettlesOn .recalculation second
  | nextReport {first second : ℤ}
      (hfirst : r.Promises now (r.firstArgs now state request) first)
      (hpast : r.FrameInPast now request first)
      (hsecond : r.Promises now (r.recalculationArgs now state request) second)
      (hstillPast : r.FrameInPast now request second) :
      SettlesOn .nextReport (r.currentFrame now + 1)

/-! ## When a response is returned -/

/-- An amount of nothing on top of the queue is answered: the balances convert, the
estimate returns, and what it promises is a date. -/
structure AnswersFuture : Prop where
  unfinalized : IsSafeInteger (state.unfinalized.tdiv (10 ^ 18))
  buffer : IsSafeInteger (state.buffer.tdiv (10 ^ 18))
  vaultsBalance : IsSafeInteger (state.vaultsBalance.tdiv (10 ^ 18))
  estimable : r.Estimable now (r.amountArgs now state 0)
  date : ∀ frame, r.Promises now (r.amountArgs now state 0) frame →
    Datable (now + (validateTimeResponseWithFallback (r.time.timeToWithdrawalFrame frame now) +
      gapAfterReport))

/-- A request of the queue is answered: the first estimate returns, so does the second
where the first ends in the past, and the time of the request and the time that is
promised are dates. -/
structure AnswersQueued : Prop where
  first : r.Estimable now (r.firstArgs now state request)
  recalculation : ∀ frame, r.Promises now (r.firstArgs now state request) frame →
    r.FrameInPast now request frame → r.Estimable now (r.recalculationArgs now state request)
  requestedAt : Datable (request.timestamp * 1000)
  date : ∀ settlement frame, r.SettlesOn now state request settlement frame →
    Datable (r.promisedAt request settlement frame)

/-- A response is returned for the id: always for an id before the queue, and with an
estimate for one of the queue or after it. -/
structure Answers (requestId : ℕ) : Prop where
  queued : ∀ request ∈ r.requests, request.id = requestId → r.AnswersQueued now state request
  future : r.lastRequestId < requestId → r.AnswersFuture now state

variable {r now state request}

theorem datable_iff {time : ℤ} : Datable time ↔ ∃ t, toISOString time = .ok t := by
  simp only [Datable, abs_le, toISOString_eq_ok, exists_eq_right']

theorem Promises.unique {args : CalculateWaitingTimeV2Args} {first second : ℤ}
    (hfirst : r.Promises now args first) (hsecond : r.Promises now args second) :
    first = second := by
  cases hfirst with
  | bunker hbunker =>
      cases hsecond with
      | bunker hother => exact Option.some.inj (hbunker.symm.trans hother)
      | covered hnone => simp [hbunker] at hnone
      | projection hnone => simp [hbunker] at hnone
  | covered hbunker hcovered =>
      cases hsecond with
      | bunker hother => simp [hbunker] at hother
      | covered => rfl
      | projection _ hopen => exact absurd hcovered hopen
  | projection hbunker hopen hleast =>
      cases hsecond with
      | bunker hother => simp [hbunker] at hother
      | covered _ hcovered => exact absurd hcovered hopen
      | projection _ _ hother => exact hleast.unique hother

/-- What an estimate returns is the report that it promises. -/
theorem promises_of_eq_ok {args : CalculateWaitingTimeV2Args}
    {result : CalculateWaitingTimeV2Result} (h : r.calculateWithdrawalFrame now args = .ok result) :
    r.Promises now args result.frame := by
  cases hbunker : truthyFrame (r.getFrameIsBunker now) with
  | some frame =>
      rw [r.calculateWithdrawalFrame_of_bunker now hbunker] at h
      cases h
      exact .bunker hbunker
  | none =>
      by_cases hcovered : args.Covered
      · rw [r.frame_of_covered now hbunker hcovered h]
        exact .covered hbunker hcovered
      · have hleast := r.isLeast_calculateWithdrawalFrame now hbunker hcovered h
        exact .projection hbunker hcovered hleast

/-- The report that an estimate promises, when it returns. -/
theorem forall_promises_iff {args : CalculateWaitingTimeV2Args}
    {result : CalculateWaitingTimeV2Result} (h : r.calculateWithdrawalFrame now args = .ok result)
    {p : ℤ → Prop} : (∀ frame, r.Promises now args frame → p frame) ↔ p result.frame := by
  have hpromises := promises_of_eq_ok h
  constructor
  · exact fun hall => hall _ hpromises
  · intro hresult frame hframe
    rwa [hframe.unique hpromises]

theorem SettlesOn.unique {first second : Settlement} {firstFrame secondFrame : ℤ}
    (hfirst : r.SettlesOn now state request first firstFrame)
    (hsecond : r.SettlesOn now state request second secondFrame) :
    first = second ∧ firstFrame = secondFrame := by
  cases hfirst with
  | firstEstimate hfrom hpresent =>
      cases hsecond with
      | firstEstimate hother => exact ⟨rfl, hfrom.unique hother⟩
      | recalculation hother hpast => exact absurd (hfrom.unique hother ▸ hpast) hpresent
      | nextReport hother hpast => exact absurd (hfrom.unique hother ▸ hpast) hpresent
  | recalculation hfrom hpast hto hpresent =>
      cases hsecond with
      | firstEstimate hother hnot => exact absurd (hfrom.unique hother ▸ hpast) hnot
      | recalculation _ _ hother => exact ⟨rfl, hto.unique hother⟩
      | nextReport _ _ hother hstill => exact absurd (hto.unique hother ▸ hstill) hpresent
  | nextReport hfrom hpast hto hstill =>
      cases hsecond with
      | firstEstimate hother hnot => exact absurd (hfrom.unique hother ▸ hpast) hnot
      | recalculation _ _ hother hnot => exact absurd (hto.unique hother ▸ hstill) hnot
      | nextReport => exact ⟨rfl, rfl⟩

theorem Settles.settlesOn {settlement : Settlement} {frame : ℤ}
    {type : WaitingTimeCalculationType} (h : r.Settles now state request settlement frame type) :
    r.SettlesOn now state request settlement frame := by
  cases h with
  | firstEstimate hfirst hpresent => exact .firstEstimate (promises_of_eq_ok hfirst) hpresent
  | recalculation hfirst hpast hsecond hpresent =>
      exact .recalculation (promises_of_eq_ok hfirst) hpast (promises_of_eq_ok hsecond) hpresent
  | nextReport hfirst hpast hsecond hstillPast =>
      exact .nextReport (promises_of_eq_ok hfirst) hpast (promises_of_eq_ok hsecond) hstillPast

/-- **An amount of nothing is answered exactly when** the balances convert, the estimate
returns and its promise is a date. -/
theorem exists_getWaitingTimeInfo_iff (hchurn : 0 < r.churnLimit) :
    (∃ info, r.getWaitingTimeInfo now state 0 = .ok info) ↔ r.AnswersFuture now state := by
  have hgauge {amount : ℤ} :
      (∃ n, balanceGauge amount = .ok n) ↔ IsSafeInteger (amount.tdiv (10 ^ 18)) := by
    simp [balanceGauge, BigNumber.div, BigNumber.toNumber_eq_ok]
  constructor
  · rintro ⟨info, hinfo⟩
    simp only [getWaitingTimeInfo, Outcome.bind_eq_ok] at hinfo
    obtain ⟨_, hunfinalized, _, hbuffer, _, hvaults, result, hresult, _, hdate, -⟩ := hinfo
    exact {
      unfinalized := hgauge.mp ⟨_, hunfinalized⟩
      buffer := hgauge.mp ⟨_, hbuffer⟩
      vaultsBalance := hgauge.mp ⟨_, hvaults⟩
      estimable := (exists_calculateWithdrawalFrame_iff_estimable hchurn).mp ⟨result, hresult⟩
      date := (forall_promises_iff hresult).mpr (datable_iff.mpr ⟨_, hdate⟩) }
  · intro h
    obtain ⟨_, hunfinalized⟩ := hgauge.mpr h.unfinalized
    obtain ⟨_, hbuffer⟩ := hgauge.mpr h.buffer
    obtain ⟨_, hvaults⟩ := hgauge.mpr h.vaultsBalance
    obtain ⟨result, hresult⟩ :=
      (exists_calculateWithdrawalFrame_iff_estimable hchurn).mpr h.estimable
    obtain ⟨_, hdate⟩ := datable_iff.mp (h.date _ (promises_of_eq_ok hresult))
    simp only [getWaitingTimeInfo, Outcome.bind_eq_ok]
    exact ⟨_, _, hunfinalized, _, hbuffer, _, hvaults, result, hresult, _, hdate, rfl⟩

/-- **A request of the queue is answered exactly when** its estimates return and its
times are dates. -/
theorem exists_estimateRequest_iff (hchurn : 0 < r.churnLimit) :
    (∃ info, r.estimateRequest now state request = .ok info) ↔
      r.AnswersQueued now state request := by
  have hestimable {args : CalculateWaitingTimeV2Args} :
      (∃ result, r.calculateWithdrawalFrame now args = .ok result) ↔ r.Estimable now args :=
    exists_calculateWithdrawalFrame_iff_estimable hchurn
  have hsettled {first : CalculateWaitingTimeV2Result} {settled : CheckInPastCaseResult}
      (hfirst : r.firstEstimate now state request = .ok first)
      (hsettled : r.checkInPastCase now state request first = .ok settled) :
      (∀ settlement frame, r.SettlesOn now state request settlement frame →
        Datable (r.promisedAt request settlement frame)) ↔
        Datable (request.timestamp * 1000 + settled.finalizationIn) := by
    obtain ⟨settlement, frame, hsettles, hpromised⟩ := checkInPastCase_eq_ok hfirst hsettled
    rw [hpromised]
    constructor
    · exact fun hall => hall _ _ hsettles.settlesOn
    · intro hdate other otherFrame hother
      obtain ⟨rfl, rfl⟩ := hother.unique hsettles.settlesOn
      exact hdate
  constructor
  · rintro ⟨info, hinfo⟩
    simp only [estimateRequest, Outcome.bind_eq_ok, BigNumber.toNumber_eq_ok] at hinfo
    obtain ⟨_, ⟨-, rfl⟩, first, hfirst, settled, hcheck, _, hrequestedAt, _, hdate, -⟩ := hinfo
    have hagain := (exists_checkInPastCase_iff.mp ⟨settled, hcheck⟩).2
    exact {
      first := hestimable.mp ⟨first, hfirst⟩
      recalculation := (forall_promises_iff hfirst).mpr fun hpast => hestimable.mp (hagain hpast)
      requestedAt := datable_iff.mpr ⟨_, hrequestedAt⟩
      date := (hsettled hfirst hcheck).mpr (datable_iff.mpr ⟨_, hdate⟩) }
  · intro h
    obtain ⟨first, hfirst⟩ := hestimable.mpr h.first
    have hrequested := abs_le.mp h.requestedAt
    have hsafe : IsSafeInteger request.timestamp := by
      simp only [maxTimeValue] at hrequested
      simp only [IsSafeInteger, maxSafeInteger]
      omega
    obtain ⟨settled, hcheck⟩ := exists_checkInPastCase_iff.mpr
      ⟨hsafe, fun hpast => hestimable.mpr (h.recalculation _ (promises_of_eq_ok hfirst) hpast)⟩
    obtain ⟨_, hrequestedAt⟩ := datable_iff.mp h.requestedAt
    obtain ⟨_, hdate⟩ := datable_iff.mp ((hsettled hfirst hcheck).mp h.date)
    simp only [estimateRequest, Outcome.bind_eq_ok, BigNumber.toNumber_eq_ok]
    exact ⟨_, _, ⟨hsafe, rfl⟩, first, hfirst, settled, hcheck, _, hrequestedAt, _, hdate, rfl⟩

/-! ## Statuses -/

/-- A response classifies an id by its place relative to the queue. -/
structure ClassifiedCorrectly (r : Readings) (unfinalized requestId : ℕ)
    (info : GetWaitingTimeInfoResult) : Prop where
  queued : (info.status = .calculated ∧ ∃ requestInfo, info.requestInfo = some requestInfo ∧
      requestInfo.requestId = some requestId) ↔
    ∃ request ∈ r.requests, request.id = requestId
  finalized : info.status = .finalized ↔ requestId ≤ r.lastRequestId - unfinalized
  calculating : info.status = .calculating ↔ r.lastRequestId < requestId

variable {unfinalized requestId : ℕ}

/-- An id before the queue is reported as finalized. -/
theorem classifiedCorrectly_finalizedResult (hqueue : r.HoldsUnfinalized unfinalized)
    (hle : requestId ≤ r.lastRequestId - unfinalized) :
    r.ClassifiedCorrectly unfinalized requestId r.finalizedResult where
  queued := by
    rw [hqueue.exists_request_iff]
    exact iff_of_false (fun h => by cases h.1) (by omega)
  finalized := iff_of_true rfl hle
  calculating := iff_of_false (fun h => by cases h) (by omega)

/-- An id of the queue is reported with its estimate. -/
theorem classifiedCorrectly_of_queued (hqueue : r.HoldsUnfinalized unfinalized)
    (hmem : request ∈ r.requests) {info : GetWaitingTimeInfoResult}
    (hinfo : r.estimateRequest now state request = .ok info) :
    r.ClassifiedCorrectly unfinalized request.id info := by
  have hrange := hqueue.exists_request_iff.mp ⟨request, hmem, rfl⟩
  have hnamed := estimateRequest_names hinfo
  exact {
    queued := iff_of_true hnamed ⟨request, hmem, rfl⟩
    finalized := iff_of_false (by simp [hnamed.1]) (by omega)
    calculating := iff_of_false (by simp [hnamed.1]) (by omega) }

/-- An id after the queue is reported as calculating, and so is the last id of an empty
queue. -/
theorem classifiedCorrectly_calculating_iff (hqueue : r.HoldsUnfinalized unfinalized)
    (hmem : ¬ ∃ request ∈ r.requests, request.id = requestId) (hlast : r.lastRequestId ≤ requestId)
    {lastRequestResult : GetWaitingTimeInfoResult} :
    r.ClassifiedCorrectly unfinalized requestId (calculatingResult requestId lastRequestResult) ↔
      ¬ (r.requests = [] ∧ requestId = r.lastRequestId) := by
  have hpos := hqueue.pos
  rw [hqueue.requests_eq_nil_iff]
  constructor
  · rintro hclassified ⟨rfl, rfl⟩
    cases hclassified.finalized.mpr (by omega)
  · intro hnotLast
    rw [hqueue.exists_request_iff] at hmem
    exact {
      queued := by
        rw [hqueue.exists_request_iff]
        exact iff_of_false (fun h => by cases h.1) hmem
      finalized := iff_of_false (fun h => by cases h) (by omega)
      calculating := iff_of_true rfl (by omega) }

/-- **Ids are classified correctly exactly when** the id is not the last one of an empty
queue, and the estimate for an id of the queue, or after it, returns with dates. -/
theorem classifiedCorrectly_iff {stores : Stores} {r : Readings} {now : ℤ} {state : BlockState}
    {unfinalized requestId : ℕ} (hinitialized : stores.isInitialized = true)
    (hreadings : stores.readings = .ok r) (hqueue : r.HoldsUnfinalized unfinalized) :
    (∃ info, stores.getWaitingTimeInfoById now state requestId = .ok info ∧
        r.ClassifiedCorrectly unfinalized requestId info) ↔
      ¬ (r.requests = [] ∧ requestId = r.lastRequestId) ∧ r.Answers now state requestId := by
  have hchurn := Stores.churnLimit_pos_of_readings hinitialized hreadings
  rw [Stores.getWaitingTimeInfoById_of_readings hinitialized hreadings]
  by_cases hprecedes : r.PrecedesQueue requestId
  · obtain ⟨hle, hnotLast⟩ := hqueue.precedesQueue_iff.mp hprecedes
    rw [getWaitingTimeInfoById_of_precedesQueue hprecedes]
    refine iff_of_true ⟨_, rfl, classifiedCorrectly_finalizedResult hqueue hle⟩ ⟨hnotLast, ?_, ?_⟩
    · intro request hmem hid
      have hrange := hqueue.exists_request_iff.mp ⟨request, hmem, hid⟩
      omega
    · intro hlast
      omega
  · rw [getWaitingTimeInfoById_of_not_precedesQueue hprecedes]
    cases hfind : r.requests.find? fun item => decide (item.id = requestId) with
    | some request =>
        have hmem := List.mem_of_find?_eq_some hfind
        obtain rfl : request.id = requestId := by simpa using List.find?_some hfind
        have hrange := hqueue.exists_request_iff.mp ⟨request, hmem, rfl⟩
        have hnotLast : ¬ (r.requests = [] ∧ request.id = r.lastRequestId) := by
          rintro ⟨hempty, -⟩
          simp [hempty] at hmem
        constructor
        · rintro ⟨info, hinfo, -⟩
          refine ⟨hnotLast, ?_, fun hlast => by omega⟩
          intro other hother hid
          rw [hqueue.eq_of_id_eq hother hmem hid]
          exact (exists_estimateRequest_iff hchurn).mp ⟨info, hinfo⟩
        · rintro ⟨-, hanswers⟩
          obtain ⟨info, hinfo⟩ :=
            (exists_estimateRequest_iff hchurn).mpr (hanswers.queued request hmem rfl)
          exact ⟨info, hinfo, classifiedCorrectly_of_queued hqueue hmem hinfo⟩
    | none =>
        have hmem : ¬ ∃ request ∈ r.requests, request.id = requestId := by
          simpa [List.find?_eq_none] using hfind
        have hlast := hqueue.lastRequestId_le hprecedes hmem
        have hempty : r.lastRequestId < requestId ↔
            ¬ (r.requests = [] ∧ requestId = r.lastRequestId) := by
          rw [hqueue.requests_eq_nil_iff]
          rw [hqueue.exists_request_iff] at hmem
          have hpos := hqueue.pos
          omega
        simp only [if_pos hlast, Outcome.map_eq_ok]
        constructor
        · rintro ⟨_, ⟨info, hinfo, rfl⟩, hclassified⟩
          refine ⟨(classifiedCorrectly_calculating_iff hqueue hmem hlast).mp hclassified, ?_, ?_⟩
          · exact fun request hrequest hid => absurd ⟨request, hrequest, hid⟩ hmem
          · exact fun _ => (exists_getWaitingTimeInfo_iff hchurn).mp ⟨info, hinfo⟩
        · rintro ⟨hnotLast, hanswers⟩
          obtain ⟨info, hinfo⟩ :=
            (exists_getWaitingTimeInfo_iff hchurn).mpr (hanswers.future (hempty.mpr hnotLast))
          exact ⟨_, ⟨info, hinfo, rfl⟩,
            (classifiedCorrectly_calculating_iff hqueue hmem hlast).mpr hnotLast⟩

/-- Seven requests were made, and all of them are finalized. -/
def allFinalized : Readings := { sampleReadings with lastRequestId := 7 }

theorem holdsUnfinalized_allFinalized : allFinalized.HoldsUnfinalized 0 where
  pos := by decide
  le := by decide
  ids := by decide

theorem classifiedCorrectly_iff_allFinalized :
    (∃ info, allFinalized.toStores.getWaitingTimeInfoById 1744714823000 ⟨0, 5 * 10 ^ 18, 0⟩ 8 =
        .ok info ∧ allFinalized.ClassifiedCorrectly 0 8 info) ↔
      ¬ (allFinalized.requests = [] ∧ 8 = allFinalized.lastRequestId) ∧
        allFinalized.Answers 1744714823000 ⟨0, 5 * 10 ^ 18, 0⟩ 8 :=
  classifiedCorrectly_iff (allFinalized.isInitialized_toStores (by decide))
    (allFinalized.readings_toStores (by decide) (by decide)) holdsUnfinalized_allFinalized

/-- The last of them is reported as calculating. -/
theorem not_always_classifiedCorrectly :
    ¬ ∀ (stores : Stores) (r : Readings) (now : ℤ) (state : BlockState)
      (unfinalized requestId : ℕ), stores.isInitialized = true → stores.readings = .ok r →
      r.HoldsUnfinalized unfinalized → 1 ≤ requestId →
      ∃ info, stores.getWaitingTimeInfoById now state requestId = .ok info ∧
        r.ClassifiedCorrectly unfinalized requestId info := by
  intro hclassified
  have hinitialized := allFinalized.isInitialized_toStores (by decide)
  have hreadings := allFinalized.readings_toStores (by decide) (by decide)
  obtain ⟨info, hinfo, hlast⟩ := hclassified allFinalized.toStores allFinalized 1744714823000
    ⟨0, 5 * 10 ^ 18, 0⟩ 0 7 hinitialized hreadings holdsUnfinalized_allFinalized (by decide)
  have hresponse : allFinalized.getWaitingTimeInfoById 1744714823000 ⟨0, 5 * 10 ^ 18, 0⟩ 7 =
      .ok ⟨some ⟨91800000, 1744806623000, some 7, none, .requestTimestampMargin⟩,
        .calculating, some 0⟩ := by decide
  rw [Stores.getWaitingTimeInfoById_of_readings hinitialized hreadings, hresponse] at hinfo
  cases hinfo
  cases hlast.finalized.mpr (by decide)

end Readings

end WithdrawalsApi
