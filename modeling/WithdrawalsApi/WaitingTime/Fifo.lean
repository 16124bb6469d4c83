/-
# First in, first out

Of two queued requests the earlier one asks for less to be released before it,
and it is older. Its estimate is nevertheless not always the earlier one: the
estimates of two requests may be settled differently. An older request whose
first estimate has passed is estimated again with the exit epoch of today, while
a younger one keeps an estimate made with the exit epoch of its own time.

The order holds in bunker mode and while the buffer and the vaults cover both
requests. Beyond that it holds for estimates that are settled alike; what
exactly is compared is listed in `SettledAlike`.
-/

import WithdrawalsApi.WaitingTime.Settlement

namespace WithdrawalsApi

open Js Math

/-- How many estimates have been discarded. -/
def Settlement.rank : Settlement → ℕ
  | .firstEstimate => 0
  | .recalculation => 1
  | .nextReport => 2

/-! ## The queue -/

/-- Ids ascend and timestamps do not descend. -/
def InQueueOrder (requests : List WithdrawalRequest) : Prop :=
  requests.Pairwise fun earlier later =>
    earlier.id < later.id ∧ earlier.timestamp ≤ later.timestamp

instance (requests : List WithdrawalRequest) : Decidable (InQueueOrder requests) :=
  inferInstanceAs (Decidable (requests.Pairwise _))

/-- What the queue asks for up to a request grows along the queue. The induction
is on the queue; its head is the earlier request, or it counts for both. -/
theorem calculateUnfinalizedEthToRequestId_le {requests : List WithdrawalRequest}
    (hqueue : InQueueOrder requests) {earlier later : WithdrawalRequest}
    (hearlier : earlier ∈ requests) (hid : earlier.id < later.id) :
    calculateUnfinalizedEthToRequestId requests earlier ≤
      calculateUnfinalizedEthToRequestId requests later := by
  have hnonneg (rest : List WithdrawalRequest) (request : WithdrawalRequest) :
      0 ≤ calculateUnfinalizedEthToRequestId rest request := by
    induction rest with
    | nil => exact le_rfl
    | cons entry rest ih =>
        simp only [calculateUnfinalizedEthToRequestId]
        split <;> omega
  induction requests with
  | nil => cases hearlier
  | cons entry rest ih =>
      obtain ⟨hhead, hrest⟩ := List.pairwise_cons.mp hqueue
      simp only [calculateUnfinalizedEthToRequestId]
      rcases List.mem_cons.mp hearlier with rfl | hmem
      · have := hnonneg rest later
        rw [if_pos rfl, if_neg (by omega)]
        omega
      · have hentry := (hhead earlier hmem).1
        have := ih hrest hmem
        rw [if_neg (by omega), if_neg (by omega)]
        omega

/-- Of two requests the one with the smaller id is not younger. -/
theorem InQueueOrder.timestamp_le {requests : List WithdrawalRequest}
    (hqueue : InQueueOrder requests) {earlier later : WithdrawalRequest}
    (hearlier : earlier ∈ requests) (hlater : later ∈ requests) (hid : earlier.id < later.id) :
    earlier.timestamp ≤ later.timestamp := by
  induction requests with
  | nil => cases hearlier
  | cons entry rest ih =>
      obtain ⟨hhead, hrest⟩ := List.pairwise_cons.mp hqueue
      rcases List.mem_cons.mp hearlier with rfl | hearlierRest
      · rcases List.mem_cons.mp hlater with rfl | hlaterRest
        · exact le_rfl
        · exact (hhead later hlaterRest).2
      · rcases List.mem_cons.mp hlater with rfl | hlaterRest
        · have := (hhead earlier hearlierRest).1
          omega
        · exact ih hrest hearlierRest hlaterRest

/-- An id occurs once in a queue. -/
theorem InQueueOrder.eq_of_id_eq {requests : List WithdrawalRequest}
    (hqueue : InQueueOrder requests) {first second : WithdrawalRequest}
    (hfirst : first ∈ requests) (hsecond : second ∈ requests) (hid : first.id = second.id) :
    first = second := by
  have hnodup : (requests.map WithdrawalRequest.id).Nodup :=
    List.pairwise_map.mpr (hqueue.imp fun h => h.1.ne)
  exact List.inj_on_of_nodup_map hnodup hfirst hsecond hid

namespace Readings

variable {r : Readings} {now : ℤ} {state : BlockState} {earlier later : WithdrawalRequest}

/-! ## Promises -/

/-- No delay ends before the report and the gap. -/
theorem reportTime_add_gap_le {request : WithdrawalRequest} {frame : ℤ} :
    r.time.reportTime frame + gapAfterReport ≤
      request.timestamp * 1000 + r.finalizationDelay request frame := by
  rcases le_or_gt (request.timestamp * 1000 : ℤ) (r.time.reportTime frame) with hle | hlt
  · exact (add_finalizationDelay_of_le hle).ge
  · rw [add_finalizationDelay_of_lt hlt]
    omega

/-- For one frame, a younger request is not promised an earlier time. -/
theorem promise_mono_timestamp (htimestamp : earlier.timestamp ≤ later.timestamp) (frame : ℤ) :
    earlier.timestamp * 1000 + r.finalizationDelay earlier frame ≤
      later.timestamp * 1000 + r.finalizationDelay later frame := by
  rcases le_or_gt (earlier.timestamp * 1000 : ℤ) (r.time.reportTime frame) with hle | hlt
  · exact (add_finalizationDelay_of_le hle).trans_le reportTime_add_gap_le
  · rw [add_finalizationDelay_of_lt hlt, add_finalizationDelay_of_lt (by omega)]
    omega

/-- For a younger request a later frame promises no earlier time than a delay that
is not substituted. -/
theorem promise_le_of_frame_le {earlierFrame laterFrame : ℤ}
    (hexact : (earlier.timestamp * 1000 : ℤ) ≤ r.time.reportTime earlierFrame)
    (hframe : earlierFrame ≤ laterFrame) :
    earlier.timestamp * 1000 + r.finalizationDelay earlier earlierFrame ≤
      later.timestamp * 1000 + r.finalizationDelay later laterFrame := by
  have hreport := r.time.reportTime_le_iff.mpr hframe
  calc
    earlier.timestamp * 1000 + r.finalizationDelay earlier earlierFrame =
        r.time.reportTime earlierFrame + gapAfterReport := add_finalizationDelay_of_le hexact
    _ ≤ r.time.reportTime laterFrame + gapAfterReport := by omega
    _ ≤ later.timestamp * 1000 + r.finalizationDelay later laterFrame := reportTime_add_gap_le

variable {request : WithdrawalRequest} {settlement : Settlement} {frame : ℤ}
  {type : WaitingTimeCalculationType}

/-- A first estimate with a report that is not over for longer than the gap is
final. -/
theorem Settles.eq_firstEstimate {first : CalculateWaitingTimeV2Result}
    (h : r.Settles now state request settlement frame type)
    (hfirst : r.firstEstimate now state request = .ok first)
    (hnext : now < r.time.reportTime first.frame + gapAfterReport) :
    settlement = .firstEstimate ∧ frame = first.frame := by
  have hpresent : ¬ r.FrameInPast now request first.frame :=
    not_lt.mpr (hnext.le.trans reportTime_add_gap_le)
  cases h with
  | firstEstimate hfirst' hpresent' =>
      rw [hfirst'] at hfirst
      cases hfirst
      exact ⟨rfl, rfl⟩
  | recalculation hfirst' hpast hsecond hpresent' =>
      rw [hfirst'] at hfirst
      cases hfirst
      exact absurd hpast hpresent
  | nextReport hfirst' hpast hsecond hstillPast =>
      rw [hfirst'] at hfirst
      cases hfirst
      exact absurd hpast hpresent

theorem Settles.exists_firstEstimate
    (h : r.Settles now state request settlement frame type) :
    ∃ first, r.firstEstimate now state request = .ok first := by
  cases h with
  | firstEstimate hfirst _ => exact ⟨_, hfirst⟩
  | recalculation hfirst _ _ _ => exact ⟨_, hfirst⟩
  | nextReport hfirst _ _ _ => exact ⟨_, hfirst⟩

variable {earlierSettlement laterSettlement : Settlement} {earlierFrame laterFrame : ℤ}
  {earlierType laterType : WaitingTimeCalculationType}

/-- Two first estimates that are final are promised in the order of their frames. -/
theorem promisedAt_le_of_final {earlierFirst laterFirst : CalculateWaitingTimeV2Result}
    (htimestamp : earlier.timestamp ≤ later.timestamp)
    (hearlier : r.Settles now state earlier earlierSettlement earlierFrame earlierType)
    (hlater : r.Settles now state later laterSettlement laterFrame laterType)
    (hearlierFirst : r.firstEstimate now state earlier = .ok earlierFirst)
    (hlaterFirst : r.firstEstimate now state later = .ok laterFirst)
    (hearlierNext : now < r.time.reportTime earlierFirst.frame + gapAfterReport)
    (hframe : earlierFirst.frame = laterFirst.frame ∨
      (earlier.timestamp * 1000 : ℤ) ≤ r.time.reportTime earlierFirst.frame ∧
        earlierFirst.frame ≤ laterFirst.frame) :
    r.promisedAt earlier earlierSettlement earlierFrame ≤
      r.promisedAt later laterSettlement laterFrame := by
  have hle : earlierFirst.frame ≤ laterFirst.frame := hframe.elim (fun h => h.le) fun h => h.2
  have hreport := r.time.reportTime_le_iff.mpr hle
  obtain ⟨rfl, rfl⟩ := hearlier.eq_firstEstimate hearlierFirst hearlierNext
  obtain ⟨rfl, rfl⟩ := hlater.eq_firstEstimate hlaterFirst (by omega)
  rcases hframe with hsame | ⟨hexact, -⟩
  · simp only [promisedAt, ← hsame]
    exact promise_mono_timestamp htimestamp _
  · exact promise_le_of_frame_le hexact hle

/-! ## Covered requests -/

/-- Whether the buffer and the vaults cover a request, whatever its exit epoch. -/
def RequestCovered (r : Readings) (state : BlockState) (request : WithdrawalRequest) : Prop :=
  (r.requestArgs state request 0).Covered

instance (r : Readings) (state : BlockState) (request : WithdrawalRequest) :
    Decidable (r.RequestCovered state request) :=
  inferInstanceAs (Decidable (r.requestArgs state request 0).Covered)

/-- What they leave open. -/
def requestDeficit (r : Readings) (state : BlockState) (request : WithdrawalRequest) : ℤ :=
  (r.requestArgs state request 0).deficit

/-- The report to which a covered request goes is never over for longer than the
gap, and a request that is not postponed precedes it. -/
theorem firstEstimate_of_covered {first : CalculateWaitingTimeV2Result}
    (hbunker : truthyFrame (r.getFrameIsBunker now) = none)
    (hcovered : r.RequestCovered state request)
    (hfirst : r.firstEstimate now state request = .ok first) :
    (r.TooClose (request.timestamp * 1000) (r.gapAdjustedFrame now + 1) ∧
        first.frame = r.gapAdjustedFrame now + 2) ∨
      (¬ r.TooClose (request.timestamp * 1000) (r.gapAdjustedFrame now + 1) ∧
        first.frame = r.gapAdjustedFrame now + 1 ∧
        (request.timestamp * 1000 : ℤ) ≤ r.time.reportTime first.frame) := by
  have hargs : (r.requestArgs state request (r.maxExitEpochInPast now request)).Covered := hcovered
  have hframe := r.frame_of_covered now hbunker hargs hfirst
  split at hframe
  case isTrue hpostponed =>
    exact Or.inl ⟨(r.isRequestShouldBePostponed_iff now).mp hpostponed, hframe⟩
  case isFalse hkept =>
    rw [r.isRequestShouldBePostponed_iff now] at hkept
    refine Or.inr ⟨hkept, hframe, ?_⟩
    have hnonneg := r.requestTimestampMargin.toMs_nonneg
    have hdistance := not_lt.mp hkept
    change _ ≤ r.time.timeToWithdrawalFrame _ (request.timestamp * 1000) at hdistance
    rw [r.time.timeToWithdrawalFrame_of_seconds] at hdistance
    rw [hframe]
    omega

theorem now_lt_of_next_le {frame : ℤ} (h : r.gapAdjustedFrame now + 1 ≤ frame) :
    now < r.time.reportTime frame + gapAfterReport := by
  have hnext := r.now_lt_reportTime_next_add_gap now
  have hreport := r.time.reportTime_le_iff.mpr h
  omega

/-- Two covered requests keep their order. -/
theorem promisedAt_le_of_covered (htimestamp : earlier.timestamp ≤ later.timestamp)
    (hearlier : r.Settles now state earlier earlierSettlement earlierFrame earlierType)
    (hlater : r.Settles now state later laterSettlement laterFrame laterType)
    (hbunker : truthyFrame (r.getFrameIsBunker now) = none)
    (hearlierCovered : r.RequestCovered state earlier)
    (hlaterCovered : r.RequestCovered state later) :
    r.promisedAt earlier earlierSettlement earlierFrame ≤
      r.promisedAt later laterSettlement laterFrame := by
  obtain ⟨earlierFirst, hearlierFirst⟩ := hearlier.exists_firstEstimate
  obtain ⟨laterFirst, hlaterFirst⟩ := hlater.exists_firstEstimate
  have hmargin : (earlier.timestamp * 1000 : ℤ) ≤ later.timestamp * 1000 := by omega
  have hearlierCase := firstEstimate_of_covered hbunker hearlierCovered hearlierFirst
  have hlaterCase := firstEstimate_of_covered hbunker hlaterCovered hlaterFirst
  have hnext : now < r.time.reportTime earlierFirst.frame + gapAfterReport :=
    now_lt_of_next_le (by omega)
  refine promisedAt_le_of_final htimestamp hearlier hlater hearlierFirst hlaterFirst hnext ?_
  rcases hearlierCase with ⟨hclose, hframe⟩ | ⟨-, hframe, hexact⟩
  · rcases hlaterCase with ⟨-, hlaterFrame⟩ | ⟨hnotClose, -, -⟩
    · exact Or.inl (hframe.trans hlaterFrame.symm)
    · exact absurd (hclose.later r hmargin) hnotClose
  · refine Or.inr ⟨hexact, ?_⟩
    rcases hlaterCase with ⟨-, hlaterFrame⟩ | ⟨-, hlaterFrame, -⟩ <;> omega

/-- In bunker mode all requests get the same frame. -/
theorem promisedAt_le_of_bunker (htimestamp : earlier.timestamp ≤ later.timestamp)
    (hearlier : r.Settles now state earlier earlierSettlement earlierFrame earlierType)
    (hlater : r.Settles now state later laterSettlement laterFrame laterType) {bunkerFrame : ℤ}
    (hbunker : truthyFrame (r.getFrameIsBunker now) = some bunkerFrame) :
    r.promisedAt earlier earlierSettlement earlierFrame ≤
      r.promisedAt later laterSettlement laterFrame := by
  have hframe := r.frame_of_bunker now hbunker
  have hfirst (request : WithdrawalRequest) :
      r.firstEstimate now state request = .ok ⟨bunkerFrame, .bunker⟩ :=
    r.calculateWithdrawalFrame_of_bunker now hbunker
  have hgap := r.gapAdjustedFrame_le_currentFrame now
  have hnext : now < r.time.reportTime bunkerFrame + gapAfterReport :=
    now_lt_of_next_le (by
      rw [hframe]
      simp only [withdrawalBunkerDelayFrames]
      omega)
  exact promisedAt_le_of_final htimestamp hearlier hlater (hfirst earlier) (hfirst later) hnext
    (Or.inl rfl)

/-! ## Requests that are not covered -/

theorem requestDeficit_le (hqueue : InQueueOrder r.requests) (hearlier : earlier ∈ r.requests)
    (hid : earlier.id < later.id) :
    r.requestDeficit state earlier ≤ r.requestDeficit state later := by
  have := calculateUnfinalizedEthToRequestId_le hqueue hearlier hid
  simp only [requestDeficit, CalculateWaitingTimeV2Args.deficit, requestArgs]
  omega

theorem requestCovered_of_later (hqueue : InQueueOrder r.requests)
    (hearlier : earlier ∈ r.requests) (hid : earlier.id < later.id)
    (hcovered : r.RequestCovered state later) : r.RequestCovered state earlier := by
  have := calculateUnfinalizedEthToRequestId_le hqueue hearlier hid
  simp only [RequestCovered, CalculateWaitingTimeV2Args.Covered, requestArgs] at hcovered ⊢
  omega

theorem maxExitEpochInPast_mono (htimestamp : earlier.timestamp ≤ later.timestamp) :
    r.maxExitEpochInPast now earlier ≤ r.maxExitEpochInPast now later := by
  have := r.time.getCurrentEpoch_mono
    (show (earlier.timestamp * 1000 : ℤ) ≤ later.timestamp * 1000 by omega)
  simp only [maxExitEpochInPast, r.time.getEpochByTimestamp_eq]
  omega

/-- Of two estimates of one kind, the one for less is not later. -/
theorem estimate_frame_le {earlierEpoch laterEpoch : ℤ}
    {earlierResult laterResult : CalculateWaitingTimeV2Result}
    (hbunker : truthyFrame (r.getFrameIsBunker now) = none)
    (hindexed : r.frameBalances.ArrayIndexed)
    (hopen : ¬ r.RequestCovered state earlier) (hlaterOpen : ¬ r.RequestCovered state later)
    (hzero : ¬ r.EndsAtFrameZero now (r.requestDeficit state earlier))
    (hdeficit : r.requestDeficit state earlier ≤ r.requestDeficit state later)
    (hepoch : earlierEpoch ≤ laterEpoch)
    (hearlier : r.calculateWithdrawalFrame now (r.requestArgs state earlier earlierEpoch) =
      .ok earlierResult)
    (hlater : r.calculateWithdrawalFrame now (r.requestArgs state later laterEpoch) =
      .ok laterResult) :
    earlierResult.frame ≤ laterResult.frame := by
  have hearlierOpen : ¬ (r.requestArgs state earlier earlierEpoch).Covered := hopen
  have hlaterOpen' : ¬ (r.requestArgs state later laterEpoch).Covered := hlaterOpen
  obtain ⟨-, hleast⟩ := r.isLeast_calculateWithdrawalFrame now hbunker hearlierOpen hearlier
  obtain ⟨hmem, -⟩ := r.isLeast_calculateWithdrawalFrame now hbunker hlaterOpen' hlater
  exact hleast
    (r.projectedReach_antitone now hindexed.rows_ascending hzero hdeficit hepoch hmem)

/-- Two requests that are not covered keep their order when the later one has
discarded as many estimates, and the earlier one's delay is not substituted. The
cases are those of the earlier request; a later request cannot have discarded
more, since what it discards lies after a promise that has not passed. -/
theorem promisedAt_le_of_not_covered (hindexed : r.frameBalances.ArrayIndexed)
    (htimestamp : earlier.timestamp ≤ later.timestamp)
    (hdeficit : r.requestDeficit state earlier ≤ r.requestDeficit state later)
    (hearlier : r.Settles now state earlier earlierSettlement earlierFrame earlierType)
    (hlater : r.Settles now state later laterSettlement laterFrame laterType)
    (hbunker : truthyFrame (r.getFrameIsBunker now) = none)
    (hopen : ¬ r.RequestCovered state earlier) (hlaterOpen : ¬ r.RequestCovered state later)
    (hzero : ¬ r.EndsAtFrameZero now (r.requestDeficit state earlier))
    (hrank : earlierSettlement.rank ≤ laterSettlement.rank)
    (hexact : (earlier.timestamp * 1000 : ℤ) ≤ r.time.reportTime earlierFrame) :
    r.promisedAt earlier earlierSettlement earlierFrame ≤
      r.promisedAt later laterSettlement laterFrame := by
  have hcompare {earlierEpoch laterEpoch : ℤ} (hepoch : earlierEpoch ≤ laterEpoch)
      {earlierResult laterResult : CalculateWaitingTimeV2Result}
      (hearlierResult : r.calculateWithdrawalFrame now (r.requestArgs state earlier earlierEpoch) =
        .ok earlierResult)
      (hlaterResult : r.calculateWithdrawalFrame now (r.requestArgs state later laterEpoch) =
        .ok laterResult) : earlierResult.frame ≤ laterResult.frame :=
    estimate_frame_le hbunker hindexed hopen hlaterOpen hzero hdeficit hepoch hearlierResult
      hlaterResult
  cases hearlier with
  | firstEstimate hfirst hpresent =>
      have hepoch : r.maxExitEpochInPast now earlier ≤ r.maxExitEpochInPast now later :=
        maxExitEpochInPast_mono htimestamp
      have hpassed {laterFirst : CalculateWaitingTimeV2Result}
          (hlaterFirst : r.firstEstimate now state later = .ok laterFirst) :
          _ ≤ later.timestamp * 1000 + r.finalizationDelay later laterFirst.frame :=
        promise_le_of_frame_le hexact (hcompare hepoch hfirst hlaterFirst)
      cases hlater with
      | firstEstimate hlaterFirst _ => exact hpassed hlaterFirst
      | recalculation hlaterFirst hlaterPast _ _ =>
          exact absurd ((hpassed hlaterFirst).trans_lt hlaterPast) hpresent
      | nextReport hlaterFirst hlaterPast _ _ =>
          exact absurd ((hpassed hlaterFirst).trans_lt hlaterPast) hpresent
  | recalculation hfirst hpast hsecond hpresent =>
      have hpassed {laterSecond : CalculateWaitingTimeV2Result}
          (hlaterSecond : r.recalculation now state later = .ok laterSecond) :
          _ ≤ later.timestamp * 1000 + r.finalizationDelay later laterSecond.frame :=
        promise_le_of_frame_le hexact (hcompare le_rfl hsecond hlaterSecond)
      cases hlater with
      | firstEstimate _ _ => exact absurd hrank (by decide)
      | recalculation _ _ hlaterSecond _ => exact hpassed hlaterSecond
      | nextReport _ _ hlaterSecond hlaterPast =>
          exact absurd ((hpassed hlaterSecond).trans_lt hlaterPast) hpresent
  | nextReport hfirst hpast hsecond hstillPast =>
      cases hlater with
      | firstEstimate _ _ => exact absurd hrank (by decide)
      | recalculation _ _ _ _ => exact absurd hrank (by decide)
      | nextReport _ _ _ _ => exact le_rfl

/-- An inflow brings in what is left open for a request by the next report already, or
the request is promised this report without an estimate. -/
def ReachesNextReport (r : Readings) (now : ℤ) (state : BlockState)
    (request : WithdrawalRequest) : Settlement → Prop
  | .firstEstimate => r.gapAdjustedFrame now + 1 ∈ r.projectedReach now
      (r.requestDeficit state request) (r.maxExitEpochInPast now request)
  | .recalculation => r.gapAdjustedFrame now + 1 ∈ r.projectedReach now
      (r.requestDeficit state request) (r.getMaxExitEpoch now)
  | .nextReport => True

/-- A request that is not covered and does not reach the next report settles on another
one. -/
theorem Settles.frame_ne_next (h : r.Settles now state request settlement frame type)
    (hbunker : truthyFrame (r.getFrameIsBunker now) = none)
    (hopen : ¬ r.RequestCovered state request)
    (hreaches : ¬ r.ReachesNextReport now state request settlement) :
    frame ≠ r.gapAdjustedFrame now + 1 := by
  intro hframe
  apply hreaches
  have hreached {epoch : ℤ} {result : CalculateWaitingTimeV2Result}
      (hresult : r.calculateWithdrawalFrame now (r.requestArgs state request epoch) = .ok result)
      (hnext : result.frame = r.gapAdjustedFrame now + 1) : r.gapAdjustedFrame now + 1 ∈
        r.projectedReach now (r.requestDeficit state request) epoch := by
    have hargs : ¬ (r.requestArgs state request epoch).Covered := hopen
    rw [← hnext]
    exact (r.isLeast_calculateWithdrawalFrame now hbunker hargs hresult).1
  cases h with
  | firstEstimate hfirst _ => exact hreached hfirst hframe
  | recalculation _ _ hsecond _ => exact hreached hsecond hframe
  | nextReport _ _ _ _ => trivial

/-- A covered request goes to the next report, and so does a later one that is open, at
the earliest: its promise is a report that is not over. When the covered one is
postponed, the later one does not reach the next report either. -/
theorem promisedAt_le_of_mixed (hlength : gapAfterReport ≤ r.time.frameLength)
    (hclock : ∀ frame, r.time.reportTime frame + gapAfterReport ≠ now)
    (hearlier : r.Settles now state earlier earlierSettlement earlierFrame earlierType)
    (hlater : r.Settles now state later laterSettlement laterFrame laterType)
    (hbunker : truthyFrame (r.getFrameIsBunker now) = none)
    (hcovered : r.RequestCovered state earlier) (hopen : ¬ r.RequestCovered state later)
    (hpostponed : r.TooClose (earlier.timestamp * 1000) (r.gapAdjustedFrame now + 1) →
      (earlier.timestamp * 1000 : ℤ) ≤ r.time.reportTime earlierFrame ∧
        ¬ r.ReachesNextReport now state later laterSettlement)
    (hexact : (later.timestamp * 1000 : ℤ) ≤ r.time.reportTime laterFrame) :
    r.promisedAt earlier earlierSettlement earlierFrame ≤
      r.promisedAt later laterSettlement laterFrame := by
  obtain ⟨first, hfirst⟩ := hearlier.exists_firstEstimate
  have hfirstCase := firstEstimate_of_covered hbunker hcovered hfirst
  have hfirstNext : r.gapAdjustedFrame now + 1 ≤ first.frame := by omega
  obtain ⟨rfl, rfl⟩ := hearlier.eq_firstEstimate hfirst (now_lt_of_next_le hfirstNext)
  have hpromised : r.promisedAt later laterSettlement laterFrame =
      r.time.reportTime laterFrame + gapAfterReport := by
    cases hlater with
    | firstEstimate _ _ => exact add_finalizationDelay_of_le hexact
    | recalculation _ _ _ _ => exact add_finalizationDelay_of_le hexact
    | nextReport _ _ _ _ => rfl
  have hpresent := hlater.now_le_promisedAt
  have hover := r.reportTime_gapAdjustedFrame_add_gap_le now hlength
  have hnext : r.gapAdjustedFrame now + 1 ≤ laterFrame := by
    have hneq := hclock laterFrame
    have hlt : r.time.reportTime (r.gapAdjustedFrame now) < r.time.reportTime laterFrame := by
      omega
    exact r.time.reportTime_lt_iff.mp hlt
  obtain ⟨hbefore, hle⟩ : (earlier.timestamp * 1000 : ℤ) ≤ r.time.reportTime first.frame ∧
      first.frame ≤ laterFrame := by
    rcases hfirstCase with ⟨hclose, hframe⟩ | ⟨-, hframe, hbefore⟩
    · obtain ⟨hbefore, hreaches⟩ := hpostponed hclose
      have hne := hlater.frame_ne_next hbunker hopen hreaches
      exact ⟨hbefore, by omega⟩
    · exact ⟨hbefore, by omega⟩
  have hreport := r.time.reportTime_le_iff.mpr hle
  rw [hpromised]
  simp only [promisedAt]
  rw [add_finalizationDelay_of_le hbefore]
  omega

/-! ## The order of the queue -/

/-- What it takes to compare two estimates outside bunker mode. -/
structure SettledAlike (r : Readings) (now : ℤ) (state : BlockState)
    (earlier later : WithdrawalRequest) (earlierSettlement : Settlement) (earlierFrame : ℤ)
    (laterSettlement : Settlement) (laterFrame : ℤ) : Prop where
  /-- When neither is covered, the later request has discarded as many estimates,
  the earlier one's delay is not substituted, its projections do not end at frame
  zero, and the table is listed in ascending order. -/
  open_open : ¬ r.RequestCovered state earlier → ¬ r.RequestCovered state later →
    earlierSettlement.rank ≤ laterSettlement.rank ∧
      (earlier.timestamp * 1000 : ℤ) ≤ r.time.reportTime earlierFrame ∧
      ¬ r.EndsAtFrameZero now (r.requestDeficit state earlier) ∧ r.frameBalances.ArrayIndexed
  /-- When only the earlier one is covered, no delay is substituted, the later one does
  not reach a next report that the earlier one is postponed from, a frame is not shorter
  than the gap, and the gap of no report ends at the clock. -/
  covered_open : r.RequestCovered state earlier → ¬ r.RequestCovered state later →
    (r.TooClose (earlier.timestamp * 1000) (r.gapAdjustedFrame now + 1) →
      (earlier.timestamp * 1000 : ℤ) ≤ r.time.reportTime earlierFrame ∧
        ¬ r.ReachesNextReport now state later laterSettlement) ∧
      (later.timestamp * 1000 : ℤ) ≤ r.time.reportTime laterFrame ∧
      gapAfterReport ≤ r.time.frameLength ∧
      ∀ frame, r.time.reportTime frame + gapAfterReport ≠ now

/-- Promises that are settled alike keep the order of the queue. -/
theorem Settles.promisedAt_le (hqueue : InQueueOrder r.requests)
    (hearlierMem : earlier ∈ r.requests) (hlaterMem : later ∈ r.requests)
    (hid : earlier.id < later.id)
    (hearlier : r.Settles now state earlier earlierSettlement earlierFrame earlierType)
    (hlater : r.Settles now state later laterSettlement laterFrame laterType)
    (halike : truthyFrame (r.getFrameIsBunker now) = none → r.SettledAlike now state earlier later
      earlierSettlement earlierFrame laterSettlement laterFrame) :
    r.promisedAt earlier earlierSettlement earlierFrame ≤
      r.promisedAt later laterSettlement laterFrame := by
  have htimestamp := hqueue.timestamp_le hearlierMem hlaterMem hid
  cases hbunker : truthyFrame (r.getFrameIsBunker now) with
  | some frame => exact promisedAt_le_of_bunker htimestamp hearlier hlater hbunker
  | none =>
      have hconditions := halike hbunker
      by_cases hlaterCovered : r.RequestCovered state later
      · exact promisedAt_le_of_covered htimestamp hearlier hlater hbunker
          (requestCovered_of_later hqueue hearlierMem hid hlaterCovered) hlaterCovered
      · by_cases hcovered : r.RequestCovered state earlier
        · obtain ⟨hpostponed, hexact, hlength, hclock⟩ :=
            hconditions.covered_open hcovered hlaterCovered
          exact promisedAt_le_of_mixed hlength hclock hearlier hlater hbunker hcovered
            hlaterCovered hpostponed hexact
        · obtain ⟨hrank, hexact, hzero, hindexed⟩ := hconditions.open_open hcovered hlaterCovered
          exact promisedAt_le_of_not_covered hindexed htimestamp
            (requestDeficit_le hqueue hearlierMem hid) hearlier hlater hbunker hcovered
            hlaterCovered hzero hrank hexact

/-- A request settles in one way. -/
theorem Settles.unique {otherSettlement : Settlement} {otherFrame : ℤ}
    {otherType : WaitingTimeCalculationType}
    (h : r.Settles now state request settlement frame type)
    (hother : r.Settles now state request otherSettlement otherFrame otherType) :
    settlement = otherSettlement ∧ frame = otherFrame := by
  cases h <;> cases hother <;> simp_all

/-- **The promises of a queue keep its order**, for requests whose estimates are
settled alike. -/
theorem finalizationAt_le {stores : Stores} {r : Readings} {now : ℤ} {state : BlockState}
    {earlier later : WithdrawalRequest} {earlierSettlement laterSettlement : Settlement}
    {earlierFrame laterFrame : ℤ} {earlierType laterType : WaitingTimeCalculationType}
    {earlierInfo laterInfo : GetWaitingTimeInfoResult}
    {earlierRequestInfo laterRequestInfo : CalculateTimeByIdRequestInfo}
    (hreadings : stores.readings = .ok r) (hqueue : InQueueOrder r.requests)
    (hearlierMem : earlier ∈ r.requests) (hlaterMem : later ∈ r.requests)
    (hid : earlier.id < later.id)
    (hearlier : stores.getWaitingTimeInfoById now state earlier.id = .ok earlierInfo)
    (hlater : stores.getWaitingTimeInfoById now state later.id = .ok laterInfo)
    (hearlierCalculated : earlierInfo.status = .calculated)
    (hlaterCalculated : laterInfo.status = .calculated)
    (hearlierInfo : earlierInfo.requestInfo = some earlierRequestInfo)
    (hlaterInfo : laterInfo.requestInfo = some laterRequestInfo)
    (hearlierSettles :
      r.Settles now state earlier earlierSettlement earlierFrame earlierType)
    (hlaterSettles : r.Settles now state later laterSettlement laterFrame laterType)
    (halike : truthyFrame (r.getFrameIsBunker now) = none → r.SettledAlike now state earlier later
      earlierSettlement earlierFrame laterSettlement laterFrame) :
    earlierRequestInfo.finalizationAt ≤ laterRequestInfo.finalizationAt := by
  have hpromised {request : WithdrawalRequest} (hmem : request ∈ r.requests)
      {settlement : Settlement} {frame : ℤ} {type : WaitingTimeCalculationType}
      (hsettles : r.Settles now state request settlement frame type)
      {info : GetWaitingTimeInfoResult} {requestInfo : CalculateTimeByIdRequestInfo}
      (hinfo : stores.getWaitingTimeInfoById now state request.id = .ok info)
      (hcalculated : info.status = .calculated)
      (hrequestInfo : info.requestInfo = some requestInfo) :
      requestInfo.finalizationAt = r.promisedAt request settlement frame := by
    obtain ⟨-, r', hr', hresponse⟩ := Stores.getWaitingTimeInfoById_eq_ok hinfo hcalculated
    obtain rfl : r = r' := by simpa [hreadings] using hr'
    obtain ⟨found, hfound, hsame, hestimate⟩ := exists_request_of_calculated hresponse hcalculated
    obtain rfl := hqueue.eq_of_id_eq hfound hmem hsame
    obtain ⟨_, _, _, hsettled, -, hpromise⟩ := estimateRequest_eq_ok hestimate
    obtain ⟨rfl, rfl⟩ := hsettled.unique hsettles
    rw [hrequestInfo, Option.some.injEq] at hpromise
    rw [hpromise]
  rw [hpromised hearlierMem hearlierSettles hearlier hearlierCalculated hearlierInfo,
    hpromised hlaterMem hlaterSettles hlater hlaterCalculated hlaterInfo]
  exact hearlierSettles.promisedAt_le hqueue hearlierMem hlaterMem hid hlaterSettles halike

/-- A request for ten ether, 30 days old at 1744714823. -/
def olderRequest : WithdrawalRequest where
  id := 6
  amountOfStETH := 10 ^ 19
  timestamp := 1742122823

/-- A request for ten ether, ten days old at 1744714823. -/
def youngerRequest : WithdrawalRequest where
  id := 7
  amountOfStETH := 10 ^ 19
  timestamp := 1743850823

/-- Their queue, when no rewards come in and a sweep takes some epochs. -/
def twoRequests (sweepMeanEpochs : ℕ) : Readings :=
  { sampleReadings with
    rewardsPerFrame := 0
    sweepMeanEpochs
    maxExitEpoch := 359000
    requests := [olderRequest, youngerRequest]
    lastRequestId := 7 }

/-- When a sweep takes 35 days, both requests keep their first estimates. -/
theorem finalizationAt_le_twoRequests :
    ∃ older younger,
      (twoRequests 8000).toStores.getWaitingTimeInfoById 1744714823000 ⟨0, 0, 0⟩
        olderRequest.id = .ok older ∧
      (twoRequests 8000).toStores.getWaitingTimeInfoById 1744714823000 ⟨0, 0, 0⟩
        youngerRequest.id = .ok younger ∧
      ∃ olderInfo youngerInfo, older.requestInfo = some olderInfo ∧
        younger.requestInfo = some youngerInfo ∧
        olderInfo.finalizationAt ≤ youngerInfo.finalizationAt := by
  have hinitialized := (twoRequests 8000).isInitialized_toStores (by decide)
  have hreadings := (twoRequests 8000).readings_toStores (by decide) (by decide)
  have hearlier : (twoRequests 8000).toStores.getWaitingTimeInfoById 1744714823000 ⟨0, 0, 0⟩
      olderRequest.id = .ok ⟨some ⟨523800000, 1745238623000, some 6, some 1742122823000,
        .exitValidators⟩, .calculated, some 0⟩ := by
    rw [Stores.getWaitingTimeInfoById_of_readings hinitialized hreadings]
    decide +kernel
  have hlater : (twoRequests 8000).toStores.getWaitingTimeInfoById 1744714823000 ⟨0, 0, 0⟩
      youngerRequest.id = .ok ⟨some ⟨2251800000, 1746966623000, some 7, some 1743850823000,
        .exitValidators⟩, .calculated, some 0⟩ := by
    rw [Stores.getWaitingTimeInfoById_of_readings hinitialized hreadings]
    decide +kernel
  have hearlierFirst : (twoRequests 8000).firstEstimate 1744714823000 ⟨0, 0, 0⟩ olderRequest =
      .ok ⟨706, .exitValidators⟩ := by decide
  have hlaterFirst : (twoRequests 8000).firstEstimate 1744714823000 ⟨0, 0, 0⟩ youngerRequest =
      .ok ⟨726, .exitValidators⟩ := by decide
  have hzero : ¬ (twoRequests 8000).EndsAtFrameZero 1744714823000
      ((twoRequests 8000).requestDeficit ⟨0, 0, 0⟩ olderRequest) :=
    not_endsAtFrameZero _ _ (by decide) (by decide) (by decide)
  refine ⟨_, _, hearlier, hlater, _, _, rfl, rfl, ?_⟩
  exact finalizationAt_le hreadings (by decide) (by decide) (by decide) (by decide) hearlier hlater
    rfl rfl rfl rfl (.firstEstimate hearlierFirst (by decide))
    (.firstEstimate hlaterFirst (by decide))
    fun _ => ⟨fun _ _ => ⟨by decide, by decide, hzero, by decide⟩,
      fun hcovered => absurd hcovered (by decide)⟩

/-- When a sweep takes 18 days, the first estimate of the older request has passed,
and it is promised a later report than the younger one. -/
theorem finalizationAt_not_ordered :
    ¬ ∀ (stores : Stores) (r : Readings) (now : ℤ) (state : BlockState)
      (earlier later : WithdrawalRequest) (earlierInfo laterInfo : GetWaitingTimeInfoResult)
      (earlierRequestInfo laterRequestInfo : CalculateTimeByIdRequestInfo),
      stores.isInitialized = true → stores.readings = .ok r → InQueueOrder r.requests →
      earlier ∈ r.requests → later ∈ r.requests → earlier.id < later.id →
      stores.getWaitingTimeInfoById now state earlier.id = .ok earlierInfo →
      stores.getWaitingTimeInfoById now state later.id = .ok laterInfo →
      earlierInfo.status = .calculated → laterInfo.status = .calculated →
      earlierInfo.requestInfo = some earlierRequestInfo →
      laterInfo.requestInfo = some laterRequestInfo →
      earlierRequestInfo.finalizationAt ≤ laterRequestInfo.finalizationAt := by
  intro hordered
  have hinitialized := (twoRequests 4000).isInitialized_toStores (by decide)
  have hreadings := (twoRequests 4000).readings_toStores (by decide) (by decide)
  have hearlier : (twoRequests 4000).toStores.getWaitingTimeInfoById 1744714823000 ⟨0, 0, 0⟩
      olderRequest.id = .ok ⟨some ⟨1647000000, 1746361823000, some 6, some 1742122823000,
        .exitValidators⟩, .calculated, some 0⟩ := by
    rw [Stores.getWaitingTimeInfoById_of_readings hinitialized hreadings]
    decide +kernel
  have hlater : (twoRequests 4000).toStores.getWaitingTimeInfoById 1744714823000 ⟨0, 0, 0⟩
      youngerRequest.id = .ok ⟨some ⟨783000000, 1745497823000, some 7, some 1743850823000,
        .exitValidators⟩, .calculated, some 0⟩ := by
    rw [Stores.getWaitingTimeInfoById_of_readings hinitialized hreadings]
    decide +kernel
  have hle := hordered _ _ _ _ olderRequest youngerRequest _ _ _ _ hinitialized hreadings
    (by decide) (by decide) (by decide) (by decide) hearlier hlater rfl rfl rfl rfl
  revert hle
  decide

end Readings

end WithdrawalsApi
