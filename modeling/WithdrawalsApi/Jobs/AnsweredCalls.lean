/-
# Every answer, whatever is stored meanwhile

A call that the readiness gate has let through never reads a value that is not there,
however many jobs store something between two of its segments: the gate stays open, and
a request is looked up in the list that has been checked. What it is answered does not
lie before the call. An estimate that ends in the past is recalculated, and when that
ends in the past as well the report after the current frame is taken, which is later than
the clock of the segment that has read the current frame.
-/

import WithdrawalsApi.Jobs.WaitingTimeCalls

namespace WithdrawalsApi

open Js Math

/-! ## Reads of what is there -/

namespace Js

universe u

/-- No value is read that is not there. -/
def ReadsDefined {α : Type u} (x : Outcome α) : Prop := x ≠ .error .undefinedRead

variable {α β : Type u}

theorem readsDefined_ok (a : α) : ReadsDefined (.ok a : Outcome α) := nofun

theorem ReadsDefined.bind {x : Outcome α} (h : ReadsDefined x) {f : α → Outcome β}
    (hf : ∀ a, x = .ok a → ReadsDefined (f a)) : ReadsDefined (x >>= f) := by
  cases x with
  | error fault => exact fun herror => h (congrArg Except.error (Except.error.inj herror))
  | ok a => exact hf a rfl

theorem ReadsDefined.map {x : Outcome α} (h : ReadsDefined x) (f : α → β) :
    ReadsDefined (f <$> x) := by
  cases x with
  | error fault => exact fun herror => h (congrArg Except.error (Except.error.inj herror))
  | ok a => exact readsDefined_ok _

theorem readsDefined_div (a b : ℤ) : ReadsDefined (BigNumber.div a b) := by
  unfold BigNumber.div
  split <;> exact nofun

theorem readsDefined_toNumber (a : ℤ) : ReadsDefined (BigNumber.toNumber a) := by
  unfold BigNumber.toNumber
  split <;> exact nofun

theorem readsDefined_toISOString (ms : ℤ) : ReadsDefined (toISOString ms) := by
  unfold toISOString
  split <;> exact nofun

end Js

theorem readsDefined_balanceGauge (amount : ℤ) : ReadsDefined (balanceGauge amount) :=
  (readsDefined_div _ _).bind fun _ _ => readsDefined_toNumber _

theorem readsDefined_validatorBalancesLoop (rewards : ℤ) (entries : List (PropertyKey × ℤ))
    (amount lastFrame : ℤ) :
    ReadsDefined (validatorBalancesLoop rewards entries amount lastFrame) := by
  induction entries generalizing amount lastFrame with
  | nil => exact readsDefined_ok _
  | cons entry entries ih =>
      obtain ⟨key, balance⟩ := entry
      cases hkey : key.number? with
      | none =>
          rw [validatorBalancesLoop_name hkey]
          exact nofun
      | some frame =>
          rw [validatorBalancesLoop_number hkey]
          split_ifs
          · exact (readsDefined_toNumber frame).map some
          · exact ih _ _

theorem readsDefined_reduceMinFrame (candidates : List CalculateWaitingTimeV2Result) :
    ReadsDefined (reduceMinFrame candidates) := by
  cases candidates <;> exact nofun

namespace Readings

variable {r : Readings} {now : ℤ} {state : BlockState}

theorem readsDefined_calculateFrameByRewardsOnly (unfinalized rewardsAvailable : ℤ) :
    ReadsDefined (r.calculateFrameByRewardsOnly now unfinalized rewardsAvailable) := by
  unfold calculateFrameByRewardsOnly
  split
  · exact readsDefined_ok _
  · refine (readsDefined_div _ _).bind fun _ _ => (readsDefined_div _ _).bind fun _ _ => ?_
    exact (readsDefined_toNumber _).bind fun _ _ => readsDefined_ok _

theorem readsDefined_calculateFrameExitValidatorsCaseWithVEBO
    (unfinalizedETH latestEpoch rewardsAvailable : ℤ) :
    ReadsDefined (r.calculateFrameExitValidatorsCaseWithVEBO unfinalizedETH latestEpoch
      rewardsAvailable) := by
  refine (readsDefined_div _ _).bind fun rewardsPerEpoch _ => ?_
  dsimp only
  split
  · exact readsDefined_ok _
  · refine (readsDefined_div _ _).bind fun _ _ => ?_
    exact (readsDefined_toNumber _).bind fun _ _ => readsDefined_ok _

theorem readsDefined_projectWithdrawalFrame (deficit latestEpoch : ℤ) :
    ReadsDefined (r.projectWithdrawalFrame now deficit latestEpoch) := by
  refine (readsDefined_calculateFrameByRewardsOnly _ _).bind fun _ _ => ?_
  refine (readsDefined_validatorBalancesLoop _ _ _ _).bind fun _ _ => ?_
  refine (readsDefined_calculateFrameExitValidatorsCaseWithVEBO _ _ _).bind fun _ _ => ?_
  exact readsDefined_reduceMinFrame _

theorem readsDefined_calculateWithdrawalFrame (args : CalculateWaitingTimeV2Args) :
    ReadsDefined (r.calculateWithdrawalFrame now args) := by
  simp only [calculateWithdrawalFrame]
  split
  · exact readsDefined_ok _
  · split
    · exact readsDefined_ok _
    · split
      · exact readsDefined_ok _
      · exact readsDefined_projectWithdrawalFrame _ _

theorem readsDefined_estimateAmount (amount : ℕ) :
    ReadsDefined (r.estimateAmount now state amount) := by
  refine (readsDefined_balanceGauge _).bind fun _ _ => ?_
  refine (readsDefined_balanceGauge _).bind fun _ _ => ?_
  exact (readsDefined_balanceGauge _).bind fun _ _ => readsDefined_calculateWithdrawalFrame _

theorem readsDefined_answerAmount (nextCalculationAt : ℤ)
    (result : CalculateWaitingTimeV2Result) :
    ReadsDefined (r.answerAmount now nextCalculationAt result) :=
  (readsDefined_toISOString _).bind fun _ _ => readsDefined_ok _

end Readings

/-! ## What a call keeps -/

namespace WaitingTimeService

variable {time : GenesisTimeService} {since now : ℤ}

/-- A promise to a request is a report, or the five days. -/
def ReportOrFiveDays (time : GenesisTimeService) (requestTimestamp finalizationAt : ℤ) : Prop :=
  (∃ frame, finalizationAt = time.reportTime frame + gapAfterReport) ∨
    finalizationAt = requestTimestamp + 5 * 3600 * 24 * 1000 + gapAfterReport

/-- What is said to a call that was made at some time. -/
structure SaidSince (time : GenesisTimeService) (since : ℤ) (info : GetWaitingTimeInfoResult) :
    Prop where
  status : info.status ≠ .initializing
  since_le : ∀ requestInfo ∈ info.requestInfo, since ≤ requestInfo.finalizationAt
  report : ∀ requestInfo ∈ info.requestInfo, ∀ requestedAt ∈ requestInfo.requestedAt,
    ReportOrFiveDays time requestedAt requestInfo.finalizationAt

/-- What a call that was made at some time may be answered. -/
def AnsweredSince (time : GenesisTimeService) (since : ℤ)
    (response : Outcome GetWaitingTimeInfoResult) : Prop :=
  ReadsDefined response ∧ ∀ info, response = .ok info → SaidSince time since info

/-- What a call knows where it waits. -/
def Knows (time : GenesisTimeService) (since : ℤ) : Suspension → Prop
  | .checkingQueue _ requestId requests => ∃ request ∈ requests, request.id = requestId
  | .recalculating _ _ currentFrame _ => since < time.reportTime (currentFrame + 1)
  | .settling request _ settled =>
      since ≤ request.timestamp * 1000 + settled.finalizationIn ∧
        ReportOrFiveDays time (request.timestamp * 1000)
          (request.timestamp * 1000 + settled.finalizationIn)
  | .answered response => AnsweredSince time since response
  | _ => True

theorem answeredSince_ok {info : GetWaitingTimeInfoResult} (h : SaidSince time since info) :
    AnsweredSince time since (.ok info) :=
  ⟨readsDefined_ok info, fun _ hok => Except.ok.inj hok ▸ h⟩

/-- A response that promises nothing. -/
theorem saidSince_of_none {info : GetWaitingTimeInfoResult} (hstatus : info.status ≠ .initializing)
    (hnone : info.requestInfo = none) : SaidSince time since info where
  status := hstatus
  since_le requestInfo hmem := by
    rw [hnone] at hmem
    cases hmem
  report requestInfo hmem := by
    rw [hnone] at hmem
    cases hmem

/-- A segment that reads what is there. -/
theorem knows_ofOutcome {segment : Outcome Suspension} (hdefined : ReadsDefined segment)
    (h : ∀ suspension, segment = .ok suspension → Knows time since suspension) :
    Knows time since (.ofOutcome segment) := by
  cases segment with
  | error fault =>
      refine ⟨fun herror => hdefined ?_, nofun⟩
      exact congrArg Except.error (Except.error.inj herror)
  | ok suspension => exact h suspension rfl

variable {r : Readings} {state : BlockState} {request : WithdrawalRequest} {requestId : ℕ}
  {nextCalculationAt : ℤ}

/-- A delay that is promised is not negative. -/
theorem validateTimeResponseWithFallback_nonneg (ms : ℤ) :
    0 ≤ validateTimeResponseWithFallback ms := by
  unfold validateTimeResponseWithFallback
  split <;> omega

/-- An amount is promised a time after the clock. -/
theorem answeredSince_answerAmount (hnow : since ≤ now) (result : CalculateWaitingTimeV2Result) :
    AnsweredSince time since (r.answerAmount now nextCalculationAt result) := by
  refine ⟨Readings.readsDefined_answerAmount _ _, fun info h => ?_⟩
  obtain ⟨finalizationAt, hat, h⟩ := Outcome.bind_eq_ok.mp h
  obtain rfl := Outcome.pure_eq_ok.mp h
  obtain ⟨-, rfl⟩ := toISOString_eq_ok.mp hat
  have hdelay := validateTimeResponseWithFallback_nonneg
    (r.time.timeToWithdrawalFrame result.frame now)
  constructor
  case status =>
    intro heq
    cases heq
  case since_le =>
    intro requestInfo hmem
    rw [← Option.some.inj hmem]
    simp only [gapAfterReport]
    omega
  case report =>
    intro requestInfo hmem requestedAt hrequested
    rw [← Option.some.inj hmem] at hrequested
    cases hrequested

/-- The estimate for an unknown request is that for an amount, under another status. -/
theorem answeredSince_calculating {response : Outcome GetWaitingTimeInfoResult}
    (h : AnsweredSince time since response) :
    AnsweredSince time since (Readings.calculatingResult requestId <$> response) := by
  refine ⟨h.1.map _, fun info hok => ?_⟩
  obtain ⟨said, hsaid, rfl⟩ := Outcome.map_eq_ok.mp hok
  have hsince := h.2 said hsaid
  constructor
  case status =>
    intro heq
    cases heq
  case since_le =>
    intro requestInfo hmem
    obtain ⟨before, hbefore, rfl⟩ := Option.map_eq_some_iff.mp hmem
    exact hsince.since_le before hbefore
  case report =>
    intro requestInfo hmem
    obtain ⟨before, hbefore, rfl⟩ := Option.map_eq_some_iff.mp hmem
    exact hsince.report before hbefore

theorem answeredSince_answerRequest {settled : CheckInPastCaseResult}
    (h : Knows time since (.settling request nextCalculationAt settled)) :
    AnsweredSince time since (answerRequest now request nextCalculationAt settled) := by
  constructor
  · refine (readsDefined_toISOString _).bind fun _ _ => ?_
    exact (readsDefined_toISOString _).bind fun _ _ => readsDefined_ok _
  · intro info hok
    simp only [answerRequest, Outcome.bind_eq_ok, toISOString_eq_ok, Outcome.pure_eq_ok] at hok
    obtain ⟨_, ⟨-, rfl⟩, _, ⟨-, rfl⟩, rfl⟩ := hok
    constructor
    case status =>
      intro heq
      cases heq
    case since_le =>
      intro requestInfo hmem
      rw [← Option.some.inj hmem]
      exact h.1
    case report =>
      intro requestInfo hmem requestedAt hrequested
      rw [← Option.some.inj hmem] at hrequested ⊢
      rw [← Option.some.inj hrequested]
      exact h.2

/-- A delay that is not replaced is a report, one that is replaced is five days. -/
theorem reportOrFiveDays_finalizationDelay (frame : ℤ) :
    ReportOrFiveDays r.time (request.timestamp * 1000)
      (request.timestamp * 1000 + r.finalizationDelay request frame) := by
  rcases le_or_gt (request.timestamp * 1000 : ℤ) (r.time.reportTime frame) with hle | hlt
  · exact Or.inl ⟨frame, Readings.add_finalizationDelay_of_le hle⟩
  · exact Or.inr (Readings.add_finalizationDelay_of_lt hlt)

/-- An estimate that does not end in the past. -/
theorem knows_settling (hnow : since ≤ now) (type : WaitingTimeCalculationType) {frame : ℤ}
    (hpresent : ¬ Readings.isInPast now request (r.finalizationDelay request frame) = true) :
    Knows r.time since
      (.settling request nextCalculationAt ⟨type, r.finalizationDelay request frame⟩) := by
  rw [Readings.isInPast_iff, Readings.FrameInPast, not_lt] at hpresent
  exact ⟨hnow.trans hpresent, reportOrFiveDays_finalizationDelay frame⟩

theorem knows_checkInPast (hnow : since ≤ now) (estimate : CalculateWaitingTimeV2Result) :
    Knows r.time since
      (.ofOutcome (r.checkInPast now state request nextCalculationAt estimate)) := by
  apply knows_ofOutcome
  · refine (readsDefined_toNumber _).bind fun _ _ => ?_
    dsimp only
    split
    · exact (Readings.readsDefined_calculateWithdrawalFrame _).bind fun _ _ => readsDefined_ok _
    · exact readsDefined_ok _
  · intro suspension h
    obtain ⟨_, -, h⟩ := Outcome.bind_eq_ok.mp h
    dsimp only at h
    split at h
    case isTrue =>
      obtain ⟨recalculatedResult, -, h⟩ := Outcome.bind_eq_ok.mp h
      obtain rfl := Outcome.pure_eq_ok.mp h
      exact hnow.trans_lt (r.now_lt_reportTime_currentFrame_succ now)
    case isFalse hpresent =>
      obtain rfl := Outcome.pure_eq_ok.mp h
      exact knows_settling hnow _ hpresent

/-- The next report of the frame that was current is later than the call. -/
theorem knows_fallBack (hnow : since ≤ now) {currentFrame : ℤ}
    (hcurrent : since < r.time.reportTime (currentFrame + 1))
    (recalculatedResult : CalculateWaitingTimeV2Result) :
    Knows r.time since
      (r.fallBack now request nextCalculationAt currentFrame recalculatedResult) := by
  simp only [Readings.fallBack]
  split
  case isTrue =>
    have hreport : request.timestamp * 1000 +
        (r.time.timeToWithdrawalFrame (currentFrame + 1) (request.timestamp * 1000) +
          gapAfterReport) = r.time.reportTime (currentFrame + 1) + gapAfterReport := by
      rw [r.time.timeToWithdrawalFrame_of_seconds]
      omega
    refine ⟨?_, Or.inl ⟨currentFrame + 1, hreport⟩⟩
    rw [hreport]
    simp only [gapAfterReport]
    omega
  case isFalse hpresent => exact knows_settling hnow _ hpresent

theorem knows_estimateQueued {requests : List WithdrawalRequest}
    (h : ∃ request ∈ requests, request.id = requestId) :
    Knows time since (.ofOutcome (r.estimateQueued now state requestId requests)) := by
  obtain ⟨request, hmem, hid⟩ := h
  have hfound : (requests.find? fun item => decide (item.id = requestId)).isSome := by
    rw [List.find?_isSome]
    exact ⟨request, hmem, decide_eq_true hid⟩
  obtain ⟨found, hfind⟩ := Option.isSome_iff_exists.mp hfound
  apply knows_ofOutcome
  · simp only [Readings.estimateQueued, hfind]
    refine (readsDefined_toNumber _).bind fun _ _ => ?_
    exact (Readings.readsDefined_calculateWithdrawalFrame _).bind fun _ _ => readsDefined_ok _
  · intro suspension hok
    simp only [Readings.estimateQueued, hfind] at hok
    obtain ⟨_, -, hok⟩ := Outcome.bind_eq_ok.mp hok
    obtain ⟨_, -, hok⟩ := Outcome.bind_eq_ok.mp hok
    rw [← Outcome.pure_eq_ok.mp hok]
    trivial

/-- Whatever is stored when a call goes on, it knows what it needs where it waits next. -/
theorem knows_resume {memory : Memory} (hreadings : memory.stores.readings = .ok r)
    {reply : Reply Answer} (hnow : since ≤ reply.now) {suspension : Suspension}
    (h : Knows r.time since suspension) :
    Knows r.time since (resume suspension reply memory) := by
  unfold resume
  split
  · simp only [hreadings, Outcome.ok_bind]
    apply knows_ofOutcome
    · exact (Readings.readsDefined_estimateAmount _).bind fun _ _ => readsDefined_ok _
    · intro next hok
      obtain ⟨_, -, hok⟩ := Outcome.bind_eq_ok.mp hok
      rw [← Outcome.pure_eq_ok.mp hok]
      trivial
  · trivial
  · simp only [hreadings, Outcome.ok_bind]
    exact answeredSince_answerAmount hnow _
  · simp only [hreadings, Outcome.ok_bind]
    exact answeredSince_calculating (answeredSince_answerAmount hnow _)
  · simp only [hreadings, Outcome.ok_bind]
    exact knows_estimateQueued h
  · simp only [hreadings, Outcome.ok_bind]
    exact knows_checkInPast hnow _
  · simp only [hreadings, Outcome.ok_bind]
    exact knows_fallBack hnow h _
  · exact answeredSince_answerRequest h
  · exact h

/-! ## The start of a call -/

/-- An id that is neither before the queue nor in it is not in the queue yet. -/
theorem lastRequestId_le_of_not_mem {statusOf : ℕ → QueueInfoService.WithdrawalStatus}
    {store : QueueInfoStorageService} {count : ℕ}
    (hqueue : QueueInfoService.HoldsQueue statusOf store r.lastRequestId count)
    (hrequests : store.requests = r.requests) (hprecedes : ¬ r.PrecedesQueue requestId)
    (hmem : ¬ ∃ request ∈ r.requests, request.id = requestId) : r.lastRequestId ≤ requestId := by
  obtain ⟨hempty, hfirst⟩ := not_or.mp hprecedes
  have hids := hqueue.ids
  rw [hrequests] at hids
  by_contra hlt
  cases hlist : r.requests with
  | nil => exact hempty ⟨hlist, not_le.mp hlt⟩
  | cons first rest =>
      have hle : first.id ≤ requestId := by
        by_contra hbefore
        exact hfirst ⟨first, by rw [hlist]; rfl, not_le.mp hbefore⟩
      have hcount : count = rest.length + 1 := by
        rw [← hqueue.length, hrequests, hlist, List.length_cons]
      have hhead : first.id = r.lastRequestId + 1 - count := by
        rw [hlist, hcount, List.map_cons, List.range'_succ] at hids
        rw [hcount]
        exact (List.cons.inj hids).1
      have hlisted : requestId ∈ r.requests.map WithdrawalRequest.id := by
        rw [hids, List.mem_range'_1]
        omega
      exact hmem (List.mem_map.mp hlisted)

theorem knows_checkQueue {statusOf : ℕ → QueueInfoService.WithdrawalStatus} {memory : Memory}
    {last count : ℕ}
    (hqueue : QueueInfoService.HoldsQueue statusOf memory.stores.queueInfo last count)
    (hreadings : memory.stores.readings = .ok r) :
    Knows time since (.ofOutcome (r.checkQueue now state requestId)) := by
  obtain ⟨-, -, hrequests, hlast⟩ := Stores.stored_of_readings hreadings
  obtain rfl : last = r.lastRequestId := Option.some.inj (hqueue.lastRequestId.symm.trans hlast)
  by_cases hprecedes : r.PrecedesQueue requestId
  · rw [Readings.checkQueue_of_precedesQueue hprecedes]
    exact answeredSince_ok (saidSince_of_none nofun rfl)
  · rw [Readings.checkQueue_of_not_precedesQueue hprecedes]
    split
    case isTrue =>
      apply knows_ofOutcome ((Readings.readsDefined_estimateAmount _).map _)
      intro suspension hok
      obtain ⟨_, -, rfl⟩ := Outcome.map_eq_ok.mp hok
      trivial
    case isFalse hknown =>
      by_contra hmem
      refine hknown ⟨?_, lastRequestId_le_of_not_mem hqueue hrequests hprecedes hmem⟩
      rw [List.find?_eq_none]
      intro request hlisted hid
      exact hmem ⟨request, hlisted, of_decide_eq_true hid⟩

theorem knows_start {statusOf : ℕ → QueueInfoService.WithdrawalStatus} {memory : Memory}
    {last count : ℕ}
    (hqueue : QueueInfoService.HoldsQueue statusOf memory.stores.queueInfo last count)
    (hopen : memory.stores.isInitialized = true) (hreadings : memory.stores.readings = .ok r)
    (call : Reply Call) : Knows time since (start call memory) := by
  simp only [start, if_pos hopen, hreadings, Outcome.ok_bind]
  cases call.answer with
  | getWaitingTimeInfo amount => trivial
  | getWaitingTimeInfoById state requestId => exact knows_checkQueue hqueue hreadings

end WaitingTimeService

/-! ## Every run -/

/-- The service with the calls that are made to it. -/
abbrev Service := Job.State (Job.withReaders jobs fun _ : ℕ => waitingTimeCall)

namespace Service

open WaitingTimeService

abbrev Event := Job.Event (Job.withReaders jobs fun _ : ℕ => waitingTimeCall)

/-- The service at its start. -/
def boot (genesisTime : ℤ) (cacheFile : Option (List Char)) : Service :=
  .idle _ { stores := { genesisTime }, cacheFile }

/-- The occurrences for the jobs. -/
def jobEvents (events : List Event) : List System.Event := events.filterMap Job.Event.ofJobs

/-- A call is made. -/
def begin (call : ℕ) (asked : Reply Call) : Event := .start (.inr call) asked

/-- Each time a call goes on, the clock is not before its start, and the frame
configuration is the same. -/
def GoesOn (call : ℕ) (since : ℤ) (time : GenesisTimeService) (s : Service) : Event → Prop
  | .resume (.inr other) (⟨now, _⟩ : Reply Answer) =>
      other = call → since ≤ now ∧ s.shared.stores.time? = some time
  | _ => True

instance (call : ℕ) (since : ℤ) (time : GenesisTimeService) (s : Service) :
    (event : Event) → Decidable (GoesOn call since time s event)
  | .resume (.inr other) (⟨now, _⟩ : Reply Answer) => inferInstanceAs
      (Decidable (other = call → since ≤ now ∧ s.shared.stores.time? = some time))
  | .resume (.inl _) _ => .isTrue trivial
  | .start _ _ => .isTrue trivial

/-- The numbers are natural and the gate is open. -/
def Readable (genesisTime : ℤ) (s : System) : Prop :=
  (System.naturalOutline genesisTime).Holds s ∧ s.shared.stores.isInitialized = true

theorem readable_step {genesisTime : ℤ} (s : System) (event : System.Event)
    (hevent : System.Timely genesisTime event ∧ event.job ≠ .initializeFromCache)
    (h : Readable genesisTime s) : Readable genesisTime (s.step event) :=
  ⟨(System.naturalOutline genesisTime).holds_step s event hevent.1 h.1,
    System.isInitialized_step s event hevent h.2⟩

theorem Readable.exists_readings {genesisTime : ℤ} {s : System} (h : Readable genesisTime s) :
    ∃ r, s.shared.stores.readings = .ok r := by
  obtain ⟨hready, hnatural⟩ := h.1.invariant
  obtain ⟨r, hreadings, -⟩ := System.exists_readings hready hnatural h.2
  exact ⟨r, hreadings⟩

theorem ofJobs_run_boot (genesisTime : ℤ) (cacheFile : Option (List Char)) (events : List Event) :
    ((boot genesisTime cacheFile).run events).ofJobs =
      (System.boot genesisTime cacheFile).run (jobEvents events) :=
  Job.State.ofJobs_run _ events

/-- What a call knows, it knows throughout a run. -/
theorem knows_run {genesisTime : ℤ} {s : Service} {events : List Event}
    (hreadable : Readable genesisTime s.ofJobs)
    (hevents : ∀ event ∈ jobEvents events,
      System.Timely genesisTime event ∧ event.job ≠ .initializeFromCache)
    {call : ℕ} {since : ℤ} {time : GenesisTimeService}
    (hgoesOn : Job.State.Meets (GoesOn call since time) s events)
    (h : s.Reads call (Knows time since)) : (s.run events).Reads call (Knows time since) := by
  have hmeets := (Job.State.meets_ofJobs readable_step (Job.State.meets_of_forall hevents)
    hreadable).and hgoesOn
  refine Job.State.reads_run ?_ hmeets h
  intro s answer suspension hcondition hknows
  obtain ⟨hreadable, hgoes⟩ := hcondition
  obtain ⟨r, hreadings⟩ := hreadable.exists_readings
  obtain ⟨hnow, hconfig⟩ := hgoes rfl
  obtain ⟨htime, -⟩ := Stores.stored_of_readings hreadings
  obtain rfl : r.time = time := Option.some.inj (htime.symm.trans hconfig)
  exact knows_resume hreadings hnow hknows

/-- An open gate means that a tick of the queue job has reached its end. -/
theorem storesQueue_of_openGate (genesisTime : ℤ) {cacheFile : Option (List Char)}
    {statusOf : ℕ → QueueInfoService.WithdrawalStatus} {events : List System.Event}
    (hanswers : Job.State.Meets (System.AnswersQueue statusOf)
      (System.boot genesisTime cacheFile) events)
    (hopen : ((System.boot genesisTime cacheFile).run events).shared.stores.isInitialized = true) :
    System.StoresQueue statusOf ((System.boot genesisTime cacheFile).run events) := by
  obtain ⟨hunchanged, hstored⟩ := System.queueInfo_run hanswers
    (System.queueOutline_boot genesisTime cacheFile)
  refine hstored (Or.inl fun hnone => ?_)
  have hclosed := hunchanged hnone
  simp only [Stores.isInitialized, hclosed] at hopen
  revert hopen
  simp [System.boot, Job.State.idle, truthyInteger]

/-- **Every call is answered with what is there, and never into the past**: when the gate
has let a call through, then whatever the jobs do until it is answered, no value that it
reads is missing, it is not told that the service initializes, and what it is promised
does not lie before it was made. A request of the queue is promised a report, or the five
days that replace a negative delay. -/
theorem answeredSince_of_openGate (genesisTime : ℤ) {cacheFile : Option (List Char)}
    (hcache : ∀ content, cacheFile = some content → IsNaturalContent content)
    {statusOf : ℕ → QueueInfoService.WithdrawalStatus} {first second : List Event}
    (htimely : ∀ event ∈ jobEvents (first ++ second), System.Timely genesisTime event)
    (hloaded : ∀ event ∈ jobEvents second, event.job ≠ .initializeFromCache)
    (hanswers : Job.State.Meets (System.AnswersQueue statusOf)
      (System.boot genesisTime cacheFile) (jobEvents first))
    (hopen : ((boot genesisTime cacheFile).run first).shared.stores.isInitialized = true)
    {call : ℕ} (hfree : ((boot genesisTime cacheFile).run first).reading call = none)
    (asked : Reply Call) {time : GenesisTimeService}
    (hgoesOn : Job.State.Meets (GoesOn call asked.now time)
      (((boot genesisTime cacheFile).run first).step (begin call asked)) second)
    {response : Outcome GetWaitingTimeInfoResult}
    (hanswered : response ∈ (((boot genesisTime cacheFile).run
      (first ++ begin call asked :: second)).reading call).bind Suspension.response?) :
    AnsweredSince time asked.now response := by
  have htimely' (event : System.Event) (hmem : event ∈ jobEvents first ∨ event ∈ jobEvents second) :
      System.Timely genesisTime event := by
    apply htimely
    rw [jobEvents, List.filterMap_append, List.mem_append]
    exact hmem
  have hjobs := ofJobs_run_boot genesisTime cacheFile first
  have hreadable : Readable genesisTime ((boot genesisTime cacheFile).run first).ofJobs := by
    refine ⟨?_, hopen⟩
    rw [hjobs]
    exact (System.naturalOutline genesisTime).holds_run
      (Job.State.meets_of_forall fun event hmem => htimely' event (Or.inl hmem))
      (System.natural_boot genesisTime hcache)
  obtain ⟨r, hreadings⟩ := hreadable.exists_readings
  have hstores : System.StoresQueue statusOf ((boot genesisTime cacheFile).run first).ofJobs := by
    rw [hjobs]
    apply storesQueue_of_openGate genesisTime hanswers
    rw [← hjobs]
    exact hopen
  obtain ⟨last, count, hqueue⟩ := hstores
  have hbegun : (((boot genesisTime cacheFile).run first).step (begin call asked)).Reads call
      (Knows time asked.now) :=
    Job.State.reads_start hfree (knows_start hqueue hopen hreadings asked)
  have hsame : (((boot genesisTime cacheFile).run first).step (begin call asked)).ofJobs =
      ((boot genesisTime cacheFile).run first).ofJobs := Job.State.ofJobs_step _ _
  rw [← hsame] at hreadable
  obtain ⟨suspension, hreading, hknows⟩ := knows_run hreadable
    (fun event hmem => ⟨htimely' event (Or.inr hmem), hloaded event hmem⟩) hgoesOn hbegun
  rw [Job.State.run_append, Job.State.run_cons, hreading] at hanswered
  cases suspension with
  | answered said =>
      obtain rfl := Option.some.inj hanswered
      exact hknows
  | _ => cases hanswered

/-- A start from the cache file, with nobody asking. -/
def started : List Event := System.sampleStartup.map Job.Event.beside

/-- The call goes on. -/
def goOn (call : ℕ) (now : ℤ) : Event := .resume (.inr call) (⟨now, .settled⟩ : Reply Answer)

/-- A tick of the queue job finds that everything has been finalized, while a call about
the last request is answered. -/
def finalizedMeanwhile : List Event :=
  [Job.Event.beside (.start .updateQueueInfo ()), goOn 0 10000001,
    Job.Event.beside (System.answerQueue
      (.queue { QueueInfoService.sampleQueue with unfinalizedRequests := 0 })),
    goOn 0 10000002, goOn 0 10000003]

/-- The frame configuration of the start. -/
def sampleTime : GenesisTimeService where
  genesisTime := 0
  initialEpoch := 5
  epochsPerFrame := 180
  epochsPerFrame_pos := by decide

/-- A question about the last request. -/
def aboutFifth : Reply Call := ⟨10000000, .getWaitingTimeInfoById ⟨10 ^ 18, 2 * 10 ^ 18, 0⟩ 5⟩

/-- What it is answered: the report that was estimated first. -/
def fifthPromised : GetWaitingTimeInfoResult where
  requestInfo := some {
    finalizationIn := 62839997
    finalizationAt := 72840000
    requestId := some 5
    requestedAt := some 9500000
    type := .buffer }
  status := .calculated
  nextCalculationAt := some 10300000

theorem answeredSince_of_openGate_finalizedMeanwhile :
    AnsweredSince sampleTime 10000000 (.ok fifthPromised) :=
  have hcache (content : List Char) (hcontent : some System.sampleCacheFile = some content) :
      IsNaturalContent content := by
    rw [← Option.some.inj hcontent]
    exact System.isNaturalContent_sampleCacheFile
  have hanswers : Job.State.Meets (System.AnswersQueue fun _ => ⟨10 ^ 18, 9500⟩)
      (System.boot 0 (some System.sampleCacheFile)) (jobEvents started) := by decide +kernel
  have hfree : ((boot 0 (some System.sampleCacheFile)).run started).reading 0 = none := by
    have hnone : (((boot 0 (some System.sampleCacheFile)).run started).reading 0).isNone := by
      decide +kernel
    exact Option.isNone_iff_eq_none.mp hnone
  have hanswered : .ok fifthPromised ∈ (((boot 0 (some System.sampleCacheFile)).run
      (started ++ begin 0 aboutFifth :: finalizedMeanwhile)).reading 0).bind
        Suspension.response? := by decide +kernel
  answeredSince_of_openGate 0 hcache (by decide +kernel) (by decide +kernel) hanswers
    (by decide +kernel) hfree aboutFifth (by decide +kernel) hanswered

end Service

end WithdrawalsApi
