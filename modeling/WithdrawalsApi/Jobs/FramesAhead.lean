/-
# A table of frames to come

Estimates compare the frames of the table with the clock, and nothing prunes a
table as time goes by. What keeps it from holding frames that are over is that the
jobs replace it: whatever two jobs that sum up tables do to each other, a table is
stored with frames that lie behind the clock at which its job has begun to count.

So once a full update that has begun in a frame is over, the table holds no frame
that is over until this frame is, and until then every answer is a report. The
frame configuration must not change meanwhile: frames of two configurations cannot
be compared.
-/

import WithdrawalsApi.Jobs.FrameTable
import WithdrawalsApi.Jobs.System
import WithdrawalsApi.Sweep.Timestamp
import WithdrawalsApi.WaitingTime.LaterClock

namespace WithdrawalsApi

open Js Math ValidatorsService

/-! ## Projections behind the clock -/

/-- A projection is later than the clock, whatever the counts: counts by which the
share of active validators is no positive number give no time. -/
theorem now_lt_of_getValidatorWithdrawalTimestamp {validatorIndex : ℕ}
    {sweepState : WithdrawalSweepState} {total : Option ℕ} {active : Option JsNumber}
    {currentEpoch : ℤ} {withdrawableEpoch : ℕ} {nowMs timestamp : ℤ}
    (h : getValidatorWithdrawalTimestamp validatorIndex sweepState total active currentEpoch
      withdrawableEpoch nowMs = .ok (some timestamp)) : nowMs < timestamp := by
  cases hshare : percentOfActiveValidators active total with
  | none =>
      simp only [getValidatorWithdrawalTimestamp, hshare, Option.map_none, Outcome.bind_eq_ok,
        Outcome.pure_eq_ok, reduceCtorEq, and_false, exists_false] at h
  | some ratio =>
      simp only [percentOfActiveValidators, Option.bind_eq_bind, Option.bind_eq_some_iff,
        Option.ite_none_left_eq_some, not_or] at hshare
      obtain ⟨activeCount, ⟨number, rfl, hnumber⟩, totalCount, rfl, hpos, -⟩ := hshare
      have hfinite : getValidatorWithdrawalTimestamp validatorIndex sweepState (some totalCount)
          (some (.finite activeCount)) currentEpoch withdrawableEpoch nowMs =
            .ok (some timestamp) := by
        rw [← h]
        simp only [getValidatorWithdrawalTimestamp, percentOfActiveValidators, Option.bind_some,
          hnumber, JsNumber.natural?_natCast, Option.bind_eq_bind]
      obtain ⟨later, hlater, hlt⟩ := lt_of_getValidatorWithdrawalTimestamp_eq_ok
        (Nat.pos_of_ne_zero hpos.2) (Nat.pos_of_ne_zero hpos.1) hfinite
      exact Option.some.inj hlater ▸ hlt

/-! ## Frames behind a frame -/

/-- The configuration, the table and the queue that readings are taken from. -/
theorem Stores.stored_of_readings {stores : Stores} {r : Readings}
    (h : stores.readings = .ok r) :
    stores.time? = some r.time ∧ stores.validators.frameBalances = some r.frameBalances ∧
      stores.queueInfo.requests = r.requests ∧
      stores.queueInfo.lastRequestId = some r.lastRequestId := by
  have hdefined {α : Type} {value : Option α} {result : α} (hread : defined value = .ok result) :
      value = some result := by
    cases value with
    | none => cases hread
    | some stored => exact congrArg some (Except.ok.inj hread)
  obtain ⟨initialEpoch, hinitial, h⟩ := Outcome.bind_eq_ok.mp h
  obtain ⟨epochsPerFrame, hepochs, h⟩ := Outcome.bind_eq_ok.mp h
  obtain ⟨epochsPerFrameVEBO, -, h⟩ := Outcome.bind_eq_ok.mp h
  obtain ⟨margin, -, h⟩ := Outcome.bind_eq_ok.mp h
  obtain ⟨cap, -, h⟩ := Outcome.bind_eq_ok.mp h
  obtain ⟨maxExitEpoch, -, h⟩ := Outcome.bind_eq_ok.mp h
  obtain ⟨sweepMeanEpochs, -, h⟩ := Outcome.bind_eq_ok.mp h
  obtain ⟨churnLimit, -, h⟩ := Outcome.bind_eq_ok.mp h
  obtain ⟨frameBalances, htable, h⟩ := Outcome.bind_eq_ok.mp h
  obtain ⟨lastRequestId, hlast, h⟩ := Outcome.bind_eq_ok.mp h
  obtain ⟨nextUpdate, -, h⟩ := Outcome.bind_eq_ok.mp h
  obtain ⟨bunkerModeActive, -, h⟩ := Outcome.bind_eq_ok.mp h
  rw [← Outcome.pure_eq_ok.mp h, hdefined htable, hdefined hlast, Stores.time?, hdefined hinitial,
    hdefined hepochs]
  exact ⟨rfl, rfl, rfl, rfl⟩

instance : DecidableEq GenesisTimeService := fun first second =>
  decidable_of_iff (first.genesisTime = second.genesisTime ∧
      first.initialEpoch = second.initialEpoch ∧ first.epochsPerFrame = second.epochsPerFrame) (by
    cases first
    cases second
    simp)

/-- The frame of a clock. -/
def GenesisTimeService.frameAt (time : GenesisTimeService) (now : ℤ) : ℤ :=
  time.getFrameOfEpoch (time.getCurrentEpoch now)

/-- A contribution goes to a frame behind that of the clock it is estimated at. -/
theorem frameAt_lt_of_contribution {stores : Stores} {time : GenesisTimeService}
    (htime : stores.time? = some time) {estimate : Estimate} {sweepState : WithdrawalSweepState}
    {item : IndexedValidator} {row : Contribution}
    (h : contribution stores estimate sweepState item = .ok row) :
    ∀ frame ∈ row.frame, time.frameAt estimate.now < frame := by
  intro frame hframe
  obtain ⟨timestamp?, htimestamp, hrow⟩ := Outcome.bind_eq_ok.mp h
  obtain rfl := Outcome.pure_eq_ok.mp hrow
  obtain ⟨reached, hreached, rfl⟩ := Option.map_eq_some_iff.mp hframe
  cases timestamp? with
  | none => simp [Stores.getFrameByTimestamp] at hreached
  | some timestamp =>
      rw [Stores.getFrameByTimestamp_of_time? htime, Option.some.injEq,
        time.getFrameByTimestamp_eq] at hreached
      have hlater := now_lt_of_getValidatorWithdrawalTimestamp htimestamp
      rw [← hreached]
      exact Int.lt_add_one_iff.mpr (time.getFrameOfEpoch_mono (time.getCurrentEpoch_mono hlater.le))

/-- All that has been counted goes to frames behind a frame. -/
def TallyAhead (frame : ℤ) (tally : Tally) : Prop :=
  ∀ contribution ∈ tally.contributions, ∀ reached ∈ contribution.frame, frame < reached

theorem tallyAhead_empty (frame : ℤ) : TallyAhead frame Tally.empty := by
  intro contribution hmem
  cases hmem

theorem TallyAhead.add {frame : ℤ} {tally : Tally} (h : TallyAhead frame tally)
    {row : Contribution} (hrow : ∀ reached ∈ row.frame, frame < reached) :
    TallyAhead frame (tally.add row) := by
  intro contribution hmem
  rcases List.mem_append.mp hmem with hcounted | hadded
  · exact h contribution hcounted
  · rw [List.mem_singleton.mp hadded]
    exact hrow

/-- The stored table holds only frames behind a frame. -/
def TableAhead (frame : ℤ) (memory : Memory) : Prop :=
  ∀ table ∈ memory.stores.validators.frameBalances, ∀ row ∈ table.rows, frame < row.1

/-- A frame is read off its name. -/
theorem number?_frameKey (frame : Option ℤ) : (frameKey frame).number? = frame := by
  cases frame with
  | some frame => rfl
  | none => decide

theorem TallyAhead.rows {frame : ℤ} {tally : Tally} (h : TallyAhead frame tally) :
    ∀ row ∈ tally.frameBalances.rows, frame < row.1 := by
  intro row hrow
  rw [tally.frameBalances_eq] at hrow
  obtain ⟨key, hnumber, hentry⟩ := Js.Record.mem_rows.mp hrow
  obtain ⟨contribution, hmem, hkey⟩ := exists_contribution_of_mem_frameTable hentry
  obtain rfl : key = frameKey contribution.frame := hkey
  rw [number?_frameKey] at hnumber
  exact h contribution hmem row.1 hnumber

/-- A table that is stored from a tally. -/
theorem TableAhead.of_tally {frame : ℤ} {memory : Memory} {tally : Tally}
    (htable : memory.stores.validators.frameBalances = some tally.frameBalances)
    (h : TallyAhead frame tally) : TableAhead frame memory := by
  intro table hmem
  rw [htable] at hmem
  obtain rfl := Option.some.inj hmem
  exact h.rows

namespace System

/-! ## What the jobs have counted -/

variable {time : GenesisTimeService} {frame : ℤ} {memory : Memory} {completed : ℕ}

/-- What the full update knows where it is suspended. -/
def updateAhead (time : GenesisTimeService) (frame : ℤ) :
    Option UpdateValidators.Suspension → Memory → Prop
  | some (.fetchingSweepState _ _ estimate), _ => frame ≤ time.frameAt estimate.now
  | some (.summing _ estimate _ _ tally _), _ =>
      frame ≤ time.frameAt estimate.now ∧ TallyAhead frame tally
  | some (.storedFrameBalances _ _ _), memory => TableAhead frame memory
  | some (.creatingCacheDirectory _), memory => TableAhead frame memory
  | some (.writingCache _ _), memory => TableAhead frame memory
  | _, _ => True

/-- What the refresh knows where it is suspended. -/
def refreshAhead (time : GenesisTimeService) (frame : ℤ) :
    Option UpdateLidoWithdrawableValidators.Suspension → Prop
  | some (.fetchingSweepState _ estimate) => frame ≤ time.frameAt estimate.now
  | some (.fetchingBatch _ estimate _ _ tally) =>
      frame ≤ time.frameAt estimate.now ∧ TallyAhead frame tally
  | none => True

theorem updateAhead_of_keeps {suspended : Option UpdateValidators.Suspension}
    {before after : Memory} (hkeeps : TableAhead frame before → TableAhead frame after)
    (h : updateAhead time frame suspended before) : updateAhead time frame suspended after := by
  unfold updateAhead at h ⊢
  split
  · exact h
  · exact h
  · exact hkeeps h
  · exact hkeeps h
  · exact hkeeps h
  · trivial

/-- What a segment has to do with the table. With more than so many completed updates
it is ahead. -/
structure KeepsAhead (frame : ℤ) (completed : ℕ) (before after : Memory) : Prop where
  completed : (completed < before.history.completedUpdates → TableAhead frame before) →
    completed < after.history.completedUpdates → TableAhead frame after
  keeps : TableAhead frame before → TableAhead frame after

theorem KeepsAhead.of_table {before after : Memory} (h : TableAhead frame after) :
    KeepsAhead frame completed before after :=
  ⟨fun _ _ => h, fun _ => h⟩

theorem KeepsAhead.of_unwritten {before after : Memory}
    (htable : after.stores.validators.frameBalances = before.stores.validators.frameBalances)
    (hcount : after.history.completedUpdates = before.history.completedUpdates) :
    KeepsAhead frame completed before after := by
  have hkeeps (h : TableAhead frame before) : TableAhead frame after := by
    unfold TableAhead
    rw [htable]
    exact h
  refine ⟨fun hcompleted hafter => hkeeps (hcompleted ?_), hkeeps⟩
  rwa [← hcount]

/-! ### The segments -/

theorem keepsAhead_countNext {before : Memory}
    (htable : memory.stores.validators.frameBalances = before.stores.validators.frameBalances)
    (hcount : memory.history.completedUpdates = before.history.completedUpdates)
    (update : Update) (rest : List IndexedValidator) :
    let segment := countNext update rest memory
    KeepsAhead frame completed before segment.1 ∧ updateAhead time frame segment.2 segment.1 := by
  cases rest with
  | nil => exact ⟨.of_unwritten htable hcount, trivial⟩
  | cons item rest => exact ⟨.of_unwritten htable hcount, trivial⟩

theorem keepsAhead_sumNext (htime : memory.stores.time? = some time) (update : Update)
    {estimate : Estimate} (hestimate : frame ≤ time.frameAt estimate.now)
    (sweepState : WithdrawalSweepState) (rest : List IndexedValidator) {tally : Tally}
    (htally : TallyAhead frame tally) (ids : List ℕ) :
    let segment := sumNext update estimate sweepState rest tally ids memory
    KeepsAhead frame completed memory segment.1 ∧ updateAhead time frame segment.2 segment.1 := by
  cases rest with
  | nil =>
      have htable : TableAhead frame (storeFrameBalances tally ids memory) := .of_tally rfl htally
      exact ⟨.of_table htable, htable⟩
  | cons item rest =>
      simp only [sumNext]
      split
      · split
        next row hrow =>
          have hahead := frameAt_lt_of_contribution htime hrow
          refine ⟨.of_unwritten rfl rfl, hestimate, htally.add fun reached hreached => ?_⟩
          exact hestimate.trans_lt (hahead reached hreached)
        next => exact ⟨.of_unwritten rfl rfl, trivial⟩
      · exact ⟨.of_unwritten rfl rfl, hestimate, htally⟩

/-- A segment of the full update. -/
theorem keepsAhead_update (htime : memory.stores.time? = some time)
    (suspension : UpdateValidators.Suspension) {reply : Reply UpdateValidators.Answer}
    (hnow : frame ≤ time.frameAt reply.now)
    (h : updateAhead time frame (some suspension) memory) :
    let segment := resumeUpdateValidators suspension reply memory
    KeepsAhead frame completed memory segment.1 ∧ updateAhead time frame segment.2 segment.1 := by
  unfold resumeUpdateValidators
  split
  · exact ⟨.of_unwritten rfl rfl, trivial⟩
  · split
    next => exact keepsAhead_countNext (by rfl) (by rfl) _ _
    next => exact ⟨.of_unwritten rfl rfl, trivial⟩
  · exact keepsAhead_countNext rfl rfl _ _
  · exact ⟨.of_unwritten rfl rfl, hnow⟩
  · split
    next sweepState _ => exact keepsAhead_sumNext htime _ h sweepState _ (tallyAhead_empty frame) []
    next => exact ⟨.of_unwritten rfl rfl, trivial⟩
  · exact keepsAhead_sumNext htime _ h.1 _ _ h.2 _
  · exact ⟨.of_unwritten rfl rfl, h⟩
  · split
    next => exact ⟨.of_unwritten rfl rfl, h⟩
    next => exact ⟨.of_unwritten rfl rfl, trivial⟩
  · exact ⟨.of_table h, trivial⟩
  · exact ⟨.of_unwritten rfl rfl, trivial⟩
  · exact ⟨.of_unwritten rfl rfl, trivial⟩

theorem tallyAhead_addBatch (htime : memory.stores.time? = some time) {estimate : Estimate}
    (hestimate : frame ≤ time.frameAt estimate.now) {sweepState : WithdrawalSweepState}
    {batch : List ℕ} {data : List IndexedValidator} {tally result : Tally}
    (hadd : addBatch memory.stores estimate sweepState batch data tally = .ok result)
    (h : TallyAhead frame tally) : TallyAhead frame result := by
  induction batch generalizing data tally with
  | nil =>
      cases hadd
      exact h
  | cons id batch ih =>
      cases data with
      | nil => cases hadd
      | cons stateValidator data =>
          obtain ⟨row, hrow, hrest⟩ := Outcome.bind_eq_ok.mp hadd
          have hahead := frameAt_lt_of_contribution htime hrow
          exact ih hrest
            (h.add fun reached hreached => hestimate.trans_lt (hahead reached hreached))

theorem keepsAhead_nextBatch (validatorIds : List ℕ) {estimate : Estimate}
    (hestimate : frame ≤ time.frameAt estimate.now) (sweepState : WithdrawalSweepState) (i : ℕ)
    {tally : Tally} (htally : TallyAhead frame tally) (memory : Memory) :
    let segment := nextBatch validatorIds estimate sweepState i tally memory
    KeepsAhead frame completed memory segment.1 ∧ refreshAhead time frame segment.2 := by
  rcases nextBatch_cases validatorIds estimate sweepState i tally memory with
    ⟨-, hnext⟩ | ⟨-, hnext⟩
  · rw [hnext]
    exact ⟨.of_unwritten rfl rfl, hestimate, htally⟩
  · rw [hnext]
    exact ⟨.of_table (.of_tally rfl htally), trivial⟩

/-- A segment of the refresh. -/
theorem keepsAhead_refresh (htime : memory.stores.time? = some time)
    (suspension : UpdateLidoWithdrawableValidators.Suspension)
    (reply : Reply UpdateLidoWithdrawableValidators.Answer)
    (h : refreshAhead time frame (some suspension)) :
    let segment := resumeUpdateLidoWithdrawableValidators suspension reply memory
    KeepsAhead frame completed memory segment.1 ∧ refreshAhead time frame segment.2 := by
  unfold resumeUpdateLidoWithdrawableValidators
  split
  · split
    next => exact keepsAhead_nextBatch _ h _ _ (tallyAhead_empty frame) memory
    next => exact ⟨.of_unwritten rfl rfl, trivial⟩
  · split
    next hadd =>
      exact keepsAhead_nextBatch _ h.1 _ _ (tallyAhead_addBatch htime h.1 hadd h.2) memory
    next => exact ⟨.of_unwritten rfl rfl, trivial⟩
  · exact ⟨.of_unwritten rfl rfl, trivial⟩

/-! ## Every run -/

/-- A step that begins in a frame or later, after the cache file has been read, and
leaves the frame configuration as it is. -/
structure Within (time : GenesisTimeService) (frame : ℤ) (s : System) (event : Event) : Prop where
  clock : ∀ now ∈ clock? event, frame ≤ time.frameAt now
  load : event.job ≠ .initializeFromCache
  time : (s.step event).shared.stores.time? = some time

theorem within_iff {s : System} {event : Event} :
    Within time frame s event ↔ (∀ now ∈ clock? event, frame ≤ time.frameAt now) ∧
      event.job ≠ .initializeFromCache ∧ (s.step event).shared.stores.time? = some time :=
  ⟨fun h => ⟨h.clock, h.load, h.time⟩, fun h => ⟨h.1, h.2.1, h.2.2⟩⟩

instance (s : System) (event : Event) : Decidable (Within time frame s event) :=
  decidable_of_iff _ within_iff.symm

/-- What a job in flight has counted is ahead. -/
def aheadAsserts (time : GenesisTimeService) (frame : ℤ) :
    (job : JobName) → Option (jobs job).Suspension → Memory → Prop
  | .updateValidators => updateAhead time frame
  | .updateLidoWithdrawableValidators => fun suspended _ => refreshAhead time frame suspended
  | .initializeFromCache => fun _ _ => True
  | .updateQueueInfo => fun _ _ => True
  | .updateContractConfig => fun _ _ => True

theorem ahead_segment {s : System} {event : Event} {job : JobName}
    {segment : Memory × Option (jobs job).Suspension} (hwithin : Within time frame s event)
    (hruns : s.Runs event job segment) (htime : s.shared.stores.time? = some time)
    (hasserts : aheadAsserts time frame job (s.suspended job) s.shared) :
    KeepsAhead frame completed s.shared segment.1 ∧
      aheadAsserts time frame job segment.2 segment.1 := by
  have hother (hupdate : job ≠ .updateValidators)
      (hrefresh : job ≠ .updateLidoWithdrawableValidators) :
      KeepsAhead frame completed s.shared segment.1 := by
    rcases other_writes hruns hupdate with ⟨hvalidators, hhistory⟩ | hload | ⟨hjob, -⟩
    · exact .of_unwritten (by rw [hvalidators]) (by rw [hhistory])
    · exact absurd (hruns.job_eq.trans hload) hwithin.load
    · exact absurd hjob hrefresh
  cases hruns with
  | @start job input hidle =>
      cases job with
      | updateLidoWithdrawableValidators =>
          exact ⟨.of_unwritten rfl rfl, hwithin.clock _ rfl⟩
      | _ => exact ⟨.of_unwritten rfl rfl, trivial⟩
  | @resume job answer suspension hsuspended =>
      rw [hsuspended] at hasserts
      cases job with
      | initializeFromCache => exact absurd rfl hwithin.load
      | updateValidators =>
          exact keepsAhead_update htime suspension (hwithin.clock _ rfl) hasserts
      | updateLidoWithdrawableValidators =>
          exact keepsAhead_refresh htime suspension answer hasserts
      | updateQueueInfo => exact ⟨hother (by decide) (by decide), trivial⟩
      | updateContractConfig => exact ⟨hother (by decide) (by decide), trivial⟩

/-- A table that is stored in a frame or later is ahead of it. -/
def aheadOutline (time : GenesisTimeService) (frame : ℤ) (completed : ℕ) :
    Job.Outline jobs (Within time frame) where
  invariant memory := memory.stores.time? = some time ∧
    (completed < memory.history.completedUpdates → TableAhead frame memory)
  asserts := aheadAsserts time frame
  commits _ := KeepsAhead frame completed
  segment hwithin hruns h hasserts := by
    obtain ⟨hkeeps, hafter⟩ := ahead_segment hwithin hruns h.1 hasserts
    have htime := hwithin.time
    rw [hruns.step_shared] at htime
    exact ⟨⟨htime, hkeeps.completed h.2⟩, hafter, hkeeps⟩
  stable := by
    intro job other _ suspended before after hasserts hkeeps
    cases job with
    | updateValidators => exact updateAhead_of_keeps hkeeps.keeps hasserts
    | updateLidoWithdrawableValidators => exact hasserts
    | initializeFromCache => trivial
    | updateQueueInfo => trivial
    | updateContractConfig => trivial

/-- Once a full update that has begun in a frame is over, the readings hold no frame
that is over until this frame is. -/
theorem rows_ahead_of_updated {events : List Event} (hstart : memory.stores.time? = some time)
    (hwithin : Job.State.Meets (Within time frame) (.idle jobs memory) events)
    (hupdated : memory.history.completedUpdates <
      ((Job.State.idle jobs memory).run events).shared.history.completedUpdates)
    {r : Readings}
    (hreadings : ((Job.State.idle jobs memory).run events).shared.stores.readings = .ok r)
    {now : ℤ} (hnow : time.frameAt now ≤ frame) :
    ∀ row ∈ r.frameBalances.rows, r.currentFrame now < row.1 := by
  have hholds : (aheadOutline time frame memory.history.completedUpdates).Holds
      (.idle jobs memory) := by
    refine ⟨⟨hstart, fun hlt => absurd hlt (lt_irrefl _)⟩, fun job => ?_⟩
    cases job <;> trivial
  obtain ⟨htime, hahead⟩ := ((aheadOutline _ _ _).holds_run hwithin hholds).invariant
  obtain ⟨hread, htable, -⟩ := Stores.stored_of_readings hreadings
  obtain rfl : r.time = time := Option.some.inj (hread.symm.trans htime)
  exact fun row hrow => hnow.trans_lt (hahead hupdated _ htable row hrow)

/-- **No five days after an update.** Once a full update that has begun in a frame is
over, and until this frame is, every promise to an amount or to a request of the past
is a report. -/
theorem promise_isReport_of_updated {events : List Event}
    (hstart : memory.stores.time? = some time)
    (hwithin : Job.State.Meets (Within time frame) (.idle jobs memory) events)
    (hupdated : memory.history.completedUpdates <
      ((Job.State.idle jobs memory).run events).shared.history.completedUpdates)
    {r : Readings}
    (hreadings : ((Job.State.idle jobs memory).run events).shared.stores.readings = .ok r)
    {now : ℤ} (hnow : time.frameAt now ≤ frame) (state : BlockState) :
    let stores := ((Job.State.idle jobs memory).run events).shared.stores
    (∀ requestId info, stores.getWaitingTimeInfoById now state requestId = .ok info →
      info.status = .calculated →
      ∃ request ∈ r.requests, request.id = requestId ∧
        ∃ requestInfo, info.requestInfo = some requestInfo ∧
          ((request.timestamp * 1000 : ℤ) ≤ now →
            ∃ reported, requestInfo.finalizationAt = r.time.reportTime reported + gapAfterReport)) ∧
    (∀ amount info requestInfo, stores.getWaitingTimeInfo now state amount = .ok info →
      info.requestInfo = some requestInfo →
      ∃ reported,
        |requestInfo.finalizationAt - (r.time.reportTime reported + gapAfterReport)| ≤ 500) := by
  intro stores
  have hfresh : ∀ row ∈ r.frameBalances.rows, r.currentFrame now < row.1 :=
    rows_ahead_of_updated hstart hwithin hupdated hreadings hnow
  constructor
  · intro requestId info h hcalculated
    obtain ⟨-, r', hr', hresponse⟩ := Stores.getWaitingTimeInfoById_eq_ok h hcalculated
    obtain rfl : r = r' := Except.ok.inj (hreadings.symm.trans hr')
    obtain ⟨request, hmem, hid, hestimate⟩ :=
      Readings.exists_request_of_calculated hresponse hcalculated
    obtain ⟨settlement, settled, type, hsettles, -, hinfo⟩ :=
      Readings.estimateRequest_eq_ok hestimate
    refine ⟨request, hmem, hid, _, hinfo, fun hpast => ?_⟩
    rcases hsettles.promised with hreport | ⟨-, hrows⟩
    · exact hreport
    · obtain ⟨row, hrow, hover⟩ := hrows hpast
      have hahead : now < r.time.reportTime row.1 :=
        r.time.now_lt_reportTime_iff.mpr (hfresh row hrow)
      exact absurd (hover.trans_le hpast) hahead.not_gt
  · intro amount info requestInfo h hinfo
    obtain ⟨result, hresult, hat⟩ := Readings.exists_result_of_requestInfo hreadings h hinfo
    have hpromise := r.abs_promise_sub_reportTime_le (Readings.delay_nonneg_of_fresh hfresh hresult)
    refine ⟨result.frame, ?_⟩
    rw [hat]
    convert hpromise using 2
    ring

/-- A validator with 32 ether that exits, or has exited. -/
def exiting (index : ℕ) (status : ValidatorStatus) : IndexedValidator where
  index
  balance := 32000000000
  status
  validator := {
    pubkey := Nat.toDigits 10 index
    withdrawalCredentials := ['0', 'x', '0', '1']
    effectiveBalance := 32000000000
    exitEpoch := 100
    withdrawableEpoch := 400 }

/-- The stores with a table that has kept frame 695, in frame 699. -/
def staleMemory : Memory where
  stores := Readings.staleTable.toStores

/-- A full update one hour before the report of frame 700. -/
def staleUpdate : List Event :=
  fullUpdate 1744714823000 [exiting 1 .withdrawalPossible, exiting 2 .activeExiting] [['1']]
    { slot := 100, nextWithdrawalValidatorIndex := some 0, latestFullSlot := none } 1

/-- The update replaces the stale table, which the request would have been promised
five days by. -/
theorem promise_isReport_of_updated_staleTable :
    let stores := ((Job.State.idle jobs staleMemory).run staleUpdate).shared.stores
    ∃ r, stores.readings = .ok r ∧
      (∀ requestId info,
        stores.getWaitingTimeInfoById 1744714823000 ⟨0, 0, 0⟩ requestId = .ok info →
        info.status = .calculated →
        ∃ request ∈ r.requests, request.id = requestId ∧
          ∃ requestInfo, info.requestInfo = some requestInfo ∧
            ((request.timestamp * 1000 : ℤ) ≤ 1744714823000 → ∃ reported,
              requestInfo.finalizationAt = r.time.reportTime reported + gapAfterReport)) ∧
      (∀ amount info requestInfo,
        stores.getWaitingTimeInfo 1744714823000 ⟨0, 0, 0⟩ amount = .ok info →
        info.requestInfo = some requestInfo →
        ∃ reported,
          |requestInfo.finalizationAt - (r.time.reportTime reported + gapAfterReport)| ≤ 500) := by
  intro stores
  obtain ⟨r, hreadings⟩ : ∃ r, stores.readings = .ok r := by
    have hok : stores.readings.isOk = true := by decide +kernel
    cases hread : stores.readings with
    | ok r => exact ⟨r, rfl⟩
    | error fault =>
        rw [hread] at hok
        cases hok
  have hstart : staleMemory.stores.time? = some Readings.staleTable.time := by decide
  have hwithin : Job.State.Meets (Within Readings.staleTable.time 699)
      (.idle jobs staleMemory) staleUpdate := by decide +kernel
  refine ⟨r, hreadings, ?_⟩
  exact promise_isReport_of_updated hstart hwithin (by decide +kernel) hreadings (by decide)
    ⟨0, 0, 0⟩

end System

end WithdrawalsApi
