/-
# The readiness gate opens

What the gate waits for is stored by three jobs. One run of each of them that does not
fail is enough, if it is called after the load from the cache file is over: whatever runs
before, meanwhile or afterwards, and however it fails, takes back none of the values that
the gate looks at. The runs may interrupt each other, and each takes as many answers as
its loops need.

A run that is in flight when the load stores its values is not enough. The churn limit
that it has stored may be replaced by the zero of a file that was cut off.
-/

import WithdrawalsApi.Jobs.OpenGate
import WithdrawalsApi.Jobs.Progress

namespace WithdrawalsApi

open Js Math ValidatorsService

/-! ## Answers that do not fail -/

/-- The awaited call answers as awaited, and nothing throws before the next await or the
end. -/
def QueueInfoService.succeeds :
    QueueInfoService.Suspension → CronClock × QueueInfoService.Answer → Memory → Bool
  | .fetchingQueue, ⟨_, .queue queue⟩, memory =>
      (getUpdatedRequests memory.stores.queueInfo.requests queue).isOk
  | .fetchingPage _ _ requestIds, ⟨_, .page _⟩, _ =>
      (pageOf requestIds).all fun id => decide (0 < id)
  | _, _, _ => false

def ContractConfigService.succeeds :
    ContractConfigService.Suspension → ℤ × ContractConfigService.Answer → Bool
  | .fetchingBlockNumber _, ⟨_, .blockNumber⟩ => true
  | .fetchingReads _, ⟨_, .reads reads⟩ =>
      isNumber reads.frameConfig.initialEpoch && isNumber reads.veboFrameConfig.epochsPerFrame &&
        isNumber reads.frameConfig.epochsPerFrame
  | _, _ => false

/-! ## What a run has stored where it waits -/

/-- The two values of the full update. -/
structure ValidatorsStored (stores : Stores) : Prop where
  lastUpdate : truthyNumber stores.validators.lastUpdate = true
  churnLimit : truthyNumber stores.validators.churnLimit = true

/-- The churn limit is stored with the counts, the update time behind the table. -/
def updateStored : Option UpdateValidators.Suspension → Stores → Prop
  | some .fetchingValidators, _ => True
  | some (.fetchingPendingPartialWithdrawals _ _), _ => True
  | some (.counting _ _), _ => True
  | some (.fetchingKeys _), stores => truthyNumber stores.validators.churnLimit = true
  | some (.fetchingSweepState _ _ _), stores => truthyNumber stores.validators.churnLimit = true
  | some (.summing _ _ _ _ _ _), stores => truthyNumber stores.validators.churnLimit = true
  | some (.storedFrameBalances _ _ _), stores => truthyNumber stores.validators.churnLimit = true
  | some (.creatingCacheDirectory _), stores => ValidatorsStored stores
  | some (.writingCache _ _), stores => ValidatorsStored stores
  | none, stores => ValidatorsStored stores

/-- The other two jobs store everything at their end. -/
def jobStored : (job : JobName) → Option (jobs job).Suspension → Stores → Prop
  | .updateValidators => updateStored
  | .updateQueueInfo => fun suspended stores =>
      suspended.isNone → truthyInteger stores.queueInfo.lastUpdate = true
  | .updateContractConfig => fun suspended stores =>
      suspended.isNone → truthyInteger stores.contractConfig.lastUpdate = true
  | .initializeFromCache => fun _ _ => True
  | .updateLidoWithdrawableValidators => fun _ _ => True

theorem ValidatorsStored.of_keepsGate {before after : Stores} (h : ValidatorsStored before)
    (hkeeps : KeepsGate before after) : ValidatorsStored after :=
  ⟨hkeeps.lastUpdate h.lastUpdate, hkeeps.churnLimit h.churnLimit⟩

theorem updateStored_of_keepsGate {suspended : Option UpdateValidators.Suspension}
    {before after : Stores} (hkeeps : KeepsGate before after) (h : updateStored suspended before) :
    updateStored suspended after := by
  unfold updateStored at h ⊢
  split
  · trivial
  · trivial
  · trivial
  · exact hkeeps.churnLimit h
  · exact hkeeps.churnLimit h
  · exact hkeeps.churnLimit h
  · exact hkeeps.churnLimit h
  · exact h.of_keepsGate hkeeps
  · exact h.of_keepsGate hkeeps
  · exact h.of_keepsGate hkeeps

/-- What a job has stored stays there while the others run. -/
theorem jobStored_of_keepsGate {job : JobName} {suspended : Option (jobs job).Suspension}
    {before after : Stores} (hkeeps : KeepsGate before after)
    (h : jobStored job suspended before) : jobStored job suspended after := by
  cases job with
  | initializeFromCache => trivial
  | updateValidators => exact updateStored_of_keepsGate hkeeps h
  | updateLidoWithdrawableValidators => trivial
  | updateQueueInfo => exact fun hnone => hkeeps.queueInfo (h hnone)
  | updateContractConfig => exact fun hnone => hkeeps.contractConfig (h hnone)

/-! ## The segments that do not fail -/

variable {memory : Memory}

theorem updateStored_countNext (update : Update) (rest : List IndexedValidator) :
    updateStored (countNext update rest memory).2 (countNext update rest memory).1.stores := by
  cases rest with
  | nil => exact truthyNumber_churnLimit _
  | cons item rest => trivial

theorem updateStored_sumNext {update : Update} {estimate : Estimate}
    {sweepState : WithdrawalSweepState} {rest : List IndexedValidator} {tally : Tally}
    {ids : List ℕ} (hchurn : truthyNumber memory.stores.validators.churnLimit = true)
    (hsucceeds : sumSucceeds memory.stores estimate sweepState rest = true) :
    updateStored (sumNext update estimate sweepState rest tally ids memory).2
      (sumNext update estimate sweepState rest tally ids memory).1.stores := by
  cases rest with
  | nil => exact hchurn
  | cons item rest =>
      rw [sumSucceeds] at hsucceeds
      rw [sumNext]
      split
      next hwithdrawable =>
        rw [if_pos hwithdrawable] at hsucceeds
        cases hrow : contribution memory.stores estimate sweepState item with
        | ok row => exact hchurn
        | error fault =>
            rw [hrow] at hsucceeds
            cases hsucceeds
      next => exact hchurn

/-- A segment of the full update that succeeds has stored what is expected where it waits
next. -/
theorem updateStored_resume {suspension : UpdateValidators.Suspension}
    {reply : Reply UpdateValidators.Answer} (hnow : 1000 ≤ reply.now)
    (hsucceeds : ValidatorsService.succeeds suspension reply memory = true)
    (h : updateStored (some suspension) memory.stores) :
    updateStored (resumeUpdateValidators suspension reply memory).2
      (resumeUpdateValidators suspension reply memory).1.stores := by
  have hends := (succeeds_iff suspension reply memory).mp hsucceeds
  have hfails : ¬ ((none : Option UpdateValidators.Suspension) ≠ none ∨
      memory.history.completedUpdates = memory.history.completedUpdates + 1) := by
    simp
  revert hends hsucceeds
  unfold resumeUpdateValidators
  split
  · exact fun _ _ => trivial
  · split
    · exact fun _ _ => updateStored_countNext _ _
    · exact fun _ hends => absurd hends hfails
  · exact fun _ _ => updateStored_countNext _ _
  · exact fun _ _ => h
  · split
    next hsweep =>
      intro hsucceeds _
      rw [ValidatorsService.succeeds, hsweep] at hsucceeds
      exact updateStored_sumNext h hsucceeds
    next => exact fun _ hends => absurd hends hfails
  · exact fun hsucceeds _ => updateStored_sumNext h hsucceeds
  · exact fun _ _ => ⟨truthyNumber_seconds hnow, h⟩
  · split
    · exact fun _ _ => h
    · exact fun _ hends => absurd hends hfails
  · exact fun _ _ => h
  · exact fun _ _ => h
  · exact fun _ hends => absurd hends hfails

/-- A tick that does not fail ends with its publication. -/
theorem queueStored_resume {suspension : QueueInfoService.Suspension}
    {answer : QueueInfoService.CronClock × QueueInfoService.Answer} (hnow : 1000 ≤ answer.1.now)
    (hsucceeds : QueueInfoService.succeeds suspension answer memory = true)
    (hnone : (QueueInfoService.resume suspension answer memory).2.isNone) :
    truthyInteger
      (QueueInfoService.resume suspension answer memory).1.stores.queueInfo.lastUpdate = true := by
  have hlast (queue : QueueInfoService.QueueState) (requests : List WithdrawalRequest)
      {requestIds : List ℤ} {clock : QueueInfoService.CronClock} (hclock : 1000 ≤ clock.now)
      (hended : (QueueInfoService.nextPage queue requests requestIds clock memory).2.isNone) :
      truthyInteger (QueueInfoService.nextPage queue requests requestIds clock
        memory).1.stores.queueInfo.lastUpdate = true := by
    cases requestIds with
    | nil => exact truthyInteger_seconds hclock
    | cons id requestIds => cases hended
  obtain ⟨clock, answer⟩ := answer
  cases suspension with
  | fetchingQueue =>
      cases answer with
      | queue queue =>
          cases hupdated : QueueInfoService.getUpdatedRequests memory.stores.queueInfo.requests
              queue with
          | ok updated =>
              simp only [QueueInfoService.resume, hupdated] at hnone ⊢
              exact hlast _ _ hnow hnone
          | error fault =>
              rw [QueueInfoService.succeeds, hupdated] at hsucceeds
              cases hsucceeds
      | _ => cases hsucceeds
  | fetchingPage queue requests requestIds =>
      cases answer with
      | page withdrawalStatuses =>
          rw [QueueInfoService.succeeds] at hsucceeds
          simp only [QueueInfoService.resume, if_pos hsucceeds] at hnone ⊢
          exact hlast _ _ hnow hnone
      | _ => cases hsucceeds

/-- A configuration that is made of safe integers is assigned in full. -/
theorem configStored_resume {suspension : ContractConfigService.Suspension}
    {answer : ℤ × ContractConfigService.Answer} (hnow : 1000 ≤ answer.1)
    (hsucceeds : ContractConfigService.succeeds suspension answer = true)
    (hnone : (ContractConfigService.resume suspension answer memory).2.isNone) :
    truthyInteger
      (ContractConfigService.resume suspension answer memory).1.stores.contractConfig.lastUpdate =
        true := by
  obtain ⟨now, answer⟩ := answer
  cases suspension with
  | fetchingBlockNumber wasSrv3KnownLastTick =>
      cases answer with
      | blockNumber => cases hnone
      | _ => cases hsucceeds
  | fetchingReads wasSrv3KnownLastTick =>
      cases answer with
      | reads reads =>
          simp only [ContractConfigService.succeeds, Bool.and_eq_true] at hsucceeds
          obtain ⟨⟨hinitial, hvebo⟩, hframe⟩ := hsucceeds
          simp only [ContractConfigService.resume, Memory.setContractConfig,
            ContractConfigService.assign, if_pos hinitial, if_pos hvebo, if_pos hframe]
          exact truthyInteger_seconds hnow
      | _ => cases hsucceeds

/-! ## Every infinite run -/

namespace System

open Job.State (trace)

/-- The job that goes on does not fail here. -/
def succeeds (s : System) : Event → Bool
  | .resume .updateValidators reply =>
      s.updateValidators.all fun suspension => ValidatorsService.succeeds suspension reply s.shared
  | .resume .updateQueueInfo answer =>
      (s.suspended .updateQueueInfo).all fun suspension =>
        QueueInfoService.succeeds suspension answer s.shared
  | .resume .updateContractConfig answer =>
      (s.suspended .updateContractConfig).all fun suspension =>
        ContractConfigService.succeeds suspension answer
  | _ => true

/-- A job is called when it is not running, and nothing of its run fails. -/
structure Completes (s : System) (events : ℕ → Event) (job : JobName) (n : ℕ) : Prop where
  idle : (trace s events n).suspended job = none
  called : ∃ input, events n = .start job input
  succeeds : ∀ k > n, (∀ i > n, i ≤ k → (trace s events i).suspended job ≠ none) →
    (events k).job = job → System.succeeds (trace s events k) (events k) = true

theorem jobStored_start {job : JobName} {s : System} {input : (jobs job).Input}
    (hidle : s.suspended job = none) :
    let after := s.step (.start job input)
    jobStored job (after.suspended job) after.shared.stores := by
  intro after
  have hruns : s.Runs (.start job input) job _ := .start hidle
  rw [hruns.step_suspended, hruns.step_shared]
  cases job with
  | initializeFromCache => trivial
  | updateValidators => trivial
  | updateLidoWithdrawableValidators => trivial
  | updateQueueInfo => exact fun hnone => by cases hnone
  | updateContractConfig => exact fun hnone => by cases hnone

/-- A job in flight that does not fail goes on storing what is expected of it. -/
theorem jobStored_step {genesisTime : ℤ} {job : JobName} {s : System} {event : Event}
    (hevent : Timely genesisTime event ∧ event.job ≠ .initializeFromCache)
    (hrunning : s.suspended job ≠ none) (hsucceeds : event.job = job → s.succeeds event = true)
    (h : jobStored job (s.suspended job) s.shared.stores) :
    jobStored job ((s.step event).suspended job) (s.step event).shared.stores := by
  apply s.step_preserves_of_job event job fun memory suspended =>
    jobStored job suspended memory.stores
  case h => exact h
  case hothers =>
    intro other segment _ hruns
    have hother := hevent.2
    rw [hruns.job_eq] at hother
    exact jobStored_of_keepsGate (keepsGate_segment hevent.1 hother hruns) h
  case hjob =>
    intro segment hruns
    have hgoes := hsucceeds hruns.job_eq
    cases hruns with
    | start hidle => exact absurd hidle hrunning
    | @resume job answer suspension hsuspended =>
        rw [hsuspended] at h
        cases job with
        | initializeFromCache => trivial
        | updateValidators =>
            have hnow := (hevent.1.clock _ rfl).1
            simp only [succeeds, updateValidators, hsuspended] at hgoes
            exact updateStored_resume hnow hgoes h
        | updateLidoWithdrawableValidators => trivial
        | updateQueueInfo =>
            have hnow := (hevent.1.clock _ rfl).1
            simp only [succeeds, hsuspended] at hgoes
            exact queueStored_resume hnow hgoes
        | updateContractConfig =>
            have hnow := (hevent.1.clock _ rfl).1
            simp only [succeeds, hsuspended] at hgoes
            exact configStored_resume hnow hgoes

/-- The jobs that store what the gate looks at. -/
def gateJobs : List JobName := [.updateValidators, .updateQueueInfo, .updateContractConfig]

/-- The calls that a job awaits are answered. -/
def Answered (s : System) (events : ℕ → Event) (job : JobName) : Prop :=
  ∀ n, (trace s events n).suspended job ≠ none → ∃ m ≥ n, ∃ answer, events m = .resume job answer

variable {genesisTime : ℤ} {s : System} {events : ℕ → Event} {loaded : ℕ}

/-- A run that completes stores what its job stores. -/
theorem exists_jobStored
    (hevents : ∀ n ≥ loaded, Timely genesisTime (events n) ∧ (events n).job ≠ .initializeFromCache)
    {job : JobName} (hanswered : Answered s events job) {n : ℕ} (hn : loaded ≤ n)
    (h : Completes s events job n) :
    ∃ m ≥ loaded, jobStored job none (trace s events m).shared.stores := by
  have hends : ∀ n, ∃ m ≥ n, (trace s events m).suspended job = none :=
    (Job.Descent.forall_exists_idle_iff System.remaining_resume).mpr hanswered
  obtain ⟨input, hcalled⟩ := h.called
  have hstart : jobStored job ((trace s events (n + 1)).suspended job)
      (trace s events (n + 1)).shared.stores := by
    rw [trace, hcalled]
    exact jobStored_start h.idle
  obtain ⟨m, hm, hidle, hstored⟩ := Job.State.exists_ended
    (fun s : System => jobStored job (s.suspended job) s.shared.stores) hends hstart
    fun k hk hrunning hkept => jobStored_step (hevents k (hn.trans hk.le))
      (hrunning k hk le_rfl) (h.succeeds k hk hrunning) hkept
  rw [hidle] at hstored
  exact ⟨m, hn.trans hm.le, hstored⟩

/-- What a job has stored stays there. -/
theorem jobStored_trace
    (hevents : ∀ n ≥ loaded, Timely genesisTime (events n) ∧ (events n).job ≠ .initializeFromCache)
    {job : JobName} {m : ℕ} (hm : loaded ≤ m)
    (h : jobStored job none (trace s events m).shared.stores) :
    ∀ n ≥ m, jobStored job none (trace s events n).shared.stores :=
  Job.State.trace_preserves (fun s : System => jobStored job none s.shared.stores)
    (fun k hk hstored =>
      jobStored_of_keepsGate (keepsGate_step _ _ (hevents k (hm.trans hk))) hstored) h

/-- The gate looks at what the three jobs store. -/
theorem isInitialized_of_jobStored {stores : Stores}
    (hupdate : jobStored .updateValidators none stores)
    (hqueue : jobStored .updateQueueInfo none stores)
    (hconfig : jobStored .updateContractConfig none stores) : stores.isInitialized = true := by
  obtain ⟨hlast, hchurn⟩ : ValidatorsStored stores := hupdate
  simp only [Stores.isInitialized, Bool.and_eq_true]
  exact ⟨⟨⟨hlast, hchurn⟩, hqueue rfl⟩, hconfig rfl⟩

/-- **The gate opens, and stays open**: let the load from the cache file be over, and let
each of the three jobs be called once when it is not running and come through without a
failure, its calls being answered at some time. Then, in every order and whatever else is
called and fails before, meanwhile and afterwards, there is a moment from which on the
service no longer reports that it initializes and an estimate has its readings. -/
theorem readings_of_completes (genesisTime : ℤ) {cacheFile : Option (List Char)}
    (hcache : ∀ content, cacheFile = some content → IsNaturalContent content)
    {events : ℕ → Event} {loaded : ℕ} (htimely : ∀ n, Timely genesisTime (events n))
    (hloaded : ∀ n ≥ loaded, (events n).job ≠ .initializeFromCache)
    (hanswered : ∀ job ∈ gateJobs, Answered (boot genesisTime cacheFile) events job)
    (hcompletes : ∀ job ∈ gateJobs,
      ∃ n ≥ loaded, Completes (boot genesisTime cacheFile) events job n) :
    ∃ m, ∀ n ≥ m, let stores := (trace (boot genesisTime cacheFile) events n).shared.stores
      stores.isInitialized = true ∧
        ∃ r, stores.readings = .ok r ∧ 4 ≤ r.churnLimit ∧ r.churnLimit ≤ 8 := by
  have hevents (n : ℕ) (hn : loaded ≤ n) :
      Timely genesisTime (events n) ∧ (events n).job ≠ .initializeFromCache :=
    ⟨htimely n, hloaded n hn⟩
  have hholds : ∀ n ≥ 0, (naturalOutline genesisTime).Holds
      (trace (boot genesisTime cacheFile) events n) :=
    Job.State.trace_preserves (naturalOutline genesisTime).Holds
      (fun n _ => (naturalOutline genesisTime).holds_step _ _ (htimely n))
      (natural_boot genesisTime hcache)
  have hstored (job : JobName) (hjob : job ∈ gateJobs) :
      ∃ m, ∀ n ≥ m, jobStored job none
        (trace (boot genesisTime cacheFile) events n).shared.stores := by
    obtain ⟨n, hn, hruns⟩ := hcompletes job hjob
    obtain ⟨m, hm, hended⟩ := exists_jobStored hevents (hanswered job hjob) hn hruns
    exact ⟨m, jobStored_trace hevents hm hended⟩
  obtain ⟨update, hupdate⟩ := hstored .updateValidators (by decide)
  obtain ⟨queue, hqueue⟩ := hstored .updateQueueInfo (by decide)
  obtain ⟨config, hconfig⟩ := hstored .updateContractConfig (by decide)
  refine ⟨max update (max queue config), fun n hn => ?_⟩
  obtain ⟨hn, hlater⟩ := max_le_iff.mp hn
  obtain ⟨hn', hn''⟩ := max_le_iff.mp hlater
  have hopen := isInitialized_of_jobStored (hupdate n hn) (hqueue n hn') (hconfig n hn'')
  have hinvariant := (hholds n (Nat.zero_le n)).invariant
  exact ⟨hopen, exists_readings hinvariant.1 hinvariant.2 hopen⟩

end System

end WithdrawalsApi
