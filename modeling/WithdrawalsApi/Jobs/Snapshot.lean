/-
# One update, one snapshot

A reader of the validators store should see what one completed update has
stored. The queue job and the configuration job store everything in one segment;
the full update stores its fields in four groups with awaited calls between
them, so a reader that runs in between, or after a run that has failed in
between, sees the fields of two updates.

The store is a snapshot as long as four things do not happen: a reader does not
run while an update is between its first assignment and its end, no update fails
there, no refresh stores a table there, and no refresh stores a table for another
list than the stored one. Outside of these windows the store is then what the last
completed update has stored, with the balances that a refresh has read again for
its list.
-/

import WithdrawalsApi.Jobs.System

namespace WithdrawalsApi

open Js Math ValidatorsService

/-- The store is what the last completed update has stored. -/
def Latest (memory : Memory) : Prop :=
  memory.history.published.head? = some memory.stores.validators

/-- The store is a snapshot if it has been one at the start, or an update has
completed since. -/
def LatestSince (start memory : Memory) : Prop :=
  Latest start ∨ start.history.completedUpdates < memory.history.completedUpdates →
    Latest memory

namespace System

/-- An update that is suspended here has assigned a field. -/
def hasWritten : UpdateValidators.Suspension → Bool
  | .fetchingValidators => false
  | .fetchingPendingPartialWithdrawals _ _ => false
  | _ => true

/-- An update is between its first assignment and its end. -/
def InWindow (s : System) : Prop :=
  ∃ suspension, s.updateValidators = some suspension ∧ hasWritten suspension = true

/-- If the update fails here, then it has not assigned anything. -/
def FailsUnwritten (suspension : UpdateValidators.Suspension) (memory : Memory)
    (result : Memory × Option UpdateValidators.Suspension) : Prop :=
  result.2 = none →
    result.1.history.completedUpdates = memory.history.completedUpdates →
      hasWritten suspension = false

/-- An update that has assigned a field does not throw. -/
theorem FailsUnwritten.ne_ended {suspension : UpdateValidators.Suspension} {memory : Memory}
    {result : Memory × Option UpdateValidators.Suspension}
    (h : FailsUnwritten suspension memory result) (hwritten : hasWritten suspension = true) :
    result ≠ (memory, none) := by
  rintro rfl
  rw [h rfl rfl] at hwritten
  cases hwritten

/-- The steps that disturb no snapshot. -/
structure Undisturbed (s : System) (event : Event) : Prop where
  /-- No update fails after its first assignment. -/
  succeeds : s.InWindow → s.updateSucceeds event = true
  /-- No refresh stores a table between the assignments of an update. -/
  refresh : s.InWindow → s.refreshStores event = false
  /-- No refresh stores a table for another list. -/
  finds : s.FindsList event
  /-- The cache file has been read before. -/
  load : event.job ≠ .initializeFromCache

/-- The sweep delay and the counts of an update are in the store. -/
structure Counted (update : Update) (store : ValidatorsStorageService) : Prop where
  sweepMeanEpochs : store.sweepMeanEpochs = some (.finite update.sweepMeanEpochs)
  activeValidatorsCount :
    store.activeValidatorsCount = some (.finite update.count.activeValidatorCount)
  churnLimit : store.churnLimit = some (.finite (getChurnLimit update.count.totalActiveBalance))
  totalValidatorsCount : store.totalValidatorsCount = some update.indexedValidators.length
  maxExitEpoch : store.maxExitEpoch = some (integerText update.count.maxExitEpoch)

theorem Counted.of_setCounts {update : Update} {store : ValidatorsStorageService}
    (h : store.sweepMeanEpochs = some (.finite update.sweepMeanEpochs)) :
    Counted update (setCounts update store) :=
  ⟨h, rfl, rfl, rfl, rfl⟩

/-- With the table, the list and the update time the update is complete. -/
theorem Counted.stored_eq {update : Update} {store : ValidatorsStorageService}
    (h : Counted update store) (tally : Tally) (ids : List ℕ) (now : ℤ) :
    { store with
      frameBalances := some tally.frameBalances
      withdrawableLidoValidatorIds := ids
      lastUpdate := some (.finite (now / 1000 : ℤ)) } = stored update tally ids now := by
  rw [stored, ← h.sweepMeanEpochs, ← h.activeValidatorsCount, ← h.churnLimit,
    ← h.totalValidatorsCount, ← h.maxExitEpoch]

section Asserts

variable (start : Memory)

/-- What the store holds of an update that is in flight. -/
def snapshotAsserts (suspended : Option UpdateValidators.Suspension) (memory : Memory) : Prop :=
  match suspended with
  | none => LatestSince start memory
  | some .fetchingValidators => LatestSince start memory
  | some (.fetchingPendingPartialWithdrawals _ _) => LatestSince start memory
  | some (.counting update _) =>
      memory.stores.validators.sweepMeanEpochs = some (.finite update.sweepMeanEpochs)
  | some (.fetchingKeys update) => Counted update memory.stores.validators
  | some (.fetchingSweepState update _ _) => Counted update memory.stores.validators
  | some (.summing update _ _ _ _ _) => Counted update memory.stores.validators
  | some (.storedFrameBalances update tally ids) => ∀ now : ℤ,
      { memory.stores.validators with lastUpdate := some (.finite (now / 1000 : ℤ)) } =
        stored update tally ids now
  | some (.creatingCacheDirectory result) => memory.stores.validators = result
  | some (.writingCache result _) => memory.stores.validators = result

variable {start}

/-- The assertions are about the store and its history. -/
theorem snapshotAsserts_congr {suspended : Option UpdateValidators.Suspension}
    {before after : Memory} (hvalidators : after.stores.validators = before.stores.validators)
    (hhistory : after.history = before.history) (h : snapshotAsserts start suspended before) :
    snapshotAsserts start suspended after := by
  unfold snapshotAsserts LatestSince Latest at h ⊢
  rw [hvalidators, hhistory]
  exact h

/-- An update that has not assigned anything yet finds the latest snapshot. -/
theorem latestSince_of_not_hasWritten {suspension : UpdateValidators.Suspension}
    {memory : Memory} (h : snapshotAsserts start (some suspension) memory)
    (hwritten : hasWritten suspension = false) : LatestSince start memory := by
  cases suspension with
  | fetchingValidators => exact h
  | fetchingPendingPartialWithdrawals _ _ => exact h
  | _ => cases hwritten

theorem snapshotAsserts_of_latestSince {suspended : Option UpdateValidators.Suspension}
    {memory : Memory} (h : LatestSince start memory)
    (hwritten : ∀ suspension, suspended = some suspension → hasWritten suspension = false) :
    snapshotAsserts start suspended memory := by
  cases suspended with
  | none => exact h
  | some suspension =>
      cases suspension with
      | fetchingValidators => exact h
      | fetchingPendingPartialWithdrawals _ _ => exact h
      | _ => cases hwritten _ rfl

theorem snapshotAsserts_counts {update : Update} {memory : Memory}
    {result : Memory × Option UpdateValidators.Suspension} (hcounts : Counts update memory result)
    (h : memory.stores.validators.sweepMeanEpochs = some (.finite update.sweepMeanEpochs)) :
    snapshotAsserts start result.2 result.1 := by
  cases hcounts with
  | next count rest => exact h
  | done => exact .of_setCounts h

/-- A segment of an update that does not fail after its first assignment. -/
theorem snapshotAsserts_updateSegment {suspension : UpdateValidators.Suspension}
    {memory : Memory} {result : Memory × Option UpdateValidators.Suspension}
    (hsegment : UpdateSegment suspension memory result)
    (hfails : FailsUnwritten suspension memory result)
    (h : snapshotAsserts start (some suspension) memory) :
    snapshotAsserts start result.2 result.1 := by
  have hsums {update : Update} {tally : Tally} {ids : List ℕ}
      {result : Memory × Option UpdateValidators.Suspension}
      (hsums : Sums update memory tally ids result)
      (hfails : result ≠ (memory, none)) (h : Counted update memory.stores.validators) :
      snapshotAsserts start result.2 result.1 := by
    cases hsums with
    | threw => exact absurd rfl hfails
    | next => exact h
    | done => exact fun now => h.stored_eq tally ids now
  cases hsegment with
  | ended => exact latestSince_of_not_hasWritten h (hfails rfl rfl)
  | fetched => exact h
  | setSweep update hcounts => exact snapshotAsserts_counts hcounts rfl
  | counted hcounts => exact snapshotAsserts_counts hcounts h
  | gotKeys => exact h
  | gotSweepState hsum => exact hsums hsum (hfails.ne_ended rfl) h
  | summed hsum => exact hsums hsum (hfails.ne_ended rfl) h
  | setLastUpdate now => exact h now
  | joined => exact h
  | wrote => exact fun _ => congrArg some h.symm
  | wroteInPart => cases hfails rfl rfl

variable (start)

/-- Every update in flight finds its own fields, and outside of the windows the
store is a snapshot. -/
def Consistent (s : System) : Prop := snapshotAsserts start s.updateValidators s.shared

variable {start}

theorem latestSince_of_not_inWindow {s : System} (h : s.Consistent start)
    (hwindow : ¬ s.InWindow) : LatestSince start s.shared := by
  unfold Consistent at h
  cases hsuspended : s.updateValidators with
  | none =>
      rw [hsuspended] at h
      exact h
  | some suspension =>
      rw [hsuspended] at h
      apply latestSince_of_not_hasWritten h
      rw [← Bool.not_eq_true]
      exact fun hwritten => hwindow ⟨suspension, hsuspended, hwritten⟩

/-- A table that is refreshed for the stored list is stored and published alike. -/
theorem latest_storeRefreshed {memory : Memory} (h : Latest memory) (tally : Tally) :
    Latest (storeRefreshed memory.stores.validators.withdrawableLidoValidatorIds tally
      memory) := by
  unfold Latest at h
  cases hpublished : memory.history.published with
  | nil =>
      rw [hpublished] at h
      cases h
  | cons last earlier =>
      rw [hpublished, List.head?_cons] at h
      obtain rfl := Option.some.inj h
      simp only [Latest, storeRefreshed, hpublished, if_pos]
      rfl

/-- An update of an undisturbed run that fails has not assigned anything. -/
theorem failsUnwritten_of_succeeds {s : System}
    {reply : Reply UpdateValidators.Answer} {suspension : UpdateValidators.Suspension}
    (hsuspended : s.updateValidators = some suspension)
    (hsucceeds : s.InWindow → s.updateSucceeds (.resume .updateValidators reply) = true) :
    FailsUnwritten suspension s.shared (resumeUpdateValidators suspension reply s.shared) := by
  intro hend hcount
  rw [← Bool.not_eq_true]
  intro hwritten
  have hsucceeded := hsucceeds ⟨suspension, hsuspended, hwritten⟩
  simp only [updateSucceeds, hsuspended] at hsucceeded
  rcases (succeeds_iff suspension reply s.shared).mp hsucceeded with hgoesOn | hcompletes
  · exact hgoesOn hend
  · exact absurd (hcount.symm.trans hcompletes) (Nat.ne_of_lt (Nat.lt_succ_self _))

/-- A segment of the full update. -/
theorem consistent_update {s : System} {event : Event}
    {segment : Memory × Option (jobs .updateValidators).Suspension}
    (hruns : s.Runs event .updateValidators segment) (hmeets : s.Undisturbed event)
    (h : s.Consistent start) : snapshotAsserts start segment.2 segment.1 := by
  unfold Consistent updateValidators at h
  cases hruns with
  | start hidle =>
      rw [hidle] at h
      exact h
  | @resume _ answer suspension hsuspended =>
      rw [hsuspended] at h
      exact snapshotAsserts_updateSegment (updateSegment_resume suspension answer s.shared)
        (failsUnwritten_of_succeeds hsuspended hmeets.succeeds) h

/-- A segment of another job: it leaves the store alone, or a table is refreshed
outside of the windows. -/
theorem consistent_other {s : System} {event : Event} {job : JobName}
    {segment : Memory × Option (jobs job).Suspension} (hruns : s.Runs event job segment)
    (hjob : job ≠ .updateValidators) (hmeets : s.Undisturbed event) (h : s.Consistent start) :
    snapshotAsserts start s.updateValidators segment.1 := by
  rcases other_writes hruns hjob with
    ⟨hvalidators, hhistory⟩ | hload | ⟨-, hstores, suspension, tally, hsuspended, hstored⟩
  · exact snapshotAsserts_congr hvalidators hhistory h
  · exact absurd (hruns.job_eq.trans hload) hmeets.load
  · have hwindow : ¬ s.InWindow := by
      intro hwindow
      rw [hmeets.refresh hwindow] at hstores
      cases hstores
    have hbefore := latestSince_of_not_inWindow h hwindow
    rw [hstored, hmeets.finds hstores suspension hsuspended]
    apply snapshotAsserts_of_latestSince
    · exact fun hsince => latest_storeRefreshed (hbefore hsince) tally
    · intro flight hflight
      rw [← Bool.not_eq_true]
      exact fun hwritten => hwindow ⟨flight, hflight, hwritten⟩

theorem consistent_step (s : System) (event : Event) (hmeets : s.Undisturbed event)
    (h : s.Consistent start) : Consistent start (s.step event) := by
  apply s.step_preserves_of_job event .updateValidators
    (fun memory suspended => snapshotAsserts start suspended memory)
  · exact fun segment hruns => consistent_update hruns hmeets h
  · exact fun job segment hjob hruns => consistent_other hruns hjob hmeets h
  · exact h

end Asserts

/-! ## Runs that fail -/

theorem consistent_run {s : System} (hidle : s.updateValidators = none)
    {events : List Event} (hmeets : Job.State.Meets Undisturbed s events) :
    Consistent s.shared (s.run events) := by
  apply Job.State.run_preserves consistent_step hmeets
  unfold Consistent
  rw [hidle]
  -- Nothing completes before the first step.
  rintro (hlatest | hlt)
  · exact hlatest
  · exact absurd hlt (lt_irrefl _)

end System

end WithdrawalsApi
