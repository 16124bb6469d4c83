/-
# The running service

The five jobs over one memory. The calls that start them come from the start of
the service and from cron jobs, which the configuration job reschedules, so any
job may be started at any time; a job that is running is not started a second
time. Estimates and other readers write nothing: taken as one segment, they may
read in any state of a run.
-/

import WithdrawalsApi.Jobs.ContractConfig
import WithdrawalsApi.Jobs.QueueInfo
import WithdrawalsApi.Jobs.Validators

namespace WithdrawalsApi

open Math

inductive JobName
  | initializeFromCache
  | updateValidators
  | updateLidoWithdrawableValidators
  | updateQueueInfo
  | updateContractConfig
  deriving DecidableEq, Repr

def jobs : JobName → Job.{0, 0} Memory
  | .initializeFromCache => initializeFromCacheJob
  | .updateValidators => updateValidatorsJob
  | .updateLidoWithdrawableValidators => updateLidoWithdrawableValidatorsJob
  | .updateQueueInfo => updateQueueInfoJob
  | .updateContractConfig => updateContractConfigJob

abbrev System := Job.State jobs

namespace System

abbrev Event := Job.Event jobs

/-- The service at its start: the stores are empty, and a cache file may be left
from an earlier run. -/
def boot (genesisTime : ℤ) (cacheFile : Option (List Char)) : System :=
  .idle jobs { stores := { genesisTime }, cacheFile }

/-- Where the full update is suspended. -/
def updateValidators (s : System) : Option ValidatorsService.UpdateValidators.Suspension :=
  s.suspended .updateValidators

/-- Where the refresh is suspended. -/
def updateLidoWithdrawableValidators (s : System) :
    Option ValidatorsService.UpdateLidoWithdrawableValidators.Suspension :=
  s.suspended .updateLidoWithdrawableValidators

/-- The full update does not fail here. -/
def updateSucceeds (s : System) : Event → Bool
  | .resume .updateValidators reply =>
      match s.updateValidators with
      | some suspension => ValidatorsService.succeeds suspension reply s.shared
      | none => true
  | _ => true

/-- The refresh stores its table here. -/
def refreshStores (s : System) : Event → Bool
  | .resume .updateLidoWithdrawableValidators reply =>
      match s.updateLidoWithdrawableValidators with
      | some suspension => ValidatorsService.storesTable suspension reply s.shared
      | none => false
  | _ => false

/-- A refresh that stores its table finds the list it has started from. -/
def FindsList (s : System) (event : Event) : Prop :=
  s.refreshStores event = true →
    ∀ suspension, s.updateLidoWithdrawableValidators = some suspension →
      suspension.validatorIds = s.shared.stores.validators.withdrawableLidoValidatorIds

/-- Of the other jobs, only the load from the cache and the refresh write the
validators store or the history. -/
theorem other_writes {s : System} {event : Event} {job : JobName}
    {segment : Memory × Option (jobs job).Suspension} (hruns : s.Runs event job segment)
    (hjob : job ≠ .updateValidators) :
    (segment.1.stores.validators = s.shared.stores.validators ∧
        segment.1.history = s.shared.history) ∨
      job = .initializeFromCache ∨
      (job = .updateLidoWithdrawableValidators ∧ s.refreshStores event = true ∧
        ∃ suspension tally, s.updateLidoWithdrawableValidators = some suspension ∧
          segment.1 = ValidatorsService.storeRefreshed suspension.validatorIds tally s.shared) := by
  cases hruns with
  | @start job input hidle =>
      left
      cases job <;> exact ⟨rfl, rfl⟩
  | @resume job answer suspension hsuspended =>
      cases job with
      | initializeFromCache => exact Or.inr (Or.inl rfl)
      | updateValidators => exact absurd rfl hjob
      | updateLidoWithdrawableValidators =>
          rcases ValidatorsService.refresh_fst suspension answer s.shared with
            ⟨-, hsame⟩ | ⟨hstores, tally, hstored⟩
          · left
            exact ⟨congrArg (fun memory => memory.stores.validators) hsame,
              congrArg Memory.history hsame⟩
          · refine Or.inr (Or.inr ⟨rfl, ?_, suspension, tally, hsuspended, hstored⟩)
            simp only [refreshStores, updateLidoWithdrawableValidators, hsuspended]
            exact hstores
      | updateQueueInfo =>
          left
          rcases QueueInfoService.resume_fst suspension answer s.shared with
            hsame | ⟨queue, requests, clock, hstore⟩
          · exact ⟨congrArg (fun memory => memory.stores.validators) hsame,
              congrArg Memory.history hsame⟩
          · have hvalidators := congrArg (fun memory => memory.stores.validators) hstore
            have hhistory := congrArg Memory.history hstore
            exact ⟨hvalidators, hhistory⟩
      | updateContractConfig =>
          left
          rcases ContractConfigService.resume_fst suspension answer s.shared with
            hsame | ⟨wasSrv3KnownLastTick, reads, now, hstore⟩
          · exact ⟨congrArg (fun memory => memory.stores.validators) hsame,
              congrArg Memory.history hsame⟩
          · have hvalidators := congrArg (fun memory => memory.stores.validators) hstore
            have hhistory := congrArg Memory.history hstore
            exact ⟨hvalidators, hhistory⟩

/-! ## Events -/

/-- The clock that a segment reads, in milliseconds. -/
def clock? : Event → Option ℤ
  | .start .updateLidoWithdrawableValidators input => some input.now
  | .start _ _ => none
  | .resume .initializeFromCache reply => some reply.now
  | .resume .updateValidators reply => some reply.now
  | .resume .updateLidoWithdrawableValidators reply => some reply.now
  | .resume .updateQueueInfo answer => some answer.1.now
  | .resume .updateContractConfig answer => some answer.1

/-- An answer to the call that the full update awaits. -/
def answerUpdate (now : ℤ) (answer : ValidatorsService.UpdateValidators.Answer) : Event :=
  .resume .updateValidators (⟨now, answer⟩ : Reply ValidatorsService.UpdateValidators.Answer)

/-- An answer to the call that the refresh awaits. -/
def answerRefresh (now : ℤ)
    (answer : ValidatorsService.UpdateLidoWithdrawableValidators.Answer) : Event :=
  .resume .updateLidoWithdrawableValidators
    (⟨now, answer⟩ : Reply ValidatorsService.UpdateLidoWithdrawableValidators.Answer)

/-- The call of the full update. -/
def startUpdate : Event := .start .updateValidators ()

/-- The call of the refresh. -/
def startRefresh (now : ℤ) : Event :=
  .start .updateLidoWithdrawableValidators (⟨now, ()⟩ : Reply Unit)

/-- The occurrences of a full update that runs to its end: all answers to the
calls it awaits, for a number of Lido validators. -/
def fullUpdate (now : ℤ) (indexedValidators : List IndexedValidator) (keys : List (List Char))
    (state : BeaconStateSweepData) (lidoValidators : ℕ) : List Event :=
  [startUpdate, answerUpdate now (.validators indexedValidators),
      answerUpdate now (.pendingPartialWithdrawals [])] ++
    List.replicate indexedValidators.length (answerUpdate now .settled) ++
    [answerUpdate now (.keys keys), answerUpdate now (.sweepData state)] ++
    List.replicate lidoValidators (answerUpdate now .settled) ++
    List.replicate 3 (answerUpdate now .settled)

end System

end WithdrawalsApi
