/-
# Nothing waits for ever

`OneAtTime` drops the call of a job that is running. A job that never came to its end
would therefore never be run again: whatever it stores would grow old behind an open
gate. Each job goes through its awaited calls in stages, and its loops go down a list
that is not changed any more, however the other jobs interrupt them and whatever they
store. So a job is free again as soon as it is always answered, and a call of an
estimate comes to what it is answered.
-/

import WithdrawalsApi.Jobs.AnsweredCalls
import WithdrawalsApi.Jobs.Restart
import WithdrawalsApi.Math.Progress

namespace WithdrawalsApi

open Js Math

/-! ## What the jobs have left -/

/-- The answers a load may still need. -/
def ValidatorsCacheService.remaining : ValidatorsCacheService.Suspension → ℕ
  | .opening => 2
  | .reading => 1
  | .closing _ => 0

def ContractConfigService.remaining : ContractConfigService.Suspension → ℕ
  | .fetchingBlockNumber _ => 1
  | .fetchingReads _ => 0

/-- The stage of a tick, and the ids that are still to be asked for. -/
def QueueInfoService.remaining : QueueInfoService.Suspension → ℕ ×ₗ ℕ
  | .fetchingQueue => toLex (1, 0)
  | .fetchingPage _ _ requestIds => toLex (0, requestIds.length)

namespace ValidatorsService

open UpdateValidators

/-- The stage of a full update, and the validators its loop still has to go through. -/
def remaining : UpdateValidators.Suspension → ℕ ×ₗ ℕ
  | .fetchingValidators => toLex (8, 0)
  | .fetchingPendingPartialWithdrawals _ _ => toLex (7, 0)
  | .counting _ rest => toLex (6, rest.length)
  | .fetchingKeys _ => toLex (5, 0)
  | .fetchingSweepState _ _ _ => toLex (4, 0)
  | .summing _ _ _ rest _ _ => toLex (3, rest.length)
  | .storedFrameBalances _ _ _ => toLex (2, 0)
  | .creatingCacheDirectory _ => toLex (1, 0)
  | .writingCache _ _ => toLex (0, 0)

variable {memory : Memory} {next : UpdateValidators.Suspension}

theorem remaining_countNext {update : Update} {rest : List IndexedValidator}
    (h : (countNext update rest memory).2 = some next) :
    remaining next < toLex (6, rest.length) := by
  cases rest with
  | nil =>
      obtain rfl := Option.some.inj h
      exact stage_lt (by omega)
  | cons item rest =>
      obtain rfl := Option.some.inj h
      exact left_lt (Nat.lt_succ_self _)

theorem remaining_sumNext {update : Update} {estimate : Estimate}
    {sweepState : WithdrawalSweepState} {rest : List IndexedValidator} {tally : Tally}
    {ids : List ℕ} (h : (sumNext update estimate sweepState rest tally ids memory).2 = some next) :
    remaining next < toLex (3, rest.length) := by
  cases rest with
  | nil =>
      obtain rfl := Option.some.inj h
      exact stage_lt (by omega)
  | cons item rest =>
      rw [sumNext] at h
      split at h
      · split at h
        · obtain rfl := Option.some.inj h
          exact left_lt (Nat.lt_succ_self _)
        · cases h
      · obtain rfl := Option.some.inj h
        exact left_lt (Nat.lt_succ_self _)

theorem remaining_resume {suspension : UpdateValidators.Suspension}
    {reply : Reply UpdateValidators.Answer}
    (h : (resumeUpdateValidators suspension reply memory).2 = some next) :
    remaining next < remaining suspension := by
  unfold resumeUpdateValidators at h
  split at h
  · obtain rfl := Option.some.inj h
    exact stage_lt (by omega)
  · split at h
    · exact (remaining_countNext h).trans (stage_lt (by omega))
    · cases h
  · exact remaining_countNext h
  · obtain rfl := Option.some.inj h
    exact stage_lt (by omega)
  · split at h
    · exact (remaining_sumNext h).trans (stage_lt (by omega))
    · cases h
  · exact remaining_sumNext h
  · obtain rfl := Option.some.inj h
    exact stage_lt (by omega)
  · split at h
    · obtain rfl := Option.some.inj h
      exact stage_lt (by omega)
    · cases h
  · cases h
  · cases h
  · cases h

end ValidatorsService

theorem ValidatorsCacheService.remaining_resume
    {suspension next : ValidatorsCacheService.Suspension}
    {reply : Reply ValidatorsCacheService.Answer} {memory : Memory}
    (h : (ValidatorsCacheService.resume suspension reply memory).2 = some next) :
    remaining next < remaining suspension := by
  unfold ValidatorsCacheService.resume at h
  split at h
  · split at h
    · obtain rfl := Option.some.inj h
      exact Nat.lt_succ_self _
    · cases h
  · split at h
    · obtain rfl := Option.some.inj h
      exact Nat.lt_succ_self _
    · cases h
  · cases h
  · cases h

theorem ContractConfigService.remaining_resume {suspension next : ContractConfigService.Suspension}
    {answer : ℤ × ContractConfigService.Answer} {memory : Memory}
    (h : (ContractConfigService.resume suspension answer memory).2 = some next) :
    remaining next < remaining suspension := by
  unfold ContractConfigService.resume at h
  split at h
  · obtain rfl := Option.some.inj h
    exact Nat.lt_succ_self _
  · cases h
  · cases h

/-- Another page is asked for only as long as ids are left. -/
theorem QueueInfoService.remaining_nextPage {queue : QueueState}
    {requests : List WithdrawalRequest} {requestIds : List ℤ} {clock : CronClock} {memory : Memory}
    {next : QueueInfoService.Suspension}
    (h : (nextPage queue requests requestIds clock memory).2 = some next) :
    requestIds ≠ [] ∧ remaining next = toLex (0, requestIds.length) := by
  cases requestIds with
  | nil => cases h
  | cons id requestIds =>
      obtain rfl := Option.some.inj h
      exact ⟨List.cons_ne_nil _ _, rfl⟩

theorem QueueInfoService.remaining_resume {suspension next : QueueInfoService.Suspension}
    {answer : CronClock × QueueInfoService.Answer} {memory : Memory}
    (h : (QueueInfoService.resume suspension answer memory).2 = some next) :
    remaining next < remaining suspension := by
  unfold QueueInfoService.resume at h
  split at h
  · split at h
    · rw [(remaining_nextPage h).2]
      exact stage_lt (by omega)
    · cases h
  · split at h
    · obtain ⟨hleft, hnext⟩ := remaining_nextPage h
      rw [hnext]
      apply left_lt
      have hlength := List.length_pos_iff.mpr hleft
      rw [List.length_drop, withdrawalStatusPageSize] at hlength ⊢
      omega
    · cases h
  · cases h

/-- The answers that a job may still need: a stage, and what is left of its loop. -/
def System.remaining : (job : JobName) → (jobs job).Suspension → ℕ ×ₗ ℕ
  | .initializeFromCache => fun suspension => toLex (0, ValidatorsCacheService.remaining suspension)
  | .updateValidators => ValidatorsService.remaining
  | .updateLidoWithdrawableValidators => fun suspension => toLex (0, Restart.work suspension)
  | .updateQueueInfo => QueueInfoService.remaining
  | .updateContractConfig => fun suspension => toLex (0, ContractConfigService.remaining suspension)

/-- Every answer leaves less to do, whatever is in the memory. -/
theorem System.remaining_resume {job : JobName} {suspension : (jobs job).Suspension}
    {answer : (jobs job).Answer} {memory : Memory} {next : (jobs job).Suspension}
    (h : ((jobs job).resume suspension answer memory).2 = some next) :
    remaining job next < remaining job suspension := by
  cases job with
  | initializeFromCache => exact left_lt (ValidatorsCacheService.remaining_resume h)
  | updateValidators => exact ValidatorsService.remaining_resume h
  | updateLidoWithdrawableValidators =>
      exact left_lt (Restart.work_decreases suspension answer memory next h)
  | updateQueueInfo => exact QueueInfoService.remaining_resume h
  | updateContractConfig => exact left_lt (ContractConfigService.remaining_resume h)

/-! ## What a call has left -/

namespace WaitingTimeService

/-- The call is answered, or it has been rejected. -/
def Suspension.IsOver : Suspension → Prop
  | .answered _ => True
  | .rejected => True
  | _ => False

/-- The answers that a call goes on with where it waits. -/
def Suspension.Awaits : Suspension → Answer → Prop
  | .fetchingBlockState _ _, answer => answer ≠ .settled
  | .answered _, _ => False
  | .rejected, _ => False
  | _, answer => answer = .settled

/-- The answers a call may still need. -/
def remaining : Suspension → ℕ
  | .checkingQueue _ _ _ => 4
  | .estimatingRequest _ _ _ _ => 3
  | .recalculating _ _ _ _ => 2
  | .settling _ _ _ => 1
  | .fetchingBlockState _ _ => 2
  | .estimatingAmount _ _ => 1
  | .estimatingUnknown _ _ _ => 1
  | .answered _ => 0
  | .rejected => 0

/-- A segment that throws is over; one that does not needs less. -/
theorem remaining_ofOutcome {segment : Outcome Suspension} {bound : ℕ} (hbound : 0 < bound)
    (h : ∀ suspension, segment = .ok suspension → remaining suspension < bound) :
    remaining (.ofOutcome segment) < bound := by
  cases segment with
  | error fault => exact hbound
  | ok suspension => exact h suspension rfl

theorem remaining_estimateQueued {r : Readings} {now : ℤ} {state : BlockState} {requestId : ℕ}
    {requests : List WithdrawalRequest} {suspension : Suspension}
    (h : r.estimateQueued now state requestId requests = .ok suspension) :
    remaining suspension = 3 := by
  unfold Readings.estimateQueued at h
  split at h
  · cases h
  · obtain ⟨_, -, h⟩ := Outcome.bind_eq_ok.mp h
    obtain ⟨_, -, h⟩ := Outcome.bind_eq_ok.mp h
    rw [← Outcome.pure_eq_ok.mp h]
    rfl

theorem remaining_checkInPast {r : Readings} {now : ℤ} {state : BlockState}
    {request : WithdrawalRequest} {nextCalculationAt : ℤ}
    {estimate : CalculateWaitingTimeV2Result} {suspension : Suspension}
    (h : r.checkInPast now state request nextCalculationAt estimate = .ok suspension) :
    remaining suspension < 3 := by
  obtain ⟨_, -, h⟩ := Outcome.bind_eq_ok.mp h
  dsimp only at h
  split at h
  · obtain ⟨_, -, h⟩ := Outcome.bind_eq_ok.mp h
    rw [← Outcome.pure_eq_ok.mp h]
    simp [remaining]
  · rw [← Outcome.pure_eq_ok.mp h]
    simp [remaining]

theorem remaining_fallBack (r : Readings) (now : ℤ) (request : WithdrawalRequest)
    (nextCalculationAt currentFrame : ℤ) (result : CalculateWaitingTimeV2Result) :
    remaining (r.fallBack now request nextCalculationAt currentFrame result) = 1 := by
  simp only [Readings.fallBack]
  split <;> rfl

theorem remaining_resume {suspension : Suspension} {reply : Reply Answer} (memory : Memory)
    (hawaits : suspension.Awaits reply.answer) :
    remaining (resume suspension reply memory) < remaining suspension := by
  obtain ⟨now, answer⟩ := reply
  cases suspension with
  | fetchingBlockState nextCalculationAt amount =>
      cases answer with
      | blockState state =>
          refine remaining_ofOutcome (by simp [remaining]) fun next h => ?_
          obtain ⟨r, -, h⟩ := Outcome.bind_eq_ok.mp h
          obtain ⟨_, -, h⟩ := Outcome.bind_eq_ok.mp h
          rw [← Outcome.pure_eq_ok.mp h]
          simp [remaining]
      | rejected => exact Nat.two_pos
      | settled => exact absurd rfl hawaits
  | estimatingAmount =>
      obtain rfl : answer = .settled := hawaits
      exact Nat.one_pos
  | estimatingUnknown =>
      obtain rfl : answer = .settled := hawaits
      exact Nat.one_pos
  | checkingQueue =>
      obtain rfl : answer = .settled := hawaits
      refine remaining_ofOutcome (by simp [remaining]) fun next h => ?_
      obtain ⟨r, -, h⟩ := Outcome.bind_eq_ok.mp h
      rw [remaining_estimateQueued h]
      simp [remaining]
  | estimatingRequest =>
      obtain rfl : answer = .settled := hawaits
      refine remaining_ofOutcome (by simp [remaining]) fun next h => ?_
      obtain ⟨r, -, h⟩ := Outcome.bind_eq_ok.mp h
      exact remaining_checkInPast h
  | recalculating =>
      obtain rfl : answer = .settled := hawaits
      refine remaining_ofOutcome (by simp [remaining]) fun next h => ?_
      obtain ⟨r, -, h⟩ := Outcome.bind_eq_ok.mp h
      rw [← Outcome.pure_eq_ok.mp h, remaining_fallBack]
      simp [remaining]
  | settling =>
      obtain rfl : answer = .settled := hawaits
      exact Nat.one_pos
  | answered => exact hawaits.elim
  | rejected => exact hawaits.elim

/-- Another answer than the awaited one leaves the call where it waits. -/
theorem resume_of_not_awaits {suspension : Suspension} {reply : Reply Answer} (memory : Memory)
    (h : ¬ suspension.Awaits reply.answer) : resume suspension reply memory = suspension := by
  obtain ⟨now, answer⟩ := reply
  cases suspension with
  | fetchingBlockState nextCalculationAt amount =>
      obtain rfl : answer = .settled := not_not.mp h
      rfl
  | answered => rfl
  | rejected => rfl
  | _ =>
      cases answer with
      | settled => exact absurd rfl h
      | _ => rfl

end WaitingTimeService

/-! ## Every infinite run -/

namespace Service

open WaitingTimeService

/-- What brings a call to what it is answered. -/
def callDescent (call : ℕ) :
    Job.Descent (Job.withReaders jobs (fun _ : ℕ => waitingTimeCall) (.inr call)) ℕ :=
  .ofReader Suspension.IsOver (fun suspension reply => suspension.Awaits (Reply.answer reply))
    remaining (fun memory _ hawaits => Or.inr (remaining_resume memory hawaits))
    fun memory hawaits => resume_of_not_awaits memory hawaits

/-- **Nothing waits for ever, unless it is not answered**: whatever the order of an infinite
run of the jobs and the calls, and from whatever state on, a job is free to be run again,
again and again, exactly if each call it awaits is answered at some time, be it by a
failure; and a call is over at some time exactly if it is answered wherever it waits. -/
theorem free_again_iff (s : Service) (events : ℕ → Event) :
    (∀ job : JobName,
      (∀ n, ∃ m ≥ n, (Job.State.trace s events m).suspended (.inl job) = none) ↔
        ∀ n, (Job.State.trace s events n).suspended (.inl job) ≠ none →
          ∃ m ≥ n, ∃ answer, events m = .resume (.inl job) answer) ∧
      ∀ call : ℕ,
        (∀ n, ∃ m ≥ n, ∀ suspension, (Job.State.trace s events m).reading call = some suspension →
          suspension.IsOver) ↔
        ∀ n suspension, (Job.State.trace s events n).reading call = some suspension →
          ¬ suspension.IsOver →
            ∃ m ≥ n, ∃ reply : Reply Answer, events m = .resume (.inr call) reply ∧
              suspension.Awaits reply.answer := by
  constructor
  · intro job
    exact Job.Descent.forall_exists_idle_iff System.remaining_resume
  · intro call
    exact (callDescent call).forall_exists_atRest_iff

end Service

end WithdrawalsApi
