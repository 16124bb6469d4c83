/-
# Readers beside the jobs

A call from outside reads the shared memory between the calls it awaits and writes
nothing. It is a job that never ends: it rests, at last, on what it answers.

The jobs do not notice the readers. In a run with readers beside them, the memory and
the jobs are at every moment what they are in the run of the jobs alone, so whatever is
known of the runs of the jobs is known to a reader each time it goes on. What its
segments establish from that holds of where it rests.
-/

import WithdrawalsApi.Math.Jobs

namespace WithdrawalsApi.Math

universe u v w x

/-- A job that only reads. -/
structure Reader (σ : Type u) where
  /-- What is supplied when the reader is started. -/
  Input : Type v
  /-- Where the reader waits, or rests on its answer. -/
  Suspension : Type v
  /-- What an awaited call may answer. -/
  Answer : Type v
  start : Input → σ → Suspension
  resume : Suspension → Answer → σ → Suspension

variable {σ : Type u} {ι : Type w} {κ : Type x}

/-- The reader as a job. -/
def Reader.toJob (reader : Reader.{u, v} σ) : Job.{u, v} σ where
  Input := reader.Input
  Suspension := reader.Suspension
  Answer := reader.Answer
  start input s := (s, some (reader.start input s))
  resume suspension answer s := (s, some (reader.resume suspension answer s))

/-- A reader that goes on so many times, with the same answer and undisturbed. -/
def Reader.undisturbed (reader : Reader.{u, v} σ) (answer : reader.Answer) (s : σ) :
    ℕ → reader.Suspension → reader.Suspension
  | 0, suspension => suspension
  | count + 1, suspension => reader.undisturbed answer s count (reader.resume suspension answer s)

namespace Job

/-- Jobs with readers beside them. -/
def withReaders (jobs : ι → Job.{u, v} σ) (readers : κ → Reader.{u, v} σ) :
    ι ⊕ κ → Job.{u, v} σ
  | .inl job => jobs job
  | .inr reader => (readers reader).toJob

variable {jobs : ι → Job.{u, v} σ} {readers : κ → Reader.{u, v} σ}

/-- The occurrence for the jobs, if it is one. -/
def Event.ofJobs : Event (withReaders jobs readers) → Option (Event jobs)
  | .start (.inl job) input => some (.start job input)
  | .resume (.inl job) answer => some (.resume job answer)
  | .start (.inr _) _ => none
  | .resume (.inr _) _ => none

/-- An occurrence for the jobs, with readers beside them. -/
def Event.beside : Event jobs → Event (withReaders jobs readers)
  | .start job input => .start (.inl job) input
  | .resume job answer => .resume (.inl job) answer

namespace State

/-- The memory and the jobs. -/
def ofJobs (s : State (withReaders jobs readers)) : State jobs where
  shared := s.shared
  suspended job := s.suspended (.inl job)

/-- Where a reader waits or rests. -/
def reading (s : State (withReaders jobs readers)) (reader : κ) :
    Option (readers reader).Suspension :=
  s.suspended (.inr reader)

variable [DecidableEq ι] [DecidableEq κ]

/-- A segment of a job, seen from the jobs. -/
theorem ofJobs_after_inl (s : State (withReaders jobs readers)) (job : ι)
    (segment : σ × Option (jobs job).Suspension) :
    (s.after (.inl job) segment).ofJobs = s.ofJobs.after job segment := by
  refine congrArg (State.mk segment.1) (funext fun other => ?_)
  by_cases hother : other = job
  · subst hother
    have hself := s.after_suspended_self (.inl other) segment
    exact hself.trans (s.ofJobs.after_suspended_self other segment).symm
  · have hne : (Sum.inl other : ι ⊕ κ) ≠ .inl job := fun heq => hother (Sum.inl.inj heq)
    have hsame := s.after_suspended_of_ne hne segment
    exact hsame.trans (s.ofJobs.after_suspended_of_ne hother segment).symm

/-- A segment of a reader is not seen from the jobs. -/
theorem ofJobs_after_inr (s : State (withReaders jobs readers)) (reader : κ)
    (suspended : Option (readers reader).Suspension) :
    (s.after (.inr reader) (s.shared, suspended)).ofJobs = s.ofJobs := by
  refine congrArg (State.mk s.shared) (funext fun other => ?_)
  have hne : (Sum.inl other : ι ⊕ κ) ≠ .inr reader := Sum.inl_ne_inr
  exact s.after_suspended_of_ne hne (s.shared, suspended)

/-- The jobs take their own steps, and none when a reader goes on. -/
theorem ofJobs_step (s : State (withReaders jobs readers))
    (event : Event (withReaders jobs readers)) :
    (s.step event).ofJobs = event.ofJobs.elim s.ofJobs s.ofJobs.step := by
  cases event with
  | start job input =>
      cases job with
      | inl job =>
          change _ = s.ofJobs.step (.start job input)
          cases h : s.suspended (.inl job) with
          | none =>
              have hruns : s.Runs (.start (.inl job) input) (.inl job) _ := .start h
              have halone : s.ofJobs.Runs (.start job input) job _ := .start h
              rw [hruns.step_eq, halone.step_eq]
              exact s.ofJobs_after_inl job _
          | some suspension =>
              have halone : s.ofJobs.suspended job = some suspension := h
              rw [step_start_of_suspended h]
              exact (step_start_of_suspended halone input).symm
      | inr reader =>
          cases h : s.suspended (.inr reader) with
          | none =>
              have hruns : s.Runs (.start (.inr reader) input) (.inr reader) _ := .start h
              rw [hruns.step_eq]
              exact s.ofJobs_after_inr reader _
          | some suspension =>
              rw [step_start_of_suspended h]
              rfl
  | resume job answer =>
      cases job with
      | inl job =>
          change _ = s.ofJobs.step (.resume job answer)
          cases h : s.suspended (.inl job) with
          | none =>
              have halone : s.ofJobs.suspended job = none := h
              rw [step_resume_of_idle h]
              exact (step_resume_of_idle halone answer).symm
          | some suspension =>
              have hruns : s.Runs (.resume (.inl job) answer) (.inl job) _ := .resume h
              have halone : s.ofJobs.Runs (.resume job answer) job _ := .resume h
              rw [hruns.step_eq, halone.step_eq]
              exact s.ofJobs_after_inl job _
      | inr reader =>
          cases h : s.suspended (.inr reader) with
          | none =>
              rw [step_resume_of_idle h]
              rfl
          | some suspension =>
              have hruns : s.Runs (.resume (.inr reader) answer) (.inr reader) _ := .resume h
              rw [hruns.step_eq]
              exact s.ofJobs_after_inr reader _

/-- **The jobs do not notice the readers.** -/
theorem ofJobs_run (s : State (withReaders jobs readers))
    (events : List (Event (withReaders jobs readers))) :
    (s.run events).ofJobs = s.ofJobs.run (events.filterMap Event.ofJobs) := by
  induction events generalizing s with
  | nil => rfl
  | cons event events ih =>
      rw [run_cons, ih, ofJobs_step]
      cases h : event.ofJobs with
      | none => rw [List.filterMap_cons_none h, Option.elim_none]
      | some alone => rw [List.filterMap_cons_some h, Option.elim_some, run_cons]

/-- What every admitted step of the jobs preserves holds at every step of a run with
readers beside them. -/
theorem meets_ofJobs {condition : State jobs → Event jobs → Prop} {property : State jobs → Prop}
    (hstep : ∀ s event, condition s event → property s → property (s.step event))
    {s : State (withReaders jobs readers)} {events : List (Event (withReaders jobs readers))}
    (hmeets : Meets condition s.ofJobs (events.filterMap Event.ofJobs)) (h : property s.ofJobs) :
    Meets (fun s _ => property s.ofJobs) s events := by
  induction events generalizing s with
  | nil => trivial
  | cons event events ih =>
      refine ⟨h, ?_⟩
      cases hjobs : event.ofJobs with
      | none =>
          have hsame : (s.step event).ofJobs = s.ofJobs := by
            rw [ofJobs_step, hjobs, Option.elim_none]
          rw [List.filterMap_cons_none hjobs, ← hsame] at hmeets
          rw [← hsame] at h
          exact ih hmeets h
      | some alone =>
          have hnext : (s.step event).ofJobs = s.ofJobs.step alone := by
            rw [ofJobs_step, hjobs, Option.elim_some]
          rw [List.filterMap_cons_some hjobs] at hmeets
          have hafter := hstep s.ofJobs alone hmeets.1 h
          have hrest := hmeets.2
          rw [← hnext] at hafter hrest
          exact ih hrest hafter

/-- The reader has begun, and something holds of where it waits or rests. -/
def Reads (reader : κ) (rests : (readers reader).Suspension → Prop)
    (s : State (withReaders jobs readers)) : Prop :=
  ∃ suspension, s.reading reader = some suspension ∧ rests suspension

/-- A reader that has begun. -/
theorem reads_start {s : State (withReaders jobs readers)} {reader : κ}
    (h : s.reading reader = none) {input : (readers reader).Input}
    {rests : (readers reader).Suspension → Prop}
    (hrests : rests ((readers reader).start input s.shared)) :
    (s.step (.start (.inr reader) input)).Reads reader rests := by
  have hruns : s.Runs (.start (.inr reader) input) (.inr reader) _ := .start h
  exact ⟨_, hruns.step_suspended, hrests⟩

/-- **The rule for a reader**: what it establishes each time it goes on, from what holds
then, holds of where it rests. -/
theorem reads_run {reader : κ} {rests : (readers reader).Suspension → Prop}
    {condition : State (withReaders jobs readers) → Event (withReaders jobs readers) → Prop}
    (hresume : ∀ s answer suspension, condition s (.resume (.inr reader) answer) →
      rests suspension → rests ((readers reader).resume suspension answer s.shared))
    {s : State (withReaders jobs readers)} {events : List (Event (withReaders jobs readers))}
    (hmeets : Meets condition s events) (h : s.Reads reader rests) :
    (s.run events).Reads reader rests := by
  refine run_preserves (fun s event hcondition hreads => ?_) hmeets h
  obtain ⟨suspension, hreading, hrests⟩ := hreads
  rcases s.step_cases event with hsame | ⟨job, segment, hruns⟩
  · rw [hsame]
    exact ⟨suspension, hreading, hrests⟩
  · by_cases hjob : job = .inr reader
    · subst hjob
      cases hruns with
      | start hidle => exact absurd (hidle.symm.trans hreading) nofun
      | @resume _ answer waiting hsuspended =>
          obtain rfl : waiting = suspension := Option.some.inj (hsuspended.symm.trans hreading)
          have hruns : s.Runs (.resume (.inr reader) answer) (.inr reader) _ := .resume hsuspended
          exact ⟨_, hruns.step_suspended, hresume s answer waiting hcondition hrests⟩
    · exact ⟨suspension, (hruns.step_suspended_of_ne (Ne.symm hjob)).trans hreading, hrests⟩

end State

end Job

end WithdrawalsApi.Math
