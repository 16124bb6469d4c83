/-
# Jobs suspended at their awaited calls

A single-threaded runtime runs a job without interruption from one awaited call
to the next; while a job is suspended the others may run. A job is therefore a
set of suspensions, each with the local variables that are still needed, and a
segment of code for the start and for the answer to each awaited call. A segment
transforms the shared memory and either suspends the job again or ends it; a
call that throws ends it with the memory it has reached.

A run interleaves the segments of a family of jobs in any order. The rule for
runs is that of assumptions and commitments: every job has an assertion about
its own suspension and promises something about each of its segments, and no
assertion of one job is destroyed by a segment of another that keeps its
promise. Segments may be restricted by a condition on the state and the event.
-/

import Mathlib.Data.Nat.Notation
import Mathlib.Logic.Function.Basic
import Mathlib.Logic.IsEmpty.Basic

namespace WithdrawalsApi.Math

universe u v w

/-- A job over a shared memory. -/
structure Job (σ : Type u) where
  /-- What is supplied when the job is started. -/
  Input : Type v
  /-- Where the job waits, with its local variables. -/
  Suspension : Type v
  /-- What an awaited call may answer. -/
  Answer : Type v
  start : Input → σ → σ × Option Suspension
  resume : Suspension → Answer → σ → σ × Option Suspension

namespace Job

variable {σ : Type u} {ι : Type w}

/-- A job that never waits, such as a transition of the environment. -/
def atomic {Input : Type v} (act : Input → σ → σ) : Job.{u, v} σ where
  Input := Input
  Suspension := PEmpty
  Answer := PEmpty
  start input s := (act input s, none)
  resume suspension := nomatch suspension

/-- A job over a part of the memory. -/
def within {τ : Type*} (job : Job.{u, v} σ) (part : τ → σ) (setPart : σ → τ → τ) : Job τ where
  Input := job.Input
  Suspension := job.Suspension
  Answer := job.Answer
  start input s :=
    let segment := job.start input (part s)
    (setPart segment.1 s, segment.2)
  resume suspension answer s :=
    let segment := job.resume suspension answer (part s)
    (setPart segment.1 s, segment.2)

/-! ## A job alone -/

section Alone

variable (job : Job.{u, v} σ) (rule : job.Suspension → job.Answer)

/-- A job alone, its awaited calls answered by a rule, for at most so many
answers. -/
def alone : ℕ → σ × Option job.Suspension → σ × Option job.Suspension
  | 0, state => state
  | _ + 1, (s, none) => (s, none)
  | fuel + 1, (s, some suspension) => alone fuel (job.resume suspension (rule suspension) s)

variable {job rule}

@[simp]
theorem alone_none (fuel : ℕ) (s : σ) : job.alone rule fuel (s, none) = (s, none) := by
  cases fuel <;> rfl

@[simp]
theorem alone_succ_some (fuel : ℕ) (s : σ) (suspension : job.Suspension) :
    job.alone rule (fuel + 1) (s, some suspension) =
      job.alone rule fuel (job.resume suspension (rule suspension) s) := rfl

/-- A job that goes on from where it has been left. -/
theorem alone_add (first second : ℕ) (state : σ × Option job.Suspension) :
    job.alone rule (first + second) state = job.alone rule second (job.alone rule first state) := by
  induction first generalizing state with
  | zero => rw [Nat.zero_add, alone]
  | succ first ih =>
      obtain ⟨s, suspended⟩ := state
      cases suspended with
      | none => rw [alone_none, alone_none, alone_none]
      | some suspension =>
          rw [Nat.succ_add, alone_succ_some, alone_succ_some]
          exact ih _

/-- What every segment preserves holds in the end. -/
theorem alone_preserves {property : σ × Option job.Suspension → Prop}
    (hstep : ∀ suspension s, property (s, some suspension) →
      property (job.resume suspension (rule suspension) s))
    (fuel : ℕ) {state : σ × Option job.Suspension} (h : property state) :
    property (job.alone rule fuel state) := by
  induction fuel generalizing state with
  | zero => exact h
  | succ fuel ih =>
      obtain ⟨s, suspended⟩ := state
      cases suspended with
      | none => exact h
      | some suspension => exact ih (hstep suspension s h)

/-- A job whose remaining work decreases with each answer ends. -/
theorem alone_ends {work : job.Suspension → ℕ}
    (hdecreases : ∀ suspension s, ∀ next ∈ (job.resume suspension (rule suspension) s).2,
      work next < work suspension)
    {fuel : ℕ} {state : σ × Option job.Suspension}
    (hfuel : ∀ suspension ∈ state.2, work suspension < fuel) :
    (job.alone rule fuel state).2 = none := by
  induction fuel generalizing state with
  | zero =>
      obtain ⟨s, suspended⟩ := state
      cases suspended with
      | none => rfl
      | some suspension => exact absurd (hfuel suspension rfl) (Nat.not_lt_zero _)
  | succ fuel ih =>
      obtain ⟨s, suspended⟩ := state
      cases suspended with
      | none => rfl
      | some suspension =>
          apply ih
          intro next hnext
          exact Nat.lt_of_lt_of_le (hdecreases suspension s next hnext)
            (Nat.le_of_lt_succ (hfuel suspension rfl))

end Alone

/-! ## Runs of a family of jobs -/

/-- An occurrence in a run: a job is called, or the call it awaits answers. -/
inductive Event (jobs : ι → Job.{u, v} σ)
  | start (job : ι) (input : (jobs job).Input)
  | resume (job : ι) (answer : (jobs job).Answer)

/-- The job an occurrence is about. -/
def Event.job {jobs : ι → Job.{u, v} σ} : Event jobs → ι
  | .start job _ => job
  | .resume job _ => job

/-- The shared memory and the suspensions of the jobs in flight. -/
structure State (jobs : ι → Job.{u, v} σ) where
  shared : σ
  suspended : (job : ι) → Option (jobs job).Suspension

variable {jobs : ι → Job.{u, v} σ}

namespace State

/-- No job is in flight. -/
def idle (jobs : ι → Job.{u, v} σ) (shared : σ) : State jobs where
  shared := shared
  suspended := fun _ => none

/-- The segment of code that an occurrence runs. -/
inductive Runs (s : State jobs) :
    Event jobs → (job : ι) → σ × Option (jobs job).Suspension → Prop
  | start {job : ι} {input : (jobs job).Input} (hidle : s.suspended job = none) :
      Runs s (.start job input) job ((jobs job).start input s.shared)
  | resume {job : ι} {answer : (jobs job).Answer} {suspension : (jobs job).Suspension}
      (hsuspended : s.suspended job = some suspension) :
      Runs s (.resume job answer) job ((jobs job).resume suspension answer s.shared)

theorem Runs.job_eq {s : State jobs} {event : Event jobs} {job : ι}
    {segment : σ × Option (jobs job).Suspension} (h : s.Runs event job segment) :
    event.job = job := by
  cases h <;> rfl

/-- A job without suspensions is never in flight. -/
theorem suspended_of_isEmpty (s : State jobs) {job : ι} (h : IsEmpty (jobs job).Suspension) :
    s.suspended job = none := by
  cases hsuspended : s.suspended job with
  | none => rfl
  | some suspension => exact h.elim suspension

variable [DecidableEq ι]

/-- The state after a segment of a job. -/
def after (s : State jobs) (job : ι) (segment : σ × Option (jobs job).Suspension) :
    State jobs where
  shared := segment.1
  suspended := Function.update s.suspended job segment.2

@[simp]
theorem after_suspended_self (s : State jobs) (job : ι)
    (segment : σ × Option (jobs job).Suspension) :
    (s.after job segment).suspended job = segment.2 := by
  simp [after]

@[simp]
theorem after_suspended_of_ne (s : State jobs) {job other : ι} (h : other ≠ job)
    (segment : σ × Option (jobs job).Suspension) :
    (s.after job segment).suspended other = s.suspended other := by
  simp [after, h]

/-- One occurrence. A job that is in flight is not started again, and an answer
nobody waits for is lost. -/
def step (s : State jobs) : Event jobs → State jobs
  | .start job input =>
      match s.suspended job with
      | none => s.after job ((jobs job).start input s.shared)
      | some _ => s
  | .resume job answer =>
      match s.suspended job with
      | none => s
      | some suspension => s.after job ((jobs job).resume suspension answer s.shared)

theorem Runs.step_eq {s : State jobs} {event : Event jobs} {job : ι}
    {segment : σ × Option (jobs job).Suspension} (h : s.Runs event job segment) :
    s.step event = s.after job segment := by
  cases h with
  | start hidle => simp only [step, hidle]
  | resume hsuspended => simp only [step, hsuspended]

theorem Runs.step_shared {s : State jobs} {event : Event jobs} {job : ι}
    {segment : σ × Option (jobs job).Suspension} (h : s.Runs event job segment) :
    (s.step event).shared = segment.1 := by
  rw [h.step_eq]
  rfl

theorem Runs.step_suspended {s : State jobs} {event : Event jobs} {job : ι}
    {segment : σ × Option (jobs job).Suspension} (h : s.Runs event job segment) :
    (s.step event).suspended job = segment.2 := by
  rw [h.step_eq, after_suspended_self]

theorem Runs.step_suspended_of_ne {s : State jobs} {event : Event jobs} {job other : ι}
    {segment : σ × Option (jobs job).Suspension} (h : s.Runs event job segment)
    (hne : other ≠ job) : (s.step event).suspended other = s.suspended other := by
  rw [h.step_eq, after_suspended_of_ne s hne]

/-- A call of a job that is in flight is dropped. -/
theorem step_start_of_suspended {s : State jobs} {job : ι} {suspension : (jobs job).Suspension}
    (h : s.suspended job = some suspension) (input : (jobs job).Input) :
    s.step (.start job input) = s := by
  simp only [step, h]

/-- An answer to a job that is not in flight is lost. -/
theorem step_resume_of_idle {s : State jobs} {job : ι} (h : s.suspended job = none)
    (answer : (jobs job).Answer) : s.step (.resume job answer) = s := by
  simp only [step, h]

/-- An occurrence has no effect, or it runs one segment of one job. -/
theorem step_cases (s : State jobs) (event : Event jobs) :
    s.step event = s ∨ ∃ job segment, s.Runs event job segment := by
  cases event with
  | start job input =>
      cases h : s.suspended job with
      | none => exact Or.inr ⟨job, _, .start h⟩
      | some suspension => exact Or.inl (step_start_of_suspended h input)
  | resume job answer =>
      cases h : s.suspended job with
      | none => exact Or.inl (step_resume_of_idle h answer)
      | some suspension => exact Or.inr ⟨job, _, .resume h⟩

/-- What the segments of a job and those of the others preserve of the memory and of
where that job is suspended, every step preserves. -/
theorem step_preserves_of_job (s : State jobs) (event : Event jobs) (job : ι)
    (property : σ → Option (jobs job).Suspension → Prop)
    (hjob : ∀ segment, s.Runs event job segment → property segment.1 segment.2)
    (hothers : ∀ other segment, other ≠ job → s.Runs event other segment →
      property segment.1 (s.suspended job))
    (h : property s.shared (s.suspended job)) :
    property (s.step event).shared ((s.step event).suspended job) := by
  rcases s.step_cases event with hsame | ⟨other, segment, hruns⟩
  · rw [hsame]
    exact h
  · by_cases hother : other = job
    · subst hother
      rw [hruns.step_shared, hruns.step_suspended]
      exact hjob segment hruns
    · rw [hruns.step_shared, hruns.step_suspended_of_ne (Ne.symm hother)]
      exact hothers other segment hother hruns

/-- The occurrences of a run, one after the other. -/
def run (s : State jobs) (events : List (Event jobs)) : State jobs := events.foldl step s

@[simp]
theorem run_nil (s : State jobs) : s.run [] = s := rfl

@[simp]
theorem run_cons (s : State jobs) (event : Event jobs) (events : List (Event jobs)) :
    s.run (event :: events) = (s.step event).run events := rfl

theorem run_append (s : State jobs) (first second : List (Event jobs)) :
    s.run (first ++ second) = (s.run first).run second := List.foldl_append

/-- Every occurrence of a run meets a condition on it and the state it finds. -/
def Meets (condition : State jobs → Event jobs → Prop) :
    State jobs → List (Event jobs) → Prop
  | _, [] => True
  | s, event :: events => condition s event ∧ Meets condition (s.step event) events

instance decidableMeets (condition : State jobs → Event jobs → Prop)
    [∀ s event, Decidable (condition s event)] :
    (s : State jobs) → (events : List (Event jobs)) → Decidable (Meets condition s events)
  | _, [] => .isTrue trivial
  | s, event :: events =>
      have := decidableMeets condition (s.step event) events
      inferInstanceAs (Decidable (condition s event ∧ Meets condition (s.step event) events))

variable {condition : State jobs → Event jobs → Prop}

theorem meets_append {s : State jobs} {first second : List (Event jobs)} :
    Meets condition s (first ++ second) ↔
      Meets condition s first ∧ Meets condition (s.run first) second := by
  induction first generalizing s with
  | nil => simp [Meets]
  | cons event events ih => simp [Meets, ih, and_assoc]

theorem meets_true (s : State jobs) (events : List (Event jobs)) :
    Meets (fun _ _ => True) s events := by
  induction events generalizing s with
  | nil => trivial
  | cons event events ih => exact ⟨trivial, ih (s.step event)⟩

/-- A condition on every occurrence by itself. -/
theorem meets_of_forall {occurrence : Event jobs → Prop} {s : State jobs}
    {events : List (Event jobs)} (h : ∀ event ∈ events, occurrence event) :
    Meets (fun _ event => occurrence event) s events := by
  induction events generalizing s with
  | nil => trivial
  | cons event events ih =>
      exact ⟨h event List.mem_cons_self,
        ih fun other hmem => h other (List.mem_cons_of_mem event hmem)⟩

theorem Meets.mono {weaker : State jobs → Event jobs → Prop}
    (h : ∀ s event, condition s event → weaker s event) {s : State jobs}
    {events : List (Event jobs)} (hmeets : Meets condition s events) : Meets weaker s events := by
  induction events generalizing s with
  | nil => trivial
  | cons event events ih => exact ⟨h s event hmeets.1, ih hmeets.2⟩

theorem Meets.and {other : State jobs → Event jobs → Prop} {s : State jobs}
    {events : List (Event jobs)} (hmeets : Meets condition s events)
    (hother : Meets other s events) :
    Meets (fun s event => condition s event ∧ other s event) s events := by
  induction events generalizing s with
  | nil => trivial
  | cons event events ih => exact ⟨⟨hmeets.1, hother.1⟩, ih hmeets.2 hother.2⟩

/-- What every admitted step preserves, every admitted run preserves. -/
theorem run_preserves {property : State jobs → Prop}
    (hstep : ∀ s event, condition s event → property s → property (s.step event))
    {s : State jobs} {events : List (Event jobs)} (hmeets : Meets condition s events)
    (h : property s) : property (s.run events) := by
  induction events generalizing s with
  | nil => exact h
  | cons event events ih => exact ih hmeets.2 (hstep s event hmeets.1 h)

/-- What every admitted step preserves holds at every step of an admitted run. -/
theorem Meets.invariant {property : State jobs → Prop}
    (hstep : ∀ s event, condition s event → property s → property (s.step event))
    {s : State jobs} {events : List (Event jobs)} (hmeets : Meets condition s events)
    (h : property s) : Meets (fun s _ => property s) s events := by
  induction events generalizing s with
  | nil => trivial
  | cons event events ih => exact ⟨h, ih hmeets.2 (hstep s event hmeets.1 h)⟩

/-- A run with a step that fails the condition ends with what every such step brings
about, and every later step preserves. -/
theorem run_of_not_meets {admitted : State jobs → Event jobs → Prop} {property : State jobs → Prop}
    (hfails : ∀ s event, admitted s event → ¬ condition s event → property (s.step event))
    (hstep : ∀ s event, admitted s event → property s → property (s.step event))
    {s : State jobs} {events : List (Event jobs)} (hadmitted : Meets admitted s events)
    (h : ¬ Meets condition s events) : property (s.run events) := by
  induction events generalizing s with
  | nil => exact absurd trivial h
  | cons event events ih =>
      by_cases hevent : condition s event
      · exact ih hadmitted.2 fun hmeets => h ⟨hevent, hmeets⟩
      · have hafter := hfails s event hadmitted.1 hevent
        have hrest := run_preserves hstep hadmitted.2 hafter
        exact hrest

/-- What an observer of a run has noted down at its end. -/
def observe {ω : Type*} (note : Event jobs → ω → ω) (events : List (Event jobs)) (noted : ω) : ω :=
  events.foldl (fun noted event => note event noted) noted

/-- What every admitted step preserves together with what is noted of it, every
admitted run preserves. -/
theorem run_preserves_observed {ω : Type*} {note : Event jobs → ω → ω}
    {property : State jobs → ω → Prop}
    (hstep : ∀ s event noted, condition s event → property s noted →
      property (s.step event) (note event noted))
    {s : State jobs} {events : List (Event jobs)} (hmeets : Meets condition s events) {noted : ω}
    (h : property s noted) : property (s.run events) (observe note events noted) := by
  induction events generalizing s noted with
  | nil => exact h
  | cons event events ih => exact ih hmeets.2 (hstep s event noted hmeets.1 h)

end State

/-- Assumptions and commitments of a family of jobs, for the steps that meet a
condition. -/
structure Outline (jobs : ι → Job.{u, v} σ) [DecidableEq ι]
    (condition : State jobs → Event jobs → Prop) where
  /-- What holds of the shared memory at every await. -/
  invariant : σ → Prop
  /-- What a job knows of the shared memory where it is suspended, or while it is
  not in flight. -/
  asserts : (job : ι) → Option (jobs job).Suspension → σ → Prop
  /-- What a job promises about each of its segments. -/
  commits : (job : ι) → σ → σ → Prop
  /-- A segment establishes the assertion of where it ends. -/
  segment : ∀ {s : State jobs} {event : Event jobs} {job : ι}
    {segment : σ × Option (jobs job).Suspension},
    condition s event → s.Runs event job segment → invariant s.shared →
      asserts job (s.suspended job) s.shared →
        invariant segment.1 ∧ asserts job segment.2 segment.1 ∧ commits job s.shared segment.1
  /-- No assertion is destroyed by another job that keeps its promise. -/
  stable : ∀ {job other : ι}, job ≠ other →
    ∀ {suspended : Option (jobs job).Suspension} {before after : σ},
      asserts job suspended before → commits other before after → asserts job suspended after

namespace Outline

variable [DecidableEq ι] {condition : State jobs → Event jobs → Prop}

/-- The invariant and all assertions hold. -/
structure Holds (outline : Outline jobs condition) (s : State jobs) : Prop where
  invariant : outline.invariant s.shared
  asserts : ∀ job, outline.asserts job (s.suspended job) s.shared

variable (outline : Outline jobs condition)

theorem holds_step (s : State jobs) (event : Event jobs) (hmeets : condition s event)
    (h : outline.Holds s) : outline.Holds (s.step event) := by
  rcases s.step_cases event with hstep | ⟨job, segment, hruns⟩
  · rw [hstep]
    exact h
  · obtain ⟨hinvariant, hasserts, hcommits⟩ :=
      outline.segment hmeets hruns h.invariant (h.asserts job)
    rw [← hruns.step_shared] at hinvariant hasserts hcommits
    refine ⟨hinvariant, fun other => ?_⟩
    by_cases hother : other = job
    · subst hother
      rw [hruns.step_suspended]
      exact hasserts
    · rw [hruns.step_suspended_of_ne hother]
      exact outline.stable hother (h.asserts other) hcommits

/-- An outline holds throughout every admitted run. -/
theorem holds_run {s : State jobs} {events : List (Event jobs)}
    (hmeets : State.Meets condition s events) (h : outline.Holds s) :
    outline.Holds (s.run events) :=
  State.run_preserves outline.holds_step hmeets h

/-- Two outlines for the same steps, side by side. -/
def both (other : Outline jobs condition) : Outline jobs condition where
  invariant s := outline.invariant s ∧ other.invariant s
  asserts job suspended s := outline.asserts job suspended s ∧ other.asserts job suspended s
  commits job before after := outline.commits job before after ∧ other.commits job before after
  segment hevent hruns hinvariant hasserts := by
    obtain ⟨hfirst, hfirstAsserts, hfirstCommits⟩ :=
      outline.segment hevent hruns hinvariant.1 hasserts.1
    obtain ⟨hsecond, hsecondAsserts, hsecondCommits⟩ :=
      other.segment hevent hruns hinvariant.2 hasserts.2
    exact ⟨⟨hfirst, hsecond⟩, ⟨hfirstAsserts, hsecondAsserts⟩, hfirstCommits, hsecondCommits⟩
  stable hne _ _ _ hasserts hcommits :=
    ⟨outline.stable hne hasserts.1 hcommits.1, other.stable hne hasserts.2 hcommits.2⟩

theorem both_holds_iff {other : Outline jobs condition} {s : State jobs} :
    (outline.both other).Holds s ↔ outline.Holds s ∧ other.Holds s := by
  constructor
  · intro h
    exact ⟨⟨h.invariant.1, fun job => (h.asserts job).1⟩,
      ⟨h.invariant.2, fun job => (h.asserts job).2⟩⟩
  · rintro ⟨hfirst, hsecond⟩
    exact ⟨⟨hfirst.invariant, hsecond.invariant⟩,
      fun job => ⟨hfirst.asserts job, hsecond.asserts job⟩⟩

end Outline

end Job

end WithdrawalsApi.Math
