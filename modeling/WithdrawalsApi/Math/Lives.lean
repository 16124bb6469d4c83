/-
# Jobs over several lives

A service that runs jobs over a memory may be killed at any moment. What is in flight is
lost, and the service starts again from what it finds outside the memory. How much of a
call that was in flight has still taken effect outside is not up to the service: a crash
is an occurrence that chooses it.

A journal is what an observer notes down along the way, with the state before each
occurrence in view. What the steps of the jobs and the crashes preserve of the state
together with the journal holds at every moment of every life.
-/

import WithdrawalsApi.Math.Jobs

namespace WithdrawalsApi.Math.Job

universe u v w x y

variable {σ : Type u} {ι : Type w}

/-- An occurrence in the lives of a service: one for its jobs, or a crash. -/
inductive LifeEvent (jobs : ι → Job.{u, v} σ) (κ : Type x)
  | occurs (event : Event jobs)
  | crashes (cut : κ)

namespace State

variable {jobs : ι → Job.{u, v} σ} {κ : Type x} {ω : Type y} [DecidableEq ι]
  (restart : State jobs → κ → State jobs)

/-- One occurrence; after a crash the service starts again. -/
def lifeStep (s : State jobs) : LifeEvent jobs κ → State jobs
  | .occurs event => s.step event
  | .crashes cut => restart s cut

/-- The occurrences of several lives, one after the other. -/
def lives (s : State jobs) (events : List (LifeEvent jobs κ)) : State jobs :=
  events.foldl (lifeStep restart) s

@[simp]
theorem lives_nil (s : State jobs) : lives restart s [] = s := rfl

@[simp]
theorem lives_cons (s : State jobs) (event : LifeEvent jobs κ)
    (events : List (LifeEvent jobs κ)) :
    lives restart s (event :: events) = lives restart (lifeStep restart s event) events := rfl

theorem lives_append (s : State jobs) (first second : List (LifeEvent jobs κ)) :
    lives restart s (first ++ second) = lives restart (lives restart s first) second :=
  List.foldl_append

variable (note : State jobs → LifeEvent jobs κ → ω → ω)

/-- What an observer of several lives has noted down at their end. -/
def journal : State jobs → List (LifeEvent jobs κ) → ω → ω
  | _, [], noted => noted
  | s, event :: events, noted => journal (lifeStep restart s event) events (note s event noted)

@[simp]
theorem journal_nil (s : State jobs) (noted : ω) : journal restart note s [] noted = noted := rfl

@[simp]
theorem journal_cons (s : State jobs) (event : LifeEvent jobs κ)
    (events : List (LifeEvent jobs κ)) (noted : ω) :
    journal restart note s (event :: events) noted =
      journal restart note (lifeStep restart s event) events (note s event noted) := rfl

theorem journal_append (s : State jobs) (first second : List (LifeEvent jobs κ)) (noted : ω) :
    journal restart note s (first ++ second) noted =
      journal restart note (lives restart s first) second
        (journal restart note s first noted) := by
  induction first generalizing s noted with
  | nil => rfl
  | cons event events ih => exact ih _ _

variable {restart note} {admitted : Event jobs → Prop}

/-- What every admitted occurrence and every crash preserve, together with what is noted
of them, all lives preserve. -/
theorem lives_preserves {property : State jobs → ω → Prop}
    (hstep : ∀ s event noted, admitted event → property s noted →
      property (s.step event) (note s (.occurs event) noted))
    (hcrash : ∀ s cut noted, property s noted →
      property (restart s cut) (note s (.crashes cut) noted))
    {s : State jobs} {events : List (LifeEvent jobs κ)}
    (hadmitted : ∀ event, .occurs event ∈ events → admitted event) {noted : ω}
    (h : property s noted) :
    property (lives restart s events) (journal restart note s events noted) := by
  induction events generalizing s noted with
  | nil => exact h
  | cons event events ih =>
      have hrest : ∀ other, .occurs other ∈ events → admitted other :=
        fun other hmem => hadmitted other (List.mem_cons_of_mem _ hmem)
      cases event with
      | occurs event => exact ih hrest (hstep s event noted (hadmitted event List.mem_cons_self) h)
      | crashes cut => exact ih hrest (hcrash s cut noted h)

end State

/-- An outline that a crash establishes anew holds at every moment of every life, and with it
what is preserved, where it holds, of the state together with the journal. -/
theorem Outline.holds_lives {jobs : ι → Job.{u, v} σ} {κ : Type x} {ω : Type y} [DecidableEq ι]
    {admitted : Event jobs → Prop} (outline : Outline jobs fun _ event => admitted event)
    {restart : State jobs → κ → State jobs} {note : State jobs → LifeEvent jobs κ → ω → ω}
    {property : State jobs → ω → Prop}
    (hrestart : ∀ s cut, outline.Holds s → outline.Holds (restart s cut))
    (hstep : ∀ s event noted, admitted event → outline.Holds s → property s noted →
      property (s.step event) (note s (.occurs event) noted))
    (hcrash : ∀ s cut noted, outline.Holds s → property s noted →
      property (restart s cut) (note s (.crashes cut) noted))
    {s : State jobs} {events : List (LifeEvent jobs κ)}
    (hadmitted : ∀ event, .occurs event ∈ events → admitted event) (hholds : outline.Holds s)
    {noted : ω} (h : property s noted) :
    outline.Holds (State.lives restart s events) ∧
      property (State.lives restart s events) (State.journal restart note s events noted) := by
  let both : State jobs → ω → Prop := fun s noted => outline.Holds s ∧ property s noted
  have hboth : both s noted := ⟨hholds, h⟩
  refine State.lives_preserves (fun s event noted hevent hprev => ?_)
    (fun s cut noted hprev => ?_) hadmitted hboth
  · exact ⟨outline.holds_step s event hevent hprev.1, hstep s event noted hevent hprev.1 hprev.2⟩
  · exact ⟨hrestart s cut hprev.1, hcrash s cut noted hprev.1 hprev.2⟩

end WithdrawalsApi.Math.Job
