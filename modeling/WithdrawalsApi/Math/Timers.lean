/-
# Timers that run until they are stopped

A timer belongs to nobody: once started it runs, and only whoever still holds it
can stop it. A runtime of timers therefore keeps the set of those that run apart
from the lists in which a program holds some of them, and gives every timer a
number that it never gives again.

A schedule may be refused. Starting the timers of a list of schedules then breaks
off, and those started so far run without being held.
-/

import Mathlib.Data.List.Basic

namespace WithdrawalsApi.Math

/-- A started timer. -/
structure Timer (κ : Type*) where
  number : ℕ
  schedule : κ
  deriving DecidableEq

/-- The timers that run, and how many have been started so far. -/
structure Timers (κ : Type*) where
  running : List (Timer κ)
  started : ℕ
  number_lt : ∀ timer ∈ running, timer.number < started

namespace Timers

variable {κ : Type*}

def empty : Timers κ where
  running := []
  started := 0
  number_lt := fun _ h => (by cases h)

/-- The timer that is started next. -/
def fresh (timers : Timers κ) (schedule : κ) : Timer κ where
  number := timers.started
  schedule

def start (timers : Timers κ) (schedule : κ) : Timers κ where
  running := timers.running ++ [timers.fresh schedule]
  started := timers.started + 1
  number_lt := by
    intro timer hmem
    rcases List.mem_append.mp hmem with hold | hnew
    · exact Nat.lt_succ_of_lt (timers.number_lt timer hold)
    · rw [List.mem_singleton.mp hnew]
      exact Nat.lt_succ_self _

theorem mem_running_start {timers : Timers κ} {schedule : κ} {timer : Timer κ} :
    timer ∈ (timers.start schedule).running ↔
      timer ∈ timers.running ∨ timer = timers.fresh schedule := by
  simp [start]

/-- One timer for each schedule, in order, up to the first that is refused. -/
def startAll (accepts : κ → Bool) : List κ → Timers κ → Timers κ × Option (List (Timer κ))
  | [], timers => (timers, some [])
  | schedule :: schedules, timers =>
      if accepts schedule then
        let rest := startAll accepts schedules (timers.start schedule)
        (rest.1, rest.2.map (timers.fresh schedule :: ·))
      else (timers, none)

variable [DecidableEq κ]

def stopAll (stopped : List (Timer κ)) (timers : Timers κ) : Timers κ where
  running := timers.running.filter fun timer => timer ∉ stopped
  started := timers.started
  number_lt timer hmem := timers.number_lt timer (List.mem_of_mem_filter hmem)

theorem mem_running_stopAll {stopped : List (Timer κ)} {timers : Timers κ} {timer : Timer κ} :
    timer ∈ (timers.stopAll stopped).running ↔ timer ∈ timers.running ∧ timer ∉ stopped := by
  simp [stopAll]

/-- Nothing runs when everything that runs is stopped. -/
theorem running_stopAll_of_subset {stopped : List (Timer κ)} {timers : Timers κ}
    (h : timers.running ⊆ stopped) : (timers.stopAll stopped).running = [] := by
  apply List.eq_nil_iff_forall_not_mem.mpr
  intro timer hmem
  rw [mem_running_stopAll] at hmem
  exact hmem.2 (h hmem.1)

omit [DecidableEq κ]

/-- What a full start leads to. -/
structure StartsAll (schedules : List κ) (before after : Timers κ) (held : List (Timer κ)) :
    Prop where
  running : after.running = before.running ++ held
  schedules : held.map Timer.schedule = schedules
  /-- No timer is started twice. -/
  new : ∀ timer ∈ held, before.started ≤ timer.number

theorem startsAll {accepts : κ → Bool} {schedules : List κ}
    (haccepts : ∀ schedule ∈ schedules, accepts schedule = true) (timers : Timers κ) :
    ∃ after held, startAll accepts schedules timers = (after, some held) ∧
      StartsAll schedules timers after held := by
  induction schedules generalizing timers with
  | nil => exact ⟨timers, [], rfl, by simp, rfl, fun _ h => (by cases h)⟩
  | cons schedule schedules ih =>
      have hhead : accepts schedule = true := haccepts schedule (List.mem_cons_self)
      obtain ⟨after, held, hstart, hrest⟩ :=
        ih (fun other hmem => haccepts other (List.mem_cons_of_mem _ hmem)) (timers.start schedule)
      refine ⟨after, timers.fresh schedule :: held, ?_, ?_, ?_, ?_⟩
      · simp only [startAll, hhead, if_true, hstart, Option.map_some]
      · rw [hrest.running]
        simp [start]
      · simp [hrest.schedules, fresh]
      · intro timer hmem
        rcases List.mem_cons.mp hmem with rfl | hmem
        · exact Nat.le_refl _
        · exact Nat.le_of_succ_le (hrest.new timer hmem)

/-- A timer that ran before is none of the new ones. -/
theorem StartsAll.not_mem_held {schedules : List κ} {before after : Timers κ}
    {held : List (Timer κ)} (h : StartsAll schedules before after held) {timer : Timer κ}
    (hmem : timer ∈ before.running) : timer ∉ held := by
  intro hheld
  have hlt := before.number_lt timer hmem
  have hle := h.new timer hheld
  omega

end Timers

end WithdrawalsApi.Math
