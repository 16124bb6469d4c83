/-
# Histories of a machine that may refuse

A machine takes one event after another and may refuse an event that cannot
happen in its state. A history is the list of the events it has taken, the
latest last, so a property of a run may speak of the events and of the state
together, and of what has happened since one of the events.

The order inside a history is a property of its own: what must have come before
something else is checked at each event that is added.
-/

import Mathlib.Data.List.Induction

namespace WithdrawalsApi.Math.Histories

universe u v

variable {σ : Type u} {ε : Type v}

/-! ## Runs -/

/-- The state after a history, unless one of its events was refused. -/
def run (step : σ → ε → Option σ) : σ → List ε → Option σ
  | state, [] => some state
  | state, event :: events => (step state event).bind fun next => run step next events

variable {step : σ → ε → Option σ} {start final : σ}

theorem run_append (first second : List ε) :
    run step start (first ++ second) =
      (run step start first).bind fun middle => run step middle second := by
  induction first generalizing start with
  | nil => rfl
  | cons event first ih =>
      rw [List.cons_append, run, run, Option.bind_assoc]
      congr 1
      funext next
      exact ih

theorem run_append_eq_some_iff {first second : List ε} :
    run step start (first ++ second) = some final ↔
      ∃ middle, run step start first = some middle ∧ run step middle second = some final := by
  rw [run_append, Option.bind_eq_some_iff]

theorem run_cons_eq_some_iff {event : ε} {events : List ε} :
    run step start (event :: events) = some final ↔
      ∃ next, step start event = some next ∧ run step next events = some final := by
  rw [run, Option.bind_eq_some_iff]

theorem run_concat_eq_some_iff {events : List ε} {event : ε} :
    run step start (events ++ [event]) = some final ↔
      ∃ last, run step start events = some last ∧ step last event = some final := by
  simp [run_append_eq_some_iff, run]

/-- What holds of the empty history and is preserved by every event that is added holds of
every history and the state it leads to. -/
theorem run_invariant {property : List ε → σ → Prop} (hnil : property [] start)
    (hconcat : ∀ events state event next, property events state →
      step state event = some next → property (events ++ [event]) next)
    {events : List ε} (h : run step start events = some final) : property events final := by
  induction events using List.reverseRecOn generalizing final with
  | nil =>
      obtain rfl := Option.some.inj h
      exact hnil
  | append_singleton events event ih =>
      obtain ⟨last, hlast, hstep⟩ := run_concat_eq_some_iff.mp h
      exact hconcat events last event final (ih hlast) hstep

/-- What events of a kind keep is kept by a history of such events. -/
theorem run_keeps {property : σ → Prop} {kind : ε → Prop}
    (hstep : ∀ state event next, property state → kind event →
      step state event = some next → property next)
    {events : List ε} (hevents : ∀ event ∈ events, kind event) (hstart : property start)
    (h : run step start events = some final) : property final := by
  induction events generalizing start with
  | nil =>
      obtain rfl := Option.some.inj h
      exact hstart
  | cons event events ih =>
      obtain ⟨next, hevent, hrest⟩ := run_cons_eq_some_iff.mp h
      have hnext := hstep start event next hstart (hevents event List.mem_cons_self) hevent
      exact ih (fun later hmem => hevents later (List.mem_cons_of_mem _ hmem)) hnext hrest

/-- An invariant of the states that every event preserves holds after every history. -/
theorem run_preserves {invariant : σ → Prop} (hstart : invariant start)
    (hstep : ∀ state event next, invariant state → step state event = some next → invariant next)
    {events : List ε} (h : run step start events = some final) : invariant final := by
  have hany (state : σ) (event : ε) (next : σ) (hstate : invariant state) (_ : True) :
      step state event = some next → invariant next := hstep state event next hstate
  exact run_keeps hany (fun _ _ => trivial) hstart h

/-- What an event establishes lasts as long as the events after it keep it. The events are
taken in states of an invariant. -/
theorem run_since {invariant property : σ → Prop} {kind : ε → Prop}
    (hinvariant : ∀ state event next, invariant state → step state event = some next →
      invariant next)
    (hkeeps : ∀ state event next, invariant state → property state → kind event →
      step state event = some next → property next)
    {before after : List ε} {event : ε}
    (hestablishes : ∀ state next, invariant state → step state event = some next → property next)
    (hafter : ∀ later ∈ after, kind later) (hstart : invariant start)
    (h : run step start (before ++ event :: after) = some final) : property final := by
  obtain ⟨middle, hbefore, hrest⟩ := run_append_eq_some_iff.mp h
  obtain ⟨next, hevent, hlast⟩ := run_cons_eq_some_iff.mp hrest
  have hmiddle : invariant middle := run_preserves hstart hinvariant hbefore
  have hboth (state : σ) (event : ε) (next : σ) (hstate : invariant state ∧ property state)
      (hkind : kind event) (hstep : step state event = some next) :
      invariant next ∧ property next :=
    ⟨hinvariant state event next hstate.1 hstep,
      hkeeps state event next hstate.1 hstate.2 hkind hstep⟩
  have hnext : invariant next ∧ property next :=
    ⟨hinvariant middle event next hmiddle hevent, hestablishes middle next hmiddle hevent⟩
  exact (run_keeps hboth hafter hnext hlast).2

/-! ## What a history has seen -/

theorem exists_mem_concat_iff {property : ε → Prop} {history : List ε} {event : ε} :
    (∃ other ∈ history ++ [event], property other) ↔
      (∃ other ∈ history, property other) ∨ property event := by
  simp only [List.mem_append, List.mem_singleton, or_and_right, exists_or, exists_eq_left]

/-! ## The order inside a history -/

/-- Whatever is of the second kind has something of the first kind before it. -/
def Preceded (first second : ε → Prop) (history : List ε) : Prop :=
  ∀ before event after, history = before ++ event :: after → second event →
    ∃ earlier ∈ before, first earlier

variable {first second : ε → Prop} {history : List ε}

theorem Preceded.nil : Preceded first second [] := by
  intro before event after h
  simp at h

theorem Preceded.concat (h : Preceded first second history) {event : ε}
    (hevent : second event → ∃ earlier ∈ history, first earlier) :
    Preceded first second (history ++ [event]) := by
  intro before last after hsplit hlast
  rcases List.eq_nil_or_concat after with rfl | ⟨after, final, rfl⟩
  · -- the event that is added
    obtain ⟨rfl, hsame⟩ := List.append_inj' hsplit rfl
    obtain rfl := List.singleton_inj.mp hsame
    exact hevent hlast
  · have hold : history ++ [event] = (before ++ last :: after) ++ [final] := by
      simpa using hsplit
    exact h before last after (List.append_inj' hold rfl).1 hlast

end WithdrawalsApi.Math.Histories
