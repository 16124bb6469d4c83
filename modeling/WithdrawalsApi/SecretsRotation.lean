/-
# The restart on a rotation of the secrets

The secrets come as a file that is read again whenever the watch of its path
fires. A read that fails is retried later by a timer, one timer for each failed
read, and a content other than the last one closes the application and exits
once it is closed, or after a while if it is not.

The watch, the timers and the promise of `app.close()` run their callbacks in
any order, so an event names the callback and, where it reads the file, what the
read gives. The handlers of a settled promise run before any other callback.
What counts is how often the application is closed, that no failed read is left
without a retry, and that no exit comes too early or never.
-/

import WithdrawalsApi.Math.Histories
import WithdrawalsApi.Math.Timers
import Mathlib.Algebra.Order.Group.Int

namespace WithdrawalsApi

open Math Histories

namespace SecretsRotation

/-! ## The registration and its callbacks -/

/-- `FORCE_EXIT_TIMEOUT_MS`. -/
def forceExitTimeoutMs : ℤ := 10000

/-- `DEFAULT_SECRETS_FILE`. -/
def defaultSecretsFile : List Char := "/vault/secrets/app".toList

/-- `POLL_INTERVAL_MS`. -/
def pollIntervalMs : ℤ := 10000

structure SecretsRotationOptions where
  intervalMs : ℤ := pollIntervalMs
  forceExitMs : ℤ := forceExitTimeoutMs

/-- What `setTimeout` is called with. -/
inductive Callback
  | listener
  | forceExit
  deriving DecidableEq

structure Timeout where
  callback : Callback
  delay : ℤ
  deriving DecidableEq

/-- `setTimeout(listener, Math.min(intervalMs, 5_000))`. -/
def SecretsRotationOptions.retry (options : SecretsRotationOptions) : Timeout where
  callback := .listener
  delay := min options.intervalMs 5000

/-- The timer that `restart` sets. -/
def SecretsRotationOptions.forceExit (options : SecretsRotationOptions) : Timeout where
  callback := .forceExit
  delay := options.forceExitMs

/-- A call of the application or of the process. -/
inductive Call
  | close
  | exit (code : ℤ)
  deriving DecidableEq

/-- The variables of the registration, the watch, the timers that run, and the calls made so
far, in order. Every promise of `app.close()` that is not settled yet has the timer that its
`finally` clears. -/
structure State (Content : Type*) where
  lastContent : Content
  restarting : Bool := false
  watching : Bool := true
  timers : Timers Timeout := .empty
  closing : List (Timer Timeout) := []
  calls : List Call := []

section Registration

variable {Failure Content : Type*}

/-- The path of the file, from `SECRETS_FILE`. -/
def secretsPath (secretsFile : Option (List Char)) : List Char :=
  secretsFile.getD defaultSecretsFile

/-- Without a file at the default path nothing is watched. An empty `SECRETS_FILE` is
falsy, but it is not replaced by the default path. -/
def registerSecretsRotationRestart (secretsFile : Option (List Char))
    (readFileSync : List Char → Except Failure Content) :
    Except Failure (Option (State Content)) :=
  match readFileSync (secretsPath secretsFile) with
  | .ok lastContent => .ok (some { lastContent })
  | .error failure => if secretsFile.getD [] ≠ [] then .error failure else .ok none

/-- A registration watches exactly a file that it has read. -/
theorem registerSecretsRotationRestart_eq_watching_iff {secretsFile : Option (List Char)}
    {readFileSync : List Char → Except Failure Content} {start : State Content} :
    registerSecretsRotationRestart secretsFile readFileSync = .ok (some start) ↔
      ∃ content, readFileSync (secretsPath secretsFile) = .ok content ∧
        start = { lastContent := content } := by
  unfold registerSecretsRotationRestart
  cases readFileSync (secretsPath secretsFile) with
  | ok content => simp [eq_comm]
  | error failure => split_ifs <;> simp

end Registration

/-- What happens, with what the read of the file gives. -/
inductive Event (Failure Content : Type*)
  | watchFires (read : Except Failure Content)
  | retryFires (timer : Timer Timeout) (read : Except Failure Content)
  | forceExitFires (timer : Timer Timeout)
  | closeSettles (forceExitTimer : Timer Timeout) (outcome : Except Failure Unit)
  | stop

variable {Failure Content : Type*}

/-- What the file has given at an event, if it was read. -/
def Event.read : Event Failure Content → Option (Except Failure Content)
  | .watchFires read => some read
  | .retryFires _ read => some read
  | _ => none

namespace State

/-- A timer that fires does not run any more. -/
def fired (timer : Timer Timeout) (state : State Content) : State Content :=
  { state with timers := state.timers.stopAll [timer] }

def restart (options : SecretsRotationOptions) (state : State Content) : State Content :=
  if state.restarting then state
  else
    { state with
      restarting := true
      timers := state.timers.start options.forceExit
      closing := state.closing ++ [state.timers.fresh options.forceExit]
      calls := state.calls ++ [.close] }

def listener [DecidableEq Content] (options : SecretsRotationOptions)
    (read : Except Failure Content) (state : State Content) : State Content :=
  match read with
  | .error _ => { state with timers := state.timers.start options.retry }
  | .ok raw =>
      if raw = state.lastContent then state
      else restart options { state with lastContent := raw }

/-- The callback of the timer that a restart sets. -/
def forceExit (state : State Content) : State Content :=
  { state with calls := state.calls ++ [.exit 0] }

/-- The handlers of a promise of `app.close()`; `catch` only writes to the log, so `finally`
runs however the promise is settled. -/
def closed (forceExitTimer : Timer Timeout) (state : State Content) : State Content :=
  { state with
    closing := state.closing.erase forceExitTimer
    timers := state.timers.stopAll [forceExitTimer]
    calls := state.calls ++ [.exit 0] }

end State

/-- One callback, or a call of the function that the registration has returned. An event is
refused where it cannot happen: a watch that has been stopped, a timer that does not run, and
a promise that is settled already. -/
def step [DecidableEq Content] (options : SecretsRotationOptions) (state : State Content) :
    Event Failure Content → Option (State Content)
  | .watchFires read => if state.watching then some (state.listener options read) else none
  | .retryFires timer read =>
      if timer ∈ state.timers.running ∧ timer.schedule.callback = .listener then
        some ((state.fired timer).listener options read)
      else none
  | .forceExitFires timer =>
      if timer ∈ state.timers.running ∧ timer.schedule.callback = .forceExit then
        some (state.fired timer).forceExit
      else none
  | .closeSettles forceExitTimer _ =>
      if forceExitTimer ∈ state.closing then some (state.closed forceExitTimer) else none
  | .stop => some { state with watching := false }

/-! ## What a callback does -/

variable {options : SecretsRotationOptions} {state next : State Content}
  {read : Except Failure Content} {event : Event Failure Content}

/-- What the listener does with a read. -/
inductive Listens (options : SecretsRotationOptions) (state : State Content) :
    Except Failure Content → State Content → Prop
  | retries {failure : Failure} :
      Listens options state (.error failure)
        { state with timers := state.timers.start options.retry }
  | unchanged : Listens options state (.ok state.lastContent) state
  | restartsAlready {raw : Content} (hraw : raw ≠ state.lastContent)
      (hrestarting : state.restarting = true) :
      Listens options state (.ok raw) { state with lastContent := raw }
  | restarts {raw : Content} (hraw : raw ≠ state.lastContent)
      (hrestarting : state.restarting = false) :
      Listens options state (.ok raw)
        { lastContent := raw
          restarting := true
          watching := state.watching
          timers := state.timers.start options.forceExit
          closing := state.closing ++ [state.timers.fresh options.forceExit]
          calls := state.calls ++ [.close] }

theorem listens [DecidableEq Content] (options : SecretsRotationOptions) (state : State Content)
    (read : Except Failure Content) :
    Listens options state read (state.listener options read) := by
  cases read with
  | error failure => exact .retries
  | ok raw =>
      by_cases hraw : raw = state.lastContent
      · rw [State.listener, if_pos hraw, hraw]
        exact .unchanged
      · rw [State.listener, if_neg hraw]
        cases hrestarting : state.restarting with
        | false => simpa [State.restart, hrestarting] using Listens.restarts hraw hrestarting
        | true => simpa [State.restart, hrestarting] using Listens.restartsAlready hraw hrestarting

/-- What a step does. -/
inductive Step (options : SecretsRotationOptions) (state : State Content) :
    Event Failure Content → State Content → Prop
  | watchFires {read : Except Failure Content} {next : State Content}
      (hwatching : state.watching = true) (hlistens : Listens options state read next) :
      Step options state (.watchFires read) next
  | retryFires {timer : Timer Timeout} {read : Except Failure Content} {next : State Content}
      (hrunning : timer ∈ state.timers.running) (hcallback : timer.schedule.callback = .listener)
      (hlistens : Listens options (state.fired timer) read next) :
      Step options state (.retryFires timer read) next
  | forceExitFires {timer : Timer Timeout}
      (hrunning : timer ∈ state.timers.running)
      (hcallback : timer.schedule.callback = .forceExit) :
      Step options state (.forceExitFires timer) (state.fired timer).forceExit
  | closeSettles {forceExitTimer : Timer Timeout} {outcome : Except Failure Unit}
      (hclosing : forceExitTimer ∈ state.closing) :
      Step options state (.closeSettles forceExitTimer outcome) (state.closed forceExitTimer)
  | stop : Step options state .stop { state with watching := false }

theorem Step.of_step [DecidableEq Content] (h : step options state event = some next) :
    Step options state event next := by
  cases event with
  | watchFires read =>
      obtain ⟨hwatching, hnext⟩ := Option.ite_none_right_eq_some.mp h
      obtain rfl := Option.some.inj hnext
      exact .watchFires hwatching (listens options state read)
  | retryFires timer read =>
      obtain ⟨⟨hrunning, hcallback⟩, hnext⟩ := Option.ite_none_right_eq_some.mp h
      obtain rfl := Option.some.inj hnext
      exact .retryFires hrunning hcallback (listens options (state.fired timer) read)
  | forceExitFires timer =>
      obtain ⟨⟨hrunning, hcallback⟩, hnext⟩ := Option.ite_none_right_eq_some.mp h
      obtain rfl := Option.some.inj hnext
      exact .forceExitFires hrunning hcallback
  | closeSettles forceExitTimer outcome =>
      obtain ⟨hclosing, hnext⟩ := Option.ite_none_right_eq_some.mp h
      obtain rfl := Option.some.inj hnext
      exact .closeSettles hclosing
  | stop =>
      obtain rfl := Option.some.inj h
      exact .stop

/-! ## What holds in every state -/

/-- Every exit comes after a close. -/
def CloseBeforeExit (calls : List Call) : Prop :=
  Preceded (fun call => call = .close) (fun call => ∃ code, call = .exit code) calls

/-- The flag of the restart tells what has been called and what is left of the restart. -/
structure Consistent (state : State Content) : Prop where
  closing_forceExit : ∀ timer ∈ state.closing, timer.schedule.callback = .forceExit
  restarting_of_closing : ∀ timer ∈ state.closing, state.restarting = true
  restarting_of_running : ∀ timer ∈ state.timers.running,
    timer.schedule.callback = .forceExit → state.restarting = true
  count_close : state.calls.count .close = state.restarting.toNat
  close_before_exit : CloseBeforeExit state.calls
  /-- Until the process has been told to exit, a restart has its timer. -/
  exits : state.restarting = true →
    .exit 0 ∈ state.calls ∨ ∃ timer ∈ state.closing, timer ∈ state.timers.running

theorem consistent_start (content : Content) : Consistent { lastContent := content } where
  closing_forceExit := fun _ h => (by cases h)
  restarting_of_closing := fun _ h => (by cases h)
  restarting_of_running := fun _ h => (by cases h)
  count_close := rfl
  close_before_exit := Preceded.nil
  exits := nofun

namespace Consistent

theorem close_mem_iff (h : Consistent state) :
    .close ∈ state.calls ↔ state.restarting = true := by
  rw [← List.count_pos_iff, h.count_close]
  cases state.restarting <;> decide

theorem fired (h : Consistent state) {timer : Timer Timeout}
    (hcallback : timer.schedule.callback = .listener) : Consistent (state.fired timer) where
  closing_forceExit := h.closing_forceExit
  restarting_of_closing := h.restarting_of_closing
  restarting_of_running other hrunning :=
    h.restarting_of_running other (Timers.mem_running_stopAll.mp hrunning).1
  count_close := h.count_close
  close_before_exit := h.close_before_exit
  exits hrestarting := by
    rcases h.exits hrestarting with hexit | ⟨other, hclosing, hrunning⟩
    · exact Or.inl hexit
    · refine Or.inr ⟨other, hclosing, Timers.mem_running_stopAll.mpr ⟨hrunning, ?_⟩⟩
      -- the timer that has fired is none that a restart has set
      intro hsame
      rw [← List.mem_singleton.mp hsame, h.closing_forceExit other hclosing] at hcallback
      cases hcallback

theorem listens (h : Consistent state) (hlistens : Listens options state read next) :
    Consistent next := by
  cases hlistens with
  | retries =>
      refine ⟨h.closing_forceExit, h.restarting_of_closing, ?_, h.count_close,
        h.close_before_exit, ?_⟩
      · intro timer hrunning hcallback
        rcases Timers.mem_running_start.mp hrunning with hold | rfl
        · exact h.restarting_of_running timer hold hcallback
        · cases hcallback
      · intro hrestarting
        rcases h.exits hrestarting with hexit | ⟨timer, hclosing, hrunning⟩
        · exact Or.inl hexit
        · exact Or.inr ⟨timer, hclosing, Timers.mem_running_start.mpr (Or.inl hrunning)⟩
  | unchanged => exact h
  | restartsAlready _ _ =>
      exact ⟨h.closing_forceExit, h.restarting_of_closing, h.restarting_of_running, h.count_close,
        h.close_before_exit, h.exits⟩
  | restarts _ hrestarting =>
      refine ⟨?_, fun _ _ => rfl, fun _ _ _ => rfl, ?_, ?_, ?_⟩
      · intro timer hclosing
        rcases List.mem_append.mp hclosing with hold | hnew
        · exact h.closing_forceExit timer hold
        · rw [List.mem_singleton.mp hnew]
          rfl
      · rw [List.count_append, h.count_close, hrestarting]
        rfl
      · exact h.close_before_exit.concat (by simp)
      · intro _
        exact Or.inr ⟨_, List.mem_append_right _ (List.mem_singleton_self _),
          Timers.mem_running_start.mpr (Or.inr rfl)⟩

/-- An exit is called during a restart only, and it leaves less to wait for. -/
theorem exited (h : Consistent state) (hrestarting : state.restarting = true)
    {closing : List (Timer Timeout)} {timers : Timers Timeout} (hclosing : closing ⊆ state.closing)
    (htimers : timers.running ⊆ state.timers.running) :
    Consistent { state with closing, timers, calls := state.calls ++ [.exit 0] } where
  closing_forceExit timer hmem := h.closing_forceExit timer (hclosing hmem)
  restarting_of_closing _ _ := hrestarting
  restarting_of_running timer hmem := h.restarting_of_running timer (htimers hmem)
  count_close := by simp [List.count_append, h.count_close]
  close_before_exit :=
    h.close_before_exit.concat fun _ => ⟨.close, h.close_mem_iff.mpr hrestarting, rfl⟩
  exits _ := Or.inl (List.mem_append_right _ (List.mem_singleton_self _))

theorem step (h : Consistent state) (hstep : Step options state event next) :
    Consistent next := by
  cases hstep with
  | watchFires _ hlistens => exact h.listens hlistens
  | retryFires _ hcallback hlistens => exact (h.fired hcallback).listens hlistens
  | forceExitFires hrunning hcallback =>
      exact h.exited (h.restarting_of_running _ hrunning hcallback) (List.Subset.refl _)
        fun _ hmem => (Timers.mem_running_stopAll.mp hmem).1
  | closeSettles hclosing =>
      exact h.exited (h.restarting_of_closing _ hclosing) List.erase_subset
        fun _ hmem => (Timers.mem_running_stopAll.mp hmem).1
  | stop =>
      exact ⟨h.closing_forceExit, h.restarting_of_closing, h.restarting_of_running, h.count_close,
        h.close_before_exit, h.exits⟩

end Consistent

/-! ## What has happened -/

/-- The file has been read with another content. -/
def Event.Rotates (content : Content) (event : Event Failure Content) : Prop :=
  ∃ raw, event.read = some (.ok raw) ∧ raw ≠ content

/-- The application is closed, or has had its time to close. -/
def Event.EndsRestart : Event Failure Content → Prop
  | .forceExitFires _ => True
  | .closeSettles _ _ => True
  | _ => False

theorem Listens.restarting_iff (h : Listens options state read next) :
    next.restarting = true ↔
      state.restarting = true ∨ ∃ raw, read = .ok raw ∧ raw ≠ state.lastContent := by
  cases h with
  | retries => simp
  | unchanged => simp
  | restartsAlready hraw hrestarting => simp [hrestarting]
  | restarts hraw hrestarting => simp [hraw]

theorem Listens.lastContent_eq (h : Listens options state read next)
    (hnext : next.restarting = false) : next.lastContent = state.lastContent := by
  cases h with
  | retries => rfl
  | unchanged => rfl
  | restartsAlready _ hrestarting => exact absurd hnext (by simp [hrestarting])
  | restarts _ _ => cases hnext

/-- Calls are only added. -/
theorem Listens.calls_prefix (h : Listens options state read next) :
    state.calls <+: next.calls := by
  cases h with
  | retries => exact List.prefix_rfl
  | unchanged => exact List.prefix_rfl
  | restartsAlready _ _ => exact List.prefix_rfl
  | restarts _ _ => exact List.prefix_append _ _

namespace Step

/-- A restart begins when a content is read that is not the last one, and it never ends. -/
theorem restarting_iff (h : Step options state event next) :
    next.restarting = true ↔ state.restarting = true ∨ event.Rotates state.lastContent := by
  cases h with
  | watchFires _ hlistens => simpa [Event.Rotates, Event.read] using hlistens.restarting_iff
  | retryFires _ _ hlistens =>
      simpa [Event.Rotates, Event.read, State.fired] using hlistens.restarting_iff
  | forceExitFires _ _ => simp [Event.Rotates, Event.read, State.fired, State.forceExit]
  | closeSettles _ => simp [Event.Rotates, Event.read, State.closed]
  | stop => simp [Event.Rotates, Event.read]

theorem lastContent_eq (h : Step options state event next) (hnext : next.restarting = false) :
    next.lastContent = state.lastContent := by
  cases h with
  | watchFires _ hlistens => exact hlistens.lastContent_eq hnext
  | retryFires _ _ hlistens => exact hlistens.lastContent_eq hnext
  | forceExitFires _ _ => rfl
  | closeSettles _ => rfl
  | stop => rfl

theorem calls_prefix (h : Step options state event next) : state.calls <+: next.calls := by
  cases h with
  | watchFires _ hlistens => exact hlistens.calls_prefix
  | retryFires _ _ hlistens => exact hlistens.calls_prefix
  | forceExitFires _ _ => exact List.prefix_append _ _
  | closeSettles _ => exact List.prefix_append _ _
  | stop => exact List.prefix_rfl

theorem exit_mem_of_endsRestart (h : Step options state event next) (hend : event.EndsRestart) :
    .exit 0 ∈ next.calls := by
  cases h with
  | watchFires _ _ => exact hend.elim
  | retryFires _ _ _ => exact hend.elim
  | forceExitFires _ _ => exact List.mem_append_right _ (List.mem_singleton_self _)
  | closeSettles _ => exact List.mem_append_right _ (List.mem_singleton_self _)
  | stop => exact hend.elim

end Step

/-- The state after a history, as far as the history decides it. -/
structure Tracks (content : Content) (events : List (Event Failure Content))
    (state : State Content) : Prop where
  lastContent_eq : state.restarting = false → state.lastContent = content
  restarting_iff : state.restarting = true ↔ ∃ event ∈ events, event.Rotates content
  exit_of_end : (∃ event ∈ events, event.EndsRestart) → .exit 0 ∈ state.calls

theorem tracks_start (content : Content) :
    Tracks content ([] : List (Event Failure Content)) { lastContent := content } where
  lastContent_eq _ := rfl
  restarting_iff := by simp
  exit_of_end := by simp

theorem Tracks.step {content : Content} {events : List (Event Failure Content)}
    (h : Tracks content events state) (hstep : Step options state event next) :
    Tracks content (events ++ [event]) next where
  lastContent_eq hnext := by
    have hstate : state.restarting = false := by
      rw [← Bool.not_eq_true] at hnext ⊢
      exact fun hrestarting => hnext (hstep.restarting_iff.mpr (Or.inl hrestarting))
    rw [hstep.lastContent_eq hnext, h.lastContent_eq hstate]
  restarting_iff := by
    rw [hstep.restarting_iff, exists_mem_concat_iff, ← h.restarting_iff]
    cases hstate : state.restarting with
    | true => simp
    | false => rw [h.lastContent_eq hstate]
  exit_of_end hend := by
    rcases exists_mem_concat_iff.mp hend with hold | hnew
    · exact hstep.calls_prefix.subset (h.exit_of_end hold)
    · exact hstep.exit_mem_of_endsRestart hnew

/-! ## Retries -/

/-- The listener will read the file again, even if the watch does not fire. -/
def RetryPending (state : State Content) : Prop :=
  ∃ timer ∈ state.timers.running, timer.schedule.callback = .listener

/-- A read that fails leaves a retry. -/
theorem Listens.retryPending {failure : Failure}
    (h : Listens options state (.error failure) next) : RetryPending next := by
  cases h with
  | retries => exact ⟨_, Timers.mem_running_start.mpr (Or.inr rfl), rfl⟩

theorem Step.retryPending_of_failed (h : Step options state event next) {failure : Failure}
    (hread : event.read = some (.error failure)) : RetryPending next := by
  cases h with
  | watchFires _ hlistens =>
      obtain rfl := Option.some.inj hread
      exact hlistens.retryPending
  | retryFires _ _ hlistens =>
      obtain rfl := Option.some.inj hread
      exact hlistens.retryPending
  | forceExitFires _ _ => cases hread
  | closeSettles _ => cases hread
  | stop => cases hread

/-- Stopping other timers leaves a retry. -/
theorem RetryPending.stopAll (h : RetryPending state) {timer : Timer Timeout}
    (hcallback : timer.schedule.callback = .forceExit) {calls : List Call}
    {closing : List (Timer Timeout)} :
    RetryPending { state with timers := state.timers.stopAll [timer], closing, calls } := by
  obtain ⟨retry, hrunning, hretry⟩ := h
  refine ⟨retry, Timers.mem_running_stopAll.mpr ⟨hrunning, ?_⟩, hretry⟩
  intro hsame
  rw [List.mem_singleton.mp hsame, hcallback] at hretry
  cases hretry

/-- A retry lasts until a read succeeds. -/
theorem RetryPending.step (hconsistent : Consistent state) (h : RetryPending state)
    (hread : ∀ raw, event.read ≠ some (.ok raw)) (hstep : Step options state event next) :
    RetryPending next := by
  cases hevent : event.read with
  | some read =>
      cases read with
      | error failure => exact hstep.retryPending_of_failed hevent
      | ok raw => exact absurd hevent (hread raw)
  | none =>
      cases hstep with
      | watchFires _ _ => cases hevent
      | retryFires _ _ _ => cases hevent
      | forceExitFires _ hcallback => exact h.stopAll hcallback
      | closeSettles hclosing => exact h.stopAll (hconsistent.closing_forceExit _ hclosing)
      | stop => exact h

/-! ## The registration over its runs -/

section Runs

variable [DecidableEq Content] {content : Content} {events : List (Event Failure Content)}
  {final : State Content}

theorem consistent_step (state : State Content) (event : Event Failure Content)
    (next : State Content) (h : Consistent state) (hstep : step options state event = some next) :
    Consistent next := h.step (.of_step hstep)

theorem consistent_run (h : run (step options) { lastContent := content } events = some final) :
    Consistent final :=
  run_preserves (consistent_start content) consistent_step h

theorem tracks_run (h : run (step options) { lastContent := content } events = some final) :
    Tracks content events final :=
  run_invariant (tracks_start content)
    (fun _ _ _ _ hstate hstep => Tracks.step hstate (.of_step hstep)) h

/-- After a failed read a retry is pending until a read succeeds. -/
theorem retryPending_run {before after : List (Event Failure Content)} {failure : Failure}
    (hread : event.read = some (.error failure))
    (hafter : ∀ later ∈ after, ∀ raw, later.read ≠ some (.ok raw))
    (h : run (step options) { lastContent := content } (before ++ event :: after) = some final) :
    RetryPending final := by
  refine run_since consistent_step ?_ ?_ hafter (consistent_start content) h
  · intro state later next hstate hretry hlater hstep
    exact hretry.step hstate hlater (.of_step hstep)
  · intro state next _ hstep
    exact (Step.of_step hstep).retryPending_of_failed hread

/-- A pending retry that reads another content than at the start closes the application,
unless it is being closed already. -/
theorem exists_step_close (h : run (step options) { lastContent := content } events = some final)
    {timer : Timer Timeout} (hrunning : timer ∈ final.timers.running)
    (hcallback : timer.schedule.callback = .listener) {raw : Content} (hraw : raw ≠ content) :
    ∃ next, step options final (.retryFires timer (.ok raw) : Event Failure Content) = some next ∧
      .close ∈ next.calls := by
  have hfires : step options final (.retryFires timer (.ok raw) : Event Failure Content) =
      some ((final.fired timer).listener options (.ok raw : Except Failure Content)) :=
    if_pos ⟨hrunning, hcallback⟩
  have hlonger := run_concat_eq_some_iff.mpr ⟨final, h, hfires⟩
  refine ⟨_, hfires, (consistent_run hlonger).close_mem_iff.mpr ?_⟩
  exact (tracks_run hlonger).restarting_iff.mpr
    (exists_mem_concat_iff.mpr (Or.inr ⟨raw, rfl, hraw⟩))

/-- A restart can always be brought to its end: the process has been told to exit, or the
timer that tells it runs. -/
theorem restart_exits (h : run (step options) { lastContent := content } events = some final)
    (hrestarting : final.restarting = true) :
    .exit 0 ∈ final.calls ∨
      ∃ timer next,
        step options final (.forceExitFires timer : Event Failure Content) = some next ∧
          .exit 0 ∈ next.calls := by
  have hconsistent := consistent_run h
  rcases hconsistent.exits hrestarting with hexit | ⟨timer, hclosing, hrunning⟩
  · exact Or.inl hexit
  · exact Or.inr ⟨timer, _, if_pos ⟨hrunning, hconsistent.closing_forceExit timer hclosing⟩,
      List.mem_append_right _ (List.mem_singleton_self _)⟩

/-- What the restart owes to whoever rotates the secrets, after the events so far. -/
structure RestartsExactlyWhenNeeded (options : SecretsRotationOptions) (content : Content)
    (events : List (Event Failure Content)) (final : State Content) : Prop where
  close_once : final.calls.count .close ≤ 1
  close_iff : .close ∈ final.calls ↔ ∃ event ∈ events, event.Rotates content
  /-- Until a read after a failed one succeeds, a retry is pending, and it closes the
  application when it reads another content. -/
  retry_pending : ∀ before event after failure, events = before ++ event :: after →
    event.read = some (.error failure) →
    (∀ later ∈ after, ∀ raw, later.read ≠ some (.ok raw)) →
    ∃ timer ∈ final.timers.running, timer.schedule.callback = .listener ∧
      ∀ raw, raw ≠ content →
        ∃ next,
          step options final (.retryFires timer (.ok raw) : Event Failure Content) = some next ∧
            .close ∈ next.calls
  close_before_exit : ∀ before code after,
    final.calls = before ++ .exit code :: after → .close ∈ before
  exit_of_end : (∃ event ∈ events, event.EndsRestart) → .exit 0 ∈ final.calls

/-- Whatever the reads give and in whatever order the watch, the retries, the timer of the
restart and the promise of its close come, a registration restarts exactly when needed. -/
theorem restarts_exactly_when_needed (secretsFile : Option (List Char))
    (readFileSync : List Char → Except Failure Content) {start : State Content}
    (hread : readFileSync (secretsPath secretsFile) = .ok content)
    (hregister : registerSecretsRotationRestart secretsFile readFileSync = .ok (some start))
    (hrun : run (step options) start events = some final) :
    RestartsExactlyWhenNeeded options content events final := by
  obtain ⟨first, hfirst, rfl⟩ := registerSecretsRotationRestart_eq_watching_iff.mp hregister
  obtain rfl : first = content := Except.ok.inj (hfirst.symm.trans hread)
  have hconsistent := consistent_run hrun
  have htracks := tracks_run hrun
  refine ⟨?_, ?_, ?_, ?_, htracks.exit_of_end⟩
  · rw [hconsistent.count_close]
    exact final.restarting.toNat_le
  · rw [hconsistent.close_mem_iff, htracks.restarting_iff]
  · rintro before event after failure rfl hfailed hafter
    obtain ⟨timer, hrunning, hcallback⟩ := retryPending_run hfailed hafter hrun
    exact ⟨timer, hrunning, hcallback, fun raw hraw =>
      exists_step_close hrun hrunning hcallback hraw⟩
  · intro before code after hcalls
    obtain ⟨earlier, hmem, rfl⟩ :=
      hconsistent.close_before_exit before (.exit code) after hcalls ⟨code, rfl⟩
    exact hmem

end Runs

/-- The file is rotated while it cannot be read: the retry finds the new content, and the
application is closed and exits. -/
theorem restarts_exactly_when_needed_delete_window :
    let options : SecretsRotationOptions := {}
    let events : List (Event Unit ℕ) := [
      .watchFires (.error ()),
      .retryFires { number := 0, schedule := options.retry } (.ok 2),
      .closeSettles { number := 1, schedule := options.forceExit } (.ok ())]
    ∃ final, run (step options) { lastContent := 1 } events = some final ∧
      final.calls = [.close, .exit 0] ∧ RestartsExactlyWhenNeeded options 1 events final := by
  intro options events
  exact ⟨_, rfl, rfl, restarts_exactly_when_needed none (fun _ => .ok 1) rfl rfl rfl⟩

end SecretsRotation

end WithdrawalsApi
