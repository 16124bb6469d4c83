/-
# The retries of consensus requests

The two streams of the consensus node are read again while their reads fail and attempts
are left. The error of the last attempt is passed on, and a metric counts the retries and
the exhausted operations.

The attempts are counted with a double, and their number comes from the environment, whose
validation lets any finite number through that is not below one. Two kinds of numbers go
wrong. With a fraction the counter never meets the number of attempts: the loop is left
after a retry that never happens, and the error is replaced by one that says that the loop
was not expected to end. Past `2 ^ 53` the counter stands still below the number of
attempts, and the loop has no end.
-/

import WithdrawalsApi.Js.Double
import WithdrawalsApi.Math.Iteration

namespace WithdrawalsApi

open Js Math.Iteration
open Js.Double (lastCount)

/-! ## The environment -/

/-- `toNumber({ defaultValue })`, `@IsNumber()` and `@Min(lower)`: a missing variable and an
empty one have the default. -/
def toNumberAtLeast (defaultValue lower : Double) : Option (List Char) → Option Double
  | none | some [] => some defaultValue
  | some value => (JsNumber.ofText value).double?.filter fun number => decide (lower ≤ number)

def defaultRetryAttempts : Double := .ofInt 5 (by norm_num)

/-- `CL_STREAM_RETRY_ATTEMPTS`; the service does not start with a value that is not
accepted. -/
def clStreamRetryAttempts (value : Option (List Char)) : Option Double :=
  toNumberAtLeast defaultRetryAttempts 1 value

/-- A number that is accepted is not below its bound. -/
theorem le_of_toNumberAtLeast {defaultValue lower number : Double} (h : lower ≤ defaultValue)
    {value : Option (List Char)} (haccepted : toNumberAtLeast defaultValue lower value =
      some number) : lower ≤ number := by
  unfold toNumberAtLeast at haccepted
  split at haccepted
  · rwa [← Option.some.inj haccepted]
  · rwa [← Option.some.inj haccepted]
  · exact of_decide_eq_true (Option.filter_eq_some_iff.mp haccepted).2

namespace ConsensusRetryService

/-! ## `execute` -/

/-- The counter of the loop, and what the metrics and a reader of them count: the calls of
the operation, its retries, and whether its attempts were exhausted. -/
structure Progress where
  attempt : ExtendedDouble
  calls : ℕ := 0
  clApiRetriesTotal : ℕ := 0
  clApiRetryExhaustedTotal : ℕ := 0

variable {T : Type}

inductive State (T : Type)
  | loop (progress : Progress)
  | returned (value : T) (progress : Progress)
  | rejected (error : List Char) (progress : Progress)

/-- The error behind the loop. -/
def loopCompleted (operation : List Char) : List Char :=
  "Consensus retry loop unexpectedly completed for ".toList ++ operation

/-- A step of the machine. The operation is given by what its calls answer one after the
other; the delay before a retry is not part of the machine. -/
def step (operation : List Char) (maxAttempts : Double) (fn : ℕ → Except (List Char) T) :
    State T → State T
  | .loop progress =>
      if progress.attempt ≤ maxAttempts then
        let called := { progress with calls := progress.calls + 1 }
        match fn progress.calls with
        | .ok value => .returned value called
        | .error error =>
            if (maxAttempts : ExtendedDouble) ≤ progress.attempt then
              .rejected error { called with
                clApiRetryExhaustedTotal := progress.clApiRetryExhaustedTotal + 1 }
            else
              .loop { called with
                attempt := progress.attempt.add 1
                clApiRetriesTotal := progress.clApiRetriesTotal + 1 }
      else .rejected (loopCompleted operation) progress
  | .returned value progress => .returned value progress
  | .rejected error progress => .rejected error progress

/-- The first attempt. -/
def start : State T := .loop { attempt := (1 : Double) }

/-- The next step calls the operation. -/
def CallsOperation (maxAttempts : Double) : State T → Prop
  | .loop progress => progress.attempt ≤ maxAttempts
  | _ => False

/-! ## The counter -/

/-- The number of an attempt, after so many retries: counting stops at `2 ^ 53`. -/
def attemptNumber (retries : ℕ) : Double :=
  .ofInt (min (retries + 1) (2 ^ 53)) (by
    rw [abs_of_nonneg (le_min (by omega) (by norm_num))]
    exact min_le_right _ _)

theorem value_attemptNumber (retries : ℕ) :
    (attemptNumber retries).value = min ((retries : ℚ) + 1) (2 ^ 53) := by
  rw [attemptNumber, Double.value_ofInt]
  push_cast
  rfl

/-- Up to `2 ^ 53` the attempts are counted exactly. -/
theorem value_attemptNumber_of_lt {retries : ℕ} (h : retries < 2 ^ 53) :
    (attemptNumber retries).value = retries + 1 := by
  have hle : (retries : ℚ) + 1 ≤ 2 ^ 53 := by exact_mod_cast h
  rw [value_attemptNumber, min_eq_left hle]

/-- Counting one more attempt. -/
theorem add_one_attemptNumber (retries : ℕ) :
    (attemptNumber retries : ExtendedDouble).add 1 = attemptNumber (retries + 1) := by
  by_cases h : retries + 1 < 2 ^ 53
  · apply ExtendedDouble.add_eq_of_value
    rw [value_attemptNumber_of_lt (by omega), value_attemptNumber_of_lt h, Double.value_one]
    push_cast
    rfl
  · have hlast (other : ℕ) (hother : 2 ^ 53 ≤ other + 1) : attemptNumber other = lastCount := by
      have hle : (2 : ℚ) ^ 53 ≤ other + 1 := by exact_mod_cast hother
      apply Double.ext
      rw [value_attemptNumber, min_eq_right hle, Double.value_lastCount]
    rw [hlast retries (by omega), hlast (retries + 1) (by omega),
      ExtendedDouble.add_one_lastCount]

theorem attemptNumber_zero : attemptNumber 0 = 1 := by
  apply Double.ext
  rw [value_attemptNumber_of_lt (by norm_num), Double.value_one]
  norm_num

/-! ## Runs -/

variable {operation : List Char} {maxAttempts : Double} {fn : ℕ → Except (List Char) T}

/-- The loop after so many retries. -/
def retrying (retries : ℕ) : State T :=
  .loop {
    attempt := attemptNumber retries
    calls := retries
    clApiRetriesTotal := retries }

theorem start_eq_retrying : (start : State T) = retrying 0 := by
  rw [start, retrying, attemptNumber_zero]

/-- A call that fails is retried while its number is below that of the attempts. -/
theorem step_retrying {retries : ℕ} {error : List Char} (hfails : fn retries = .error error)
    (hleft : attemptNumber retries < maxAttempts) :
    step operation maxAttempts fn (retrying retries) = retrying (retries + 1) := by
  have hgoes : (attemptNumber retries : ExtendedDouble) ≤ maxAttempts :=
    ExtendedDouble.coe_le_coe.mpr hleft.le
  have hnot : ¬ (maxAttempts : ExtendedDouble) ≤ attemptNumber retries := fun hle =>
    hleft.not_ge (ExtendedDouble.coe_le_coe.mp hle)
  simp only [retrying, step, if_pos hgoes, hfails, if_neg hnot, add_one_attemptNumber]

/-- As long as every call fails below the number of attempts, the loop goes on. -/
theorem reaches_retrying (retries : ℕ) (hfails : ∀ call < retries, ∃ error, fn call = .error error)
    (hleft : ∀ call < retries, attemptNumber call < maxAttempts) :
    Reaches (step operation maxAttempts fn) start (retrying retries) := by
  induction retries with
  | zero =>
      rw [start_eq_retrying]
      exact Reaches.refl _ _
  | succ retries ih =>
      obtain ⟨error, herror⟩ := hfails retries (Nat.lt_succ_self retries)
      have hbefore := ih (fun call hcall => hfails call (Nat.lt_succ_of_lt hcall))
        fun call hcall => hleft call (Nat.lt_succ_of_lt hcall)
      exact hbefore.trans
        (Reaches.of_step (step_retrying herror (hleft retries (Nat.lt_succ_self retries))))

/-- A call that is made and succeeds is the last one. -/
theorem step_retrying_ok {retries : ℕ} {value : T} (hok : fn retries = .ok value)
    (hgoes : attemptNumber retries ≤ maxAttempts) :
    step operation maxAttempts fn (retrying retries) = .returned value
      { attempt := attemptNumber retries, calls := retries + 1, clApiRetriesTotal := retries } := by
  have hcoe : (attemptNumber retries : ExtendedDouble) ≤ maxAttempts :=
    ExtendedDouble.coe_le_coe.mpr hgoes
  simp only [retrying, step, if_pos hcoe, hok]

/-- The call whose number is that of the attempts is the last one. -/
theorem step_retrying_exhausted {retries : ℕ} {error : List Char}
    (hfails : fn retries = .error error) (hlast : attemptNumber retries = maxAttempts) :
    step operation maxAttempts fn (retrying retries) = .rejected error
      { attempt := attemptNumber retries, calls := retries + 1, clApiRetriesTotal := retries
        clApiRetryExhaustedTotal := 1 } := by
  subst hlast
  simp only [retrying, step, if_pos le_rfl, hfails]

/-- A counter that is past the number of attempts leaves the loop. -/
theorem step_retrying_completed {retries : ℕ} (hpast : maxAttempts < attemptNumber retries) :
    step operation maxAttempts fn (retrying retries) = .rejected (loopCompleted operation)
      { attempt := attemptNumber retries, calls := retries, clApiRetriesTotal := retries } := by
  have hnot : ¬ (attemptNumber retries : ExtendedDouble) ≤ maxAttempts := fun hle =>
    hpast.not_ge (ExtendedDouble.coe_le_coe.mp hle)
  simp only [retrying, step, if_neg hnot]

/-! ## What the loop comes to -/

section Outcome

variable (operation : List Char) (maxAttempts : Double) (fn : ℕ → Except (List Char) T)

/-- The operation settles with a value, after so many calls and retries. -/
def Returns (value : T) (calls retries : ℕ) : Prop :=
  ∃ attempt, Reaches (step operation maxAttempts fn) start
    (.returned value { attempt, calls, clApiRetriesTotal := retries })

/-- The operation settles with an error. -/
def Rejects (error : List Char) (calls retries exhausted : ℕ) : Prop :=
  ∃ attempt, Reaches (step operation maxAttempts fn) start
    (.rejected error { attempt, calls, clApiRetriesTotal := retries
                       clApiRetryExhaustedTotal := exhausted })

/-- The operation is called for ever. -/
def CallsForever : Prop :=
  {n | CallsOperation maxAttempts ((step operation maxAttempts fn)^[n] start)}.Infinite

end Outcome

/-- The calls before one fail. -/
def AllFail (fn : ℕ → Except (List Char) T) (calls : ℕ) : Prop :=
  ∀ call < calls, ∃ error, fn call = .error error

/-- The numbers below a whole part that can be counted. -/
theorem attemptNumber_of_lt_floor (hcounts : maxAttempts ≤ lastCount) {retries : ℕ}
    (h : retries < ⌊maxAttempts.value⌋₊) :
    (attemptNumber retries).value = retries + 1 ∧ (attemptNumber retries).value ≤
      maxAttempts.value := by
  have hfloor : ((retries + 1 : ℕ) : ℚ) ≤ maxAttempts.value :=
    (Nat.le_floor_iff' (Nat.succ_ne_zero retries)).mp h
  have hlast : maxAttempts.value ≤ 2 ^ 53 := by
    rw [← Double.value_lastCount]
    exact hcounts
  have hsmall : retries < 2 ^ 53 := by
    have hle : ((retries + 1 : ℕ) : ℚ) ≤ (2 ^ 53 : ℕ) := hfloor.trans (by exact_mod_cast hlast)
    exact_mod_cast hle
  rw [value_attemptNumber_of_lt hsmall]
  exact ⟨rfl, by exact_mod_cast hfloor⟩

/-- Before the last of the numbers that can be counted there is an attempt left. -/
theorem attemptNumber_lt_of_succ_lt_floor (hcounts : maxAttempts ≤ lastCount) {retries : ℕ}
    (h : retries + 1 < ⌊maxAttempts.value⌋₊) : attemptNumber retries < maxAttempts := by
  obtain ⟨hvalue, -⟩ := attemptNumber_of_lt_floor hcounts (Nat.lt_of_succ_lt h)
  obtain ⟨hnext, hle⟩ := attemptNumber_of_lt_floor hcounts h
  rw [hnext] at hle
  rw [Double.lt_iff, hvalue]
  push_cast at hle
  linarith

/-- Past `2 ^ 53` there is always an attempt left. -/
theorem attemptNumber_lt_of_lastCount_lt (h : lastCount < maxAttempts) (retries : ℕ) :
    attemptNumber retries < maxAttempts := by
  refine lt_of_le_of_lt ?_ h
  rw [Double.le_iff, value_attemptNumber, Double.value_lastCount]
  exact min_le_right _ _

/-- The first success is returned. -/
theorem returns_of_ok {retries : ℕ} {value : T}
    (hcounts : retries < ⌊maxAttempts.value⌋₊ ∨ lastCount < maxAttempts)
    (hfails : AllFail fn retries) (hok : fn retries = .ok value) :
    Returns operation maxAttempts fn value (retries + 1) retries := by
  have hgoes : attemptNumber retries ≤ maxAttempts ∧
      ∀ call < retries, attemptNumber call < maxAttempts := by
    rcases le_or_gt maxAttempts lastCount with hle | hlast
    · have hfloor := hcounts.resolve_right hle.not_gt
      refine ⟨(attemptNumber_of_lt_floor hle hfloor).2, fun call hcall => ?_⟩
      exact attemptNumber_lt_of_succ_lt_floor hle (by omega)
    · exact ⟨(attemptNumber_lt_of_lastCount_lt hlast retries).le,
        fun call _ => attemptNumber_lt_of_lastCount_lt hlast call⟩
  have hreaches : Reaches (step operation maxAttempts fn) start (retrying retries) :=
    reaches_retrying retries hfails hgoes.2
  exact ⟨_, hreaches.trans (Reaches.of_step (step_retrying_ok hok hgoes.1))⟩

/-- A whole number of attempts that all fail: the last error is passed on. -/
theorem rejects_of_whole {calls : ℕ} (hcounts : maxAttempts ≤ lastCount)
    (hwhole : maxAttempts.value = (calls + 1 : ℕ)) (hfails : AllFail fn calls)
    {error : List Char} (hlast : fn calls = .error error) :
    Rejects operation maxAttempts fn error (calls + 1) calls 1 := by
  have hfloor : ⌊maxAttempts.value⌋₊ = calls + 1 := by rw [hwhole, Nat.floor_natCast]
  have hreaches : Reaches (step operation maxAttempts fn) start (retrying calls) := by
    refine reaches_retrying calls hfails fun call hcall => ?_
    exact attemptNumber_lt_of_succ_lt_floor hcounts (by omega)
  have hnumber : attemptNumber calls = maxAttempts := by
    obtain ⟨hvalue, -⟩ := attemptNumber_of_lt_floor hcounts (by omega : calls < _)
    apply Double.ext
    rw [hvalue, hwhole]
    push_cast
    rfl
  exact ⟨_, hreaches.trans (Reaches.of_step (step_retrying_exhausted hlast hnumber))⟩

/-- A number of attempts with a fraction: the loop is left behind the last retry. -/
theorem rejects_of_fraction (hcounts : maxAttempts ≤ lastCount)
    (hfraction : (⌊maxAttempts.value⌋₊ : ℚ) < maxAttempts.value)
    (hfails : AllFail fn ⌊maxAttempts.value⌋₊) :
    Rejects operation maxAttempts fn (loopCompleted operation) ⌊maxAttempts.value⌋₊
      ⌊maxAttempts.value⌋₊ 0 := by
  have hreaches : Reaches (step operation maxAttempts fn) start
      (retrying ⌊maxAttempts.value⌋₊) := by
    refine reaches_retrying _ hfails fun call hcall => ?_
    obtain ⟨hvalue, -⟩ := attemptNumber_of_lt_floor hcounts hcall
    have hle : ((call + 1 : ℕ) : ℚ) ≤ ⌊maxAttempts.value⌋₊ := by exact_mod_cast hcall
    rw [Double.lt_iff, hvalue]
    push_cast at hle
    linarith
  have hpast : maxAttempts < attemptNumber ⌊maxAttempts.value⌋₊ := by
    have hlast : maxAttempts.value ≤ 2 ^ 53 := by
      rw [← Double.value_lastCount]
      exact hcounts
    have hsmall : ⌊maxAttempts.value⌋₊ < 2 ^ 53 := by
      have hlt : (⌊maxAttempts.value⌋₊ : ℚ) < (2 ^ 53 : ℕ) :=
        hfraction.trans_le (by exact_mod_cast hlast)
      exact_mod_cast hlt
    rw [Double.lt_iff, value_attemptNumber_of_lt hsmall]
    exact Nat.lt_floor_add_one maxAttempts.value
  exact ⟨_, hreaches.trans (Reaches.of_step (step_retrying_completed hpast))⟩

/-- Past `2 ^ 53` an operation that always fails is called for ever. -/
theorem callsForever_of_lastCount_lt (hlast : lastCount < maxAttempts)
    (hfails : ∀ call, ∃ error, fn call = .error error) :
    CallsForever operation maxAttempts fn := by
  have hclosed : ∀ s : State T, (∃ retries, s = retrying retries) →
      ∃ retries, step operation maxAttempts fn s = retrying retries := by
    rintro _ ⟨retries, rfl⟩
    obtain ⟨error, herror⟩ := hfails retries
    exact ⟨retries + 1, step_retrying herror (attemptNumber_lt_of_lastCount_lt hlast retries)⟩
  have hcalls : ∀ s : State T, (∃ retries, s = retrying retries) →
      ∃ n, CallsOperation maxAttempts ((step operation maxAttempts fn)^[n] s) := by
    rintro _ ⟨retries, rfl⟩
    refine ⟨0, ?_⟩
    exact ExtendedDouble.coe_le_coe.mpr (attemptNumber_lt_of_lastCount_lt hlast retries).le
  exact infinite_of_closed hclosed hcalls (Reaches.refl _ _) ⟨0, start_eq_retrying⟩

/-- **The retries of an operation**, for every number of attempts that the environment lets
through and whatever the calls answer. The first success among the attempts is returned,
with as many retries as there were failures. If all attempts fail, a whole number of them
up to `2 ^ 53` ends with the last error and counts as exhausted; a number with a fraction
ends with the error behind the loop, after as many retries as calls; and past `2 ^ 53` the
operation is called for ever. -/
theorem execute_spec {config : Option (List Char)}
    (haccepted : clStreamRetryAttempts config = some maxAttempts) (operation : List Char)
    (fn : ℕ → Except (List Char) T) :
    let attempts := ⌊maxAttempts.value⌋₊
    (∀ retries value, retries < attempts ∨ lastCount < maxAttempts → AllFail fn retries →
        fn retries = .ok value → Returns operation maxAttempts fn value (retries + 1) retries) ∧
      (maxAttempts ≤ lastCount → AllFail fn attempts →
        (maxAttempts.value = attempts → ∃ error, fn (attempts - 1) = .error error ∧
          Rejects operation maxAttempts fn error attempts (attempts - 1) 1) ∧
        (maxAttempts.value ≠ attempts →
          Rejects operation maxAttempts fn (loopCompleted operation) attempts attempts 0)) ∧
      (lastCount < maxAttempts → (∀ calls, AllFail fn calls) →
        CallsForever operation maxAttempts fn) := by
  intro attempts
  have hone : 1 ≤ maxAttempts.value := by
    have hdefault : 1 ≤ defaultRetryAttempts := by
      rw [Double.le_iff, Double.value_one, defaultRetryAttempts, Double.value_ofInt]
      norm_num
    have hle := le_of_toNumberAtLeast hdefault haccepted
    rwa [Double.le_iff, Double.value_one] at hle
  have hattempts : 1 ≤ attempts := Nat.one_le_floor_iff _ |>.mpr hone
  refine ⟨fun retries value hcounts hfails hok => returns_of_ok hcounts hfails hok,
    fun hcounts hfails => ⟨fun hwhole => ?_, fun hfraction => ?_⟩, fun hlast hfails => ?_⟩
  · obtain ⟨calls, hcalls⟩ := Nat.exists_eq_add_of_le' hattempts
    rw [hcalls] at hwhole hfails ⊢
    rw [Nat.add_sub_cancel]
    obtain ⟨error, herror⟩ := hfails calls (Nat.lt_succ_self calls)
    refine ⟨error, herror, rejects_of_whole hcounts hwhole ?_ herror⟩
    exact fun call hcall => hfails call (Nat.lt_succ_of_lt hcall)
  · have hle : (attempts : ℚ) ≤ maxAttempts.value := Nat.floor_le (by linarith)
    exact rejects_of_fraction hcounts (lt_of_le_of_ne hle (Ne.symm hfraction)) hfails
  · exact callsForever_of_lastCount_lt hlast fun call => hfails (call + 1) call (Nat.lt_succ_self _)

/-- The default number of attempts, with an operation that succeeds the third time, and with
one that always fails. -/
theorem execute_spec_defaults :
    Returns ['s'] defaultRetryAttempts (fun call => if call < 2 then .error ['e'] else .ok call)
        2 3 2 ∧
      Rejects ['s'] defaultRetryAttempts (fun _ : ℕ => (.error ['e'] : Except (List Char) ℕ))
        ['e'] 5 4 1 := by
  have haccepted : clStreamRetryAttempts none = some defaultRetryAttempts := rfl
  have hvalue : defaultRetryAttempts.value = (5 : ℕ) := by
    rw [defaultRetryAttempts, Double.value_ofInt, Int.cast_ofNat, Nat.cast_ofNat]
  have hfloor : ⌊defaultRetryAttempts.value⌋₊ = 5 := by
    rw [hvalue, Nat.floor_natCast]
  have hcounts : defaultRetryAttempts ≤ lastCount := by
    rw [Double.le_iff, hvalue, Double.value_lastCount]
    norm_num
  constructor
  · obtain ⟨hreturns, -, -⟩ := execute_spec haccepted ['s']
      fun call => if call < 2 then .error ['e'] else .ok call
    refine hreturns 2 2 (Or.inl (by rw [hfloor]; decide)) (fun call hcall => ⟨['e'], ?_⟩) rfl
    exact if_pos hcall
  · obtain ⟨-, hrejects, -⟩ := execute_spec haccepted ['s']
      fun _ : ℕ => (.error ['e'] : Except (List Char) ℕ)
    rw [hfloor] at hrejects
    obtain ⟨hwhole, -⟩ := hrejects hcounts fun _ _ => ⟨_, rfl⟩
    obtain ⟨error, herror, hends⟩ := hwhole hvalue
    obtain rfl := Except.error.inj herror
    exact hends

end ConsensusRetryService

end WithdrawalsApi
