/-
# The cron jobs of the validators update

`initialize` loads the cache, runs a full update and only then creates the cron
jobs, while the configuration job may ask at any time for other cron times. Both
assign the list of cron times and the list of cron jobs, and a cron job that is
overwritten in the list runs on: nothing can stop it any more.

The cron times that the configuration job asks for are built from the frames of
the exit bus: one run for each frame of a day, half an hour after the report. A
frame that does not divide the day has none.
-/

import WithdrawalsApi.GenesisTime
import WithdrawalsApi.Math.Jobs
import WithdrawalsApi.Math.Timers
import Mathlib.Data.List.Sort

namespace WithdrawalsApi

open Js Math

/-- The text of a cron expression. -/
abbrev CronTime := List Char

namespace CronJobs

/-! ## The cron times -/

/-- `UPDATE_DELAY_MS`. -/
def updateDelayMs : ℤ := 30 * 60 * 1000

def secondsPerDay : ℕ := 24 * 60 * 60

/-- `${minutes} ${hours} * * *`. -/
def dailyAt (minutes hours : List Char) : CronTime :=
  minutes ++ ' ' :: hours ++ [' ', '*', ' ', '*', ' ', '*']

/-- A time of the day. -/
def dailyAtSecond (second : ℕ) : CronTime :=
  dailyAt (Nat.toDigits 10 (second % 3600 / 60)) (Nat.toDigits 10 (second / 3600))

/-- The second of the day of a `Date`, in UTC; `Invalid Date` has none. -/
def utcSecondOfDay (ms : ℤ) : Option ℕ :=
  if -maxTimeValue ≤ ms ∧ ms ≤ maxTimeValue then some (ms / 1000 % secondsPerDay).toNat else none

/-- `getTimestampByEpoch`, which needs the genesis time only. -/
def getTimestampByEpoch (genesisTime : ℤ) (epoch : ℕ) : ℤ :=
  genesisTime * 1000 + epoch * slotsPerEpoch * secondsPerSlot * 1000

/-- The seconds of the day at which a day's frames end and the update runs. -/
def runSeconds (firstRunAtSecondOfDay eachSec : ℕ) : List ℕ :=
  (List.range (secondsPerDay / eachSec)).map fun index =>
    (firstRunAtSecondOfDay + index * eachSec) % secondsPerDay

/-- Without a valid date every number in the expressions is `NaN`. -/
def buildCron (genesisTime : ℤ) (newInitialEpoch newEpochsPerFrame : ℕ) : List CronTime :=
  let firstDate := getTimestampByEpoch genesisTime newInitialEpoch
  let eachSec := newEpochsPerFrame * slotsPerEpoch.toNat * secondsPerSlot.toNat
  if secondsPerDay % eachSec ≠ 0 then []
  else
    match utcSecondOfDay (firstDate + updateDelayMs) with
    | some firstRunAtSecondOfDay =>
        ((runSeconds firstRunAtSecondOfDay eachSec).insertionSort (· ≤ ·)).map dailyAtSecond
    | none =>
        List.replicate (secondsPerDay / eachSec) (dailyAt ['N', 'a', 'N'] ['N', 'a', 'N'])

/-- The cron times by chain: of Mainnet, of Hoodi, and of any other chain. -/
def oracleReportsCronByChainId (chainId : ℕ) : List CronTime :=
  if chainId = 1 then ["30 4/8 * * *".toList]
  else if chainId = 560048 then
    ["54 2 * * *".toList, "42 7 * * *".toList, "30 12 * * *".toList, "18 17 * * *".toList,
      "6 22 * * *".toList]
  else ["0 0-23/3 * * *".toList]

/-- What the cron jobs depend on besides the calls: the environment, the genesis, and
the cron package, which refuses what is no cron expression. -/
structure Config where
  jobIntervalValidators : Option CronTime
  chainId : ℕ
  genesisTime : ℤ
  accepts : CronTime → Bool

/-- The cron times `initialize` starts with; an empty variable counts as none. -/
def Config.cronTimes (config : Config) : List CronTime :=
  match config.jobIntervalValidators with
  | some (c :: text) => [c :: text]
  | _ => oracleReportsCronByChainId config.chainId

/-! ## The cron jobs -/

/-- The two fields of the service, and the cron jobs that run whether it holds them
or not. -/
structure World where
  validatorUpdateCronTimes : List CronTime := []
  cronJobs : List (Timer CronTime) := []
  timers : Timers CronTime := .empty

/-- `cronTimes.map` with a cron job for each, which the service holds in the end; a
cron time that is refused throws before that. -/
def startCronJobs (config : Config) (cronTimes : List CronTime) (world : World) : World :=
  let started := Timers.startAll config.accepts cronTimes world.timers
  { world with
    timers := started.1
    cronJobs := started.2.getD world.cronJobs }

def rescheduleCronJobs (config : Config) (newInitialEpoch newEpochsPerFrame : ℕ)
    (world : World) : World :=
  let cronTimes := buildCron config.genesisTime newInitialEpoch newEpochsPerFrame
  if cronTimes = [] then world
  else if world.validatorUpdateCronTimes = cronTimes then world
  else
    startCronJobs config cronTimes
      { world with
        timers := world.timers.stopAll world.cronJobs
        validatorUpdateCronTimes := cronTimes }

/-- Where `initialize` waits. -/
inductive Suspension
  | initializingFromCache
  | updatingValidators
  | updatingLidoWithdrawableValidators

/-- None of the awaited calls throws. -/
def resume (config : Config) : Suspension → Unit → World → World × Option Suspension
  | .initializingFromCache, _, world =>
      ({ world with validatorUpdateCronTimes := config.cronTimes }, some .updatingValidators)
  | .updatingValidators, _, world =>
      (startCronJobs config config.cronTimes world, some .updatingLidoWithdrawableValidators)
  | .updatingLidoWithdrawableValidators, _, world => (world, none)

end CronJobs

inductive CronActor
  | initialization
  | rescheduleCronJobs
  deriving DecidableEq

/-- `initialize` has been called once, and the configuration job asks for cron times,
given by the initial epoch and the epochs per frame. -/
def cronActors (config : CronJobs.Config) : CronActor → Job.{0, 0} CronJobs.World
  | .initialization => {
      Input := Empty
      Suspension := CronJobs.Suspension
      Answer := Unit
      start := nofun
      resume := CronJobs.resume config }
  | .rescheduleCronJobs => .atomic fun (frames : ℕ × ℕ) world =>
      CronJobs.rescheduleCronJobs config frames.1 frames.2 world

namespace CronJobs

open Job.State

variable {config : Config}

/-! ## One run for each cron time -/

/-- The cron jobs that run are those held, one for each cron time. -/
structure MatchesSchedule (world : World) : Prop where
  held : world.timers.running.Perm world.cronJobs
  scheduled : world.cronJobs.map Timer.schedule = world.validatorUpdateCronTimes

/-- A call that changes the cron times. -/
def takesEffect (config : Config) (frames : ℕ × ℕ) (world : World) : Bool :=
  let cronTimes := buildCron config.genesisTime frames.1 frames.2
  decide (cronTimes ≠ [] ∧ world.validatorUpdateCronTimes ≠ cronTimes)

/-- The cron package accepts these cron times. -/
def Accepted (config : Config) (cronTimes : List CronTime) : Prop :=
  ∀ cronTime ∈ cronTimes, config.accepts cronTime = true

/-- What starting cron jobs for accepted cron times does to the world. -/
structure Starts (cronTimes : List CronTime) (before after : World) : Prop where
  startsAll : Timers.StartsAll cronTimes before.timers after.timers after.cronJobs
  validatorUpdateCronTimes : after.validatorUpdateCronTimes = before.validatorUpdateCronTimes

theorem starts_startCronJobs {cronTimes : List CronTime} (haccepted : Accepted config cronTimes)
    (world : World) : Starts cronTimes world (startCronJobs config cronTimes world) := by
  obtain ⟨after, held, hstart, hstarts⟩ := Timers.startsAll haccepted world.timers
  refine ⟨?_, rfl⟩
  simp only [startCronJobs, hstart, Option.getD_some]
  exact hstarts

/-- The world in which a call that takes effect starts its cron jobs. -/
def stopped (cronTimes : List CronTime) (world : World) : World :=
  { world with
    timers := world.timers.stopAll world.cronJobs
    validatorUpdateCronTimes := cronTimes }

/-- A call has no effect, or it stops all cron jobs held and starts others. -/
theorem rescheduleCronJobs_cases {frames : ℕ × ℕ}
    (haccepted : Accepted config (buildCron config.genesisTime frames.1 frames.2))
    (world : World) :
    (takesEffect config frames world = false ∧
        rescheduleCronJobs config frames.1 frames.2 world = world) ∨
      (takesEffect config frames world = true ∧ ∃ cronTimes, cronTimes ≠ [] ∧
        Starts cronTimes (stopped cronTimes world)
          (rescheduleCronJobs config frames.1 frames.2 world)) := by
  unfold rescheduleCronJobs takesEffect
  by_cases hempty : buildCron config.genesisTime frames.1 frames.2 = []
  · exact Or.inl (by simp [hempty])
  · by_cases hsame : world.validatorUpdateCronTimes =
        buildCron config.genesisTime frames.1 frames.2
    · exact Or.inl (by simp [hsame])
    · right
      refine ⟨by simp [hempty, hsame], _, hempty, ?_⟩
      simp only [hempty, hsame, if_false]
      exact starts_startCronJobs haccepted _

/-! ## Built cron times -/

/-- The cron package accepts every time of a day. -/
def AcceptsDaily (config : Config) : Prop :=
  ∀ second < secondsPerDay, config.accepts (dailyAtSecond second) = true

/-- The first run of these frames has a date. -/
def hasDate (config : Config) (frames : ℕ × ℕ) : Bool :=
  (utcSecondOfDay (getTimestampByEpoch config.genesisTime frames.1 + updateDelayMs)).isSome

/-- What is built for frames whose first run has a date is accepted. -/
theorem accepted_buildCron (hdaily : AcceptsDaily config) {frames : ℕ × ℕ}
    (hdate : hasDate config frames = true) :
    Accepted config (buildCron config.genesisTime frames.1 frames.2) := by
  obtain ⟨second, hsecond⟩ := Option.isSome_iff_exists.mp hdate
  intro cronTime hmem
  simp only [buildCron, hsecond] at hmem
  split at hmem
  · cases hmem
  · obtain ⟨runAt, hrunAt, rfl⟩ := List.mem_map.mp hmem
    rw [List.mem_insertionSort] at hrunAt
    obtain ⟨index, -, rfl⟩ := List.mem_map.mp hrunAt
    exact hdaily _ (Nat.mod_lt _ (by decide))

/-! ## Every run -/

/-- Where `initialize` waits, until it has finished. -/
def initialization (s : Job.State (cronActors config)) : Option Suspension :=
  s.suspended .initialization

/-- `initialize` has been called. -/
def boot (config : Config) : Job.State (cronActors config) where
  shared := {}
  suspended
    | .initialization => some .initializingFromCache
    | .rescheduleCronJobs => none

/-- `initialize` has not created its cron jobs yet. -/
def beforeCreation : Option Suspension → Bool
  | some .initializingFromCache => true
  | some .updatingValidators => true
  | some .updatingLidoWithdrawableValidators => false
  | none => false

/-- Every call is for frames that have a date. -/
def CallsHaveDates (_ : Job.State (cronActors config)) : Job.Event (cronActors config) → Prop
  | .start .rescheduleCronJobs frames => hasDate config frames = true
  | _ => True

/-- No call takes effect before `initialize` has created its cron jobs. -/
def NotEarly (s : Job.State (cronActors config)) : Job.Event (cronActors config) → Prop
  | .start .rescheduleCronJobs frames =>
      (beforeCreation (initialization s) && takesEffect config frames s.shared) = false
  | _ => True

/-- Nothing runs before the creation, and from then on all that runs is held. -/
def Orderly (config : Config) (world : World) : Option Suspension → Prop
  | some .initializingFromCache => world.timers.running = []
  | some .updatingValidators =>
      world.timers.running = [] ∧ world.validatorUpdateCronTimes = config.cronTimes
  | _ => MatchesSchedule world

/-- Something is held that the creation will overwrite, or runs without being held. -/
def Leaks (world : World) : Option Suspension → Prop
  | some .initializingFromCache => world.cronJobs ≠ [] ∧ world.cronJobs ⊆ world.timers.running
  | some .updatingValidators => world.cronJobs ≠ [] ∧ world.cronJobs ⊆ world.timers.running
  | _ => ∃ timer ∈ world.timers.running, timer ∉ world.cronJobs

/-- Cron jobs that are started while nothing runs match their schedule. -/
theorem Starts.matchesSchedule {cronTimes : List CronTime} {before after : World}
    (h : Starts cronTimes before after) (hrunning : before.timers.running = [])
    (htimes : before.validatorUpdateCronTimes = cronTimes) : MatchesSchedule after where
  held := by
    rw [h.startsAll.running, hrunning]
    exact List.Perm.refl _
  scheduled := by rw [h.startsAll.schedules, h.validatorUpdateCronTimes, htimes]

theorem Starts.cronJobs_ne_nil {cronTimes : List CronTime} {before after : World}
    (h : Starts cronTimes before after) (hnonempty : cronTimes ≠ []) : after.cronJobs ≠ [] := by
  intro hnil
  apply hnonempty
  rw [← h.startsAll.schedules, hnil]
  rfl

theorem Starts.cronJobs_subset {cronTimes : List CronTime} {before after : World}
    (h : Starts cronTimes before after) : after.cronJobs ⊆ after.timers.running := by
  intro timer hmem
  rw [h.startsAll.running]
  exact List.mem_append_right _ hmem

/-- Cron jobs that are started before `initialize` creates its own will be overwritten. -/
theorem Starts.leaks_of_beforeCreation {cronTimes : List CronTime} {before after : World}
    (h : Starts cronTimes before after) (hnonempty : cronTimes ≠ [])
    {suspended : Option Suspension} (hbefore : beforeCreation suspended = true) :
    Leaks after suspended := by
  match suspended with
  | some .initializingFromCache => exact ⟨h.cronJobs_ne_nil hnonempty, h.cronJobs_subset⟩
  | some .updatingValidators => exact ⟨h.cronJobs_ne_nil hnonempty, h.cronJobs_subset⟩
  | some .updatingLidoWithdrawableValidators => cases hbefore
  | none => cases hbefore

/-- A timer that runs and is not held after it stays so. -/
theorem Starts.exists_not_held {cronTimes : List CronTime} {before after : World}
    (h : Starts cronTimes before after) {timer : Timer CronTime}
    (hmem : timer ∈ before.timers.running) :
    ∃ timer ∈ after.timers.running, timer ∉ after.cronJobs := by
  refine ⟨timer, ?_, h.startsAll.not_mem_held hmem⟩
  rw [h.startsAll.running]
  exact List.mem_append_left _ hmem

/-- A call changes the world and leaves `initialize` where it waits. -/
theorem call_step (s : Job.State (cronActors config)) (frames : ℕ × ℕ) :
    (s.step (.start .rescheduleCronJobs frames)).shared =
        rescheduleCronJobs config frames.1 frames.2 s.shared ∧
      initialization (s.step (.start .rescheduleCronJobs frames)) = initialization s := by
  have hruns : s.Runs (.start .rescheduleCronJobs frames) .rescheduleCronJobs _ :=
    .start (s.suspended_of_isEmpty (inferInstanceAs (IsEmpty PEmpty)))
  exact ⟨hruns.step_shared, hruns.step_suspended_of_ne (by decide)⟩

theorem orderly_call {frames : ℕ × ℕ} {world : World} {suspended : Option Suspension}
    (haccepted : Accepted config (buildCron config.genesisTime frames.1 frames.2))
    (hearly : (beforeCreation suspended && takesEffect config frames world) = false)
    (h : Orderly config world suspended) :
    Orderly config (rescheduleCronJobs config frames.1 frames.2 world) suspended := by
  rcases rescheduleCronJobs_cases haccepted world with
    ⟨-, hsame⟩ | ⟨heffect, cronTimes, -, hstarts⟩
  · rw [hsame]
    exact h
  · rw [heffect, Bool.and_true] at hearly
    have hmatches (hworld : MatchesSchedule world) :
        MatchesSchedule (rescheduleCronJobs config frames.1 frames.2 world) :=
      hstarts.matchesSchedule
        (Timers.running_stopAll_of_subset hworld.held.subset) rfl
    match suspended with
    | some .initializingFromCache => cases hearly
    | some .updatingValidators => cases hearly
    | some .updatingLidoWithdrawableValidators => exact hmatches h
    | none => exact hmatches h

theorem orderly_resume (haccepts : Accepted config config.cronTimes) {suspension : Suspension}
    {world : World} (h : Orderly config world (some suspension)) :
    Orderly config (resume config suspension () world).1
      (resume config suspension () world).2 := by
  cases suspension with
  | initializingFromCache => exact ⟨h, rfl⟩
  | updatingValidators =>
      exact (starts_startCronJobs haccepts world).matchesSchedule h.1 h.2
  | updatingLidoWithdrawableValidators => exact h

/-- The first call that takes effect too early starts a leak. -/
theorem leaks_of_early {frames : ℕ × ℕ} {world : World} {suspended : Option Suspension}
    (haccepted : Accepted config (buildCron config.genesisTime frames.1 frames.2))
    (hearly : (beforeCreation suspended && takesEffect config frames world) = true) :
    Leaks (rescheduleCronJobs config frames.1 frames.2 world) suspended := by
  rw [Bool.and_eq_true] at hearly
  obtain ⟨hbefore, heffect⟩ := hearly
  rcases rescheduleCronJobs_cases haccepted world with
    ⟨hnone, -⟩ | ⟨-, cronTimes, hnonempty, hstarts⟩
  · rw [heffect] at hnone
    cases hnone
  · exact hstarts.leaks_of_beforeCreation hnonempty hbefore

theorem leaks_call {frames : ℕ × ℕ} {world : World} {suspended : Option Suspension}
    (haccepted : Accepted config (buildCron config.genesisTime frames.1 frames.2))
    (h : Leaks world suspended) :
    Leaks (rescheduleCronJobs config frames.1 frames.2 world) suspended := by
  rcases rescheduleCronJobs_cases haccepted world with
    ⟨-, hsame⟩ | ⟨heffect, cronTimes, hnonempty, hstarts⟩
  · rw [hsame]
    exact h
  · have hleaks (hworld : ∃ timer ∈ world.timers.running, timer ∉ world.cronJobs) :
        ∃ timer ∈ (rescheduleCronJobs config frames.1 frames.2 world).timers.running,
          timer ∉ (rescheduleCronJobs config frames.1 frames.2 world).cronJobs := by
      obtain ⟨timer, hruns, hheld⟩ := hworld
      exact hstarts.exists_not_held (Timers.mem_running_stopAll.mpr ⟨hruns, hheld⟩)
    match suspended with
    | some .initializingFromCache => exact hstarts.leaks_of_beforeCreation hnonempty rfl
    | some .updatingValidators => exact hstarts.leaks_of_beforeCreation hnonempty rfl
    | some .updatingLidoWithdrawableValidators => exact hleaks h
    | none => exact hleaks h

theorem leaks_resume (haccepts : Accepted config config.cronTimes) {suspension : Suspension}
    {world : World} (h : Leaks world (some suspension)) :
    Leaks (resume config suspension () world).1 (resume config suspension () world).2 := by
  cases suspension with
  | initializingFromCache => exact h
  | updatingValidators =>
      obtain ⟨hnonempty, hsubset⟩ := h
      obtain ⟨timer, hmem⟩ := List.exists_mem_of_ne_nil _ hnonempty
      exact (starts_startCronJobs haccepts world).exists_not_held (hsubset hmem)
  | updatingLidoWithdrawableValidators => exact h

/-- What calls and the segments of `initialize` preserve, every step preserves. -/
theorem step_preserves {property : World → Option Suspension → Prop}
    {s : Job.State (cronActors config)} {event : Job.Event (cronActors config)}
    (hcall : ∀ frames, event = .start .rescheduleCronJobs frames →
      property (rescheduleCronJobs config frames.1 frames.2 s.shared) (initialization s))
    (hresume : ∀ suspension, property s.shared (some suspension) →
      property (resume config suspension () s.shared).1 (resume config suspension () s.shared).2)
    (h : property s.shared (initialization s)) :
    property (s.step event).shared (initialization (s.step event)) := by
  have hjob (segment : World × Option Suspension)
      (hruns : s.Runs event .initialization segment) : property segment.1 segment.2 := by
    cases hruns with
    | start => contradiction
    | @resume _ answer suspension hsuspended =>
        rw [initialization, hsuspended] at h
        exact hresume suspension h
  have hothers (actor : CronActor) (segment : World × Option (cronActors config actor).Suspension)
      (hactor : actor ≠ .initialization) (hruns : s.Runs event actor segment) :
      property segment.1 (initialization s) := by
    cases hruns with
    | @start _ frames hidle =>
        cases actor with
        | initialization => exact absurd rfl hactor
        | rescheduleCronJobs => exact hcall frames rfl
    | @resume _ answer suspension hsuspended =>
        cases actor with
        | initialization => exact absurd rfl hactor
        | rescheduleCronJobs => cases suspension
  exact s.step_preserves_of_job event .initialization property hjob hothers h

/-- What is asked of the cron package: it accepts the configured cron times and every
time of a day. -/
structure CronPackage (config : Config) : Prop where
  configured : Accepted config config.cronTimes
  daily : AcceptsDaily config

theorem orderly_step (hpackage : CronPackage config) (s : Job.State (cronActors config))
    (event : Job.Event (cronActors config)) (hmeets : CallsHaveDates s event ∧ NotEarly s event)
    (h : Orderly config s.shared (initialization s)) :
    Orderly config (s.step event).shared (initialization (s.step event)) := by
  refine step_preserves ?_ (fun _ => orderly_resume hpackage.configured) h
  rintro frames rfl
  exact orderly_call (accepted_buildCron hpackage.daily hmeets.1) hmeets.2 h

theorem leaks_step (hpackage : CronPackage config) (s : Job.State (cronActors config))
    (event : Job.Event (cronActors config)) (hdates : CallsHaveDates s event)
    (h : Leaks s.shared (initialization s)) :
    Leaks (s.step event).shared (initialization (s.step event)) := by
  refine step_preserves ?_ (fun _ => leaks_resume hpackage.configured) h
  rintro frames rfl
  exact leaks_call (accepted_buildCron hpackage.daily hdates) h

/-- A step that takes effect too early leaks. -/
theorem leaks_of_not_notEarly (hpackage : CronPackage config) {s : Job.State (cronActors config)}
    {event : Job.Event (cronActors config)} (hdates : CallsHaveDates s event)
    (hearly : ¬ NotEarly s event) :
    Leaks (s.step event).shared (initialization (s.step event)) := by
  match event with
  | .start .initialization input => cases input
  | .start .rescheduleCronJobs frames =>
      obtain ⟨hshared, hsuspended⟩ := call_step s frames
      rw [hshared, hsuspended]
      exact leaks_of_early (accepted_buildCron hpackage.daily hdates)
        (Bool.eq_true_of_not_eq_false hearly)
  | .resume actor answer => exact absurd trivial hearly

/-- A run in which some call takes effect too early leaks from there on. -/
theorem leaks_run (hpackage : CronPackage config) {s : Job.State (cronActors config)}
    {events : List (Job.Event (cronActors config))}
    (hdates : Job.State.Meets CallsHaveDates s events)
    (hearly : ¬ Job.State.Meets NotEarly s events) :
    Leaks (s.run events).shared (initialization (s.run events)) := by
  have hfails (s : Job.State (cronActors config)) (event : Job.Event (cronActors config))
      (hdates : CallsHaveDates s event) (hearly : ¬ NotEarly s event) :
      Leaks (s.step event).shared (initialization (s.step event)) :=
    leaks_of_not_notEarly hpackage hdates hearly
  have hleaks := run_of_not_meets hfails (leaks_step hpackage) hdates hearly
  exact hleaks

/-- **The cron jobs that run match the schedule exactly when** no call has taken
effect before `initialize` had created its cron jobs. -/
theorem matchesSchedule_iff {config : Config} {events : List (Job.Event (cronActors config))}
    (hpackage : CronPackage config) (hdates : Job.State.Meets CallsHaveDates (boot config) events)
    (hfinished : initialization ((boot config).run events) = none) :
    MatchesSchedule ((boot config).run events).shared ↔
      Job.State.Meets NotEarly (boot config) events := by
  constructor
  · intro hmatches
    by_contra hearly
    have hleaks := leaks_run hpackage hdates hearly
    rw [hfinished] at hleaks
    obtain ⟨timer, hruns, hheld⟩ := hleaks
    exact hheld (hmatches.held.subset hruns)
  · intro hearly
    have hstart : Orderly config (boot config).shared (initialization (boot config)) := rfl
    have horderly := run_preserves (orderly_step hpackage) (hdates.and hearly) hstart
    rw [hfinished] at horderly
    exact horderly

instance decidableNotEarly (s : Job.State (cronActors config)) :
    (event : Job.Event (cronActors config)) → Decidable (NotEarly s event)
  | .start .initialization input => nomatch input
  | .start .rescheduleCronJobs _ => inferInstanceAs (Decidable (_ = false))
  | .resume _ _ => .isTrue trivial

/-- Mainnet; the cron package refuses numbers that are none. -/
def mainnet : Config where
  jobIntervalValidators := none
  chainId := 1
  genesisTime := 1606824023
  accepts cronTime := decide ('N' ∉ cronTime)

theorem cronPackage_mainnet : CronPackage mainnet where
  configured := by
    intro cronTime hmem
    rw [show mainnet.cronTimes = ["30 4/8 * * *".toList] from rfl] at hmem
    rw [List.mem_singleton.mp hmem]
    decide
  daily := by
    intro second _
    have hdigits (n : ℕ) : 'N' ∉ Nat.toDigits 10 n := by
      intro hmem
      have hdigit := Nat.isDigit_of_mem_toDigits (by decide) (by decide) hmem
      revert hdigit
      decide
    simp [mainnet, dailyAtSecond, dailyAt, hdigits]

/-- The cron times of eight-hour frames are asked for while `initialize` updates the
validators, or when it has finished. -/
def mainnetStart (whileUpdating afterwards : List (Job.Event (cronActors mainnet))) :
    List (Job.Event (cronActors mainnet)) :=
  [.resume .initialization ()] ++ whileUpdating ++ [.resume .initialization (),
    .resume .initialization ()] ++ afterwards

def eightHourFrames : Job.Event (cronActors mainnet) :=
  .start .rescheduleCronJobs ((0, 75) : ℕ × ℕ)

theorem matchesSchedule_iff_mainnet :
    MatchesSchedule ((boot mainnet).run (mainnetStart [] [eightHourFrames])).shared ↔
      Job.State.Meets NotEarly (boot mainnet) (mainnetStart [] [eightHourFrames]) :=
  have hdates : Job.State.Meets CallsHaveDates (boot mainnet)
      (mainnetStart [] [eightHourFrames]) := ⟨trivial, trivial, trivial, rfl, trivial⟩
  matchesSchedule_iff cronPackage_mainnet hdates rfl

/-- A cron job for each eight-hour frame runs on beside the one that `initialize` has
created. -/
theorem not_matchesSchedule_always :
    ¬ ∀ (config : Config) (events : List (Job.Event (cronActors config))),
      CronPackage config → Job.State.Meets CallsHaveDates (boot config) events →
      initialization ((boot config).run events) = none →
        MatchesSchedule ((boot config).run events).shared := by
  intro hmatches
  have hheld := (hmatches mainnet (mainnetStart [eightHourFrames] []) cronPackage_mainnet
    ⟨trivial, rfl, trivial, trivial, trivial⟩ rfl).held.length_eq
  revert hheld
  decide +kernel

end CronJobs

end WithdrawalsApi
