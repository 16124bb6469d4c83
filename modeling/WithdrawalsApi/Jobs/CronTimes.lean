/-
# The built cron times

A cron time of the form `minute hour * * *` fires once a day, at the start of a
minute. The cron times that are built for frames of the exit bus are read here as
minutes of the day: they ascend, and they are the minutes at which the update of
some frame is due, half an hour after its report. Since a frame is longer than a
minute and divides the day, every report has a run of its own.

A first run that is no valid date has no time of the day, and neither have the
cron times that are built from it.
-/

import WithdrawalsApi.Jobs.CronJobs
import WithdrawalsApi.Math.Rotation
import WithdrawalsApi.Storage

namespace WithdrawalsApi

open Js Math

namespace CronJobs

/-! ## Reading a cron time -/

/-- A field of a cron time that is a number. -/
def numberField? (field : List Char) : Option ℕ :=
  if !field.isEmpty && field.all Char.isDigit then some (Nat.ofDigitChars 10 field 0) else none

/-- The minute of the day of `minute hour * * *`. -/
def minuteOfDay? (cronTime : CronTime) : Option ℕ :=
  match cronTime.splitOn ' ' with
  | [minute, hour, ['*'], ['*'], ['*']] => do
      let minute ← numberField? minute
      let hour ← numberField? hour
      if minute < 60 ∧ hour < 24 then some (hour * 60 + minute) else none
  | _ => none

theorem numberField?_toDigits (n : ℕ) : numberField? (Nat.toDigits 10 n) = some n := by
  have hdigits : (Nat.toDigits 10 n).all Char.isDigit = true :=
    List.all_eq_true.mpr fun c hmem =>
      Nat.isDigit_of_mem_toDigits (by norm_num) (by norm_num) hmem
  have hnonempty : (Nat.toDigits 10 n).isEmpty = false :=
    List.isEmpty_eq_false_iff.mpr Nat.toDigits_ne_nil
  rw [numberField?, hnonempty, hdigits, Nat.ofDigitChars_ten_toDigits]
  rfl

theorem splitOn_dailyAt {minutes hours : List Char} (hminutes : ' ' ∉ minutes)
    (hhours : ' ' ∉ hours) :
    (dailyAt minutes hours).splitOn ' ' = [minutes, hours, ['*'], ['*'], ['*']] := by
  have hjoin : dailyAt minutes hours =
      [' '].intercalate [minutes, hours, ['*'], ['*'], ['*']] := by
    simp [dailyAt, List.intercalate]
  rw [hjoin]
  apply List.splitOn_intercalate
  · simp [hminutes, hhours]
  · exact List.cons_ne_nil _ _

/-- A time of the day is read as its minute. -/
theorem minuteOfDay?_dailyAtSecond {second : ℕ} (h : second < secondsPerDay) :
    minuteOfDay? (dailyAtSecond second) = some (second / 60) := by
  have hblank (n : ℕ) : ' ' ∉ Nat.toDigits 10 n := by
    intro hmem
    have hdigit := Nat.isDigit_of_mem_toDigits (by norm_num) (by norm_num) hmem
    revert hdigit
    decide
  have hminute : second % 3600 / 60 < 60 := by omega
  have hhour : second / 3600 < 24 := by
    simp only [secondsPerDay] at h
    omega
  have hsum : second / 3600 * 60 + second % 3600 / 60 = second / 60 := by omega
  rw [minuteOfDay?, dailyAtSecond, splitOn_dailyAt (hblank _) (hblank _)]
  simp only [numberField?_toDigits, Option.bind_eq_bind, Option.bind_some]
  rw [if_pos ⟨hminute, hhour⟩, hsum]

/-! ## The runs of the frames -/

/-- The clock of the exit bus. -/
def veboTime (genesisTime : ℤ) (newInitialEpoch : ℕ) (newEpochsPerFrame : ℕ+) :
    GenesisTimeService where
  genesisTime
  initialEpoch := newInitialEpoch
  epochsPerFrame := newEpochsPerFrame
  epochsPerFrame_pos := natCast_epochsPerFrame_pos newEpochsPerFrame

/-- When the update of a frame is due, in milliseconds. -/
def dueTime (time : GenesisTimeService) (frame : ℕ) : ℤ := time.reportTime frame + updateDelayMs

/-- The minute of the day of a time, in UTC. -/
def minuteOfDay (ms : ℤ) : ℕ := (ms / 60000 % 1440).toNat

/-- Some of the cron times fires. -/
def Fires (cronTimes : List CronTime) (ms : ℤ) : Prop :=
  ms % 60000 = 0 ∧ ∃ cronTime ∈ cronTimes, minuteOfDay? cronTime = some (minuteOfDay ms)

/-- A run is that of a frame: less than a minute before its update is due. -/
def RunOf (time : GenesisTimeService) (frame : ℕ) (ms : ℤ) : Prop :=
  dueTime time frame - 60000 < ms ∧ ms ≤ dueTime time frame

/-- The first run is a valid `Date`. -/
def FirstRunValid (genesisTime : ℤ) (newInitialEpoch : ℕ) : Prop :=
  -maxTimeValue ≤ getTimestampByEpoch genesisTime newInitialEpoch + updateDelayMs ∧
    getTimestampByEpoch genesisTime newInitialEpoch + updateDelayMs ≤ maxTimeValue

/-- The cron times are one time of the day for each frame of a day. -/
structure FiresOncePerFrame (time : GenesisTimeService) (cronTimes : List CronTime) : Prop where
  /-- Every cron time is one of the day, in ascending order. -/
  ascending : ∃ minutes : List ℕ, cronTimes.map minuteOfDay? = minutes.map some ∧
    minutes.Pairwise (· < ·)
  nodup : cronTimes.Nodup
  length : (cronTimes.length : ℤ) =
    secondsPerDay / (time.epochsPerFrame * slotsPerEpoch * secondsPerSlot)
  minutes : ∀ minute, (∃ cronTime ∈ cronTimes, minuteOfDay? cronTime = some minute) ↔
    ∃ frame, minuteOfDay (dueTime time frame) = minute
  /-- Every report has exactly one run. -/
  run : ∀ frame, ∃! ms, Fires cronTimes ms ∧ RunOf time frame ms
  /-- From the first on, every run is that of exactly one report. -/
  report : ∀ ms, Fires cronTimes ms → dueTime time 0 - 60000 < ms → ∃! frame, RunOf time frame ms

section Built

variable {genesisTime : ℤ} {newInitialEpoch : ℕ} {newEpochsPerFrame : ℕ+}

/-- The second of the first run. -/
def firstRun (genesisTime : ℤ) (newInitialEpoch : ℕ) : ℤ :=
  genesisTime + newInitialEpoch * 384 + 1800

theorem getTimestampByEpoch_add_updateDelayMs :
    getTimestampByEpoch genesisTime newInitialEpoch + updateDelayMs =
      1000 * firstRun genesisTime newInitialEpoch := by
  simp only [getTimestampByEpoch, updateDelayMs, firstRun, slotsPerEpoch, secondsPerSlot]
  ring

theorem dueTime_veboTime (frame : ℕ) :
    dueTime (veboTime genesisTime newInitialEpoch newEpochsPerFrame) frame =
      1000 * (firstRun genesisTime newInitialEpoch +
        frame * ((newEpochsPerFrame : ℕ) * 384 : ℕ)) := by
  simp only [dueTime, GenesisTimeService.reportTime, veboTime, updateDelayMs, firstRun,
    slotsPerEpoch, secondsPerSlot]
  push_cast
  ring

/-- The second of the day at which the update of a frame is due. -/
def secondOfDay (first : ℤ) (eachSec frame : ℕ) : ℕ :=
  ((first + frame * eachSec) % secondsPerDay).toNat

theorem utcSecondOfDay_firstRun (hdate : FirstRunValid genesisTime newInitialEpoch)
    (eachSec : ℕ) :
    utcSecondOfDay (1000 * firstRun genesisTime newInitialEpoch) =
      some (secondOfDay (firstRun genesisTime newInitialEpoch) eachSec 0) := by
  rw [FirstRunValid, getTimestampByEpoch_add_updateDelayMs] at hdate
  rw [utcSecondOfDay, if_pos hdate, secondOfDay, Nat.cast_zero, zero_mul, add_zero,
    Int.mul_ediv_cancel_left _ (by norm_num)]

/-- The cron times are the times of the day of the first frames, sorted. -/
theorem buildCron_eq (hdvd : (newEpochsPerFrame : ℕ) * 384 ∣ secondsPerDay)
    (hdate : FirstRunValid genesisTime newInitialEpoch) :
    buildCron genesisTime newInitialEpoch newEpochsPerFrame =
      (Rotation.ascending secondsPerDay (newEpochsPerFrame * 384)
        (secondOfDay (firstRun genesisTime newInitialEpoch) (newEpochsPerFrame * 384) 0)).map
          dailyAtSecond := by
  have hpos : 0 < (newEpochsPerFrame : ℕ) * 384 := by
    have := newEpochsPerFrame.pos
    omega
  have heach : (newEpochsPerFrame : ℕ) * slotsPerEpoch.toNat * secondsPerSlot.toNat =
      newEpochsPerFrame * 384 := Nat.mul_assoc _ 32 12
  have hrest : secondsPerDay % ((newEpochsPerFrame : ℕ) * 384) = 0 := Nat.mod_eq_zero_of_dvd hdvd
  rw [buildCron]
  simp only [getTimestampByEpoch_add_updateDelayMs, heach, hrest,
    utcSecondOfDay_firstRun hdate (newEpochsPerFrame * 384)]
  rw [if_neg (by simp)]
  exact congrArg (List.map dailyAtSecond) (Rotation.insertionSort_points hpos (by decide) hdvd)

theorem secondOfDay_eq (first : ℤ) (eachSec frame : ℕ) :
    secondOfDay first eachSec frame =
      (secondOfDay first eachSec 0 + frame * eachSec) % secondsPerDay := by
  have hday : (0 : ℤ) < secondsPerDay := by decide
  have hnonneg (n : ℤ) : 0 ≤ n % secondsPerDay := Int.emod_nonneg n hday.ne'
  zify
  rw [secondOfDay, secondOfDay, Int.toNat_of_nonneg (hnonneg _), Int.toNat_of_nonneg (hnonneg _),
    Nat.cast_zero, zero_mul, add_zero, Int.emod_add_emod]

/-- The frames of a day come back every day. -/
theorem mem_points_iff {first : ℤ} {eachSec second : ℕ} (hpos : 0 < eachSec)
    (hdvd : eachSec ∣ secondsPerDay) :
    second ∈ Rotation.points secondsPerDay eachSec (secondOfDay first eachSec 0) ↔
      ∃ frame, secondOfDay first eachSec frame = second := by
  constructor
  · intro hmem
    obtain ⟨frame, -, rfl⟩ := List.mem_map.mp hmem
    exact ⟨frame, secondOfDay_eq first eachSec frame⟩
  · rintro ⟨frame, rfl⟩
    have hframes : 0 < secondsPerDay / eachSec :=
      Nat.div_pos (Nat.le_of_dvd (by decide) hdvd) hpos
    have hday : frame * eachSec = frame % (secondsPerDay / eachSec) * eachSec +
        frame / (secondsPerDay / eachSec) * secondsPerDay := by
      conv_lhs => rw [← Nat.mod_add_div frame (secondsPerDay / eachSec), add_mul]
      rw [mul_comm (secondsPerDay / eachSec), mul_assoc, Nat.div_mul_cancel hdvd]
    refine List.mem_map.mpr ⟨frame % (secondsPerDay / eachSec), ?_, ?_⟩
    · exact List.mem_range.mpr (Nat.mod_lt _ hframes)
    · rw [secondOfDay_eq first eachSec frame, hday, ← add_assoc, Nat.add_mul_mod_self_right]

/-- The minute in which the update of a frame is due. -/
theorem minuteOfDay_dueTime (frame : ℕ) :
    minuteOfDay (dueTime (veboTime genesisTime newInitialEpoch newEpochsPerFrame) frame) =
      secondOfDay (firstRun genesisTime newInitialEpoch) (newEpochsPerFrame * 384) frame / 60 := by
  rw [dueTime_veboTime, minuteOfDay, secondOfDay, secondsPerDay]
  omega

/-- What is built are the minutes in which updates are due. -/
theorem exists_minuteOfDay?_buildCron_iff
    (hdvd : (newEpochsPerFrame : ℕ) * 384 ∣ secondsPerDay)
    (hdate : FirstRunValid genesisTime newInitialEpoch) (minute : ℕ) :
    (∃ cronTime ∈ buildCron genesisTime newInitialEpoch newEpochsPerFrame,
        minuteOfDay? cronTime = some minute) ↔
      ∃ frame, minuteOfDay
        (dueTime (veboTime genesisTime newInitialEpoch newEpochsPerFrame) frame) = minute := by
  have hpos : 0 < (newEpochsPerFrame : ℕ) * 384 := by
    have := newEpochsPerFrame.pos
    omega
  let first := firstRun genesisTime newInitialEpoch
  let eachSec := (newEpochsPerFrame : ℕ) * 384
  have hread : ∀ second ∈ Rotation.points secondsPerDay eachSec (secondOfDay first eachSec 0),
      minuteOfDay? (dailyAtSecond second) = some (second / 60) := by
    intro second hmem
    obtain ⟨index, -, rfl⟩ := List.mem_map.mp hmem
    exact minuteOfDay?_dailyAtSecond (Nat.mod_lt _ (by decide))
  rw [buildCron_eq hdvd hdate]
  constructor
  · rintro ⟨cronTime, hmem, hminute⟩
    obtain ⟨second, hsecond, rfl⟩ := List.mem_map.mp hmem
    rw [Rotation.mem_ascending_iff hpos (by decide) hdvd] at hsecond
    rw [hread second hsecond, Option.some.injEq] at hminute
    obtain ⟨frame, rfl⟩ := (mem_points_iff hpos hdvd).mp hsecond
    exact ⟨frame, by rw [minuteOfDay_dueTime, hminute]⟩
  · rintro ⟨frame, rfl⟩
    have hsecond : secondOfDay first eachSec frame ∈
        Rotation.points secondsPerDay eachSec (secondOfDay first eachSec 0) :=
      (mem_points_iff hpos hdvd).mpr ⟨frame, rfl⟩
    refine ⟨dailyAtSecond (secondOfDay first eachSec frame), List.mem_map_of_mem ?_, ?_⟩
    · exact (Rotation.mem_ascending_iff hpos (by decide) hdvd).mpr hsecond
    · rw [hread _ hsecond, minuteOfDay_dueTime]

end Built

/-! ## One run for each report -/

section Runs

variable {time : GenesisTimeService} {cronTimes : List CronTime} {frame : ℕ} {ms : ℤ}

/-- The run of a frame is at the start of the minute in which its update is due. -/
theorem runOf_iff (hminute : ms % 60000 = 0) :
    RunOf time frame ms ↔ ms = dueTime time frame / 60000 * 60000 := by
  simp only [RunOf]
  omega

theorem existsUnique_run
    (hminutes : ∀ minute, (∃ cronTime ∈ cronTimes, minuteOfDay? cronTime = some minute) ↔
      ∃ frame, minuteOfDay (dueTime time frame) = minute) (frame : ℕ) :
    ∃! ms, Fires cronTimes ms ∧ RunOf time frame ms := by
  have hstart : dueTime time frame / 60000 * 60000 % 60000 = 0 := Int.mul_emod_left _ _
  have hsame : minuteOfDay (dueTime time frame) =
      minuteOfDay (dueTime time frame / 60000 * 60000) := by
    rw [minuteOfDay, minuteOfDay, Int.mul_ediv_cancel _ (by norm_num)]
  refine ⟨dueTime time frame / 60000 * 60000, ⟨⟨hstart, ?_⟩, (runOf_iff hstart).mpr rfl⟩, ?_⟩
  · exact (hminutes _).mpr ⟨frame, hsame⟩
  · rintro ms ⟨hfires, hrun⟩
    exact (runOf_iff hfires.1).mp hrun

/-- The updates are due at a distance of a frame. -/
theorem dueTime_eq (time : GenesisTimeService) (frame : ℕ) :
    dueTime time frame = dueTime time 0 + frame * time.frameLength := by
  simp only [dueTime, GenesisTimeService.reportTime, GenesisTimeService.frameLength]
  push_cast
  ring

theorem minute_lt_frameLength (time : GenesisTimeService) : 60000 < time.frameLength := by
  have := time.epochsPerFrame_pos
  simp only [GenesisTimeService.frameLength, secondsPerSlot, slotsPerEpoch]
  omega

theorem dueTime_add_frameLength_le (time : GenesisTimeService) {first second : ℕ}
    (h : first < second) : dueTime time first + time.frameLength ≤ dueTime time second := by
  have hframes : (first + 1 : ℤ) ≤ second := by exact_mod_cast h
  have hlength := mul_le_mul_of_nonneg_right hframes time.frameLength_pos.le
  rw [dueTime_eq time first, dueTime_eq time second]
  linarith

/-- No run is that of two frames. -/
theorem eq_of_runOf {first second : ℕ} (hfirst : RunOf time first ms)
    (hsecond : RunOf time second ms) : first = second := by
  have hminute := minute_lt_frameLength time
  obtain ⟨hfirstAfter, hfirstBefore⟩ := hfirst
  obtain ⟨hsecondAfter, hsecondBefore⟩ := hsecond
  rcases lt_trichotomy first second with hlt | heq | hgt
  · have := dueTime_add_frameLength_le time hlt
    omega
  · exact heq
  · have := dueTime_add_frameLength_le time hgt
    omega

/-- When frames divide the day, a run in the minute of some update is that of a frame. -/
theorem exists_runOf {framesPerDay : ℤ} (hday : framesPerDay * time.frameLength = 86400000)
    (hminute : ms % 60000 = 0) (hdue : minuteOfDay (dueTime time frame) = minuteOfDay ms)
    (hfirst : dueTime time 0 - 60000 < ms) : ∃ later, RunOf time later ms := by
  -- the run is so many days after the update, hence so many frames
  obtain ⟨days, hdays⟩ : ∃ days, ms = (dueTime time frame + days * 86400000) / 60000 * 60000 := by
    refine ⟨ms / 60000 / 1440 - dueTime time frame / 60000 / 1440, ?_⟩
    simp only [minuteOfDay] at hdue
    omega
  have hlater : dueTime time frame + days * 86400000 =
      dueTime time 0 + (frame + days * framesPerDay) * time.frameLength := by
    rw [dueTime_eq time frame, ← hday]
    ring
  rw [hlater] at hdays
  have hnonneg : 0 ≤ frame + days * framesPerDay := by
    by_contra hneg
    have hbefore := mul_le_mul_of_nonneg_right (show frame + days * framesPerDay ≤ -1 by omega)
      time.frameLength_pos.le
    have := minute_lt_frameLength time
    omega
  refine ⟨(frame + days * framesPerDay).toNat, (runOf_iff hminute).mpr ?_⟩
  rw [dueTime_eq, Int.toNat_of_nonneg hnonneg]
  exact hdays

end Runs

/-- A frame that does not divide the day has no cron times. -/
theorem buildCron_eq_nil (genesisTime : ℤ) (newInitialEpoch : ℕ) {newEpochsPerFrame : ℕ}
    (h : ¬ newEpochsPerFrame * 384 ∣ secondsPerDay) :
    buildCron genesisTime newInitialEpoch newEpochsPerFrame = [] := by
  have heach : newEpochsPerFrame * slotsPerEpoch.toNat * secondsPerSlot.toNat =
      newEpochsPerFrame * 384 := Nat.mul_assoc _ 32 12
  rw [buildCron]
  simp only [heach]
  exact if_pos fun hrest => h (Nat.dvd_of_mod_eq_zero hrest)

section Divides

variable {genesisTime : ℤ} {newInitialEpoch : ℕ} {newEpochsPerFrame : ℕ+}

/-- Frames that divide the day. -/
theorem exists_framesPerDay (hdvd : (newEpochsPerFrame : ℕ) * 384 ∣ secondsPerDay) :
    ∃ framesPerDay : ℕ, (framesPerDay : ℤ) *
      (veboTime genesisTime newInitialEpoch newEpochsPerFrame).frameLength = 86400000 := by
  obtain ⟨framesPerDay, hday⟩ := hdvd
  refine ⟨framesPerDay, ?_⟩
  have hseconds : ((newEpochsPerFrame : ℕ) * 384 * framesPerDay : ℤ) = 86400 := by
    exact_mod_cast hday.symm
  simp only [GenesisTimeService.frameLength, veboTime, slotsPerEpoch, secondsPerSlot]
  calc (framesPerDay : ℤ) * (1000 * ((newEpochsPerFrame : ℕ) * (12 * 32)))
      = 1000 * ((newEpochsPerFrame : ℕ) * 384 * framesPerDay) := by ring
    _ = 86400000 := by rw [hseconds]; norm_num

/-- The minutes of what is built ascend. -/
theorem exists_minutes_buildCron (hdvd : (newEpochsPerFrame : ℕ) * 384 ∣ secondsPerDay)
    (hdate : FirstRunValid genesisTime newInitialEpoch) :
    ∃ minutes : List ℕ,
      (buildCron genesisTime newInitialEpoch newEpochsPerFrame).map minuteOfDay? =
        minutes.map some ∧ minutes.Pairwise (· < ·) := by
  let eachSec := (newEpochsPerFrame : ℕ) * 384
  have hpos : 0 < eachSec := by
    have := newEpochsPerFrame.pos
    omega
  let seconds := Rotation.ascending secondsPerDay eachSec
    (secondOfDay (firstRun genesisTime newInitialEpoch) eachSec 0)
  have hread : ∀ second ∈ seconds, minuteOfDay? (dailyAtSecond second) = some (second / 60) := by
    intro second hmem
    rw [Rotation.mem_ascending_iff hpos (by decide) hdvd] at hmem
    obtain ⟨index, -, rfl⟩ := List.mem_map.mp hmem
    exact minuteOfDay?_dailyAtSecond (Nat.mod_lt _ (by decide))
  refine ⟨seconds.map (· / 60), ?_, ?_⟩
  · rw [buildCron_eq hdvd hdate, List.map_map, List.map_map]
    exact List.map_congr_left hread
  · -- a frame is longer than a minute
    rw [List.pairwise_map]
    refine Rotation.pairwise_ascending.imp fun {earlier later} hle => ?_
    omega

/-- What is built for frames that divide the day, and a first run that has a date. -/
theorem firesOncePerFrame_of_dvd (hdvd : (newEpochsPerFrame : ℕ) * 384 ∣ secondsPerDay)
    (hdate : FirstRunValid genesisTime newInitialEpoch) :
    FiresOncePerFrame (veboTime genesisTime newInitialEpoch newEpochsPerFrame)
      (buildCron genesisTime newInitialEpoch newEpochsPerFrame) := by
  have hminutes := exists_minuteOfDay?_buildCron_iff hdvd hdate
  obtain ⟨minutes, hmap, hascending⟩ := exists_minutes_buildCron hdvd hdate
  constructor
  case ascending => exact ⟨minutes, hmap, hascending⟩
  case nodup =>
    have hminute : minutes.Nodup := hascending.imp Nat.ne_of_lt
    have hsome := hminute.map (Option.some_injective ℕ)
    rw [← hmap] at hsome
    exact hsome.of_map _
  case length =>
    rw [buildCron_eq hdvd hdate, List.length_map, Rotation.length_ascending]
    simp only [veboTime, slotsPerEpoch, secondsPerSlot, mul_assoc]
    push_cast
    rfl
  case minutes => exact hminutes
  case run => exact existsUnique_run hminutes
  case report =>
    intro ms hfires hfirst
    obtain ⟨frame, hdue⟩ := (hminutes _).mp hfires.2
    obtain ⟨framesPerDay, hday⟩ := exists_framesPerDay hdvd
    obtain ⟨later, hrun⟩ := exists_runOf hday hfires.1 hdue hfirst
    exact ⟨later, hrun, fun other hother => eq_of_runOf hother hrun⟩

end Divides

/-- **What is built fires once for each report**, when a frame divides the day and the
first run has a date; for any other frame nothing is built. -/
theorem firesOncePerFrame_buildCron (genesisTime : ℤ) (newInitialEpoch : ℕ)
    (newEpochsPerFrame : ℕ+) :
    ((newEpochsPerFrame : ℕ) * 384 ∣ secondsPerDay → FirstRunValid genesisTime newInitialEpoch →
      FiresOncePerFrame (veboTime genesisTime newInitialEpoch newEpochsPerFrame)
        (buildCron genesisTime newInitialEpoch newEpochsPerFrame)) ∧
    (¬ (newEpochsPerFrame : ℕ) * 384 ∣ secondsPerDay →
      buildCron genesisTime newInitialEpoch newEpochsPerFrame = []) :=
  ⟨firesOncePerFrame_of_dvd, buildCron_eq_nil genesisTime newInitialEpoch⟩

/-- Eight-hour frames on Mainnet, from epoch 91799 on. -/
theorem firesOncePerFrame_buildCron_mainnet :
    FiresOncePerFrame (veboTime 1606824023 91799 75) (buildCron 1606824023 91799 75) :=
  (firesOncePerFrame_buildCron 1606824023 91799 75).1 (by decide)
    ⟨by decide, by decide⟩

/-- A genesis that is too late for a `Date`. -/
theorem not_firesOncePerFrame_lateGenesis :
    ¬ ∀ (genesisTime : ℤ) (newInitialEpoch : ℕ) (newEpochsPerFrame : ℕ+),
      (newEpochsPerFrame : ℕ) * 384 ∣ secondsPerDay →
        FiresOncePerFrame (veboTime genesisTime newInitialEpoch newEpochsPerFrame)
          (buildCron genesisTime newInitialEpoch newEpochsPerFrame) := by
  intro h
  have hnodup := (h 10000000000000 0 75 (by decide)).nodup
  revert hnodup
  decide +kernel

end CronJobs

end WithdrawalsApi
