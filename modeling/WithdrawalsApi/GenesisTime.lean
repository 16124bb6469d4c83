/-
# The genesis clock: epochs, frames and report times

`GenesisTimeService` turns a clock reading into a consensus epoch and an epoch
into a frame of the accounting oracle, and it measures how long a report is
away. Times are milliseconds, as `Date.now()` has them, genesis is a whole
second, and the quotients are taken exactly.

The service computes the same frame in two ways, through the current epoch and
directly from a timestamp. Both read off one schedule of report times, so every
fact about the position of a clock between two reports is stated once, for that
schedule.
-/

import WithdrawalsApi.Math.Schedule
import WithdrawalsApi.Js.Outcome

namespace WithdrawalsApi

open Math Js

/-- `SECONDS_PER_SLOT`. -/
def secondsPerSlot : ℤ := 12

/-- `SLOTS_PER_EPOCH`. -/
def slotsPerEpoch : ℤ := 32

/-- The genesis time in seconds and the frame configuration the service reads
from the contract configuration. The consensus contract of the oracle refuses a
frame of no epochs. -/
structure GenesisTimeService where
  genesisTime : ℤ
  initialEpoch : ℤ
  epochsPerFrame : ℤ
  epochsPerFrame_pos : 0 < epochsPerFrame

namespace GenesisTimeService

variable (time : GenesisTimeService)

def getCurrentEpoch (now : ℤ) : ℤ :=
  let currentTime := now / 1000
  (currentTime - time.genesisTime) / (secondsPerSlot * slotsPerEpoch)

def getFrameOfEpoch (epoch : ℤ) : ℤ :=
  (epoch - time.initialEpoch) / time.epochsPerFrame

/-- The delay in milliseconds from `since` to the reference slot of a frame,
rounded to whole seconds. -/
def timeToWithdrawalFrame (frame since : ℤ) : ℤ :=
  let epochOfNextReport := time.initialEpoch + frame * time.epochsPerFrame
  let timeToNextReport := epochOfNextReport * secondsPerSlot * slotsPerEpoch
  roundQuotient (1000 * (time.genesisTime + timeToNextReport) - since) 1000 * 1000

def getFrameByTimestamp (timestamp : ℤ) : ℤ :=
  -- the source divides milliseconds by 1000 first; both sides are scaled here
  (timestamp - 1000 * (time.genesisTime + time.initialEpoch * secondsPerSlot * slotsPerEpoch)) /
    (1000 * (time.epochsPerFrame * secondsPerSlot * slotsPerEpoch))

def getSlotByTimestamp (timestamp : ℤ) : ℤ :=
  let currentSlotTime := timestamp / 1000
  (currentSlotTime - time.genesisTime) / secondsPerSlot

def getEpochByTimestamp (timestamp : ℤ) : ℤ :=
  time.getSlotByTimestamp timestamp / slotsPerEpoch

def getTimestampByEpoch (epoch : ℤ) : ℤ :=
  time.genesisTime * 1000 + epoch * slotsPerEpoch * secondsPerSlot * 1000

/-! ## The schedules the clock reads off -/

/-- The starts of the epochs. -/
def epochs : Schedule ℤ ℤ :=
  (Schedule.periodic 0 1000 (by norm_num)).coarsen
    (Schedule.periodic time.genesisTime (secondsPerSlot * slotsPerEpoch)
      (by norm_num [secondsPerSlot, slotsPerEpoch]))

/-- The reference times of the reports: the starts of the frames. -/
def reports : Schedule ℤ ℤ :=
  time.epochs.coarsen
    (Schedule.periodic time.initialEpoch time.epochsPerFrame time.epochsPerFrame_pos)

/-- The reference time of a frame's report, in milliseconds. -/
def reportTime (frame : ℤ) : ℤ :=
  1000 * (time.genesisTime +
    (time.initialEpoch + frame * time.epochsPerFrame) * (secondsPerSlot * slotsPerEpoch))

/-- The reference epoch of a frame's report. -/
def referenceEpoch (frame : ℤ) : ℤ := time.initialEpoch + frame * time.epochsPerFrame

/-- The length of a frame, in milliseconds. -/
def frameLength : ℤ :=
  1000 * (time.epochsPerFrame * (secondsPerSlot * slotsPerEpoch))

theorem frameLength_pos : 0 < time.frameLength := by
  have := time.epochsPerFrame_pos
  simp only [frameLength, secondsPerSlot, slotsPerEpoch]
  omega

@[simp]
theorem epochs_index (now : ℤ) : time.epochs.index now = time.getCurrentEpoch now := by
  simp [epochs, getCurrentEpoch]

theorem epochs_point (epoch : ℤ) : time.epochs.point epoch = time.getTimestampByEpoch epoch := by
  simp only [epochs, getTimestampByEpoch, Schedule.coarsen_point, Schedule.periodic_point]
  ring

theorem getTimestampByEpoch_injective : Function.Injective time.getTimestampByEpoch := by
  intro first second h
  simp only [getTimestampByEpoch, slotsPerEpoch, secondsPerSlot] at h
  omega

/-- An epoch is the current one at its start. -/
theorem getCurrentEpoch_getTimestampByEpoch (epoch : ℤ) :
    time.getCurrentEpoch (time.getTimestampByEpoch epoch) = epoch := by
  have hpoint : Function.Injective time.epochs.point := by
    intro first second h
    rw [epochs_point, epochs_point] at h
    exact time.getTimestampByEpoch_injective h
  rw [← epochs_index, ← epochs_point]
  exact time.epochs.index_point hpoint epoch

@[simp]
theorem reports_index (now : ℤ) :
    time.reports.index now = time.getFrameOfEpoch (time.getCurrentEpoch now) := by
  simp [reports, getFrameOfEpoch]

@[simp]
theorem reports_point (frame : ℤ) : time.reports.point frame = time.reportTime frame := by
  simp only [reports, epochs, reportTime, Schedule.coarsen_point, Schedule.periodic_point]
  ring

/-- A report refers to the start of its reference epoch. -/
theorem reportTime_eq (frame : ℤ) :
    time.reportTime frame = time.getTimestampByEpoch (time.referenceEpoch frame) := by
  simp only [reportTime, referenceEpoch, getTimestampByEpoch]
  ring

theorem reportTime_succ (frame : ℤ) :
    time.reportTime (frame + 1) = time.reportTime frame + time.frameLength := by
  simp only [reportTime, frameLength]
  ring

theorem reportTime_lt_iff {first second : ℤ} :
    time.reportTime first < time.reportTime second ↔ first < second := by
  have hpos := time.frameLength_pos
  have hdiff : time.reportTime second - time.reportTime first =
      (second - first) * time.frameLength := by
    simp only [reportTime, frameLength]
    ring
  constructor
  · intro h
    have hpositive : 0 < (second - first) * time.frameLength := by omega
    have := (mul_pos_iff_of_pos_right hpos).mp hpositive
    omega
  · intro h
    have : 0 < (second - first) * time.frameLength := mul_pos (by omega) hpos
    omega

theorem reportTime_le_iff {first second : ℤ} :
    time.reportTime first ≤ time.reportTime second ↔ first ≤ second := by
  rw [← not_lt, time.reportTime_lt_iff, not_lt]

/-- Reading the frame off a timestamp directly agrees with reading off its
epoch first. -/
theorem getFrameByTimestamp_eq (timestamp : ℤ) :
    time.getFrameByTimestamp timestamp =
      time.getFrameOfEpoch (time.getCurrentEpoch timestamp) := by
  have hperiod : 0 < 1000 * (time.epochsPerFrame * secondsPerSlot * slotsPerEpoch) := by
    have := time.epochsPerFrame_pos
    simp only [secondsPerSlot, slotsPerEpoch]
    omega
  let direct := Schedule.periodic
    (1000 * (time.genesisTime + time.initialEpoch * secondsPerSlot * slotsPerEpoch))
    (1000 * (time.epochsPerFrame * secondsPerSlot * slotsPerEpoch)) hperiod
  have hpoint (frame : ℤ) : direct.point frame = time.reports.point frame := by
    simp only [direct, Schedule.periodic_point, reports_point, reportTime]
    ring
  calc
    time.getFrameByTimestamp timestamp = direct.index timestamp := rfl
    _ = time.reports.index timestamp := Schedule.index_eq_of_point_eq hpoint timestamp
    _ = _ := time.reports_index timestamp

/-- The epoch of a timestamp is the current epoch at that clock reading. -/
theorem getEpochByTimestamp_eq (timestamp : ℤ) :
    time.getEpochByTimestamp timestamp = time.getCurrentEpoch timestamp := by
  let slots : Schedule ℤ ℤ :=
    (Schedule.periodic 0 1000 (by norm_num)).coarsen
      (Schedule.periodic time.genesisTime secondsPerSlot (by norm_num [secondsPerSlot]))
  let bySlot := slots.coarsen
    (Schedule.periodic 0 slotsPerEpoch (by norm_num [slotsPerEpoch]))
  have hpoint (epoch : ℤ) : bySlot.point epoch = time.epochs.point epoch := by
    rw [epochs_point]
    change 0 + (time.genesisTime + (0 + epoch * slotsPerEpoch) * secondsPerSlot) * 1000 = _
    simp only [getTimestampByEpoch]
    ring
  calc
    time.getEpochByTimestamp timestamp = bySlot.index timestamp := by
      change (timestamp / 1000 - time.genesisTime) / secondsPerSlot / slotsPerEpoch =
        ((((timestamp - 0) / 1000) - time.genesisTime) / secondsPerSlot - 0) / slotsPerEpoch
      simp only [sub_zero]
    _ = time.epochs.index timestamp := Schedule.index_eq_of_point_eq hpoint timestamp
    _ = _ := time.epochs_index timestamp

/-! ## The clock between two reports -/

theorem reportTime_le_now_iff {frame now : ℤ} :
    time.reportTime frame ≤ now ↔
      frame ≤ time.getFrameOfEpoch (time.getCurrentEpoch now) := by
  rw [← time.reports_point, ← time.reports_index]
  exact time.reports.point_le_iff

theorem now_lt_reportTime_iff {frame now : ℤ} :
    now < time.reportTime frame ↔
      time.getFrameOfEpoch (time.getCurrentEpoch now) < frame := by
  rw [← not_le, time.reportTime_le_now_iff, not_le]

/-- An epoch belongs to the frames before a report exactly when it is earlier
than the reference epoch of that report. -/
theorem getFrameOfEpoch_lt_iff {epoch frame : ℤ} :
    time.getFrameOfEpoch epoch < frame ↔ epoch < time.referenceEpoch frame := by
  have h := (Schedule.periodic time.initialEpoch time.epochsPerFrame
    time.epochsPerFrame_pos).lt_point_iff (n := frame) (t := epoch)
  simpa [getFrameOfEpoch, referenceEpoch] using h.symm

theorem getFrameOfEpoch_mono {first second : ℤ} (h : first ≤ second) :
    time.getFrameOfEpoch first ≤ time.getFrameOfEpoch second :=
  (Schedule.periodic time.initialEpoch time.epochsPerFrame
    time.epochsPerFrame_pos).index_mono h

theorem getCurrentEpoch_mono {first second : ℤ} (h : first ≤ second) :
    time.getCurrentEpoch first ≤ time.getCurrentEpoch second := by
  rw [← time.epochs_index, ← time.epochs_index]
  exact time.epochs.index_mono h

/-! ## Delays -/

theorem timeToWithdrawalFrame_eq (frame since : ℤ) :
    time.timeToWithdrawalFrame frame since =
      roundQuotient (time.reportTime frame - since) 1000 * 1000 := by
  simp only [timeToWithdrawalFrame, reportTime, mul_assoc]

/-- From a whole second the delay is exact. -/
theorem timeToWithdrawalFrame_of_seconds (frame seconds : ℤ) :
    time.timeToWithdrawalFrame frame (seconds * 1000) =
      time.reportTime frame - seconds * 1000 := by
  have hwhole : time.reportTime frame - seconds * 1000 =
      (time.genesisTime + (time.initialEpoch + frame * time.epochsPerFrame) *
        (secondsPerSlot * slotsPerEpoch) - seconds) * 1000 := by
    simp only [reportTime]
    ring
  rw [timeToWithdrawalFrame_eq, hwhole, roundQuotient_mul_self _ (by norm_num)]

/-- A delay reaches a whole number of seconds when it is at most half a second
short of it. -/
theorem le_timeToWithdrawalFrame_iff {frame since seconds : ℤ} :
    seconds * 1000 ≤ time.timeToWithdrawalFrame frame since ↔
      seconds * 1000 ≤ time.reportTime frame - since + 500 := by
  rw [timeToWithdrawalFrame_eq, mul_le_mul_iff_of_pos_right (by norm_num : (0 : ℤ) < 1000),
    le_roundQuotient_iff (by norm_num)]
  constructor <;> intro h <;> linarith

/-- Only a report before the start has a negative delay. -/
theorem reportTime_lt_of_delay_neg {frame since : ℤ}
    (h : time.timeToWithdrawalFrame frame since < 0) : time.reportTime frame < since := by
  have hzero : ¬ 0 * 1000 ≤ time.timeToWithdrawalFrame frame since := by omega
  rw [le_timeToWithdrawalFrame_iff] at hzero
  omega

/-- The rounding moves a delay by at most half a second. -/
theorem abs_timeToWithdrawalFrame_sub_le (frame since : ℤ) :
    |time.timeToWithdrawalFrame frame since - (time.reportTime frame - since)| ≤ 500 := by
  have hlower : roundQuotient (time.reportTime frame - since) 1000 * 1000 ≤
      time.reportTime frame - since + 500 := by
    rw [← le_timeToWithdrawalFrame_iff, timeToWithdrawalFrame_eq]
  have hupper : ¬ (roundQuotient (time.reportTime frame - since) 1000 + 1) * 1000 ≤
      time.timeToWithdrawalFrame frame since := by
    rw [timeToWithdrawalFrame_eq]
    omega
  rw [le_timeToWithdrawalFrame_iff] at hupper
  rw [timeToWithdrawalFrame_eq, abs_le]
  omega

theorem timeToWithdrawalFrame_mono {first second since : ℤ} (h : first ≤ second) :
    time.timeToWithdrawalFrame first since ≤ time.timeToWithdrawalFrame second since := by
  have hself : roundQuotient (time.reportTime first - since) 1000 * 1000 ≤
      time.reportTime first - since + 500 := by
    rw [← le_timeToWithdrawalFrame_iff, timeToWithdrawalFrame_eq]
  have hreport := time.reportTime_le_iff.mpr h
  calc
    time.timeToWithdrawalFrame first since =
        roundQuotient (time.reportTime first - since) 1000 * 1000 :=
      time.timeToWithdrawalFrame_eq first since
    _ ≤ time.timeToWithdrawalFrame second since :=
      time.le_timeToWithdrawalFrame_iff.mpr (by omega)

theorem timeToWithdrawalFrame_antitone {frame earlier later : ℤ} (h : earlier ≤ later) :
    time.timeToWithdrawalFrame frame later ≤ time.timeToWithdrawalFrame frame earlier := by
  have hself : roundQuotient (time.reportTime frame - later) 1000 * 1000 ≤
      time.reportTime frame - later + 500 := by
    rw [← le_timeToWithdrawalFrame_iff, timeToWithdrawalFrame_eq]
  calc
    time.timeToWithdrawalFrame frame later =
        roundQuotient (time.reportTime frame - later) 1000 * 1000 :=
      time.timeToWithdrawalFrame_eq frame later
    _ ≤ time.timeToWithdrawalFrame frame earlier :=
      time.le_timeToWithdrawalFrame_iff.mpr (by omega)

end GenesisTimeService

end WithdrawalsApi
