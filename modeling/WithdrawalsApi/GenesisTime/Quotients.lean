/-
# The quotients of the genesis clock

`GenesisTimeService` divides in several orders: the current epoch through the
second, a slot and an epoch in one floor, the epoch of a timestamp through a
floor at each of them, and a frame either from the epoch or from the fraction
of a second that the timestamp is. The formulas are written here over rational
numbers, with the floors where the source has them.

The integer clock computes the same numbers. A floor may be taken before a
division by a whole number or after it, so a formula depends on the whole
milliseconds of its timestamp alone, and on the product of its divisors.
-/

import WithdrawalsApi.GenesisTime
import Mathlib.Algebra.Order.Round
import Mathlib.Data.Rat.Floor
import Mathlib.Tactic.FieldSimp

namespace WithdrawalsApi

open Math Js

/-- `Math.round` of a quotient is the nearest integer, and the upper one from a
midpoint. -/
theorem round_div_eq_roundQuotient (numerator : ℤ) {denominator : ℤ} (h : 0 < denominator) :
    round ((numerator : ℚ) / denominator) = roundQuotient numerator denominator := by
  have hne : (denominator : ℚ) ≠ 0 := by exact_mod_cast h.ne'
  have hhalf : (numerator : ℚ) / denominator + 1 / 2 =
      ((2 * numerator + denominator : ℤ) : ℚ) / (2 * denominator : ℤ) := by
    push_cast
    field_simp
  rw [round_eq, hhalf, Int.floor_div_cast_of_nonneg (by omega), Int.floor_intCast, roundQuotient]

namespace GenesisTimeService

/-! ## The formulas as they are written -/

namespace Exact

variable (time : GenesisTimeService)

def getCurrentEpoch (now : ℚ) : ℤ :=
  let currentTime := ⌊now / 1000⌋
  ⌊(currentTime - time.genesisTime : ℚ) / secondsPerSlot / slotsPerEpoch⌋

def getFrameOfEpoch (epoch : ℚ) : ℤ :=
  ⌊(epoch - time.initialEpoch) / time.epochsPerFrame⌋

/-- Genesis and the report are whole seconds; only the start of the delay has a
fraction. -/
def timeToWithdrawalFrame (frame : ℤ) (since : ℚ) : ℤ :=
  let epochOfNextReport := time.initialEpoch + frame * time.epochsPerFrame
  let timeToNextReport := epochOfNextReport * secondsPerSlot * slotsPerEpoch
  round (time.genesisTime + timeToNextReport - since / 1000 : ℚ) * 1000

def getFrameByTimestamp (timestamp : ℚ) : ℤ :=
  let secondsFromInitialEpochToTimestamp : ℚ :=
    timestamp / 1000 - (time.genesisTime + time.initialEpoch * secondsPerSlot * slotsPerEpoch)
  ⌊secondsFromInitialEpochToTimestamp / (time.epochsPerFrame * secondsPerSlot * slotsPerEpoch)⌋

def getSlotByTimestamp (timestamp : ℚ) : ℤ :=
  let currentSlotTime := ⌊timestamp / 1000⌋
  ⌊(currentSlotTime - time.genesisTime : ℚ) / secondsPerSlot⌋

def getEpochByTimestamp (timestamp : ℚ) : ℤ :=
  ⌊(getSlotByTimestamp time timestamp : ℚ) / slotsPerEpoch⌋

/-! ## The integer clock computes them -/

theorem floor_div_secondsPerSlot (q : ℚ) : ⌊q / secondsPerSlot⌋ = ⌊q⌋ / secondsPerSlot :=
  Int.floor_div_cast_of_nonneg (by decide) q

theorem floor_div_slotsPerEpoch (q : ℚ) : ⌊q / slotsPerEpoch⌋ = ⌊q⌋ / slotsPerEpoch :=
  Int.floor_div_cast_of_nonneg (by decide) q

/-- The second of a timestamp. -/
theorem floor_div_thousand (timestamp : ℚ) : ⌊timestamp / 1000⌋ = ⌊timestamp⌋ / 1000 := by
  have h := Int.floor_div_cast_of_nonneg (by decide : (0 : ℤ) ≤ 1000) timestamp
  exact_mod_cast h

theorem getCurrentEpoch_eq (now : ℚ) :
    getCurrentEpoch time now = time.getCurrentEpoch ⌊now⌋ := by
  simp only [getCurrentEpoch, GenesisTimeService.getCurrentEpoch]
  rw [floor_div_slotsPerEpoch, floor_div_secondsPerSlot, floor_div_thousand, ← Int.cast_sub,
    Int.floor_intCast, Int.ediv_ediv_of_nonneg (by decide)]

theorem getFrameOfEpoch_eq (epoch : ℚ) :
    getFrameOfEpoch time epoch = time.getFrameOfEpoch ⌊epoch⌋ := by
  simp only [getFrameOfEpoch, GenesisTimeService.getFrameOfEpoch]
  rw [Int.floor_div_cast_of_nonneg time.epochsPerFrame_pos.le, Int.floor_sub_intCast]

theorem getSlotByTimestamp_eq (timestamp : ℚ) :
    getSlotByTimestamp time timestamp = time.getSlotByTimestamp ⌊timestamp⌋ := by
  simp only [getSlotByTimestamp, GenesisTimeService.getSlotByTimestamp]
  rw [floor_div_secondsPerSlot, floor_div_thousand, ← Int.cast_sub, Int.floor_intCast]

theorem getEpochByTimestamp_eq (timestamp : ℚ) :
    getEpochByTimestamp time timestamp = time.getEpochByTimestamp ⌊timestamp⌋ := by
  simp only [getEpochByTimestamp, GenesisTimeService.getEpochByTimestamp]
  rw [floor_div_slotsPerEpoch, Int.floor_intCast, getSlotByTimestamp_eq]

theorem getFrameByTimestamp_eq (timestamp : ℚ) :
    getFrameByTimestamp time timestamp = time.getFrameByTimestamp ⌊timestamp⌋ := by
  have hperiod : 0 ≤ 1000 * (time.epochsPerFrame * secondsPerSlot * slotsPerEpoch) := by
    have := time.epochsPerFrame_pos
    simp only [secondsPerSlot, slotsPerEpoch]
    omega
  -- both sides of the quotient are multiplied by 1000
  have hscaled : (timestamp / 1000 -
        (time.genesisTime + time.initialEpoch * secondsPerSlot * slotsPerEpoch) : ℚ) /
      (time.epochsPerFrame * secondsPerSlot * slotsPerEpoch) =
      (timestamp - (1000 *
        (time.genesisTime + time.initialEpoch * secondsPerSlot * slotsPerEpoch) : ℤ)) /
      (1000 * (time.epochsPerFrame * secondsPerSlot * slotsPerEpoch) : ℤ) := by
    push_cast
    rw [← mul_div_mul_left _ _ (by norm_num : (1000 : ℚ) ≠ 0)]
    ring
  simp only [getFrameByTimestamp, GenesisTimeService.getFrameByTimestamp]
  rw [hscaled, Int.floor_div_cast_of_nonneg hperiod, Int.floor_sub_intCast]

theorem timeToWithdrawalFrame_eq (frame since : ℤ) :
    timeToWithdrawalFrame time frame since = time.timeToWithdrawalFrame frame since := by
  simp only [timeToWithdrawalFrame, GenesisTimeService.timeToWithdrawalFrame]
  rw [← round_div_eq_roundQuotient _ (by decide)]
  congr 2
  push_cast
  ring

end Exact

/-- The clocks agree: a frame read off a timestamp is the frame of its epoch, an epoch is
counted alike by either formula and read off its own start, and from a whole second the
delay to a report is the exact time to its reference epoch, positive for the frames
after the one of that second. -/
theorem frame_and_epoch_clocks_agree (time : GenesisTimeService) (timestamp : ℚ)
    (frame epoch : ℤ) :
    Exact.getFrameByTimestamp time timestamp =
        Exact.getFrameOfEpoch time (Exact.getEpochByTimestamp time timestamp) ∧
      Exact.getCurrentEpoch time timestamp = Exact.getEpochByTimestamp time timestamp ∧
      Exact.getEpochByTimestamp time (time.getTimestampByEpoch epoch) = epoch ∧
      ∀ seconds : ℤ, timestamp = seconds * 1000 →
        (0 < Exact.timeToWithdrawalFrame time frame timestamp ↔
          Exact.getFrameByTimestamp time timestamp < frame) ∧
        timestamp + Exact.timeToWithdrawalFrame time frame timestamp =
          time.getTimestampByEpoch (time.initialEpoch + frame * time.epochsPerFrame) := by
  have hepoch : Exact.getEpochByTimestamp time timestamp = time.getCurrentEpoch ⌊timestamp⌋ := by
    rw [Exact.getEpochByTimestamp_eq, getEpochByTimestamp_eq]
  have hframe : Exact.getFrameByTimestamp time timestamp =
      time.getFrameOfEpoch (time.getCurrentEpoch ⌊timestamp⌋) := by
    rw [Exact.getFrameByTimestamp_eq, getFrameByTimestamp_eq]
  refine ⟨?_, ?_, ?_, ?_⟩
  · rw [hframe, hepoch, Exact.getFrameOfEpoch_eq, Int.floor_intCast]
  · rw [hepoch, Exact.getCurrentEpoch_eq]
  · rw [Exact.getEpochByTimestamp_eq, Int.floor_intCast, getEpochByTimestamp_eq,
      getCurrentEpoch_getTimestampByEpoch]
  · intro seconds hseconds
    have hwhole : timestamp = ((seconds * 1000 : ℤ) : ℚ) := by
      rw [hseconds]
      push_cast
      rfl
    have hdelay : Exact.timeToWithdrawalFrame time frame timestamp =
        time.reportTime frame - seconds * 1000 := by
      rw [hwhole, Exact.timeToWithdrawalFrame_eq, timeToWithdrawalFrame_of_seconds]
    have hfloor : ⌊timestamp⌋ = seconds * 1000 := by rw [hwhole, Int.floor_intCast]
    constructor
    · rw [hdelay, hframe, hfloor, ← time.now_lt_reportTime_iff, sub_pos]
    · have htime := time.reportTime_eq frame
      rw [referenceEpoch] at htime
      rw [hdelay, hwhole, ← Int.cast_add, ← htime]
      congr 1
      omega

/-- Mainnet, on December 22, 2023: frame 2000 is years ahead, and its delay ends exactly at
its reference epoch. -/
theorem frame_and_epoch_clocks_agree_mainnet :
    let time : GenesisTimeService := {
      genesisTime := 1606824023
      initialEpoch := 201600
      epochsPerFrame := 225
      epochsPerFrame_pos := by decide }
    0 < Exact.timeToWithdrawalFrame time 2000 1703239938000 ∧
      (1703239938000 : ℚ) + Exact.timeToWithdrawalFrame time 2000 1703239938000 =
        time.getTimestampByEpoch 651600 := by
  intro time
  have hseconds : (1703239938000 : ℚ) = (1703239938 : ℤ) * 1000 := by norm_num
  obtain ⟨hpositive, hend⟩ :=
    (frame_and_epoch_clocks_agree time 1703239938000 2000 651600).2.2.2 1703239938 hseconds
  have hframe : Exact.getFrameByTimestamp time 1703239938000 = 219 := by
    rw [Exact.getFrameByTimestamp_eq, Int.floor_ofNat]
    decide
  refine ⟨hpositive.mpr ?_, hend⟩
  rw [hframe]
  decide

end GenesisTimeService

end WithdrawalsApi
