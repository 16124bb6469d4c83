/-
# Numbers on their way into big numbers

A stored number is a JavaScript number, and the amounts are big numbers. What
passes from one to the other is floored or compared as a number first, and
`BigNumber.from` then accepts the safe integers only.
-/

import WithdrawalsApi.Js.Number
import WithdrawalsApi.Js.Outcome

namespace WithdrawalsApi.Js

namespace JsNumber

/-- `Math.floor(number)`. -/
def floor : JsNumber → JsNumber
  | finite value => .finite ⌊value⌋
  | number => number

/-- `Math.max(number, n)` with a whole number. -/
def maxInteger : JsNumber → ℤ → JsNumber
  | finite value, n => .finite (max value n)
  | infinity true, n => .finite n
  | number, _ => number

/-- `number / n` by a positive whole number. -/
def divInteger : JsNumber → ℤ → JsNumber
  | finite value, n => .finite (value / n)
  | number, _ => number

/-- `first >= second`, which does not hold of `NaN`. -/
def ge : JsNumber → JsNumber → Bool
  | finite first, finite second => decide (second ≤ first)
  | finite _, infinity negative => negative
  | infinity negative, finite _ => !negative
  | infinity first, infinity second => !first || second
  | nan, _ | _, nan => false

@[simp]
theorem floor_natCast (n : ℕ) : floor (.finite n) = .finite (n : ℤ) := by
  simp [floor]

/-- The quotient of whole numbers, floored. -/
theorem floor_divInteger_natCast (n d : ℕ) :
    floor (divInteger (.finite n) d) = .finite ((n / d : ℕ) : ℤ) := by
  have hfloor := Rat.floor_intCast_div_natCast n d
  simp only [Int.cast_natCast] at hfloor
  simp only [divInteger, floor, Int.cast_natCast, hfloor, Int.natCast_div]

/-- A maximum that is a number is not less than either argument. -/
theorem le_of_maxInteger_eq_finite {number : JsNumber} {n : ℤ} {value : ℚ}
    (h : number.maxInteger n = .finite value) : (n : ℚ) ≤ value := by
  cases number with
  | finite first =>
      rw [← finite.inj h]
      exact le_max_right _ _
  | nan => cases h
  | infinity negative =>
      cases negative with
      | false => cases h
      | true => exact (finite.inj h).le

end JsNumber

/-- `BigNumber.from(number)`: a fraction and what is no number are refused, and so
is what is not less than `MAX_SAFE_INTEGER`. -/
def BigNumber.ofNumber : JsNumber → Outcome ℤ
  | .finite value =>
      if value ≠ ⌊value⌋ then .error .invalidNumber
      else if maxSafeInteger ≤ ⌊value⌋ ∨ ⌊value⌋ ≤ -maxSafeInteger then .error .overflow
      else .ok ⌊value⌋
  | .nan => .error .invalidNumber
  | .infinity _ => .error .overflow

theorem BigNumber.ofNumber_intCast {n : ℤ} (hlower : -maxSafeInteger < n)
    (hupper : n < maxSafeInteger) : ofNumber (.finite n) = .ok n := by
  have hsafe : ¬ (maxSafeInteger ≤ n ∨ n ≤ -maxSafeInteger) := by omega
  simp [ofNumber, hsafe]

theorem BigNumber.ofNumber_eq_ok {number : JsNumber} {n : ℤ} (h : ofNumber number = .ok n) :
    number = .finite n := by
  cases number with
  | nan => cases h
  | infinity negative => cases h
  | finite value =>
      simp only [ofNumber] at h
      split at h
      · cases h
      · rename_i hwhole
        split at h
        · cases h
        · rw [Except.ok.injEq] at h
          rw [← h, ← not_not.mp hwhole]

end WithdrawalsApi.Js
