/-
# Numbers that are rounded

Where a loop adds to a counter until it passes a bound, it matters that a number
of JavaScript is a double: a sum is rounded, and from `2 ^ 53` on adding one may
change nothing. A finite double is a rational that rounding leaves alone; a sum
with a finite double is a double or an infinity, and never `NaN`.
-/

import WithdrawalsApi.Js.Number
import WithdrawalsApi.Math.Rounding
import Mathlib.Order.WithBot

namespace WithdrawalsApi.Js

open Math.Rounding

/-- The format of the doubles. -/
def binary64 : Format where
  precision := 53
  minExponent := -1074
  precision_pos := by decide

/-- What no finite double reaches. -/
@[irreducible]
def overflow : ℚ := 2 ^ 1024

theorem two_pow_lt_overflow : (2 : ℚ) ^ 53 < overflow := by
  unfold overflow
  exact pow_lt_pow_right₀ (by norm_num) (by norm_num)

/-- A finite double. -/
@[ext]
structure Double where
  value : ℚ
  rounded : binary64.round value = value
  finite : |value| < overflow

namespace Double

instance : LinearOrder Double :=
  LinearOrder.lift' Double.value fun _ _ => Double.ext

theorem le_iff {first second : Double} : first ≤ second ↔ first.value ≤ second.value := Iff.rfl

theorem lt_iff {first second : Double} : first < second ↔ first.value < second.value := Iff.rfl

/-- An integer of at most 53 bits. -/
def ofInt (n : ℤ) (h : |n| ≤ 2 ^ 53) : Double where
  value := n
  rounded := Format.round_intCast (by decide) h
  finite := by
    have hcast : |(n : ℚ)| ≤ 2 ^ 53 := by exact_mod_cast h
    exact hcast.trans_lt two_pow_lt_overflow

instance : Zero Double := ⟨ofInt 0 (by norm_num)⟩

instance : One Double := ⟨ofInt 1 (by norm_num)⟩

/-- `-1`. -/
def negOne : Double := ofInt (-1) (by norm_num)

/-- The number that counting by ones does not get past. -/
def lastCount : Double := ofInt (2 ^ 53) (by norm_num)

@[simp]
theorem value_ofInt (n : ℤ) (h : |n| ≤ 2 ^ 53) : (ofInt n h).value = n := rfl

@[simp]
theorem value_zero : (0 : Double).value = 0 := Int.cast_zero

@[simp]
theorem value_one : (1 : Double).value = 1 := Int.cast_one

@[simp]
theorem value_negOne : negOne.value = -1 := by simp [negOne]

theorem value_lastCount : lastCount.value = 2 ^ 53 := by
  rw [lastCount, value_ofInt, Int.cast_pow, Int.cast_ofNat]

theorem zero_le_lastCount : 0 ≤ lastCount := by
  rw [le_iff, value_zero, value_lastCount]
  norm_num

theorem finite_Icc (lower upper : Double) : (Set.Icc lower upper).Finite := by
  have hvalues : {q | binary64.round q = q ∧ lower.value ≤ q ∧ q ≤ upper.value}.Finite :=
    Format.finite_setOf_round_eq lower.value upper.value
  refine Set.Finite.of_finite_image (hvalues.subset ?_)
    (fun first _ second _ => Double.ext : Set.InjOn value _)
  rintro _ ⟨number, ⟨hlower, hupper⟩, rfl⟩
  exact ⟨number.rounded, hlower, hupper⟩

end Double

/-- A double that is not `NaN`. -/
abbrev ExtendedDouble := WithBot (WithTop Double)

namespace ExtendedDouble

/-- A finite double among the doubles. -/
def ofDouble (number : Double) : ExtendedDouble := ((number : WithTop Double) : WithBot _)

instance : Coe Double ExtendedDouble := ⟨ofDouble⟩

theorem coe_le_coe {first second : Double} :
    (first : ExtendedDouble) ≤ second ↔ first ≤ second :=
  WithBot.coe_le_coe.trans WithTop.coe_le_coe

theorem coe_lt_coe {first second : Double} :
    (first : ExtendedDouble) < second ↔ first < second :=
  WithBot.coe_lt_coe.trans WithTop.coe_lt_coe

/-- The double nearest to a rational, or the infinity on its side. -/
def ofRat (q : ℚ) : ExtendedDouble :=
  if hlower : binary64.round q ≤ -overflow then ⊥
  else if hupper : overflow ≤ binary64.round q then ⊤
  else ({
    value := binary64.round q
    rounded := Format.round_round q
    finite := abs_lt.mpr ⟨not_le.mp hlower, not_le.mp hupper⟩ } : Double)

/-- `number + step` with a finite step. -/
def add (number : ExtendedDouble) (step : Double) : ExtendedDouble :=
  match number with
  | none => ⊥
  | some none => ⊤
  | some (some finite) => ofRat (finite.value + step.value)

theorem coe_ne_bot (number : Double) : (number : ExtendedDouble) ≠ ⊥ := WithBot.coe_ne_bot

theorem coe_ne_top (number : Double) : (number : ExtendedDouble) ≠ ⊤ := by
  intro h
  exact WithTop.coe_ne_top (WithBot.coe_injective h)

/-- Between finite doubles there are finite ones only. -/
theorem exists_eq_coe {lower upper : Double} {number : ExtendedDouble}
    (hlower : (lower : ExtendedDouble) ≤ number) (hupper : number ≤ upper) :
    ∃ finite : Double, number = finite := by
  match number with
  | none => exact absurd (le_bot_iff.mp hlower) (coe_ne_bot lower)
  | some none => exact absurd (top_le_iff.mp hupper) (coe_ne_top upper)
  | some (some finite) => exact ⟨finite, rfl⟩

theorem finite_Icc (lower upper : Double) :
    (Set.Icc (lower : ExtendedDouble) upper).Finite := by
  refine ((Double.finite_Icc lower upper).image ofDouble).subset ?_
  rintro number ⟨hlower, hupper⟩
  obtain ⟨finite, rfl⟩ := exists_eq_coe hlower hupper
  exact ⟨finite, ⟨coe_le_coe.mp hlower, coe_le_coe.mp hupper⟩, rfl⟩

theorem ofRat_value (number : Double) : ofRat number.value = number := by
  obtain ⟨hlower, hupper⟩ := abs_lt.mp number.finite
  rw [← number.rounded] at hlower hupper
  rw [ofRat, dif_neg hlower.not_ge, dif_neg hupper.not_ge]
  exact congrArg ofDouble (Double.ext number.rounded)

theorem ofRat_mono : Monotone ofRat := by
  intro first second hle
  have hround : binary64.round first ≤ binary64.round second := Format.round_mono hle
  by_cases hlower : binary64.round first ≤ -overflow
  · rw [ofRat, dif_pos hlower]
    exact bot_le
  by_cases hupper : overflow ≤ binary64.round second
  · have hnot : ¬ binary64.round second ≤ -overflow := fun h => hlower (hround.trans h)
    rw [ofRat, ofRat, dif_neg hnot, dif_pos hupper]
    exact le_top
  · have hnotLower : ¬ binary64.round second ≤ -overflow := fun h => hlower (hround.trans h)
    have hnotUpper : ¬ overflow ≤ binary64.round first := fun h => hupper (h.trans hround)
    rw [ofRat, ofRat, dif_neg hlower, dif_neg hnotLower, dif_neg hnotUpper, dif_neg hupper]
    exact coe_le_coe.mpr hround

theorem add_coe (number step : Double) :
    (number : ExtendedDouble).add step = ofRat (number.value + step.value) := rfl

theorem add_mono (step : Double) : Monotone fun number : ExtendedDouble => number.add step := by
  intro first second hle
  match first, second with
  | none, _ => exact bot_le
  | some none, none => exact absurd (le_bot_iff.mp hle) nofun
  | some none, some none => exact le_rfl
  | some none, some (some finite) => exact absurd (top_le_iff.mp hle) (coe_ne_top finite)
  | some (some finite), none => exact absurd (le_bot_iff.mp hle) (coe_ne_bot finite)
  | some (some _), some none => exact le_top
  | some (some first), some (some second) =>
      have hvalue : first.value ≤ second.value := coe_le_coe.mp hle
      exact ofRat_mono (add_le_add_left hvalue step.value)

/-- An exact sum. -/
theorem add_eq_of_value {number step sum : Double} (h : number.value + step.value = sum.value) :
    (number : ExtendedDouble).add step = sum := by
  rw [add_coe, h, ofRat_value]

/-- Below `2 ^ 53` a step of at least one advances a counter, at least to the next integer. -/
theorem lt_add {number step : Double} (hnonneg : 0 ≤ number.value)
    (hsmall : number.value < 2 ^ 53) (hstep : 1 ≤ step.value) :
    (number : ExtendedDouble) < (number : ExtendedDouble).add step := by
  have hfloor : 0 ≤ ⌊number.value⌋ := Int.floor_nonneg.mpr hnonneg
  have hbits : |⌊number.value⌋ + 1| ≤ 2 ^ 53 := by
    have hlt : ⌊number.value⌋ < 2 ^ 53 := Int.floor_lt.mpr (by exact_mod_cast hsmall)
    rw [abs_of_nonneg (by omega)]
    omega
  let next := Double.ofInt (⌊number.value⌋ + 1) hbits
  have hlt : number < next := by
    rw [Double.lt_iff, Double.value_ofInt]
    exact_mod_cast Int.lt_floor_add_one number.value
  have hle : next.value ≤ number.value + step.value := by
    rw [Double.value_ofInt]
    have := Int.floor_le number.value
    push_cast
    linarith
  calc
    (number : ExtendedDouble) < next := coe_lt_coe.mpr hlt
    _ = ofRat next.value := (ofRat_value next).symm
    _ ≤ ofRat (number.value + step.value) := ofRat_mono hle

/-- One less is at most the integer below. -/
theorem add_negOne_le {number : Double} {n : ℤ} (h : |n| ≤ 2 ^ 53) (hle : number.value ≤ n + 1) :
    (number : ExtendedDouble).add Double.negOne ≤ Double.ofInt n h := by
  have hvalue : number.value + Double.negOne.value ≤ (Double.ofInt n h).value := by
    rw [Double.value_negOne, Double.value_ofInt]
    linarith
  calc
    (number : ExtendedDouble).add Double.negOne ≤ ofRat (Double.ofInt n h).value :=
      ofRat_mono hvalue
    _ = Double.ofInt n h := ofRat_value _

/-- From `2 ^ 53` on, adding one changes nothing. -/
theorem add_one_lastCount : (Double.lastCount : ExtendedDouble).add 1 = Double.lastCount := by
  have hround : binary64.round ((2 ^ 53 : ℚ) + 1) = 2 ^ 53 :=
    Format.round_two_pow_add_one (by decide : binary64.minExponent ≤ 1) (by decide)
  have hsum : ofRat ((2 ^ 53 : ℚ) + 1) = ofRat (binary64.round (2 ^ 53 + 1)) := by
    simp only [ofRat, Format.round_round]
  rw [add_coe, Double.value_one, Double.value_lastCount, hsum, hround, ← Double.value_lastCount,
    ofRat_value]

end ExtendedDouble

namespace JsNumber

/-- The finite double that a number is rounded to, if there is one. -/
def double? : JsNumber → Option Double
  | finite value =>
      match ExtendedDouble.ofRat value with
      | some (some number) => some number
      | _ => none
  | nan => none
  | infinity _ => none

theorem double?_value (number : Double) : double? (.finite number.value) = some number := by
  simp only [double?, ExtendedDouble.ofRat_value]
  rfl

/-! ## `Number(text)` -/

/-- A double as a number. -/
def ofExtendedDouble : ExtendedDouble → JsNumber
  | none => .infinity true
  | some none => .infinity false
  | some (some number) => .finite number.value

/-- The double nearest to a number. -/
def rounded : JsNumber → JsNumber
  | finite value => ofExtendedDouble (ExtendedDouble.ofRat value)
  | nan => .nan
  | infinity negative => .infinity negative

/-- `Number(text)`. -/
def ofText (text : List Char) : JsNumber := (ofLiteral text).rounded

theorem rounded_value (number : Double) :
    rounded (.finite number.value) = .finite number.value := by
  rw [rounded, ExtendedDouble.ofRat_value]
  rfl

/-- Integers of at most 53 bits are doubles. -/
theorem rounded_intCast {n : ℤ} (h : |n| ≤ 2 ^ 53) : rounded (.finite n) = .finite n :=
  rounded_value (Double.ofInt n h)

theorem rounded_natCast {n : ℕ} (h : n ≤ 2 ^ 53) : rounded (.finite n) = .finite n := by
  have hbits : |(n : ℤ)| ≤ 2 ^ 53 := by
    rw [Nat.abs_cast]
    exact_mod_cast h
  have hrounded := rounded_intCast hbits
  rwa [Int.cast_natCast] at hrounded

/-- The empty text is read as zero. -/
theorem ofText_nil : ofText [] = .finite (0 : ℕ) := rounded_natCast (Nat.zero_le _)

/-- An integer of at most 64 bits is rounded to a natural number. -/
theorem exists_rounded_natCast {n : ℕ} (h : n ≤ 2 ^ 64) :
    ∃ m : ℕ, rounded (.finite n) = .finite m := by
  obtain ⟨m, hm⟩ := Format.exists_round_natCast (by decide : binary64.minExponent ≤ 0) n
  have hle : binary64.round n ≤ 2 ^ 64 := by
    rw [← Format.round_two_pow (by decide : binary64.minExponent ≤ (64 : ℕ))]
    exact Format.round_mono (by exact_mod_cast h)
  have hfinite : binary64.round n < overflow := by
    refine hle.trans_lt ?_
    unfold overflow
    exact pow_lt_pow_right₀ (by norm_num) (by norm_num)
  have hnonneg : 0 ≤ binary64.round n := by
    rw [hm]
    exact m.cast_nonneg
  have hoverflow : 0 < overflow := hnonneg.trans_lt hfinite
  refine ⟨m, ?_⟩
  rw [rounded, ExtendedDouble.ofRat, dif_neg (by linarith), dif_neg hfinite.not_ge]
  exact congrArg JsNumber.finite hm

theorem ofText_toDigits (n : ℕ) : ofText (Nat.toDigits 10 n) = rounded (.finite n) := by
  rw [ofText, ofLiteral_toDigits]

/-- The decimal text of a natural number of at most 53 bits is read back as that number. -/
theorem ofText_toDigits_of_le {n : ℕ} (h : n ≤ 2 ^ 53) :
    ofText (Nat.toDigits 10 n) = .finite n := by
  rw [ofText_toDigits, rounded_natCast h]

end JsNumber

end WithdrawalsApi.Js
