/-
# Outcomes of JavaScript code that may throw

A computation of the service either returns or throws, and the estimates throw
in a handful of ways only: a `BigNumber` division by zero, a `BigNumber` that is
no safe integer, a property name that is no number, a reduction of no elements,
a `Date` outside the representable range, and a read of a value that no job has
stored yet. Amounts are arbitrary integers, as `BigNumber` has them, and a
JavaScript number that is a whole number is the same integer.
-/

import Mathlib.Algebra.Order.Group.Int
import Mathlib.Data.Int.Order.Basic
import Mathlib.Tactic.Linarith

namespace WithdrawalsApi.Js

universe u

/-- The ways in which the modelled code throws. -/
inductive Fault
  | divisionByZero
  | overflow
  | invalidNumber
  | emptyReduce
  | invalidDate
  | undefinedRead
  deriving DecidableEq, Repr

/-- A returned value or a thrown fault. -/
abbrev Outcome (α : Type u) := Except Fault α

namespace Outcome

variable {α β : Type u}

/-- A sequence of two steps returns exactly when both do. -/
theorem bind_eq_ok {x : Outcome α} {f : α → Outcome β} {b : β} :
    (x >>= f) = .ok b ↔ ∃ a, x = .ok a ∧ f a = .ok b := by
  cases x <;> simp [bind, Except.bind]

theorem map_eq_ok {x : Outcome α} {f : α → β} {b : β} :
    (f <$> x) = .ok b ↔ ∃ a, x = .ok a ∧ f a = b := by
  cases x <;> simp [Functor.map, Except.map]

@[simp]
theorem pure_eq_ok {a b : α} : (pure a : Outcome α) = .ok b ↔ a = b := by
  simp [pure, Except.pure]

@[simp]
theorem ok_bind (a : α) (f : α → Outcome β) : ((.ok a : Outcome α) >>= f) = f a := rfl

@[simp]
theorem error_bind (fault : Fault) (f : α → Outcome β) :
    ((.error fault : Outcome α) >>= f) = .error fault := rfl

/-- Over items for which a computation returns, all of them return. -/
theorem mapM_eq_ok_map {f : α → Outcome β} {g : α → β} {items : List α}
    (h : ∀ item ∈ items, f item = .ok (g item)) : items.mapM f = .ok (items.map g) := by
  induction items with
  | nil => rfl
  | cons item items ih =>
      have hrest := ih fun other hmem => h other (List.mem_cons_of_mem _ hmem)
      rw [List.mapM_cons, h item List.mem_cons_self, ok_bind, hrest, ok_bind]
      rfl

/-- If all of them return, each of them does. -/
theorem forall_of_mapM_eq_ok {f : α → Outcome β} {items : List α} {results : List β}
    (h : items.mapM f = .ok results) : ∀ item ∈ items, ∃ result, f item = .ok result := by
  induction items generalizing results with
  | nil => exact fun _ hmem => (by cases hmem)
  | cons item items ih =>
      rw [List.mapM_cons] at h
      obtain ⟨first, hfirst, h⟩ := bind_eq_ok.mp h
      obtain ⟨rest, hrest, -⟩ := bind_eq_ok.mp h
      intro other hmem
      rcases List.mem_cons.mp hmem with rfl | hmem
      · exact ⟨first, hfirst⟩
      · exact ih hrest other hmem

/-- Where a computation can only return a given value, all of them return exactly
when each does. -/
theorem mapM_eq_ok_iff {f : α → Outcome β} {g : α → β} {items : List α} {results : List β}
    (hvalue : ∀ item result, f item = .ok result → result = g item) :
    items.mapM f = .ok results ↔
      (∀ item ∈ items, ∃ result, f item = .ok result) ∧ results = items.map g := by
  have hmap (hall : ∀ item ∈ items, ∃ result, f item = .ok result) :
      items.mapM f = .ok (items.map g) := by
    apply mapM_eq_ok_map
    intro item hmem
    obtain ⟨result, hresult⟩ := hall item hmem
    rw [hresult, hvalue item result hresult]
  constructor
  · intro h
    have hall := forall_of_mapM_eq_ok h
    rw [hmap hall] at h
    exact ⟨hall, (Except.ok.inj h).symm⟩
  · rintro ⟨hall, rfl⟩
    exact hmap hall

end Outcome

/-- `Number.MAX_SAFE_INTEGER`. -/
def maxSafeInteger : ℤ := 2 ^ 53 - 1

/-- Whether an integer survives the conversion to a JavaScript number. -/
def IsSafeInteger (n : ℤ) : Prop := -maxSafeInteger ≤ n ∧ n ≤ maxSafeInteger

instance (n : ℤ) : Decidable (IsSafeInteger n) := inferInstanceAs (Decidable (_ ∧ _))

namespace BigNumber

/-- `BigNumber.div` truncates towards zero and throws on a zero divisor. -/
def div (a b : ℤ) : Outcome ℤ :=
  if b = 0 then .error .divisionByZero else .ok (a.tdiv b)

/-- `BigNumber.toNumber` throws on what is no safe integer. -/
def toNumber (a : ℤ) : Outcome ℤ :=
  if IsSafeInteger a then .ok a else .error .overflow

theorem div_eq_ok {a b q : ℤ} : div a b = .ok q ↔ b ≠ 0 ∧ a.tdiv b = q := by
  unfold div
  split <;> simp_all

/-- On amounts that are not negative, `BigNumber.div` is floor division. -/
theorem div_of_pos {a b : ℤ} (ha : 0 ≤ a) (hb : 0 < b) : div a b = .ok (a / b) := by
  simp [div, hb.ne', Int.tdiv_eq_ediv_of_nonneg ha]

theorem toNumber_eq_ok {a n : ℤ} : toNumber a = .ok n ↔ IsSafeInteger a ∧ a = n := by
  unfold toNumber
  split <;> simp_all

end BigNumber

/-- `Math.round` of the quotient of two integers: to the nearest integer, and
upwards from the midpoint. -/
def roundQuotient (numerator denominator : ℤ) : ℤ :=
  (2 * numerator + denominator) / (2 * denominator)

/-- A quotient rounds to at least an integer exactly when it is at most one half
below it. -/
theorem le_roundQuotient_iff {numerator denominator n : ℤ} (h : 0 < denominator) :
    n ≤ roundQuotient numerator denominator ↔
      2 * (n * denominator) ≤ 2 * numerator + denominator := by
  have hdouble : 0 < 2 * denominator := by omega
  rw [roundQuotient, Int.le_ediv_iff_mul_le hdouble]
  constructor <;> intro hle <;> linarith

/-- Whole quotients are not rounded. -/
theorem roundQuotient_mul_self {denominator : ℤ} (n : ℤ) (h : 0 < denominator) :
    roundQuotient (n * denominator) denominator = n := by
  apply le_antisymm
  · by_contra hlt
    have hle : n + 1 ≤ roundQuotient (n * denominator) denominator := by omega
    rw [le_roundQuotient_iff h] at hle
    linarith
  · rw [le_roundQuotient_iff h]
    linarith

/-- The largest absolute time value of a `Date`, in milliseconds. -/
def maxTimeValue : ℤ := 8640000000000000

/-- A `Date` that is not `Invalid Date`. -/
structure Date where
  time : ℤ
  valid : -maxTimeValue ≤ time ∧ time ≤ maxTimeValue

/-- The text denotes the time value itself, and a valid date has one. -/
def Date.toISOString (date : Date) : ℤ := date.time

/-- `new Date(ms).toISOString()`: the text denotes the time value itself, and a
time value outside the range of `Date` is a `RangeError`. -/
def toISOString (ms : ℤ) : Outcome ℤ :=
  if -maxTimeValue ≤ ms ∧ ms ≤ maxTimeValue then .ok ms else .error .invalidDate

theorem toISOString_eq_ok {ms t : ℤ} :
    toISOString ms = .ok t ↔ (-maxTimeValue ≤ ms ∧ ms ≤ maxTimeValue) ∧ ms = t := by
  unfold toISOString
  split <;> simp_all

end WithdrawalsApi.Js
