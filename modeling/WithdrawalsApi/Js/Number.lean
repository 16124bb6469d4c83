/-
# JavaScript numbers read from text

The validators cache stores its numbers as text and reads them back with
`Number(..)`, which accepts any text at all. A number is therefore a rational,
`NaN` or an infinity. Here a literal denotes its exact value; `Number` rounds it
to the nearest double.
-/

import Mathlib.Data.Rat.Floor
import Mathlib.Data.List.TakeWhile

namespace WithdrawalsApi.Js

/-- A JavaScript number. -/
inductive JsNumber
  | finite (value : ℚ)
  | nan
  | infinity (negative : Bool)
  deriving DecidableEq

namespace JsNumber

/-- `Boolean(number)`: zero and `NaN` are falsy. -/
def truthy : JsNumber → Bool
  | finite value => decide (value ≠ 0)
  | nan => false
  | infinity _ => true

/-- The natural number that a number is, if it is one. -/
def natural? : JsNumber → Option ℕ
  | finite value => if value = ⌊value⌋₊ then some ⌊value⌋₊ else none
  | nan => none
  | infinity _ => none

@[simp]
theorem natural?_natCast (n : ℕ) : natural? (.finite n) = some n := by
  simp [natural?]

theorem eq_of_natural?_eq_some {number : JsNumber} {n : ℕ} (h : number.natural? = some n) :
    number = .finite n := by
  cases number with
  | nan => cases h
  | infinity negative => cases h
  | finite value =>
      simp only [natural?, Option.ite_none_right_eq_some, Option.some.injEq] at h
      obtain ⟨hwhole, rfl⟩ := h
      rw [← hwhole]

/-! ## Literals -/

/-- The value of a digit in a radix up to sixteen. -/
def radixDigit? (radix : ℕ) (c : Char) : Option ℕ :=
  let value :=
    if c.isDigit then some (c.toNat - '0'.toNat)
    else if 'a' ≤ c ∧ c ≤ 'f' then some (c.toNat - 'a'.toNat + 10)
    else if 'A' ≤ c ∧ c ≤ 'F' then some (c.toNat - 'A'.toNat + 10)
    else none
  value.filter fun digit => decide (digit < radix)

/-- The leading decimal digits of a text and what follows them. -/
def spanDigits (text : List Char) : List Char × List Char :=
  (text.takeWhile Char.isDigit, text.dropWhile Char.isDigit)

/-- The number that decimal digits denote. -/
def ofDecimalDigits (digits : List Char) : ℕ := Nat.ofDigitChars 10 digits 0

/-- The exponent part of a decimal literal; `none` when it is malformed. -/
def exponent? : List Char → Option ℤ
  | [] => some 0
  | c :: rest =>
      if c = 'e' ∨ c = 'E' then
        let (negative, unsigned) := match rest with
          | '-' :: tail => (true, tail)
          | '+' :: tail => (false, tail)
          | tail => (false, tail)
        match spanDigits unsigned with
        | (digit :: digits, []) =>
            let value : ℤ := ofDecimalDigits (digit :: digits)
            some (if negative then -value else value)
        | _ => none
      else none

/-- An unsigned decimal literal. -/
def ofUnsignedDecimal (text : List Char) : JsNumber :=
  if text = ['I', 'n', 'f', 'i', 'n', 'i', 't', 'y'] then .infinity false
  else
    let (whole, afterWhole) := spanDigits text
    let (fraction, rest) := match afterWhole with
      | '.' :: tail => spanDigits tail
      | tail => ([], tail)
    if whole = [] ∧ fraction = [] then .nan
    else
      match exponent? rest with
      | some exponent =>
          .finite ((ofDecimalDigits (whole ++ fraction) : ℚ) *
            (10 : ℚ) ^ (exponent - (fraction.length : ℤ)))
      | none => .nan

def neg : JsNumber → JsNumber
  | finite value => .finite (-value)
  | nan => .nan
  | infinity negative => .infinity !negative

/-- A literal with a radix prefix, after the prefix. -/
def ofRadix (radix : ℕ) (text : List Char) : JsNumber :=
  match text, text.mapM (radixDigit? radix) with
  | [], _ => .nan
  | _, some digits => .finite (digits.foldl (fun value digit => value * radix + digit) 0)
  | _, none => .nan

/-- The white space and line terminators that `Number` strips. -/
def isStrWhiteSpace (c : Char) : Bool :=
  c.toNat ∈ [0x09, 0x0A, 0x0B, 0x0C, 0x0D, 0x20, 0xA0, 0x1680, 0x2028, 0x2029, 0x202F, 0x205F,
    0x3000, 0xFEFF] || (0x2000 ≤ c.toNat && c.toNat ≤ 0x200A)

/-- What a text denotes as a numeric literal, before it is rounded; the empty text is zero. -/
def ofLiteral (text : List Char) : JsNumber :=
  let trimmed := ((text.dropWhile isStrWhiteSpace).reverse.dropWhile isStrWhiteSpace).reverse
  match trimmed with
  | [] => .finite 0
  | '0' :: 'x' :: rest | '0' :: 'X' :: rest => ofRadix 16 rest
  | '0' :: 'o' :: rest | '0' :: 'O' :: rest => ofRadix 8 rest
  | '0' :: 'b' :: rest | '0' :: 'B' :: rest => ofRadix 2 rest
  | '+' :: rest => ofUnsignedDecimal rest
  | '-' :: rest => neg (ofUnsignedDecimal rest)
  | rest => ofUnsignedDecimal rest

/-! ## Decimal texts denote their numbers -/

theorem not_isStrWhiteSpace_of_isDigit {c : Char} (h : c.isDigit = true) :
    isStrWhiteSpace c = false := by
  have hrange := Char.isDigit_iff_toNat.mp h
  have hzero : '0'.toNat = 48 := rfl
  have hnine : '9'.toNat = 57 := rfl
  rw [hzero, hnine] at hrange
  simp only [isStrWhiteSpace, Bool.or_eq_false_iff, decide_eq_false_iff_not, Bool.and_eq_false_iff,
    List.mem_cons, List.not_mem_nil, or_false]
  omega

private theorem dropWhile_eq_self {text : List Char} (h : ∀ c ∈ text, c.isDigit = true) :
    text.dropWhile isStrWhiteSpace = text := by
  cases text with
  | nil => rfl
  | cons c rest =>
      rw [List.dropWhile_cons, not_isStrWhiteSpace_of_isDigit (h c List.mem_cons_self)]
      rfl

/-- A nonempty text of digits is read as the number they denote. -/
theorem ofLiteral_of_digits {text : List Char} (hne : text ≠ [])
    (hdigits : ∀ c ∈ text, c.isDigit = true) :
    ofLiteral text = .finite (ofDecimalDigits text) := by
  have htrim : ((text.dropWhile isStrWhiteSpace).reverse.dropWhile isStrWhiteSpace).reverse =
      text := by
    rw [dropWhile_eq_self hdigits, dropWhile_eq_self (by simpa using hdigits), List.reverse_reverse]
  have hspan : spanDigits text = (text, []) := by
    simp only [spanDigits, Prod.mk.injEq, List.takeWhile_eq_self_iff, List.dropWhile_eq_nil_iff]
    exact ⟨hdigits, hdigits⟩
  have hunsigned : ofUnsignedDecimal text = .finite (ofDecimalDigits text) := by
    have hword : text ≠ ['I', 'n', 'f', 'i', 'n', 'i', 't', 'y'] := by
      rintro rfl
      exact absurd (hdigits 'I' (by simp)) (by decide)
    simp [ofUnsignedDecimal, hword, hspan, hne, exponent?]
  unfold ofLiteral
  simp only [htrim]
  split
  · exact absurd rfl hne
  · exact absurd (hdigits 'x' (by simp)) (by decide)
  · exact absurd (hdigits 'X' (by simp)) (by decide)
  · exact absurd (hdigits 'o' (by simp)) (by decide)
  · exact absurd (hdigits 'O' (by simp)) (by decide)
  · exact absurd (hdigits 'b' (by simp)) (by decide)
  · exact absurd (hdigits 'B' (by simp)) (by decide)
  · exact absurd (hdigits '+' (by simp)) (by decide)
  · exact absurd (hdigits '-' (by simp)) (by decide)
  · exact hunsigned

/-- The decimal text of a natural number is read back as that number. -/
theorem ofLiteral_toDigits (n : ℕ) : ofLiteral (Nat.toDigits 10 n) = .finite n := by
  rw [ofLiteral_of_digits Nat.toDigits_ne_nil fun c hc =>
    Nat.isDigit_of_mem_toDigits (by norm_num) (by norm_num) hc, ofDecimalDigits,
    Nat.ofDigitChars_ten_toDigits]

end JsNumber

end WithdrawalsApi.Js
