/-
# The order of decimal texts

`<` on two objects compares their texts, and texts are compared from the left. Two
decimal texts are therefore in the order of the numbers that they denote once the
shorter one has been filled up with zeros; where that makes them equal, the shorter
text comes first.
-/

import WithdrawalsApi.Js.Text

namespace WithdrawalsApi.Js

/-- A first digit counts as many times as there are texts of the digits behind it. -/
theorem ofDecimalDigits_cons (c : Char) (digits : List Char) :
    JsNumber.ofDecimalDigits (c :: digits) =
      (c.toNat - '0'.toNat) * 10 ^ digits.length + JsNumber.ofDecimalDigits digits := by
  rw [JsNumber.ofDecimalDigits, Nat.ofDigitChars_cons, Nat.ofDigitChars_eq_ofDigitChars_zero,
    Nat.mul_zero, Nat.zero_add, Nat.mul_comm]
  rfl

theorem digit_lt_ten {c : Char} (h : c.isDigit = true) : c.toNat - '0'.toNat < 10 := by
  have hrange := Char.isDigit_iff_toNat.mp h
  have hnine : '9'.toNat = 57 := rfl
  have hzero : '0'.toNat = 48 := rfl
  omega

/-- Digits are in the order of their values. -/
theorem digit_lt_digit_iff {c d : Char} (hc : c.isDigit = true) (hd : d.isDigit = true) :
    c < d ↔ c.toNat - '0'.toNat < d.toNat - '0'.toNat := by
  have hfirst := Char.isDigit_iff_toNat.mp hc
  have hsecond := Char.isDigit_iff_toNat.mp hd
  have hlt : c < d ↔ c.toNat < d.toNat := Iff.rfl
  rw [hlt]
  omega

theorem digit_eq_digit_iff {c d : Char} (hc : c.isDigit = true) (hd : d.isDigit = true) :
    c = d ↔ c.toNat - '0'.toNat = d.toNat - '0'.toNat := by
  have hfirst := Char.isDigit_iff_toNat.mp hc
  have hsecond := Char.isDigit_iff_toNat.mp hd
  rw [← Char.toNat_inj]
  omega

theorem ofDecimalDigits_lt {digits : List Char} (h : ∀ c ∈ digits, c.isDigit = true) :
    JsNumber.ofDecimalDigits digits < 10 ^ digits.length := by
  induction digits with
  | nil => exact Nat.one_pos
  | cons c digits ih =>
      have hrest := ih fun d hd => h d (List.mem_cons_of_mem _ hd)
      have hdigit := digit_lt_ten (h c List.mem_cons_self)
      calc
        JsNumber.ofDecimalDigits (c :: digits) =
            (c.toNat - '0'.toNat) * 10 ^ digits.length + JsNumber.ofDecimalDigits digits :=
          ofDecimalDigits_cons c digits
        _ < (c.toNat - '0'.toNat + 1) * 10 ^ digits.length := by
          rw [Nat.add_mul, Nat.one_mul]
          exact Nat.add_lt_add_left hrest _
        _ ≤ 10 * 10 ^ digits.length := Nat.mul_le_mul_right _ hdigit
        _ = 10 ^ (c :: digits).length := by rw [List.length_cons, Nat.pow_succ, Nat.mul_comm]

/-- Numbers below a unit are compared last. -/
private theorem lt_of_leading_iff (first second : ℕ) {unit restFirst restSecond : ℕ}
    (hfirst : restFirst < unit) (hsecond : restSecond < unit) :
    first * unit + restFirst < second * unit + restSecond ↔
      first < second ∨ first = second ∧ restFirst < restSecond := by
  rcases lt_trichotomy first second with hlt | rfl | hlt
  · have hle := Nat.mul_le_mul_right unit hlt
    rw [Nat.succ_mul] at hle
    exact iff_of_true (by omega) (Or.inl hlt)
  · simp
  · have hle := Nat.mul_le_mul_right unit hlt
    rw [Nat.succ_mul] at hle
    exact iff_of_false (by omega) (by omega)

/-- The value of digits, filled up with zeros to the length of other digits. -/
def filledUp (digits other : List Char) : ℕ :=
  JsNumber.ofDecimalDigits digits * 10 ^ (other.length - digits.length)

theorem filledUp_cons (c d : Char) (digits other : List Char) :
    filledUp (c :: digits) (d :: other) =
      (c.toNat - '0'.toNat) * 10 ^ max digits.length other.length + filledUp digits other := by
  have hlength : digits.length + (other.length - digits.length) =
      max digits.length other.length := by omega
  rw [filledUp, filledUp, ofDecimalDigits_cons, List.length_cons, List.length_cons,
    Nat.add_sub_add_right, Nat.add_mul, Nat.mul_assoc, ← Nat.pow_add, hlength]

theorem filledUp_lt {digits : List Char} (h : ∀ c ∈ digits, c.isDigit = true)
    (other : List Char) : filledUp digits other < 10 ^ max digits.length other.length := by
  have hlength : max digits.length other.length =
      digits.length + (other.length - digits.length) := by omega
  rw [hlength, Nat.pow_add]
  exact Nat.mul_lt_mul_of_pos_right (ofDecimalDigits_lt h) (Nat.pow_pos (by decide))

/-- **Texts of digits are compared as numbers that are filled up with zeros**, and of two
that are equal then the shorter one comes first. -/
theorem digits_lt_digits_iff {digits other : List Char}
    (hdigits : ∀ c ∈ digits, c.isDigit = true) (hother : ∀ c ∈ other, c.isDigit = true) :
    digits < other ↔
      filledUp digits other < filledUp other digits ∨
        filledUp digits other = filledUp other digits ∧ digits.length < other.length := by
  induction digits generalizing other with
  | nil =>
      cases other with
      | nil => exact iff_of_false (by decide) (by decide)
      | cons d other =>
          have hzero : filledUp [] (d :: other) = 0 := Nat.zero_mul _
          refine iff_of_true (List.nil_lt_cons d other) ?_
          rw [hzero]
          rcases Nat.eq_zero_or_pos (filledUp (d :: other) []) with hnone | hpos
          · exact Or.inr ⟨hnone.symm, Nat.succ_pos _⟩
          · exact Or.inl hpos
  | cons c digits ih =>
      cases other with
      | nil =>
          have hzero : filledUp [] (c :: digits) = 0 := Nat.zero_mul _
          refine iff_of_false (List.not_lt_nil _) ?_
          rw [hzero]
          simp
      | cons d other =>
          have hc := hdigits c List.mem_cons_self
          have hd := hother d List.mem_cons_self
          have hrest (e : Char) (he : e ∈ digits) := hdigits e (List.mem_cons_of_mem _ he)
          have horest (e : Char) (he : e ∈ other) := hother e (List.mem_cons_of_mem _ he)
          have hunit := filledUp_lt hrest other
          have hounit := filledUp_lt horest digits
          rw [max_comm] at hounit
          rw [List.cons_lt_cons_iff, ih hrest horest, digit_lt_digit_iff hc hd,
            digit_eq_digit_iff hc hd,
            filledUp_cons, filledUp_cons, max_comm other.length, List.length_cons,
            List.length_cons]
          -- neither is less exactly when first digits and rests are equal
          have hless := lt_of_leading_iff (c.toNat - '0'.toNat) (d.toNat - '0'.toNat) hunit hounit
          have hgreater :=
            lt_of_leading_iff (d.toNat - '0'.toNat) (c.toNat - '0'.toNat) hounit hunit
          omega

/-! ## Integers -/

/-- The text of a negative integer comes before every text of digits. -/
theorem not_toDigits_lt_integerText_of_neg (n : ℕ) {value : ℤ} (h : value < 0) :
    ¬ Nat.toDigits 10 n < integerText value := by
  cases value with
  | ofNat m => exact absurd h (not_lt.mpr (Int.natCast_nonneg m))
  | negSucc m =>
      cases hdigits : Nat.toDigits 10 n with
      | nil => exact absurd hdigits Nat.toDigits_ne_nil
      | cons c digits =>
          have hc : c.isDigit = true :=
            Nat.isDigit_of_mem_toDigits (by decide) (by decide) (hdigits ▸ List.mem_cons_self)
          have hrange := Char.isDigit_iff_toNat.mp hc
          have hzero : '0'.toNat = 48 := rfl
          rw [integerText, List.cons_lt_cons_iff]
          rintro (hlt | ⟨rfl, -⟩)
          · have hsign : c.toNat < 45 := hlt
            omega
          · exact absurd hc (by decide)

/-- The texts of natural numbers, in terms of the numbers. -/
theorem toDigits_lt_toDigits_iff (first second : ℕ) :
    Nat.toDigits 10 first < Nat.toDigits 10 second ↔
      let digits := (Nat.toDigits 10 first).length
      let other := (Nat.toDigits 10 second).length
      first * 10 ^ (other - digits) < second * 10 ^ (digits - other) ∨
        first * 10 ^ (other - digits) = second * 10 ^ (digits - other) ∧ digits < other := by
  have hvalue (n : ℕ) : JsNumber.ofDecimalDigits (Nat.toDigits 10 n) = n :=
    Nat.ofDigitChars_ten_toDigits
  have hdigits (n : ℕ) : ∀ c ∈ Nat.toDigits 10 n, c.isDigit = true := fun c hc =>
    Nat.isDigit_of_mem_toDigits (by decide) (by decide) hc
  rw [digits_lt_digits_iff (hdigits first) (hdigits second), filledUp, filledUp, hvalue, hvalue]

/-- A number with fewer digits is less. -/
theorem lt_of_length_toDigits_lt {first second : ℕ}
    (h : (Nat.toDigits 10 first).length < (Nat.toDigits 10 second).length) : first < second := by
  by_contra hle
  have hpow := (Nat.length_toDigits_le_iff (by decide) Nat.length_toDigits_pos).mp
    (le_refl (Nat.toDigits 10 first).length)
  have hsecond := (Nat.length_toDigits_le_iff (by decide) Nat.length_toDigits_pos).mpr
    ((not_lt.mp hle).trans_lt hpow)
  omega

/-- An integer is negative, or: with fewer digits than a bound it is at most the bound
when it is filled up with zeros, and with more digits it is at least the bound that is
filled up. -/
def DigitsAgree (bound value : ℤ) : Prop :=
  let missing := (integerText bound).length - (integerText value).length
  let extra := (integerText value).length - (integerText bound).length
  value < 0 ∨ (0 < missing → value * 10 ^ missing ≤ bound) ∧
    (0 < extra → bound * 10 ^ extra ≤ value)

instance (bound value : ℤ) : Decidable (DigitsAgree bound value) :=
  inferInstanceAs (Decidable (_ ∨ (_ → _) ∧ (_ → _)))

/-- The texts of natural numbers are in the order of the numbers exactly when their
digits agree. -/
private theorem toDigits_lt_iff_lt_iff (bound value : ℕ) :
    (Nat.toDigits 10 bound < Nat.toDigits 10 value ↔ bound < value) ↔
      DigitsAgree bound value := by
  have hbound : integerText bound = Nat.toDigits 10 bound := rfl
  have hvalue : integerText value = Nat.toDigits 10 value := rfl
  have hsign : ¬ (value : ℤ) < 0 := not_lt.mpr (Int.natCast_nonneg value)
  rw [toDigits_lt_toDigits_iff, DigitsAgree, hbound, hvalue]
  rcases lt_trichotomy (Nat.toDigits 10 bound).length (Nat.toDigits 10 value).length with
    hlength | hlength | hlength
  · have hlt := lt_of_length_toDigits_lt hlength
    have hmissing := Nat.sub_eq_zero_of_le hlength.le
    have hextra := Nat.sub_pos_of_lt hlength
    simp only [hmissing, hextra, hlength, hlt, hsign, Nat.pow_zero, Nat.mul_one, iff_true,
      and_true, false_or, lt_irrefl, false_imp_iff, true_and, true_imp_iff]
    rw [← le_iff_lt_or_eq]
    norm_cast
  · simp only [hlength, Nat.sub_self, Nat.pow_zero, Nat.mul_one, lt_irrefl, and_false, or_false,
      false_imp_iff, and_self, or_true]
  · have hle := not_lt.mpr (lt_of_length_toDigits_lt hlength).le
    have hextra := Nat.sub_eq_zero_of_le hlength.le
    have hmissing := Nat.sub_pos_of_lt hlength
    simp only [hmissing, hextra, hlength.not_gt, hle, hsign, Nat.pow_zero, Nat.mul_one, iff_false,
      and_false, or_false, false_or, lt_irrefl, false_imp_iff, and_true, true_imp_iff, not_lt]
    norm_cast

/-- **The texts of a natural number and an integer are in the order of the numbers
exactly when** their digits agree. -/
theorem integerText_lt_iff_lt_iff (bound : ℕ) (value : ℤ) :
    (integerText bound < integerText value ↔ (bound : ℤ) < value) ↔
      DigitsAgree bound value := by
  rcases lt_or_ge value 0 with hneg | hnonneg
  · have hbound : ¬ (bound : ℤ) < value := by omega
    refine iff_of_true (iff_of_false ?_ hbound) (Or.inl hneg)
    exact not_toDigits_lt_integerText_of_neg bound hneg
  · lift value to ℕ using hnonneg
    rw [← toDigits_lt_iff_lt_iff, Int.ofNat_lt]
    exact Iff.rfl

end WithdrawalsApi.Js
