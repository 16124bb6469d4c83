/-
# Texts of numbers, property names and joined fields

A JavaScript number is turned into text wherever it is joined with other texts
or names a property, and `Number` and `BigNumber.from` read texts back. The text of
a number has as few digits as it needs to be read back; a number that is no integer
has no text here, since nothing the service stores or names is one.

A text of fields joined by a separator determines the fields when none of them
contains the separator, and a truncated text still determines all of its fields
but the last.
-/

import WithdrawalsApi.Js.Double
import WithdrawalsApi.Js.Record
import Mathlib.Data.List.Induction

namespace WithdrawalsApi.Js

universe u

/-! ## Joined fields -/

section Joined

variable {α : Type u}

/-- A truncation ends in the part before the separator or behind it. -/
theorem prefix_append_cons_iff {text field rest : List α} {separator : α} :
    text <+: field ++ separator :: rest ↔
      text <+: field ∨ ∃ tail, tail <+: rest ∧ text = field ++ separator :: tail := by
  induction field generalizing text with
  | nil =>
      rw [List.nil_append, List.prefix_cons_iff, List.prefix_nil]
      refine or_congr Iff.rfl ⟨?_, ?_⟩
      · rintro ⟨tail, rfl, htail⟩
        exact ⟨tail, htail, rfl⟩
      · rintro ⟨tail, htail, rfl⟩
        exact ⟨tail, rfl, htail⟩
  | cons first field ih =>
      rw [List.cons_append, List.prefix_cons_iff, List.prefix_cons_iff]
      constructor
      · rintro (hnil | ⟨short, rfl, hshort⟩)
        · exact Or.inl (Or.inl hnil)
        · rcases ih.mp hshort with hfield | ⟨tail, htail, rfl⟩
          · exact Or.inl (Or.inr ⟨short, rfl, hfield⟩)
          · exact Or.inr ⟨tail, htail, rfl⟩
      · rintro ((hnil | ⟨short, rfl, hshort⟩) | ⟨tail, htail, rfl⟩)
        · exact Or.inl hnil
        · exact Or.inr ⟨short, rfl, ih.mpr (Or.inl hshort)⟩
        · exact Or.inr ⟨_, rfl, ih.mpr (Or.inr ⟨tail, htail, rfl⟩)⟩

variable [BEq α] [LawfulBEq α] {separator : α}

/-- A truncated text consists of the first fields and of a truncated field. -/
theorem splitOn_of_prefix_intercalate {fields : List (List α)} {text : List α}
    (hfields : ∀ field ∈ fields, separator ∉ field) (hne : fields ≠ [])
    (h : text <+: [separator].intercalate fields) :
    ∃ whole field rest last, fields = whole ++ field :: rest ∧ last <+: field ∧
      text.splitOn separator = whole ++ [last] := by
  induction fields generalizing text with
  | nil => exact absurd rfl hne
  | cons first fields ih =>
      have hshort {last : List α} (hlast : last <+: first) :
          last.splitOn separator = [last] :=
        List.splitOn_eq_singleton fun hmem =>
          hfields first List.mem_cons_self (hlast.subset hmem)
      by_cases hempty : fields = []
      · subst hempty
        have htext : text <+: first := by simpa using h
        exact ⟨[], first, [], text, rfl, htext, hshort htext⟩
      · rw [List.intercalate_cons_of_ne_nil hempty, List.append_assoc, List.singleton_append] at h
        rcases prefix_append_cons_iff.mp h with htext | ⟨tail, htail, rfl⟩
        · exact ⟨[], first, fields, text, rfl, htext, hshort htext⟩
        · obtain ⟨whole, field, rest, last, hwhole, hlast, hsplit⟩ :=
            ih (fun field hmem => hfields field (List.mem_cons_of_mem _ hmem)) hempty htail
          refine ⟨first :: whole, field, rest, last, by rw [hwhole, List.cons_append], hlast, ?_⟩
          rw [List.splitOn_append_cons_self_of_not_mem (hfields first List.mem_cons_self), hsplit,
            List.cons_append]

/-- Only the last of as many fields as were joined can be truncated. -/
theorem splitOn_of_prefix_of_length {fields : List (List α)} {text : List α}
    (hfields : ∀ field ∈ fields, separator ∉ field) (hne : fields ≠ [])
    (h : text <+: [separator].intercalate fields)
    (hlength : (text.splitOn separator).length = fields.length) :
    ∃ whole field last, fields = whole ++ [field] ∧ last <+: field ∧
      text.splitOn separator = whole ++ [last] := by
  obtain ⟨whole, field, rest, last, hwhole, hlast, hsplit⟩ :=
    splitOn_of_prefix_intercalate hfields hne h
  have hrest : rest = [] := by
    rw [hsplit, hwhole] at hlength
    simpa using hlength
  subst hrest
  exact ⟨whole, field, last, hwhole, hlast, hsplit⟩

end Joined

/-! ## Texts of integers -/

/-- The decimal text of an integer. -/
def integerText : ℤ → List Char
  | .ofNat n => Nat.toDigits 10 n
  | .negSucc n => '-' :: Nat.toDigits 10 (n + 1)

private theorem isDigit_of_mem_decimal {n : ℕ} {c : Char} (h : c ∈ Nat.toDigits 10 n) :
    c.isDigit = true :=
  Nat.isDigit_of_mem_toDigits (by norm_num) (by norm_num) h

theorem mem_integerText {n : ℤ} {c : Char} (h : c ∈ integerText n) :
    c = '-' ∨ c.isDigit = true := by
  cases n with
  | ofNat n => exact Or.inr (isDigit_of_mem_decimal h)
  | negSucc n =>
      rcases List.mem_cons.mp h with hsign | hdigit
      · exact Or.inl hsign
      · exact Or.inr (isDigit_of_mem_decimal hdigit)

theorem not_mem_integerText {c : Char} (hsign : c ≠ '-') (hdigit : c.isDigit = false) (n : ℤ) :
    c ∉ integerText n := by
  intro hmem
  rcases mem_integerText hmem with hminus | hdecimal
  · exact hsign hminus
  · rw [hdigit] at hdecimal
    cases hdecimal

/-- The value of a nonempty text of decimal digits. -/
def digitsValue? (text : List Char) : Option ℕ :=
  if text ≠ [] ∧ text.all Char.isDigit then some (JsNumber.ofDecimalDigits text) else none

theorem digitsValue?_toDigits (n : ℕ) : digitsValue? (Nat.toDigits 10 n) = some n := by
  have hall : (Nat.toDigits 10 n).all Char.isDigit = true :=
    List.all_eq_true.mpr fun c hc => isDigit_of_mem_decimal hc
  rw [digitsValue?, if_pos ⟨Nat.toDigits_ne_nil, hall⟩, JsNumber.ofDecimalDigits,
    Nat.ofDigitChars_ten_toDigits]

/-- The integer a decimal text denotes, with an optional sign. -/
def decimalValue? : List Char → Option ℤ
  | '-' :: digits => (digitsValue? digits).map fun n => -(n : ℤ)
  | digits => (digitsValue? digits).map fun n => (n : ℤ)

theorem decimalValue?_integerText (n : ℤ) : decimalValue? (integerText n) = some n := by
  cases n with
  | ofNat n =>
      have hsign : ∀ digits, Nat.toDigits 10 n ≠ '-' :: digits := by
        intro digits heq
        have hmem : '-' ∈ Nat.toDigits 10 n := heq ▸ List.mem_cons_self
        exact absurd (isDigit_of_mem_decimal hmem) (by decide)
      rw [integerText, decimalValue?, digitsValue?_toDigits]
      · rfl
      · exact hsign
  | negSucc n =>
      rw [integerText, decimalValue?, digitsValue?_toDigits, Int.negSucc_eq]
      rfl

/-- `BigNumber.from` on a text: decimal, or hexadecimal with a prefix in either case. The
object that is made of a prefix in upper case is malformed; its value here is the one that
its digits denote. -/
def bigNumberOfText (text : List Char) : Option ℤ :=
  match text with
  | '0' :: 'x' :: digits | '0' :: 'X' :: digits => hexadecimal digits
  | '-' :: '0' :: 'x' :: digits | '-' :: '0' :: 'X' :: digits =>
      (hexadecimal digits).map fun n => -n
  | _ => decimalValue? text
where
  hexadecimal (digits : List Char) : Option ℤ :=
    match JsNumber.ofRadix 16 digits with
    | .finite value => some ⌊value⌋
    | _ => none

/-- The prefix of a hexadecimal text is in upper case. -/
def hasUpperCasePrefix : List Char → Bool
  | '0' :: 'X' :: _ => true
  | '-' :: '0' :: 'X' :: _ => true
  | _ => false

/-- Without the letter of a prefix a text is decimal. -/
private theorem bigNumberOfText_eq_decimalValue? {text : List Char} (hlower : 'x' ∉ text)
    (hupper : 'X' ∉ text) : bigNumberOfText text = decimalValue? text := by
  unfold bigNumberOfText
  split
  · exact absurd (by simp) hlower
  · exact absurd (by simp) hupper
  · exact absurd (by simp) hlower
  · exact absurd (by simp) hupper
  · rfl

theorem bigNumberOfText_integerText (n : ℤ) : bigNumberOfText (integerText n) = some n := by
  have hlower : 'x' ∉ integerText n := not_mem_integerText (by decide) (by decide) n
  have hupper : 'X' ∉ integerText n := not_mem_integerText (by decide) (by decide) n
  rw [bigNumberOfText_eq_decimalValue? hlower hupper, decimalValue?_integerText]

/-- A nonempty text of digits is a decimal number. -/
theorem bigNumberOfText_of_digits {text : List Char} (hne : text ≠ [])
    (hdigits : ∀ c ∈ text, c.isDigit = true) :
    bigNumberOfText text = some (JsNumber.ofDecimalDigits text : ℤ) := by
  have hvalue : digitsValue? text = some (JsNumber.ofDecimalDigits text) :=
    if_pos ⟨hne, List.all_eq_true.mpr hdigits⟩
  have hsign : ∀ digits, text ≠ '-' :: digits := by
    intro digits heq
    exact absurd (hdigits '-' (heq ▸ List.mem_cons_self)) (by decide)
  have hlower : 'x' ∉ text := fun hmem => absurd (hdigits 'x' hmem) (by decide)
  have hupper : 'X' ∉ text := fun hmem => absurd (hdigits 'X' hmem) (by decide)
  rw [bigNumberOfText_eq_decimalValue? hlower hupper, decimalValue?, hvalue]
  · rfl
  · exact hsign

/-! ## Joined numbers -/

/-- The number that naturals denote when their texts are joined. -/
def joinedValue (numbers : List ℕ) : ℕ :=
  JsNumber.ofDecimalDigits (numbers.flatMap (Nat.toDigits 10))

/-- A number that is joined moves the ones before it to the left. -/
theorem joinedValue_append_singleton (numbers : List ℕ) (number : ℕ) :
    joinedValue (numbers ++ [number]) =
      joinedValue numbers * 10 ^ (Nat.toDigits 10 number).length + number := by
  rw [joinedValue, JsNumber.ofDecimalDigits, List.flatMap_append, Nat.ofDigitChars_append,
    Nat.ofDigitChars_eq_ofDigitChars_zero, List.flatMap_singleton, Nat.ofDigitChars_ten_toDigits,
    Nat.mul_comm]
  rfl

theorem joinedValue_eq_zero_iff {numbers : List ℕ} :
    joinedValue numbers = 0 ↔ ∀ number ∈ numbers, number = 0 := by
  induction numbers using List.reverseRecOn with
  | nil => exact iff_of_true rfl (by simp)
  | append_singleton numbers number ih =>
      rw [joinedValue_append_singleton]
      simp [ih, or_imp, forall_and]

/-- Joined numbers are at least their sum. -/
theorem sum_le_joinedValue (numbers : List ℕ) : numbers.sum ≤ joinedValue numbers := by
  induction numbers using List.reverseRecOn with
  | nil => exact Nat.zero_le _
  | append_singleton numbers number ih =>
      rw [joinedValue_append_singleton, List.sum_append, List.sum_singleton]
      apply Nat.add_le_add_right
      exact ih.trans (Nat.le_mul_of_pos_right _ (Nat.pow_pos (by decide)))

/-- Joined numbers are their sum exactly when nothing is moved: all numbers but the last
are zero. -/
theorem joinedValue_eq_sum_iff (numbers : List ℕ) :
    joinedValue numbers = numbers.sum ↔ ∀ number ∈ numbers.dropLast, number = 0 := by
  induction numbers using List.reverseRecOn with
  | nil => exact iff_of_true rfl (by simp)
  | append_singleton numbers number ih =>
      rw [joinedValue_append_singleton, List.sum_append, List.sum_singleton,
        Nat.add_right_cancel_iff, List.dropLast_concat, ← joinedValue_eq_zero_iff]
      have hle := sum_le_joinedValue numbers
      have hdigits : (Nat.toDigits 10 number).length ≠ 0 :=
        mt List.length_eq_zero_iff.mp Nat.toDigits_ne_nil
      constructor
      · intro h
        by_contra hne
        have hmoved := Nat.mul_lt_mul_of_pos_left (Nat.one_lt_pow hdigits (by decide : 1 < 10))
          (Nat.pos_of_ne_zero hne)
        omega
      · intro h
        rw [h] at hle ⊢
        omega

/-! ## Texts of numbers -/

/-- The multiple of `10 ^ zeros` that is read as a natural number, if there is one. Of two
the nearer one is taken, or else the one with the even digits. -/
def roundMultiple? (value zeros : ℕ) : Option ℕ :=
  let lower := value / 10 ^ zeros * 10 ^ zeros
  let upper := lower + 10 ^ zeros
  let nearLower := value - lower < upper - value ∨
    value - lower = upper - value ∧ value / 10 ^ zeros % 2 = 0
  (if nearLower then [lower, upper] else [upper, lower]).find? fun candidate =>
    decide (JsNumber.rounded (.finite candidate) = .finite value)

/-- The natural number whose digits are written for a number below `10 ^ 21`: with as many
zeros at its end as possible, among those that are read as the number. Up to `2 ^ 53` each
natural number is read as itself only. -/
def shortest? (value : ℕ) : Option ℕ :=
  if value ≤ 2 ^ 53 then some value
  else (List.range 21).reverse.findSome? (roundMultiple? value)

theorem rounded_of_shortest?_eq_some {value written : ℕ} (h : shortest? value = some written) :
    JsNumber.rounded (.finite written) = .finite value := by
  rw [shortest?] at h
  split at h
  case isTrue hsmall =>
    cases h
    exact JsNumber.rounded_natCast hsmall
  case isFalse =>
    obtain ⟨zeros, -, hwritten⟩ := List.exists_of_findSome?_eq_some h
    have hread := List.find?_some hwritten
    exact of_decide_eq_true hread

theorem shortest?_of_le {value : ℕ} (h : value ≤ 2 ^ 53) : shortest? value = some value :=
  if_pos h

/-- `String(number)`. Integers from `10 ^ 21` on are written with an exponent
and other numbers with a fraction; neither is modelled. -/
def JsNumber.text? : JsNumber → Option (List Char)
  | .finite value =>
      if value = ⌊value⌋ ∧ |⌊value⌋| < 10 ^ 21 then
        (shortest? ⌊value⌋.natAbs).map fun (written : ℕ) =>
          integerText (if 0 ≤ value then (written : ℤ) else -written)
      else none
  | .nan => some ['N', 'a', 'N']
  | .infinity false => some ['I', 'n', 'f', 'i', 'n', 'i', 't', 'y']
  | .infinity true => some ['-', 'I', 'n', 'f', 'i', 'n', 'i', 't', 'y']

/-- The text of a natural number has the digits of its shortest form. -/
theorem JsNumber.exists_of_text?_natCast {n : ℕ} {text : List Char}
    (h : text? (.finite n) = some text) :
    ∃ written, shortest? n = some written ∧ text = Nat.toDigits 10 written := by
  rw [text?] at h
  split at h
  · simp only [Int.floor_natCast, Int.natAbs_natCast, Nat.cast_nonneg, if_true] at h
    obtain ⟨written, hwritten, rfl⟩ := Option.map_eq_some_iff.mp h
    exact ⟨written, hwritten, rfl⟩
  · cases h

/-- A natural number is read back from its text. -/
theorem JsNumber.ofText_of_text?_natCast {n : ℕ} {text : List Char}
    (h : text? (.finite n) = some text) : ofText text = .finite n := by
  obtain ⟨written, hwritten, rfl⟩ := exists_of_text?_natCast h
  rw [ofText_toDigits, rounded_of_shortest?_eq_some hwritten]

theorem JsNumber.not_mem_text? {number : JsNumber} {text : List Char}
    (h : number.text? = some text) : '|' ∉ text := by
  intro hmem
  cases number with
  | finite value =>
      rw [text?] at h
      split at h
      · obtain ⟨written, -, rfl⟩ := Option.map_eq_some_iff.mp h
        exact not_mem_integerText (by decide) (by decide) _ hmem
      · cases h
  | nan =>
      cases h
      exact absurd hmem (by decide)
  | infinity negative =>
      cases negative <;> cases h <;> exact absurd hmem (by decide)

/-! ## Property names -/

namespace PropertyKey

/-- The text of a property name. -/
def text : PropertyKey → List Char
  | .integer value => integerText value
  | .name text => text

/-- The property a text names; only the canonical text of an integer names the
property of that integer. -/
def ofText (text : List Char) : PropertyKey :=
  match decimalValue? text with
  | some value => if integerText value = text then .integer value else .name text
  | none => .name text

@[simp]
theorem ofText_integerText (value : ℤ) : ofText (integerText value) = .integer value := by
  simp [ofText, decimalValue?_integerText]

end PropertyKey

end WithdrawalsApi.Js
