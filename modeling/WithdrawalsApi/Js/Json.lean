/-
# JSON texts

`JSON.parse` accepts any JSON text; the service writes only objects whose
members are texts. The reader below is the grammar of the standard with a bound
on the number of nested calls, and on what the writer produces it returns what
was written.

A text is a list of characters, so the two halves of a surrogate pair written as
separate escapes are not joined: each is read as a replacement character.
-/

import WithdrawalsApi.Js.Outcome
import WithdrawalsApi.Js.Text

namespace WithdrawalsApi.Js

/-- A JSON value; the members of an object are in the order of the text. -/
inductive JsonValue
  | null
  | bool (value : Bool)
  | number (value : JsNumber)
  | text (value : List Char)
  | array (items : List JsonValue)
  | object (members : List (List Char × JsonValue))

namespace Json

def quotationMark : Char := Char.ofNat 0x22

def reverseSolidus : Char := Char.ofNat 0x5C

/-! ## Writing -/

/-- A character of a quoted text. -/
def escapeChar (c : Char) : List Char :=
  if c = quotationMark ∨ c = reverseSolidus then [reverseSolidus, c]
  else
    match c.toNat with
    | 0x08 => [reverseSolidus, 'b']
    | 0x09 => [reverseSolidus, 't']
    | 0x0A => [reverseSolidus, 'n']
    | 0x0C => [reverseSolidus, 'f']
    | 0x0D => [reverseSolidus, 'r']
    | code =>
        if code < 0x20 then
          [reverseSolidus, 'u', '0', '0', Nat.digitChar (code / 16), Nat.digitChar (code % 16)]
        else [c]

/-- `JSON.stringify` of a text. -/
def quote (text : List Char) : List Char :=
  quotationMark :: (text.flatMap escapeChar ++ [quotationMark])

/-- The member of an object whose value is a text. -/
def textMember (member : List Char × List Char) : List Char :=
  quote member.1 ++ ':' :: quote member.2

/-- `JSON.stringify` of an object whose members are texts. -/
def stringifyTexts (members : List (List Char × List Char)) : List Char :=
  '{' :: ([','].intercalate (members.map textMember) ++ ['}'])

/-! ## Reading -/

def isWhiteSpace (c : Char) : Bool := c.toNat ∈ [0x20, 0x09, 0x0A, 0x0D]

def skipWhiteSpace (text : List Char) : List Char := text.dropWhile isWhiteSpace

/-- The character that a short escape denotes. -/
def shortEscape? (c : Char) : Option Char :=
  if c = quotationMark ∨ c = reverseSolidus ∨ c = '/' then some c
  else
    match c with
    | 'b' => some (Char.ofNat 0x08)
    | 't' => some (Char.ofNat 0x09)
    | 'n' => some (Char.ofNat 0x0A)
    | 'f' => some (Char.ofNat 0x0C)
    | 'r' => some (Char.ofNat 0x0D)
    | _ => none

/-- The character of a code unit. -/
def ofCodeUnit (code : ℕ) : Char :=
  if 0xD800 ≤ code ∧ code < 0xE000 then Char.ofNat 0xFFFD else Char.ofNat code

/-- The character that four hexadecimal digits denote. -/
def hexEscape? (digits : List Char) : Option Char :=
  (digits.mapM (JsNumber.radixDigit? 16)).map fun values =>
    ofCodeUnit (values.foldl (fun value digit => value * 16 + digit) 0)

/-- A quoted text behind its opening mark, and what follows it. -/
def parseText : List Char → Option (List Char × List Char)
  | [] => none
  | c :: rest =>
      if c = quotationMark then some ([], rest)
      else if c = reverseSolidus then
        match rest with
        | 'u' :: first :: second :: third :: fourth :: tail => do
            let char ← hexEscape? [first, second, third, fourth]
            let (text, after) ← parseText tail
            some (char :: text, after)
        | escape :: tail => do
            let char ← shortEscape? escape
            let (text, after) ← parseText tail
            some (char :: text, after)
        | [] => none
      else if c.toNat < 0x20 then none
      else do
        let (text, after) ← parseText rest
        some (c :: text, after)

/-- A quoted text and what follows it. -/
def parseQuoted : List Char → Option (List Char × List Char)
  | c :: rest => if c = quotationMark then parseText rest else none
  | [] => none

/-- The fraction of a number, with its point, and what follows it. -/
def parseFraction : List Char → Option (List Char × List Char)
  | '.' :: rest =>
      match JsNumber.spanDigits rest with
      | ([], _) => none
      | (digits, after) => some ('.' :: digits, after)
  | text => some ([], text)

/-- The exponent of a number, with its letter, and what follows it. -/
def parseExponent : List Char → Option (List Char × List Char)
  | c :: rest =>
      if c = 'e' ∨ c = 'E' then
        let (sign, unsigned) := match rest with
          | '+' :: tail => (['+'], tail)
          | '-' :: tail => (['-'], tail)
          | tail => ([], tail)
        match JsNumber.spanDigits unsigned with
        | ([], _) => none
        | (digits, after) => some (c :: (sign ++ digits), after)
      else some ([], c :: rest)
  | [] => some ([], [])

/-- A number and what follows it; a leading zero stands alone. -/
def parseNumber (text : List Char) : Option (JsNumber × List Char) := do
  let (sign, unsigned) := match text with
    | '-' :: rest => (['-'], rest)
    | rest => ([], rest)
  let (whole, afterWhole) := match unsigned with
    | '0' :: rest => (['0'], rest)
    | rest => JsNumber.spanDigits rest
  if whole = [] then none
  else do
    let (fraction, afterFraction) ← parseFraction afterWhole
    let (exponent, after) ← parseExponent afterFraction
    some (JsNumber.ofText (sign ++ whole ++ fraction ++ exponent), after)

mutual

/-- A value and what follows it; the bound is on nested calls. -/
def parseValue : ℕ → List Char → Option (JsonValue × List Char)
  | 0, _ => none
  | bound + 1, text =>
      match skipWhiteSpace text with
      | 'n' :: 'u' :: 'l' :: 'l' :: rest => some (.null, rest)
      | 't' :: 'r' :: 'u' :: 'e' :: rest => some (.bool true, rest)
      | 'f' :: 'a' :: 'l' :: 's' :: 'e' :: rest => some (.bool false, rest)
      | '[' :: rest =>
          match skipWhiteSpace rest with
          | ']' :: after => some (.array [], after)
          | _ => do
              let (items, after) ← parseItems bound rest
              some (.array items, after)
      | '{' :: rest =>
          match skipWhiteSpace rest with
          | '}' :: after => some (.object [], after)
          | _ => do
              let (members, after) ← parseMembers bound rest
              some (.object members, after)
      | c :: rest =>
          if c = quotationMark then do
            let (value, after) ← parseText rest
            some (.text value, after)
          else do
            let (value, after) ← parseNumber (c :: rest)
            some (.number value, after)
      | [] => none

/-- The items of an array up to its closing bracket. -/
def parseItems : ℕ → List Char → Option (List JsonValue × List Char)
  | 0, _ => none
  | bound + 1, text => do
      let (item, rest) ← parseValue bound text
      match skipWhiteSpace rest with
      | ',' :: tail => do
          let (items, after) ← parseItems bound tail
          some (item :: items, after)
      | ']' :: after => some ([item], after)
      | _ => none

/-- The members of an object up to its closing brace. -/
def parseMembers : ℕ → List Char → Option (List (List Char × JsonValue) × List Char)
  | 0, _ => none
  | bound + 1, text => do
      let (name, afterName) ← parseQuoted (skipWhiteSpace text)
      match skipWhiteSpace afterName with
      | ':' :: rest => do
          let (value, afterValue) ← parseValue bound rest
          match skipWhiteSpace afterValue with
          | ',' :: tail => do
              let (members, after) ← parseMembers bound tail
              some ((name, value) :: members, after)
          | '}' :: after => some ([(name, value)], after)
          | _ => none
      | _ => none

end

/-- `JSON.parse`; `none` is a `SyntaxError`. Two nested calls read at least one
character. -/
def parse (text : List Char) : Option JsonValue := do
  let (value, after) ← parseValue (2 * text.length + 2) text
  if skipWhiteSpace after = [] then some value else none

/-! ## What is written is read back -/

private theorem hexEscape?_of_lt {n : ℕ} (h : n < 0x20) :
    hexEscape? ['0', '0', Nat.digitChar (n / 16), Nat.digitChar (n % 16)] =
      some (Char.ofNat n) := by
  have hall : ∀ m < 0x20, hexEscape? ['0', '0', Nat.digitChar (m / 16), Nat.digitChar (m % 16)] =
      some (Char.ofNat m) := by decide
  exact hall n h

/-- A short escape is not the escape of a code unit. -/
private theorem parseText_shortEscape {escape c : Char} (rest : List Char)
    (hescape : shortEscape? escape = some c) (hne : escape ≠ 'u') :
    parseText (reverseSolidus :: escape :: rest) =
      (parseText rest).map fun read => (c :: read.1, read.2) := by
  have hmark : reverseSolidus ≠ quotationMark := by decide
  rw [parseText, if_neg hmark, if_pos rfl]
  · simp only [hescape, Option.bind_eq_bind, Option.bind_some]
    cases parseText rest <;> rfl
  · intro first second third fourth tail heq _
    exact hne heq

private theorem parseText_unescaped {c : Char} (rest : List Char) (hmark : c ≠ quotationMark)
    (hsolidus : c ≠ reverseSolidus) (hcontrol : ¬ c.toNat < 0x20) :
    parseText (c :: rest) = (parseText rest).map fun read => (c :: read.1, read.2) := by
  rw [parseText.eq_def]
  simp only [if_neg hmark, if_neg hsolidus, if_neg hcontrol, Option.bind_eq_bind]
  cases parseText rest <;> rfl

private theorem parseText_hexEscape {c : Char} (rest : List Char) (hcontrol : c.toNat < 0x20) :
    parseText ([reverseSolidus, 'u', '0', '0', Nat.digitChar (c.toNat / 16),
      Nat.digitChar (c.toNat % 16)] ++ rest) =
      (parseText rest).map fun read => (c :: read.1, read.2) := by
  have hmark : reverseSolidus ≠ quotationMark := by decide
  have hread : hexEscape? ['0', '0', Nat.digitChar (c.toNat / 16), Nat.digitChar (c.toNat % 16)] =
      some c := by
    rw [hexEscape?_of_lt hcontrol, Char.ofNat_toNat]
  simp only [List.cons_append, List.nil_append]
  rw [parseText, if_neg hmark, if_pos rfl]
  simp only [hread, Option.bind_eq_bind, Option.bind_some]
  cases parseText rest <;> rfl

theorem parseText_escapeChar (c : Char) (rest : List Char) :
    parseText (escapeChar c ++ rest) =
      (parseText rest).map fun read => (c :: read.1, read.2) := by
  have hcode {n : ℕ} (h : c.toNat = n) : Char.ofNat n = c := by
    rw [← h, Char.ofNat_toNat]
  unfold escapeChar
  split
  case isTrue hspecial =>
    apply parseText_shortEscape
    · rcases hspecial with rfl | rfl <;> decide
    · rcases hspecial with rfl | rfl <;> decide
  case isFalse hplain =>
    rw [not_or] at hplain
    split
    case h_1 h => exact parseText_shortEscape rest (by rw [← hcode h]; decide) (by decide)
    case h_2 h => exact parseText_shortEscape rest (by rw [← hcode h]; decide) (by decide)
    case h_3 h => exact parseText_shortEscape rest (by rw [← hcode h]; decide) (by decide)
    case h_4 h => exact parseText_shortEscape rest (by rw [← hcode h]; decide) (by decide)
    case h_5 h => exact parseText_shortEscape rest (by rw [← hcode h]; decide) (by decide)
    case h_6 code _ _ _ _ _ =>
      split
      case isTrue hcontrol => exact parseText_hexEscape rest hcontrol
      case isFalse hcontrol => exact parseText_unescaped rest hplain.1 hplain.2 hcontrol

/-- A quoted text is read back up to its closing mark. -/
theorem parseQuoted_quote (text rest : List Char) :
    parseQuoted (quote text ++ rest) = some (text, rest) := by
  rw [quote, List.cons_append, List.append_assoc, List.singleton_append, parseQuoted, if_pos rfl]
  induction text with
  | nil =>
      rw [List.flatMap_nil, List.nil_append, parseText.eq_def]
      exact if_pos rfl
  | cons c text ih =>
      rw [List.flatMap_cons, List.append_assoc, parseText_escapeChar, ih]
      rfl

theorem skipWhiteSpace_cons {c : Char} (rest : List Char) (h : isWhiteSpace c = false) :
    skipWhiteSpace (c :: rest) = c :: rest := by
  rw [skipWhiteSpace, List.dropWhile_cons, h]
  rfl

theorem parseValue_quote (bound : ℕ) (text rest : List Char) :
    parseValue (bound + 1) (quote text ++ rest) = some (.text text, rest) := by
  have hquoted := parseQuoted_quote text rest
  rw [quote, List.cons_append] at hquoted ⊢
  rw [parseQuoted, if_pos rfl] at hquoted
  rw [parseValue, skipWhiteSpace_cons _ (by decide)]
  split
  case h_1 heq => exact absurd (List.cons.inj heq).1 (by decide)
  case h_2 heq => exact absurd (List.cons.inj heq).1 (by decide)
  case h_3 heq => exact absurd (List.cons.inj heq).1 (by decide)
  case h_4 heq => exact absurd (List.cons.inj heq).1 (by decide)
  case h_5 heq => exact absurd (List.cons.inj heq).1 (by decide)
  case h_6 heq =>
    obtain ⟨rfl, rfl⟩ := List.cons.inj heq
    rw [if_pos rfl, hquoted]
    rfl
  case h_7 heq => cases heq

theorem parseMembers_textMembers {members : List (List Char × List Char)} (hne : members ≠ [])
    {bound : ℕ} (hbound : members.length < bound) (rest : List Char) :
    parseMembers bound ([','].intercalate (members.map textMember) ++ '}' :: rest) =
      some (members.map fun member => (member.1, .text member.2), rest) := by
  induction members generalizing bound with
  | nil => exact absurd rfl hne
  | cons member members ih =>
      obtain ⟨bound, rfl⟩ : ∃ smaller, bound = smaller + 1 := ⟨bound - 1, by omega⟩
      obtain ⟨smaller, rfl⟩ : ∃ smaller, bound = smaller + 1 :=
        ⟨bound - 1, by simp only [List.length_cons] at hbound; omega⟩
      -- the name, the colon and the value are read whatever follows them
      have hmember (tail : List Char) :
          parseMembers (smaller + 1 + 1) (textMember member ++ tail) =
            match skipWhiteSpace tail with
            | ',' :: tail => do
                let (members, after) ← parseMembers (smaller + 1) tail
                some ((member.1, .text member.2) :: members, after)
            | '}' :: after => some ([(member.1, .text member.2)], after)
            | _ => none := by
        have hquote : skipWhiteSpace (textMember member ++ tail) = textMember member ++ tail :=
          skipWhiteSpace_cons _ (by decide)
        rw [parseMembers, hquote, textMember, List.append_assoc, parseQuoted_quote,
          List.cons_append]
        simp only [Option.bind_eq_bind, Option.bind_some]
        rw [skipWhiteSpace_cons _ (by decide)]
        simp only [parseValue_quote, Option.bind_some]
      by_cases hempty : members = []
      · subst hempty
        simp only [List.map_cons, List.map_nil, List.intercalate_singleton]
        rw [hmember, skipWhiteSpace_cons _ (by decide)]
        rfl
      · have hmap : members.map textMember ≠ [] := by simpa using hempty
        have hrest : members.length < smaller + 1 := by
          rw [List.length_cons] at hbound
          exact Nat.lt_of_succ_lt_succ hbound
        rw [List.map_cons, List.intercalate_cons_of_ne_nil hmap, List.append_assoc,
          List.append_assoc, hmember, List.singleton_append, skipWhiteSpace_cons _ (by decide)]
        simp only [ih hempty hrest, Option.bind_eq_bind, Option.bind_some]
        rfl

private theorem length_le_length_intercalate (members : List (List Char × List Char)) :
    members.length ≤ ([','].intercalate (members.map textMember)).length := by
  induction members with
  | nil => exact Nat.zero_le _
  | cons member members ih =>
      have hmember : 1 ≤ (textMember member).length := by simp [textMember, quote]
      by_cases hempty : members = []
      · subst hempty
        simpa using hmember
      · have hmap : members.map textMember ≠ [] := by simpa using hempty
        rw [List.map_cons, List.intercalate_cons_of_ne_nil hmap]
        simp only [List.length_cons, List.length_append]
        omega

/-- The text of members starts with the quotation mark of the first name. -/
theorem exists_intercalate_textMember_eq {members : List (List Char × List Char)}
    (hne : members ≠ []) :
    ∃ body, [','].intercalate (members.map textMember) ++ ['}'] = quotationMark :: body := by
  cases members with
  | nil => exact absurd rfl hne
  | cons member members =>
      cases members with
      | nil => exact ⟨_, rfl⟩
      | cons second members =>
          rw [List.map_cons, List.map_cons, List.intercalate_cons_cons]
          exact ⟨_, rfl⟩

/-- An object of texts is read back as it was written. -/
theorem parse_stringifyTexts (members : List (List Char × List Char)) :
    parse (stringifyTexts members) =
      some (.object (members.map fun member => (member.1, .text member.2))) := by
  have hvalue : parseValue (2 * (stringifyTexts members).length + 2) (stringifyTexts members) =
      some (.object (members.map fun member => (member.1, .text member.2)), []) := by
    have hbound : members.length < 2 * (stringifyTexts members).length + 1 := by
      have := length_le_length_intercalate members
      simp only [stringifyTexts, List.length_cons, List.length_append]
      omega
    rw [parseValue]
    have hbrace : skipWhiteSpace (stringifyTexts members) = stringifyTexts members :=
      skipWhiteSpace_cons _ (by decide)
    rw [hbrace, stringifyTexts]
    by_cases hempty : members = []
    · subst hempty
      rfl
    · have hread := parseMembers_textMembers hempty hbound []
      rw [stringifyTexts] at hread
      obtain ⟨body, hbody⟩ := exists_intercalate_textMember_eq hempty
      rw [hbody] at hread ⊢
      simp only [hread, Option.bind_eq_bind, Option.bind_some]
      rw [skipWhiteSpace_cons _ (by decide)]
      split
      · next heq => exact absurd (List.cons.inj heq).1 (by decide)
      · rfl
  rw [parse, hvalue]
  rfl

end Json

/-! ## Values as objects and as numbers -/

namespace JsonValue

/-- The properties that `Object.keys` lists, with their values; a later member
of the same name overwrites an earlier one, and `null` has no properties to
list. -/
def properties? : JsonValue → Option (Record JsonValue)
  | .object members => some (Record.ofEntries (members.map fun member =>
      (PropertyKey.ofText member.1, member.2)))
  | .array items => some (Record.ofEntries (items.zipIdx.map fun item =>
      (PropertyKey.integer item.2, item.1)))
  | .text value => some (Record.ofEntries (value.zipIdx.map fun c =>
      (PropertyKey.integer c.2, .text [c.1])))
  | .number _ => some Record.empty
  | .bool _ => some Record.empty
  | .null => none

/-- A byte of an array of bytes. -/
def byte? : JsonValue → Option ℕ
  | .number value => value.natural?.filter fun n => decide (n < 256)
  | _ => none

/-- `BigNumber.from`: a text, a whole number in the safe range or an array of
bytes. The objects of older serialisations are not modelled. -/
def toBigNumber? : JsonValue → Option ℤ
  | .text value => bigNumberOfText value
  | .number (.finite value) =>
      if value = ⌊value⌋ ∧ |⌊value⌋| < maxSafeInteger then some ⌊value⌋ else none
  | .array items =>
      if items.isEmpty then none
      else (items.mapM byte?).map fun bytes =>
        bytes.foldl (fun value byte => value * 256 + (byte : ℤ)) 0
  | _ => none

end JsonValue

end WithdrawalsApi.Js
