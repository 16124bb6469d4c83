/-
# The rows of a table

The frame balances are read row by row, and the name of each row is read with
`BigNumber.from`. The name need not be the decimal text of an integer: other decimal
and hexadecimal texts are read as well, and two names may be read as one number. A
name that is no number makes the reading throw.
-/

import WithdrawalsApi.Js.Text

namespace WithdrawalsApi.Js

universe u

/-- What `BigNumber.from` makes of a property name. A prefix in upper case is accepted, but
arithmetic on the object that comes of it throws. -/
def PropertyKey.number? : PropertyKey → Option ℤ
  | .integer value => some value
  | .name text => if hasUpperCasePrefix text then none else bigNumberOfText text

@[simp]
theorem PropertyKey.number?_integer (value : ℤ) : (integer value).number? = some value := rfl

namespace Record

variable {ν : Type u}

/-- The properties whose names are numbers. -/
def integerRows (entries : List (PropertyKey × ν)) : List (ℤ × ν) :=
  entries.filterMap fun entry => entry.1.number?.map fun position => (position, entry.2)

@[simp]
theorem integerRows_nil : integerRows ([] : List (PropertyKey × ν)) = [] := rfl

theorem integerRows_cons {key : PropertyKey} {position : ℤ} (h : key.number? = some position)
    (value : ν) (rest : List (PropertyKey × ν)) :
    integerRows ((key, value) :: rest) = (position, value) :: integerRows rest := by
  simp [integerRows, h]

@[simp]
theorem integerRows_integer (position : ℤ) (value : ν) (rest : List (PropertyKey × ν)) :
    integerRows ((.integer position, value) :: rest) = (position, value) :: integerRows rest :=
  integerRows_cons rfl value rest

theorem mem_integerRows {entries : List (PropertyKey × ν)} {position : ℤ} {value : ν} :
    (position, value) ∈ integerRows entries ↔
      ∃ key, PropertyKey.number? key = some position ∧ (key, value) ∈ entries := by
  rw [integerRows, List.mem_filterMap]
  constructor
  · rintro ⟨⟨key, other⟩, hmem, hrow⟩
    obtain ⟨number, hnumber, heq⟩ := Option.map_eq_some_iff.mp hrow
    cases heq
    exact ⟨key, hnumber, hmem⟩
  · rintro ⟨key, hnumber, hmem⟩
    exact ⟨(key, value), hmem, by rw [hnumber, Option.map_some]⟩

/-- The numbered properties with their values, in the order of `Object.keys`. -/
def rows (record : Record ν) : List (ℤ × ν) := integerRows record.objectEntries

theorem mem_rows {record : Record ν} {position : ℤ} {value : ν} :
    (position, value) ∈ record.rows ↔
      ∃ key, PropertyKey.number? key = some position ∧ (key, value) ∈ record.entries := by
  simp only [rows, mem_integerRows, record.objectEntries_perm.mem_iff]

/-- Where all names are integers, the rows are the properties. -/
theorem mem_rows_of_integers {record : Record ν}
    (h : ∀ entry ∈ record.entries, ∃ n : ℤ, entry.1 = .integer n) {position : ℤ} {value : ν} :
    (position, value) ∈ record.rows ↔
      (PropertyKey.integer position, value) ∈ record.entries := by
  rw [mem_rows]
  constructor
  · rintro ⟨key, hnumber, hmem⟩
    obtain ⟨n, rfl⟩ := h _ hmem
    obtain rfl := Option.some.inj hnumber
    exact hmem
  · exact fun hmem => ⟨_, rfl, hmem⟩

/-- The loop over a table meets its keys in ascending order. -/
def ListedAscending (record : Record ν) : Prop :=
  record.rows.Pairwise fun first second => first.1 < second.1

instance (record : Record ν) : Decidable record.ListedAscending :=
  inferInstanceAs (Decidable (record.rows.Pairwise _))

/-- Every property name is an array index, as frame numbers are. -/
def ArrayIndexed (record : Record ν) : Prop :=
  ∀ entry ∈ record.entries, entry.1.arrayIndex?.isSome = true

instance (record : Record ν) : Decidable record.ArrayIndexed :=
  inferInstanceAs (Decidable (∀ entry ∈ record.entries, _))

namespace ArrayIndexed

variable {record : Record ν}

theorem exists_eq_integer (h : record.ArrayIndexed) :
    ∀ entry ∈ record.entries, ∃ n : ℤ, entry.1 = .integer n := by
  intro entry hmem
  obtain ⟨n, hn⟩ := Option.isSome_iff_exists.mp (h entry hmem)
  exact ⟨n, PropertyKey.eq_integer_of_arrayIndex? hn⟩

theorem eq_integer (h : record.ArrayIndexed) {entry : PropertyKey × ν}
    (hmem : entry ∈ record.objectEntries) :
    ∃ n : ℕ, entry.1.arrayIndex? = some n ∧ entry.1 = .integer n := by
  have hsome := h entry (record.objectEntries_perm.mem_iff.mp hmem)
  obtain ⟨n, hn⟩ := Option.isSome_iff_exists.mp hsome
  exact ⟨n, hn, PropertyKey.eq_integer_of_arrayIndex? hn⟩

/-- Nothing but the rows is iterated over. -/
theorem objectEntries_eq (h : record.ArrayIndexed) :
    record.objectEntries = record.rows.map fun row => (.integer row.1, row.2) := by
  have hall (entries : List (PropertyKey × ν))
      (hentries : ∀ entry ∈ entries, entry ∈ record.objectEntries) :
      entries = (integerRows entries).map fun row => (PropertyKey.integer row.1, row.2) := by
    induction entries with
    | nil => rfl
    | cons entry rest ih =>
        obtain ⟨key, value⟩ := entry
        obtain ⟨n, -, hkey⟩ := h.eq_integer (hentries (key, value) List.mem_cons_self)
        have hrest := ih fun other hother => hentries other (List.mem_cons_of_mem _ hother)
        simp only at hkey
        subst hkey
        simpa using hrest
  exact hall record.objectEntries fun _ hmem => hmem

/-- Only the array indices are sorted, and here they are all there is. -/
theorem objectEntries_eq_insertionSort (h : record.ArrayIndexed) :
    record.objectEntries =
      (record.entries.filter fun entry => entry.1.arrayIndex?.isSome).insertionSort
        (fun first second => first.1.arrayIndex?.getD 0 ≤ second.1.arrayIndex?.getD 0) := by
  have hnil : (record.entries.filter fun entry => !entry.1.arrayIndex?.isSome) = [] := by
    rw [List.filter_eq_nil_iff]
    intro entry hmem
    simp [h entry hmem]
  rw [objectEntries, hnil, List.append_nil]

/-- The array index of a row is its number. -/
theorem arrayIndex?_of_mem_rows (h : record.ArrayIndexed) {row : ℤ × ν}
    (hmem : row ∈ record.rows) : ((PropertyKey.integer row.1).arrayIndex?.getD 0 : ℤ) = row.1 := by
  have hentry : (PropertyKey.integer row.1, row.2) ∈ record.objectEntries := by
    rw [h.objectEntries_eq]
    exact List.mem_map.mpr ⟨row, hmem, rfl⟩
  obtain ⟨n, hn, hkey⟩ := h.eq_integer hentry
  have hvalue : row.1 = n := by simpa using hkey
  simp only at hn
  rw [hn, hvalue, Option.getD_some]

/-- `Object.keys` lists array indices in ascending order. -/
theorem rows_ascending (h : record.ArrayIndexed) : record.ListedAscending := by
  have hsorted : record.objectEntries.Pairwise fun first second =>
      first.1.arrayIndex?.getD 0 ≤ second.1.arrayIndex?.getD 0 := by
    rw [h.objectEntries_eq_insertionSort]
    exact List.pairwise_insertionSort _ _
  have hdistinct : record.objectEntries.Pairwise fun first second => first.1 ≠ second.1 :=
    List.pairwise_map.mp record.objectEntries_nodup
  have hboth := hsorted.and hdistinct
  rw [h.objectEntries_eq, List.pairwise_map] at hboth
  refine hboth.imp_of_mem ?_
  rintro first second hfirst hsecond ⟨hle, hne⟩
  have hle' : first.1 ≤ second.1 := by
    rw [← h.arrayIndex?_of_mem_rows hfirst, ← h.arrayIndex?_of_mem_rows hsecond]
    exact_mod_cast hle
  exact lt_of_le_of_ne hle' fun heq => hne (by rw [heq])

/-- Array indices are listed in the same order, whatever the order in which the
properties have been created. -/
theorem objectEntries_eq_of_get?_eq {second : Record ν} (h : record.ArrayIndexed)
    (hget : ∀ key, record.get? key = second.get? key) :
    record.objectEntries = second.objectEntries := by
  have hentries := perm_of_get?_eq hget
  have hsecond : second.ArrayIndexed := fun entry hmem => h entry (hentries.mem_iff.mpr hmem)
  have hlisted : record.objectEntries.Perm second.objectEntries :=
    record.objectEntries_perm.trans (hentries.trans second.objectEntries_perm.symm)
  have hrows : record.rows = second.rows := by
    apply (hlisted.filterMap _).eq_of_pairwise _ h.rows_ascending hsecond.rows_ascending
    intro first second _ _ hlt hgt
    exact absurd hlt hgt.asymm
  rw [h.objectEntries_eq, hsecond.objectEntries_eq, hrows]

end ArrayIndexed

end Record

end WithdrawalsApi.Js
