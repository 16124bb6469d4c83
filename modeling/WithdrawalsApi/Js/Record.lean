/-
# JavaScript objects used as tables

The frame balances are a plain object keyed by frame number. What a loop over
`Object.keys` sees is fixed by the language: property names that are array
indices come first, in ascending order, and all other names follow in the order
in which they were created. A number that is not finite names a property too,
so a key is either the decimal text of an integer or some other text.
-/

import Mathlib.Data.List.Sort
import Mathlib.Tactic.Linarith

namespace WithdrawalsApi.Js

universe u

/-- A property name: the canonical decimal text of an integer, or other text. -/
inductive PropertyKey
  | integer (value : ℤ)
  | name (text : List Char)
  deriving DecidableEq, Repr

/-- The array index a property name denotes: an integer from `0` to `2 ^ 32 - 2`. -/
def PropertyKey.arrayIndex? : PropertyKey → Option ℕ
  | .integer (.ofNat n) => if n < 2 ^ 32 - 1 then some n else none
  | _ => none

theorem PropertyKey.eq_integer_of_arrayIndex? {key : PropertyKey} {n : ℕ}
    (h : key.arrayIndex? = some n) : key = .integer n := by
  unfold arrayIndex? at h
  split at h
  · split at h
    · cases h
      rfl
    · cases h
  · cases h

theorem PropertyKey.lt_of_arrayIndex? {key : PropertyKey} {n : ℕ}
    (h : key.arrayIndex? = some n) : n < 2 ^ 32 - 1 := by
  unfold arrayIndex? at h
  split at h
  · split at h
    case isTrue hlt =>
      cases h
      exact hlt
    case isFalse => cases h
  · cases h

/-- An object: its properties in the order of their creation. -/
structure Record (ν : Type u) where
  /-- Names and values, oldest first. -/
  entries : List (PropertyKey × ν)
  /-- A name occurs once. -/
  nodup : (entries.map Prod.fst).Nodup

namespace Record

variable {ν : Type u}

/-- The object literal `{}`. -/
def empty : Record ν where
  entries := []
  nodup := List.nodup_nil

/-- `record[key]`. -/
def get? (record : Record ν) (key : PropertyKey) : Option ν :=
  (record.entries.find? fun entry => decide (entry.1 = key)).map Prod.snd

/-- Overwrite a property in place, or create it last. -/
def setEntries (key : PropertyKey) (value : ν) :
    List (PropertyKey × ν) → List (PropertyKey × ν)
  | [] => [(key, value)]
  | entry :: rest =>
      if entry.1 = key then (key, value) :: rest else entry :: setEntries key value rest

theorem fst_mem_setEntries {key : PropertyKey} {value : ν} {entries : List (PropertyKey × ν)}
    {name : PropertyKey} (h : name ∈ (setEntries key value entries).map Prod.fst) :
    name = key ∨ name ∈ entries.map Prod.fst := by
  induction entries with
  | nil => simpa [setEntries] using h
  | cons entry rest ih =>
      by_cases heq : entry.1 = key
      · simp only [setEntries, if_pos heq, List.map_cons, List.mem_cons] at h
        exact h.imp_right fun hrest => List.mem_cons_of_mem _ hrest
      · simp only [setEntries, if_neg heq, List.map_cons, List.mem_cons] at h
        rcases h with h | h
        · exact Or.inr (h ▸ List.mem_cons_self)
        · exact (ih h).imp_right fun hrest => List.mem_cons_of_mem _ hrest

theorem nodup_setEntries (key : PropertyKey) (value : ν) {entries : List (PropertyKey × ν)}
    (h : (entries.map Prod.fst).Nodup) :
    ((setEntries key value entries).map Prod.fst).Nodup := by
  induction entries with
  | nil => simp [setEntries]
  | cons entry rest ih =>
      obtain ⟨hfresh, hrest⟩ := List.nodup_cons.mp h
      by_cases heq : entry.1 = key
      · simpa [setEntries, heq] using h
      · simp only [setEntries, if_neg heq, List.map_cons, List.nodup_cons]
        refine ⟨fun hmem => ?_, ih hrest⟩
        exact (fst_mem_setEntries hmem).elim heq hfresh

theorem setEntries_ne_nil (key : PropertyKey) (value : ν) (entries : List (PropertyKey × ν)) :
    setEntries key value entries ≠ [] := by
  cases entries with
  | nil => exact List.cons_ne_nil _ _
  | cons entry rest =>
      rw [setEntries]
      split <;> exact List.cons_ne_nil _ _

/-- `record[key] = value`. -/
def set (record : Record ν) (key : PropertyKey) (value : ν) : Record ν where
  entries := setEntries key value record.entries
  nodup := nodup_setEntries key value record.nodup

/-! ## Reading what has been assigned -/

theorem get?_set (record : Record ν) (key : PropertyKey) (value : ν) (name : PropertyKey) :
    (record.set key value).get? name = if key = name then some value else record.get? name := by
  simp only [get?, set]
  generalize record.entries = entries
  induction entries with
  | nil => by_cases hname : key = name <;> simp [setEntries, hname]
  | cons entry rest ih =>
      by_cases hkey : entry.1 = key
      · by_cases hname : key = name <;> simp [setEntries, hkey, hname]
      · rw [setEntries, if_neg hkey]
        by_cases hentry : entry.1 = name
        · have hname : key ≠ name := fun h => hkey (hentry.trans h.symm)
          simp [hentry, hname]
        · simpa [hentry] using ih

@[simp]
theorem get?_empty (name : PropertyKey) : (empty : Record ν).get? name = none := rfl

/-- A name is read as the value it is listed with. -/
theorem get?_eq_some_iff {record : Record ν} {key : PropertyKey} {value : ν} :
    record.get? key = some value ↔ (key, value) ∈ record.entries := by
  obtain ⟨entries, hnodup⟩ := record
  simp only [get?]
  induction entries with
  | nil => simp
  | cons entry rest ih =>
      obtain ⟨name, current⟩ := entry
      obtain ⟨hfresh, hrest⟩ := List.nodup_cons.mp hnodup
      by_cases hkey : name = key
      · subst hkey
        have hnot : (name, value) ∉ rest := fun hmem =>
          hfresh (List.mem_map.mpr ⟨_, hmem, rfl⟩)
        simp [hnot, eq_comm]
      · simpa [hkey, Ne.symm hkey] using ih hrest

/-- Objects that are read alike have the same properties. -/
theorem perm_of_get?_eq {first second : Record ν}
    (h : ∀ key, first.get? key = second.get? key) : first.entries.Perm second.entries := by
  rw [List.perm_ext_iff_of_nodup first.nodup.of_map second.nodup.of_map]
  intro entry
  rw [← get?_eq_some_iff, ← get?_eq_some_iff, h]

/-- An assignment changes the sum of the values by the new value less the one it
replaces. -/
theorem sum_values_set [AddCommMonoid ν] (record : Record ν) (key : PropertyKey) (value : ν) :
    ((record.set key value).entries.map Prod.snd).sum + (record.get? key).getD 0 =
      (record.entries.map Prod.snd).sum + value := by
  simp only [get?, set]
  generalize record.entries = entries
  induction entries with
  | nil => simp [setEntries]
  | cons entry rest ih =>
      by_cases hkey : entry.1 = key
      · have hfind : List.find? (fun entry => decide (entry.1 = key)) (entry :: rest) =
            some entry := List.find?_cons_of_pos (decide_eq_true hkey)
        rw [setEntries, if_pos hkey, hfind]
        simp only [List.map_cons, List.sum_cons, Option.map_some, Option.getD_some]
        rw [add_assoc, add_comm _ entry.2, add_comm value]
      · have hfind : List.find? (fun entry => decide (entry.1 = key)) (entry :: rest) =
            rest.find? fun entry => decide (entry.1 = key) :=
          List.find?_cons_of_neg fun h => hkey (of_decide_eq_true h)
        rw [setEntries, if_neg hkey, hfind]
        simp only [List.map_cons, List.sum_cons]
        rw [add_assoc, ih, add_assoc]

/-- The properties in the order of `Object.keys`. -/
def objectEntries (record : Record ν) : List (PropertyKey × ν) :=
  (record.entries.filter fun entry => entry.1.arrayIndex?.isSome).insertionSort
      (fun first second => first.1.arrayIndex?.getD 0 ≤ second.1.arrayIndex?.getD 0) ++
    record.entries.filter fun entry => !entry.1.arrayIndex?.isSome

theorem objectEntries_perm (record : Record ν) :
    record.objectEntries.Perm record.entries :=
  ((List.perm_insertionSort _ _).append_right _).trans (List.filter_append_perm _ _)

/-! ## Rebuilding an object -/

theorem setEntries_of_not_mem {key : PropertyKey} {value : ν} {entries : List (PropertyKey × ν)}
    (h : key ∉ entries.map Prod.fst) :
    setEntries key value entries = entries ++ [(key, value)] := by
  induction entries with
  | nil => rfl
  | cons entry rest ih =>
      rw [List.map_cons, List.mem_cons, not_or] at h
      rw [setEntries, if_neg (Ne.symm h.1), ih h.2, List.cons_append]

/-- The object with the given properties, assigned one after the other. -/
def ofEntries (entries : List (PropertyKey × ν)) : Record ν :=
  entries.foldl (fun record entry => record.set entry.1 entry.2) empty

/-- Assigning properties of distinct names creates them in order. -/
theorem entries_ofEntries {entries : List (PropertyKey × ν)}
    (h : (entries.map Prod.fst).Nodup) : (ofEntries entries).entries = entries := by
  have hfold (record : Record ν) (rest : List (PropertyKey × ν))
      (hnodup : (record.entries.map Prod.fst ++ rest.map Prod.fst).Nodup) :
      (rest.foldl (fun record entry => record.set entry.1 entry.2) record).entries =
        record.entries ++ rest := by
    induction rest generalizing record with
    | nil => rw [List.foldl_nil, List.append_nil]
    | cons entry rest ih =>
        have hfresh : entry.1 ∉ record.entries.map Prod.fst := by
          intro hmem
          exact (List.nodup_append.mp hnodup).2.2 _ hmem _ List.mem_cons_self rfl
        have hset : (record.set entry.1 entry.2).entries = record.entries ++ [entry] :=
          setEntries_of_not_mem hfresh
        rw [List.foldl_cons, ih, hset, List.append_assoc, List.singleton_append]
        rw [hset, List.map_append, List.append_assoc]
        exact hnodup
  exact hfold empty entries h

/-- The name whose assignment sets the prototype of an object. -/
def protoName : PropertyKey := .name ['_', '_', 'p', 'r', 'o', 't', 'o', '_', '_']

/-- The object that is built by copying it with one more property at a time: copying assigns
the properties, so the name of the prototype is lost. -/
def ofCopies (entries : List (PropertyKey × ν)) : Record ν :=
  ofEntries (entries.filter fun entry => decide (entry.1 ≠ protoName))

theorem ofCopies_of_ne {entries : List (PropertyKey × ν)}
    (h : ∀ entry ∈ entries, entry.1 ≠ protoName) : ofCopies entries = ofEntries entries := by
  rw [ofCopies, List.filter_eq_self.mpr fun entry hmem => decide_eq_true (h entry hmem)]

theorem objectEntries_nodup (record : Record ν) :
    (record.objectEntries.map Prod.fst).Nodup :=
  (record.objectEntries_perm.map Prod.fst).nodup_iff.mpr record.nodup

/-- The array indices come first. -/
private theorem filter_index_objectEntries (record : Record ν) :
    (record.objectEntries.filter fun entry => entry.1.arrayIndex?.isSome) =
      (record.entries.filter fun entry => entry.1.arrayIndex?.isSome).insertionSort
        (fun first second => first.1.arrayIndex?.getD 0 ≤ second.1.arrayIndex?.getD 0) := by
  have hnames : ((record.entries.filter fun entry => !entry.1.arrayIndex?.isSome).filter
      fun entry => entry.1.arrayIndex?.isSome) = [] := by
    rw [List.filter_eq_nil_iff]
    intro entry hmem
    simpa using (List.mem_filter.mp hmem).2
  rw [objectEntries, List.filter_append, hnames, List.append_nil, List.filter_eq_self]
  intro entry hmem
  exact (List.mem_filter.mp ((List.mem_insertionSort _).mp hmem)).2

private theorem filter_name_objectEntries (record : Record ν) :
    (record.objectEntries.filter fun entry => !entry.1.arrayIndex?.isSome) =
      record.entries.filter fun entry => !entry.1.arrayIndex?.isSome := by
  have hindices : (((record.entries.filter fun entry => entry.1.arrayIndex?.isSome).insertionSort
      fun first second => first.1.arrayIndex?.getD 0 ≤ second.1.arrayIndex?.getD 0).filter
        fun entry => !entry.1.arrayIndex?.isSome) = [] := by
    rw [List.filter_eq_nil_iff]
    intro entry hmem
    have hindex := (List.mem_filter.mp ((List.mem_insertionSort _).mp hmem)).2
    simp only [hindex, Bool.not_true, Bool.false_eq_true, not_false_eq_true]
  rw [objectEntries, List.filter_append, hindices, List.nil_append, List.filter_eq_self]
  intro entry hmem
  exact (List.mem_filter.mp hmem).2

/-- An object rebuilt from the listed properties of another, with new values,
lists its properties in the same order. -/
theorem objectEntries_ofEntries_map {μ : Type u} (record : Record ν) (f : PropertyKey × ν → μ) :
    (ofEntries (record.objectEntries.map fun entry => (entry.1, f entry))).objectEntries =
      record.objectEntries.map fun entry => (entry.1, f entry) := by
  have hnodup :
      ((record.objectEntries.map fun entry => (entry.1, f entry)).map Prod.fst).Nodup := by
    rw [List.map_map]
    exact record.objectEntries_nodup
  have hsorted (entries : List (PropertyKey × ν)) :
      ((entries.insertionSort fun first second =>
        first.1.arrayIndex?.getD 0 ≤ second.1.arrayIndex?.getD 0).map fun entry =>
          (entry.1, f entry)).Pairwise fun first second =>
            first.1.arrayIndex?.getD 0 ≤ second.1.arrayIndex?.getD 0 := by
    rw [List.pairwise_map]
    exact List.pairwise_insertionSort _ _
  rw [objectEntries, entries_ofEntries hnodup, List.filter_map, List.filter_map]
  change ((record.objectEntries.filter fun entry => entry.1.arrayIndex?.isSome).map _).insertionSort
      _ ++ (record.objectEntries.filter fun entry => !entry.1.arrayIndex?.isSome).map _ = _
  rw [filter_index_objectEntries, filter_name_objectEntries, (hsorted _).insertionSort_eq,
    ← List.map_append, ← objectEntries]

/-- An object rebuilt from its listed properties lists them in the same order. -/
theorem objectEntries_ofEntries (record : Record ν) :
    (ofEntries record.objectEntries).objectEntries = record.objectEntries := by
  have hlisted := objectEntries_ofEntries_map record Prod.snd
  rwa [List.map_id'] at hlisted

end Record

end WithdrawalsApi.Js
