/-
# Loading the cache file

What a load makes of a file. A file that has been written is restored as it was, and
a part of it, as a crash leaves it, never opens the readiness gate: with fewer than
six fields it is ignored, and with six of them only the churn limit can be missing,
which is a single digit and is read as zero.

A load is meant to take all six fields or none: a file of another shape and a file
that is too old are turned away before anything is assigned. Whether the table can
be read is only found out in between, when three fields have been assigned.
-/

import WithdrawalsApi.Storage.ValidatorsCache

namespace WithdrawalsApi

open Js

/-! ## Written files -/

/-- A store as a full update leaves it: whole counts, an exit epoch, a table of frames
and a churn limit within its bounds. -/
structure Persistable (store : ValidatorsStorageService) : Prop where
  activeValidatorsCount : ∃ n : ℕ, store.activeValidatorsCount = some (.finite n)
  maxExitEpoch : ∃ text, store.maxExitEpoch = some text ∧ '|' ∉ text
  lastUpdate : ∃ n : ℕ, store.lastUpdate = some (.finite n)
  frameBalances : ∃ table, store.frameBalances = some table ∧ FrameKeyed table
  sweepMeanEpochs : ∃ n : ℕ, store.sweepMeanEpochs = some (.finite n)
  churnLimit : ∃ n : ℕ, store.churnLimit = some (.finite n) ∧ 4 ≤ n ∧ n ≤ 8

namespace Persistable

variable {store : ValidatorsStorageService}

theorem cacheable (h : Persistable store) : Cacheable store := by
  obtain ⟨exit, hexit, hdivider⟩ := h.maxExitEpoch
  obtain ⟨table, htable, hkeyed⟩ := h.frameBalances
  constructor
  · intro text htext
    rw [hexit] at htext
    exact Option.some.inj htext ▸ hdivider
  · intro other hother
    rw [htable] at hother
    exact Option.some.inj hother ▸ hkeyed

/-- The update time is a count. -/
theorem lastUpdate_nonneg (h : Persistable store) {lastUpdate : ℤ}
    (hlast : store.lastUpdate = some (.finite lastUpdate)) : 0 ≤ lastUpdate := by
  obtain ⟨n, hn⟩ := h.lastUpdate
  rw [hn] at hlast
  have hvalue : (n : ℚ) = lastUpdate := JsNumber.finite.inj (Option.some.inj hlast)
  exact_mod_cast hvalue ▸ n.cast_nonneg

end Persistable

/-- The text of a count is read back as the count. -/
theorem ofText_elementText?_natCast {value : Option JsNumber} {text : List Char}
    (h : ∃ n : ℕ, value = some (.finite n)) (htext : elementText? value = some text) :
    some (JsNumber.ofText text) = value := by
  obtain ⟨n, rfl⟩ := h
  exact congrArg some (JsNumber.ofText_of_text?_natCast htext)

/-- The gate is closed without a churn limit. -/
theorem isInitialized_of_churnLimit {stores : Stores}
    (h : truthyNumber stores.validators.churnLimit = false) : stores.isInitialized = false := by
  simp [Stores.isInitialized, h]

namespace WrittenFields

variable {store : ValidatorsStorageService} {active exit last : List Char} {table : Record ℤ}
  {sweep churn : List Char}

/-- A churn limit is one digit. -/
theorem length_churn (hfields : WrittenFields store active exit last table sweep churn)
    (h : Persistable store) : churn.length = 1 := by
  obtain ⟨limit, hlimit, -, hupper⟩ := h.churnLimit
  have hchurn := hfields.churnLimit
  rw [hlimit] at hchurn
  rw [elementText?_eq_some (by omega) hchurn, Nat.toDigits_of_lt_base (by omega)]
  rfl

/-- A file that is less than three hours old restores a store as it was. -/
theorem restores (hfields : WrittenFields store active exit last table sweep churn)
    (h : Persistable store) {now lastUpdate : ℤ}
    (hlast : store.lastUpdate = some (.finite lastUpdate))
    (hfresh : now / 1000 - lastUpdate < cacheInvalidateTime) :
    let restored := initializeFromCache (['|'].intercalate
      [active, exit, last, stringifyFrameBalances table, sweep, churn]) now {}
    restored.activeValidatorsCount = store.activeValidatorsCount ∧
      restored.maxExitEpoch = store.maxExitEpoch ∧
      restored.lastUpdate = store.lastUpdate ∧
      restored.frameBalances.map Record.objectEntries =
        store.frameBalances.map Record.objectEntries ∧
      restored.sweepMeanEpochs = store.sweepMeanEpochs ∧
      restored.churnLimit = store.churnLimit := by
  intro restored
  obtain ⟨text, hexit, -⟩ := h.maxExitEpoch
  obtain ⟨limit, hlimit, -⟩ := h.churnLimit
  have hexitText := hfields.maxExitEpoch
  rw [hexit, Option.getD_some] at hexitText
  have hrestored : restored = _ :=
    hfields.initializeFromCache_eq (h.lastUpdate_nonneg hlast) hlast hfresh {}
  rw [hrestored, hlast, hexit, hexitText, hfields.frameBalances]
  refine ⟨?_, rfl, rfl, ?_, ?_, ?_⟩
  · exact ofText_elementText?_natCast h.activeValidatorsCount hfields.activeValidatorsCount
  · exact congrArg some (Record.objectEntries_ofEntries table)
  · exact ofText_elementText?_natCast h.sweepMeanEpochs hfields.sweepMeanEpochs
  · exact ofText_elementText?_natCast ⟨limit, hlimit⟩ hfields.churnLimit

/-- A text that has all six fields and is not the whole file lacks the churn limit: the
limit is one digit. -/
theorem splitOn_of_properPrefix
    (hfields : WrittenFields store active exit last table sweep churn) (h : Persistable store)
    {text : List Char} (hpart : text <+: ['|'].intercalate
      [active, exit, last, stringifyFrameBalances table, sweep, churn])
    (hproper : text ≠ ['|'].intercalate
      [active, exit, last, stringifyFrameBalances table, sweep, churn]) :
    (text.splitOn '|').length ≠ 6 ∨
      text.splitOn '|' = [active, exit, last, stringifyFrameBalances table, sweep, []] := by
  rcases hfields.splitOn_of_prefix hpart with hlength | ⟨short, hshort, hsplit⟩
  · exact Or.inl hlength
  · right
    have hempty : short = [] := by
      by_contra hne
      have hdigit := hfields.length_churn h
      have hpos := List.length_pos_iff.mpr hne
      have hle := hshort.length_le
      have hwhole : short = churn := hshort.eq_of_length (by omega)
      apply hproper
      rw [← hwhole, ← hsplit, List.intercalate_splitOn]
    rw [hsplit, hempty]

/-- A file without a churn limit is ignored, or a limit of zero is read. -/
theorem truthyNumber_churnLimit
    (hfields : WrittenFields store active exit last table sweep churn) {text : List Char}
    (hsplit : text.splitOn '|' = [active, exit, last, stringifyFrameBalances table, sweep, []])
    (now : ℤ) : truthyNumber (initializeFromCache text now {}).churnLimit = false := by
  rw [initializeFromCache, initializeFromCacheWith, hsplit]
  simp only
  split
  · rw [parseFrameBalances_stringifyFrameBalances hfields.frameKeyed]
    simp [truthyNumber, JsNumber.ofText_nil, JsNumber.truthy]
  · rfl

end WrittenFields

/-- **Files are restored as they were written, and no part of a file opens the gate.**
A file that is less than three hours old restores all six fields into an empty store,
the table with the same properties in the order in which they are listed. After any
proper prefix of it, whatever its age, the service still reports that it is
initializing. -/
theorem initializeFromCache_written {store : ValidatorsStorageService} {content : List Char}
    (h : Persistable store) (hsaved : saveDataToCache store = some content) :
    (∀ (now lastUpdate : ℤ), store.lastUpdate = some (.finite lastUpdate) →
      now / 1000 - lastUpdate < cacheInvalidateTime →
        let restored := initializeFromCache content now {}
        restored.activeValidatorsCount = store.activeValidatorsCount ∧
        restored.maxExitEpoch = store.maxExitEpoch ∧
        restored.lastUpdate = store.lastUpdate ∧
        restored.frameBalances.map Record.objectEntries =
          store.frameBalances.map Record.objectEntries ∧
        restored.sweepMeanEpochs = store.sweepMeanEpochs ∧
        restored.churnLimit = store.churnLimit) ∧
      ∀ text, text <+: content → text ≠ content → ∀ (now : ℤ) (stores : Stores),
        stores.validators = initializeFromCache text now {} → stores.isInitialized = false := by
  obtain ⟨active, exit, last, table, sweep, churn, hfields, rfl⟩ :=
    writtenFields_of_saveDataToCache h.cacheable hsaved
  constructor
  · intro now lastUpdate hlast hfresh
    exact hfields.restores h hlast hfresh
  · intro text hpart hproper now stores hstores
    apply isInitialized_of_churnLimit
    rw [hstores]
    rcases hfields.splitOn_of_properPrefix h hpart hproper with hlength | hsplit
    · rw [initializeFromCache_of_length_ne hlength]
      rfl
    · exact hfields.truthyNumber_churnLimit hsplit now

/-- What a full update has stored. -/
def persistedStore : ValidatorsStorageService where
  maxExitEpoch := some ['3', '0', '0']
  activeValidatorsCount := some (.finite (2 : ℕ))
  lastUpdate := some (.finite (9000 : ℕ))
  frameBalances := some (Record.ofEntries [(.integer 2, 32000000000000000000)])
  sweepMeanEpochs := some (.finite (10 : ℕ))
  churnLimit := some (.finite (8 : ℕ))

theorem persistable_persistedStore : Persistable persistedStore := by
  refine ⟨⟨2, rfl⟩, ⟨_, rfl, by decide⟩, ⟨9000, rfl⟩, ⟨_, rfl, ?_⟩, ⟨10, rfl⟩,
    8, rfl, by decide, by decide⟩
  intro entry hentry
  obtain rfl := List.mem_singleton.mp hentry
  exact ⟨some 2, rfl⟩

/-- The file is restored, and without its last character it is not. -/
theorem initializeFromCache_written_persistedStore :
    let content := (saveDataToCache persistedStore).getD []
    (initializeFromCache content 10000000 {}).churnLimit = some (.finite (8 : ℕ)) ∧
      ∀ stores : Stores, stores.validators = initializeFromCache content.dropLast 10000000 {} →
        stores.isInitialized = false := by
  intro content
  have hsaved : saveDataToCache persistedStore = some content := by decide +kernel
  obtain ⟨hrestores, hcloses⟩ := initializeFromCache_written persistable_persistedStore hsaved
  obtain ⟨-, -, -, -, -, hchurn⟩ := hrestores 10000000 9000 rfl (by decide)
  refine ⟨hchurn, hcloses content.dropLast (List.dropLast_prefix content) ?_ 10000000⟩
  decide +kernel

/-! ## All fields or none -/

/-- The six fields of a file, as they are read. -/
structure CacheFields where
  activeValidatorsCount : JsNumber
  maxExitEpoch : List Char
  lastUpdate : JsNumber
  frameBalances : Record ℤ
  sweepMeanEpochs : JsNumber
  churnLimit : JsNumber

namespace CacheFields

/-- The fields of a file of the right shape whose table can be read. -/
def ofContent? (bigNumberFrom : JsonValue → Option ℤ) (content : List Char) :
    Option CacheFields :=
  match content.splitOn '|' with
  | [activeValidatorsCount, maxExitEpoch, lastUpdate, frameBalancesStr, sweepMeanEpochs,
      churnLimit] =>
      (parseFrameBalances bigNumberFrom frameBalancesStr).map fun frameBalances => {
        activeValidatorsCount := JsNumber.ofText activeValidatorsCount
        maxExitEpoch
        lastUpdate := JsNumber.ofText lastUpdate
        frameBalances
        sweepMeanEpochs := JsNumber.ofText sweepMeanEpochs
        churnLimit := JsNumber.ofText churnLimit }
  | _ => none

/-- A store with all six fields of a file. -/
def assign (fields : CacheFields) (store : ValidatorsStorageService) :
    ValidatorsStorageService :=
  { store with
    activeValidatorsCount := some fields.activeValidatorsCount
    maxExitEpoch := some fields.maxExitEpoch
    lastUpdate := some fields.lastUpdate
    frameBalances := some fields.frameBalances
    sweepMeanEpochs := some fields.sweepMeanEpochs
    churnLimit := some fields.churnLimit }

end CacheFields

/-! What `BigNumber.from` takes for a balance does not matter here. -/

section LoadsAllOrNothing

variable (bigNumberFrom : JsonValue → Option ℤ)

/-- A load takes all six fields of the file, or it leaves the store as it was. -/
def LoadsAllOrNothing (content : List Char) (now : ℤ) (store : ValidatorsStorageService) : Prop :=
  (∃ fields, CacheFields.ofContent? bigNumberFrom content = some fields ∧
    initializeFromCacheWith bigNumberFrom content now store = fields.assign store) ∨
  initializeFromCacheWith bigNumberFrom content now store = store

/-- A load leaves the store as it is, or the file has passed the checks that are made
up front. -/
theorem initializeFromCacheWith_checks (content : List Char) (now : ℤ)
    (store : ValidatorsStorageService) :
    initializeFromCacheWith bigNumberFrom content now store = store ∨
      ∃ active exit last table sweep churn,
        content.splitOn '|' = [active, exit, last, table, sweep, churn] ∧
          isDataValid (now / 1000) (JsNumber.ofText last) = true := by
  unfold initializeFromCacheWith
  split
  case h_1 active exit last table sweep churn hsplit =>
    by_cases hvalid : isDataValid (now / 1000) (JsNumber.ofText last) = true
    · exact Or.inr ⟨active, exit, last, table, sweep, churn, hsplit, hvalid⟩
    · exact Or.inl (if_neg hvalid)
  case h_2 => exact Or.inl rfl

/-- A load after the checks that are made up front. -/
theorem initializeFromCacheWith_of_valid {content active exit last table sweep churn : List Char}
    (hsplit : content.splitOn '|' = [active, exit, last, table, sweep, churn]) {now : ℤ}
    (hvalid : isDataValid (now / 1000) (JsNumber.ofText last) = true)
    (store : ValidatorsStorageService) :
    initializeFromCacheWith bigNumberFrom content now store =
      match CacheFields.ofContent? bigNumberFrom content with
      | some fields => fields.assign store
      | none => { store with
          activeValidatorsCount := some (JsNumber.ofText active)
          maxExitEpoch := some exit
          lastUpdate := some (JsNumber.ofText last) } := by
  simp only [initializeFromCacheWith, CacheFields.ofContent?, hsplit, hvalid, if_true]
  cases parseFrameBalances bigNumberFrom table <;> rfl

/-- **A load takes all six fields or none exactly when** the file has another number
of fields, is too old, has a table that can be read, or brings nothing new in the
three fields that are assigned before the table. -/
theorem loadsAllOrNothing_iff (content : List Char) (now : ℤ) (store : ValidatorsStorageService) :
    LoadsAllOrNothing bigNumberFrom content now store ↔
      ∀ active exit last table sweep churn,
        content.splitOn '|' = [active, exit, last, table, sweep, churn] →
        isDataValid (now / 1000) (JsNumber.ofText last) = true →
          (parseFrameBalances bigNumberFrom table).isSome = true ∨
            store.activeValidatorsCount = some (JsNumber.ofText active) ∧
              store.maxExitEpoch = some exit ∧
              store.lastUpdate = some (JsNumber.ofText last) := by
  constructor
  · intro h active exit last table sweep churn hsplit hvalid
    have hload := initializeFromCacheWith_of_valid bigNumberFrom hsplit hvalid store
    cases htable : parseFrameBalances bigNumberFrom table with
    | some frameBalances => exact Or.inl rfl
    | none =>
        right
        have hfields : CacheFields.ofContent? bigNumberFrom content = none := by
          simp only [CacheFields.ofContent?, hsplit, htable, Option.map_none]
        rcases h with ⟨fields, hsome, -⟩ | hsame
        · rw [hfields] at hsome
          cases hsome
        · rw [hsame, hfields] at hload
          rw [hload]
          exact ⟨rfl, rfl, rfl⟩
  · intro h
    rcases initializeFromCacheWith_checks bigNumberFrom content now store with
      hsame | ⟨active, exit, last, table, sweep, churn, hsplit, hvalid⟩
    · exact Or.inr hsame
    · have hload := initializeFromCacheWith_of_valid bigNumberFrom hsplit hvalid store
      cases hfields : CacheFields.ofContent? bigNumberFrom content with
      | some fields =>
          rw [hfields] at hload
          exact Or.inl ⟨fields, hfields, hload⟩
      | none =>
          right
          rw [hfields] at hload
          rcases h active exit last table sweep churn hsplit hvalid with
            htable | ⟨hactive, hexit, hlast⟩
          · obtain ⟨frameBalances, htable⟩ := Option.isSome_iff_exists.mp htable
            simp [CacheFields.ofContent?, hsplit, htable] at hfields
          · rw [hload, ← hactive, ← hexit, ← hlast]

end LoadsAllOrNothing

/-- The table of the file has been cut off, and nothing has been stored before. -/
theorem not_loadsAllOrNothing :
    ¬ ∃ bigNumberFrom : JsonValue → Option ℤ,
      ∀ (content : List Char) (now : ℤ) (store : ValidatorsStorageService),
        LoadsAllOrNothing bigNumberFrom content now store := by
  rintro ⟨bigNumberFrom, h⟩
  let content := ['2', '|', '3', '0', '0', '|', '9', '0', '0', '0', '|', Char.ofNat 0x7B, '|',
    '1', '0', '|', '8']
  have hsplit : content.splitOn '|' =
      [['2'], ['3', '0', '0'], ['9', '0', '0', '0'], [Char.ofNat 0x7B], ['1', '0'], ['8']] := by
    decide
  have hvalid : isDataValid (10000000 / 1000) (JsNumber.ofText ['9', '0', '0', '0']) = true := by
    decide +kernel
  have hparse : Json.parse [Char.ofNat 0x7B] = none := by decide
  have htable : parseFrameBalances bigNumberFrom [Char.ofNat 0x7B] = none := by
    rw [parseFrameBalances, hparse]
    rfl
  have hfields : CacheFields.ofContent? bigNumberFrom content = none := by
    simp only [CacheFields.ofContent?, hsplit, htable, Option.map_none]
  have hload := initializeFromCacheWith_of_valid bigNumberFrom hsplit hvalid {}
  rw [hfields] at hload
  rcases h content 10000000 {} with ⟨fields, hsome, -⟩ | hsame
  · rw [hfields] at hsome
    cases hsome
  · rw [hsame] at hload
    cases hload

end WithdrawalsApi
