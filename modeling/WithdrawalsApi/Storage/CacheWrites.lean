/-
# Writes of the cache file

A write of the file joins six fields of the store to a text and puts the text on the
disk. A crash, or a failure of the call, may cut the text anywhere.

What a load makes of a write follows from the store and from whether the text is whole.
From a whole text that is not too old the six fields are restored. From a text that was
cut nothing is restored, or all of them again, for only the last character can be
missing then: the churn limit is read as zero instead.
-/

import WithdrawalsApi.Storage.CacheLoading

namespace WithdrawalsApi

open Js

/-- A store with all the six fields of the file. The churn limit is one digit: that of an
update, or the zero of a text that was cut. -/
structure Complete (store : ValidatorsStorageService) : Prop where
  activeValidatorsCount : ∃ n : ℕ, store.activeValidatorsCount = some (.finite n)
  maxExitEpoch : ∃ text, store.maxExitEpoch = some text ∧ '|' ∉ text
  lastUpdate : ∃ n : ℕ, store.lastUpdate = some (.finite n)
  frameBalances : ∃ table, store.frameBalances = some table ∧ FrameKeyed table
  sweepMeanEpochs : ∃ n : ℕ, store.sweepMeanEpochs = some (.finite n)
  churnLimit : ∃ n : ℕ, store.churnLimit = some (.finite n) ∧ n < 10

theorem Complete.cacheable {store : ValidatorsStorageService} (h : Complete store) :
    Cacheable store := by
  obtain ⟨exit, hexit, hdivider⟩ := h.maxExitEpoch
  obtain ⟨table, htable, hkeyed⟩ := h.frameBalances
  refine ⟨fun text htext => ?_, fun other hother => ?_⟩
  · rw [hexit] at htext
    exact Option.some.inj htext ▸ hdivider
  · rw [htable] at hother
    exact Option.some.inj hother ▸ hkeyed

/-- A write of the file: the store as it was when its fields were joined, and how much of
the text was written, unless it was all of it. -/
structure Save where
  store : ValidatorsStorageService
  kept : Option ℕ

/-- The six fields are those of the saved store, the table with its properties in the
order in which they are listed. What the file does not hold is as before the load. -/
structure RestoredFrom (saved restarted after : ValidatorsStorageService) : Prop where
  activeValidatorsCount : after.activeValidatorsCount = saved.activeValidatorsCount
  maxExitEpoch : after.maxExitEpoch = saved.maxExitEpoch
  lastUpdate : after.lastUpdate = saved.lastUpdate
  frameBalances : after.frameBalances.map Record.objectEntries =
    saved.frameBalances.map Record.objectEntries
  sweepMeanEpochs : after.sweepMeanEpochs = saved.sweepMeanEpochs
  totalValidatorsCount : after.totalValidatorsCount = restarted.totalValidatorsCount
  withdrawableLidoValidatorIds :
    after.withdrawableLidoValidatorIds = restarted.withdrawableLidoValidatorIds

namespace Save

/-- The text that is in the file after the write. -/
def text? (save : Save) : Option (List Char) :=
  (saveDataToCache save.store).map fun data => (save.kept.map data.take).getD data

/-- The saved store is less than three hours old. -/
def Fresh (save : Save) (now : ℤ) : Prop :=
  ∃ lastUpdate : ℕ, save.store.lastUpdate = some (.finite lastUpdate) ∧
    now / 1000 - lastUpdate < cacheInvalidateTime

/-- What a load at a clock makes of a store, from the text of a write. -/
inductive Loads (save : Save) (now : ℤ) (restarted : ValidatorsStorageService) :
    ValidatorsStorageService → Prop
  /-- The write was cut, or it is too old. -/
  | ignored (h : save.Fresh now → save.kept.isSome) : Loads save now restarted restarted
  | restored {after : ValidatorsStorageService} (hfresh : save.Fresh now)
      (hfields : RestoredFrom save.store restarted after)
      (hchurn : after.churnLimit = save.store.churnLimit ∨
        save.kept.isSome ∧ after.churnLimit = some (.finite 0)) :
      Loads save now restarted after

theorem text?_prefix {save : Save} {content : List Char} (htext : save.text? = some content) :
    ∃ data, saveDataToCache save.store = some data ∧ content <+: data ∧
      (save.kept = none → content = data) := by
  obtain ⟨data, hdata, rfl⟩ := Option.map_eq_some_iff.mp htext
  refine ⟨data, hdata, ?_, ?_⟩
  · cases save.kept with
    | none => exact List.prefix_refl data
    | some kept => exact List.take_prefix kept data
  · intro hwhole
    rw [hwhole]
    rfl

end Save

namespace WrittenFields

variable {store : ValidatorsStorageService} {active exit last : List Char} {table : Record ℤ}
  {sweep churn : List Char}

/-- A part of the churn limit is nothing or all of it. -/
theorem short_churn (hfields : WrittenFields store active exit last table sweep churn)
    (h : Complete store) {short : List Char} (hshort : short <+: churn) :
    short = [] ∨ short = churn := by
  obtain ⟨limit, hlimit, hdigit⟩ := h.churnLimit
  have hchurn := hfields.churnLimit
  rw [hlimit] at hchurn
  have hdigits := elementText?_eq_some (by omega) hchurn
  rw [Nat.toDigits_of_lt_base hdigit] at hdigits
  subst hdigits
  rcases List.prefix_cons_iff.mp hshort with rfl | ⟨rest, rfl, hrest⟩
  · exact Or.inl rfl
  · exact Or.inr (congrArg _ (List.prefix_nil.mp hrest))

/-- A text is valid as long as the saved store is less than three hours old. -/
theorem isDataValid_iff (hfields : WrittenFields store active exit last table sweep churn)
    {lastUpdate : ℕ} (hlast : store.lastUpdate = some (.finite lastUpdate)) (seconds : ℤ) :
    isDataValid seconds (JsNumber.ofText last) = true ↔
      seconds - lastUpdate < cacheInvalidateTime := by
  have hread := ofText_elementText?_natCast ⟨lastUpdate, hlast⟩ hfields.lastUpdate
  rw [hlast] at hread
  rw [Option.some.inj hread, isDataValid, decide_eq_true_iff]
  exact_mod_cast Iff.rfl

/-- The six fields of a text that is not too old. -/
theorem restoredFrom (hfields : WrittenFields store active exit last table sweep churn)
    (h : Complete store) (restarted : ValidatorsStorageService) (churnLimit : JsNumber) :
    RestoredFrom store restarted { restarted with
      activeValidatorsCount := some (JsNumber.ofText active)
      maxExitEpoch := some exit
      lastUpdate := some (JsNumber.ofText last)
      frameBalances := some (Record.ofEntries table.objectEntries)
      sweepMeanEpochs := some (JsNumber.ofText sweep)
      churnLimit := some churnLimit } := by
  obtain ⟨text, htext, -⟩ := h.maxExitEpoch
  have hexit := hfields.maxExitEpoch
  rw [htext, Option.getD_some] at hexit
  constructor
  · exact ofText_elementText?_natCast h.activeValidatorsCount hfields.activeValidatorsCount
  · rw [htext, hexit]
  · exact ofText_elementText?_natCast h.lastUpdate hfields.lastUpdate
  · rw [hfields.frameBalances]
    exact congrArg some (Record.objectEntries_ofEntries table)
  · exact ofText_elementText?_natCast h.sweepMeanEpochs hfields.sweepMeanEpochs
  · rfl
  · rfl

/-- What is read for the churn limit: the saved one, or zero when it is missing. -/
theorem churnLimit_of_short (hfields : WrittenFields store active exit last table sweep churn)
    (h : Complete store) {short : List Char} (hshort : short <+: churn) :
    some (JsNumber.ofText short) = store.churnLimit ∨
      short ≠ churn ∧ some (JsNumber.ofText short) = some (.finite 0) := by
  obtain ⟨limit, hlimit, -⟩ := h.churnLimit
  have hwhole := ofText_elementText?_natCast ⟨limit, hlimit⟩ hfields.churnLimit
  by_cases hsame : short = churn
  · left
    rw [hsame, hwhole]
  · right
    obtain rfl := (hfields.short_churn h hshort).resolve_right hsame
    exact ⟨hsame, congrArg some JsNumber.ofText_nil⟩

end WrittenFields

/-- A load that finds the text of a write. -/
theorem Save.loads_of_text {save : Save} (h : Complete save.store) {content : List Char}
    (htext : save.text? = some content) (now : ℤ) (restarted : ValidatorsStorageService) :
    save.Loads now restarted (initializeFromCache content now restarted) := by
  obtain ⟨data, hdata, hpart, hwhole⟩ := Save.text?_prefix htext
  obtain ⟨active, exit, last, table, sweep, churn, hfields, rfl⟩ :=
    writtenFields_of_saveDataToCache h.cacheable hdata
  have hkept (hne : content.splitOn '|' ≠
      [active, exit, last, stringifyFrameBalances table, sweep, churn]) : save.kept.isSome := by
    cases hcut : save.kept with
    | none =>
        rw [hwhole hcut] at hne
        exact absurd hfields.splitOn_eq hne
    | some kept => rfl
  rcases hfields.splitOn_of_prefix hpart with hlength | ⟨short, hshort, hsplit⟩
  · -- fields are missing
    rw [initializeFromCache_of_length_ne hlength]
    apply Loads.ignored
    intro _
    apply hkept
    intro hsix
    rw [hsix] at hlength
    exact hlength rfl
  · obtain ⟨lastUpdate, hlast⟩ := h.lastUpdate
    have hvalid := hfields.isDataValid_iff hlast (now / 1000)
    by_cases hage : now / 1000 - lastUpdate < cacheInvalidateTime
    · simp only [initializeFromCache, initializeFromCacheWith, hsplit, hvalid.mpr hage, if_true,
        parseFrameBalances_stringifyFrameBalances hfields.frameKeyed]
      refine Loads.restored ⟨lastUpdate, hlast, hage⟩ (hfields.restoredFrom h restarted _) ?_
      rcases hfields.churnLimit_of_short h hshort with hsame | ⟨hmissing, hzero⟩
      · exact Or.inl hsame
      · refine Or.inr ⟨hkept fun hsix => hmissing ?_, hzero⟩
        rw [hsplit] at hsix
        simpa using hsix
    · simp only [initializeFromCache, initializeFromCacheWith, hsplit, mt hvalid.mp hage,
        Bool.false_eq_true, if_false]
      apply Loads.ignored
      rintro ⟨other, hother, hfresh⟩
      rw [hlast] at hother
      have hvalue : (lastUpdate : ℚ) = other := JsNumber.finite.inj (Option.some.inj hother)
      obtain rfl : lastUpdate = other := by exact_mod_cast hvalue
      exact absurd hfresh hage

end WithdrawalsApi
