/-
# The cache file of the validators store

After a full update six fields of the validators store are written to a file,
joined by a divider, and a restarted service reads them back when they are less
than three hours old. The fields are assigned one after the other, so a table
that cannot be read leaves the first three of them behind.

A file that a crash has truncated is never half read: with all five dividers
present only the last field can be short, the table is complete and is read back
with the same properties.
-/

import WithdrawalsApi.Js.Json
import WithdrawalsApi.Storage

namespace WithdrawalsApi

open Js

/-! ## Frame balances as text -/

/-- Every property of a table is named by a frame number. -/
def FrameKeyed (frameBalances : Record ℤ) : Prop :=
  ∀ entry ∈ frameBalances.entries, ∃ frame, entry.1 = frameKey frame

theorem frameKeyed_empty : FrameKeyed Record.empty := by
  intro entry hmem
  cases hmem

@[simp]
theorem ofText_frameKey (frame : Option ℤ) :
    PropertyKey.ofText (frameKey frame).text = frameKey frame := by
  cases frame with
  | some frame => exact PropertyKey.ofText_integerText frame
  | none => decide

theorem not_mem_text_frameKey (frame : Option ℤ) : '|' ∉ (frameKey frame).text := by
  cases frame with
  | some frame => exact not_mem_integerText (by decide) (by decide) frame
  | none => decide

theorem ne_protoName_of_eq_frameKey {key : PropertyKey} {frame : Option ℤ}
    (h : key = frameKey frame) : key ≠ Record.protoName := by
  subst h
  cases frame with
  | some frame => exact fun heq => by cases heq
  | none => decide

def stringifyFrameBalances (frameBalances : Record ℤ) : List Char :=
  let texts := Record.ofCopies (frameBalances.objectEntries.map fun entry =>
    (entry.1, integerText entry.2))
  Json.stringifyTexts (texts.objectEntries.map fun entry => (entry.1.text, entry.2))

/-- `parseFrameBalances` with the function that reads a balance; `none` is a thrown error. -/
def parseFrameBalances (bigNumberFrom : JsonValue → Option ℤ) (frameBalancesStr : List Char) :
    Option (Record ℤ) := do
  let frameBalances ← Json.parse frameBalancesStr
  let properties ← frameBalances.properties?
  let entries ← properties.objectEntries.mapM fun entry =>
    (bigNumberFrom entry.2).map fun balance => (entry.1, balance)
  some (Record.ofCopies entries)

private theorem stringifyFrameBalances_eq {frameBalances : Record ℤ}
    (h : FrameKeyed frameBalances) :
    stringifyFrameBalances frameBalances = Json.stringifyTexts
      (frameBalances.objectEntries.map fun entry => (entry.1.text, integerText entry.2)) := by
  have hnames : ∀ entry ∈ frameBalances.objectEntries.map fun entry =>
      (entry.1, integerText entry.2), entry.1 ≠ Record.protoName := by
    intro entry hmem
    obtain ⟨row, hrow, rfl⟩ := List.mem_map.mp hmem
    obtain ⟨frame, hframe⟩ := h row (frameBalances.objectEntries_perm.mem_iff.mp hrow)
    exact ne_protoName_of_eq_frameKey hframe
  rw [stringifyFrameBalances, Record.ofCopies_of_ne hnames,
    Record.objectEntries_ofEntries_map frameBalances fun entry => integerText entry.2, List.map_map]
  rfl

private theorem mapM_eq_some_map {α β : Type} {f : α → Option β} {g : α → β} {items : List α}
    (h : ∀ item ∈ items, f item = some (g item)) : items.mapM f = some (items.map g) := by
  induction items with
  | nil => rfl
  | cons item items ih =>
      rw [List.mapM_cons, h item List.mem_cons_self,
        ih fun other hmem => h other (List.mem_cons_of_mem _ hmem)]
      rfl

/-- A table that is written is read back, with its properties in the order in
which they are listed. -/
theorem parseFrameBalances_stringifyFrameBalances {frameBalances : Record ℤ}
    (h : FrameKeyed frameBalances) :
    parseFrameBalances JsonValue.toBigNumber? (stringifyFrameBalances frameBalances) =
      some (Record.ofEntries frameBalances.objectEntries) := by
  have hkey : ∀ entry ∈ frameBalances.objectEntries,
      PropertyKey.ofText entry.1.text = entry.1 := by
    intro entry hmem
    obtain ⟨frame, hframe⟩ := h entry (frameBalances.objectEntries_perm.mem_iff.mp hmem)
    rw [hframe, ofText_frameKey]
  have hproperties : (JsonValue.object ((frameBalances.objectEntries.map fun entry =>
      (entry.1.text, integerText entry.2)).map fun member =>
        (member.1, JsonValue.text member.2))).properties? =
      some (Record.ofEntries (frameBalances.objectEntries.map fun entry =>
        (entry.1, JsonValue.text (integerText entry.2)))) := by
    rw [JsonValue.properties?, List.map_map, List.map_map]
    congr 2
    apply List.map_congr_left
    intro entry hmem
    simp only [Function.comp_apply, hkey entry hmem]
  have hread : (Record.ofEntries (frameBalances.objectEntries.map fun entry =>
      (entry.1, JsonValue.text (integerText entry.2)))).objectEntries.mapM (fun entry =>
        entry.2.toBigNumber?.map fun balance => (entry.1, balance)) =
      some frameBalances.objectEntries := by
    rw [Record.objectEntries_ofEntries_map frameBalances fun entry =>
      JsonValue.text (integerText entry.2), List.mapM_map]
    conv_rhs => rw [← List.map_id frameBalances.objectEntries]
    apply mapM_eq_some_map
    intro entry _
    simp only [Function.comp_apply, JsonValue.toBigNumber?, bigNumberOfText_integerText,
      Option.map_some, id_eq]
  have hnames : ∀ entry ∈ frameBalances.objectEntries, entry.1 ≠ Record.protoName := by
    intro entry hmem
    obtain ⟨frame, hframe⟩ := h entry (frameBalances.objectEntries_perm.mem_iff.mp hmem)
    exact ne_protoName_of_eq_frameKey hframe
  rw [parseFrameBalances, stringifyFrameBalances_eq h, Json.parse_stringifyTexts]
  simp only [Option.bind_eq_bind, Option.bind_some, hproperties, hread,
    Record.ofCopies_of_ne hnames]

theorem frameKeyed_ofEntries_objectEntries {frameBalances : Record ℤ}
    (h : FrameKeyed frameBalances) :
    FrameKeyed (Record.ofEntries frameBalances.objectEntries) := by
  intro entry hmem
  rw [Record.entries_ofEntries frameBalances.objectEntries_nodup] at hmem
  exact h entry (frameBalances.objectEntries_perm.mem_iff.mp hmem)

/-! ## Writing -/

/-- An element of a joined array: `undefined` is the empty text. -/
def elementText? (value : Option JsNumber) : Option (List Char) :=
  match value with
  | some number => number.text?
  | none => some []

/-- The text that `saveDataToCache` writes. There is none when the table was
never set, since its properties cannot be listed. -/
def saveDataToCache (store : ValidatorsStorageService) : Option (List Char) := do
  let activeValidatorsCount ← elementText? store.activeValidatorsCount
  let lastUpdate ← elementText? store.lastUpdate
  let frameBalances ← store.frameBalances
  let sweepMeanEpochs ← elementText? store.sweepMeanEpochs
  let churnLimit ← elementText? store.churnLimit
  some (['|'].intercalate
    [activeValidatorsCount, store.maxExitEpoch.getD [], lastUpdate,
      stringifyFrameBalances frameBalances, sweepMeanEpochs, churnLimit])

/-! ## Reading -/

/-- `CACHE_INVALIDATE_TIME`, in seconds. -/
def cacheInvalidateTime : ℤ := 3 * 3600

/-- `now - lastUpdate < CACHE_INVALIDATE_TIME`. -/
def isDataValid (now : ℤ) : JsNumber → Bool
  | .finite lastUpdate => decide ((now : ℚ) - lastUpdate < cacheInvalidateTime)
  | .nan => false
  | .infinity negative => !negative

/-- `initializeFromCache` from the content of the file, at a clock in milliseconds, with the
function that reads a balance; whatever is thrown is caught. -/
def initializeFromCacheWith (bigNumberFrom : JsonValue → Option ℤ) (content : List Char) (now : ℤ)
    (store : ValidatorsStorageService) : ValidatorsStorageService :=
  match content.splitOn '|' with
  | [activeValidatorsCount, maxExitEpoch, lastUpdateText, frameBalancesStr, sweepMeanEpochs,
      churnLimit] =>
      let lastUpdate := JsNumber.ofText lastUpdateText
      if isDataValid (now / 1000) lastUpdate then
        let store := { store with
          activeValidatorsCount := some (JsNumber.ofText activeValidatorsCount)
          maxExitEpoch := some maxExitEpoch
          lastUpdate := some lastUpdate }
        match parseFrameBalances bigNumberFrom frameBalancesStr with
        -- the fields assigned so far stay
        | none => store
        | some frameBalances => { store with
            frameBalances := some frameBalances
            sweepMeanEpochs := some (JsNumber.ofText sweepMeanEpochs)
            churnLimit := some (JsNumber.ofText churnLimit) }
      else store
  | _ => store

/-- `initializeFromCache`. -/
def initializeFromCache (content : List Char) (now : ℤ) (store : ValidatorsStorageService) :
    ValidatorsStorageService :=
  initializeFromCacheWith JsonValue.toBigNumber? content now store

/-! ## Truncated files -/

/-- A store whose fields can be told apart in the file: its exit epoch is a
number and its table is keyed by frames. -/
structure Cacheable (store : ValidatorsStorageService) : Prop where
  maxExitEpoch : ∀ text, store.maxExitEpoch = some text → '|' ∉ text
  frameBalances : ∀ table, store.frameBalances = some table → FrameKeyed table

/-- What a crash may leave of a file that `saveDataToCache` wrote. -/
def IsCacheContent (content : List Char) : Prop :=
  ∃ store written, Cacheable store ∧ saveDataToCache store = some written ∧ content <+: written

private theorem mem_escapeChar {c : Char} (h : '|' ∈ Json.escapeChar c) : c = '|' := by
  have hcontrol : ∀ code < 0x20, '|' ∉ [Json.reverseSolidus, 'u', '0', '0',
      Nat.digitChar (code / 16), Nat.digitChar (code % 16)] := by decide
  unfold Json.escapeChar at h
  split at h
  case isTrue hspecial =>
    rcases List.mem_cons.mp h with hsolidus | hchar
    · exact absurd hsolidus (by decide)
    · exact (List.mem_singleton.mp hchar).symm
  case isFalse hplain =>
    split at h
    case h_6 code _ _ _ _ _ =>
      split at h
      case isTrue hcode => exact absurd h (hcontrol _ hcode)
      case isFalse hcode => exact (List.mem_singleton.mp h).symm
    all_goals exact absurd h (by decide)

private theorem not_mem_quote {text : List Char} (h : '|' ∉ text) : '|' ∉ Json.quote text := by
  intro hmem
  rw [Json.quote, List.mem_cons, List.mem_append, List.mem_flatMap, List.mem_singleton] at hmem
  rcases hmem with hmark | ⟨c, hc, hescape⟩ | hmark
  · exact absurd hmark (by decide)
  · exact h (mem_escapeChar hescape ▸ hc)
  · exact absurd hmark (by decide)

private theorem not_mem_intercalate {fields : List (List Char)}
    (h : ∀ field ∈ fields, '|' ∉ field) : '|' ∉ [','].intercalate fields := by
  induction fields with
  | nil => simp
  | cons field fields ih =>
      have hrest := ih fun other hmem => h other (List.mem_cons_of_mem _ hmem)
      have hfield := h field List.mem_cons_self
      by_cases hempty : fields = []
      · subst hempty
        simpa using hfield
      · rw [List.intercalate_cons_of_ne_nil hempty]
        simp [hfield, hrest]

/-- The table does not contain the divider. -/
theorem not_mem_stringifyFrameBalances {frameBalances : Record ℤ} (h : FrameKeyed frameBalances) :
    '|' ∉ stringifyFrameBalances frameBalances := by
  have hmembers : ∀ member ∈ (frameBalances.objectEntries.map fun entry =>
      (entry.1.text, integerText entry.2)).map Json.textMember, '|' ∉ member := by
    intro member hmem
    rw [List.map_map, List.mem_map] at hmem
    obtain ⟨entry, hentry, rfl⟩ := hmem
    obtain ⟨frame, hframe⟩ := h entry (frameBalances.objectEntries_perm.mem_iff.mp hentry)
    have hname : '|' ∉ entry.1.text := by
      rw [hframe]
      exact not_mem_text_frameKey frame
    have hvalue : '|' ∉ integerText entry.2 := not_mem_integerText (by decide) (by decide) entry.2
    simp only [Function.comp_apply, Json.textMember, List.mem_append, List.mem_cons, not_or]
    exact ⟨not_mem_quote hname, by decide, not_mem_quote hvalue⟩
  rw [stringifyFrameBalances_eq h, Json.stringifyTexts]
  simp only [List.mem_cons, List.mem_append, List.not_mem_nil, or_false, not_or]
  exact ⟨by decide, not_mem_intercalate hmembers, by decide⟩

private theorem not_mem_elementText? {value : Option JsNumber} {text : List Char}
    (h : elementText? value = some text) : '|' ∉ text := by
  cases value with
  | some number => exact JsNumber.not_mem_text? h
  | none =>
      cases h
      simp

/-- The fields that `saveDataToCache` joins, in their order. -/
structure WrittenFields (store : ValidatorsStorageService)
    (active exit last : List Char) (table : Record ℤ) (sweep churn : List Char) : Prop where
  activeValidatorsCount : elementText? store.activeValidatorsCount = some active
  maxExitEpoch : store.maxExitEpoch.getD [] = exit
  lastUpdate : elementText? store.lastUpdate = some last
  frameBalances : store.frameBalances = some table
  sweepMeanEpochs : elementText? store.sweepMeanEpochs = some sweep
  churnLimit : elementText? store.churnLimit = some churn
  frameKeyed : FrameKeyed table
  /-- The fields can be told apart. -/
  not_mem : ∀ field ∈ [active, exit, last, stringifyFrameBalances table, sweep, churn], '|' ∉ field

theorem writtenFields_of_saveDataToCache {store : ValidatorsStorageService} {written : List Char}
    (hcacheable : Cacheable store) (hwritten : saveDataToCache store = some written) :
    ∃ active exit last table sweep churn,
      WrittenFields store active exit last table sweep churn ∧
      written = ['|'].intercalate
        [active, exit, last, stringifyFrameBalances table, sweep, churn] := by
  simp only [saveDataToCache, Option.bind_eq_bind, Option.bind_eq_some_iff] at hwritten
  obtain ⟨active, hactive, last, hlast, table, htable, sweep, hsweep, churn, hchurn, hwritten⟩ :=
    hwritten
  have hkeyed := hcacheable.frameBalances table htable
  have hexit : '|' ∉ store.maxExitEpoch.getD [] := by
    cases hepoch : store.maxExitEpoch with
    | none => simp
    | some text => exact hcacheable.maxExitEpoch text hepoch
  refine ⟨active, store.maxExitEpoch.getD [], last, table, sweep, churn, ?_,
    (Option.some.inj hwritten).symm⟩
  refine ⟨hactive, rfl, hlast, htable, hsweep, hchurn, hkeyed, ?_⟩
  simp only [List.forall_mem_cons]
  exact ⟨not_mem_elementText? hactive, hexit, not_mem_elementText? hlast,
    not_mem_stringifyFrameBalances hkeyed, not_mem_elementText? hsweep,
    not_mem_elementText? hchurn, by simp⟩

namespace WrittenFields

variable {store : ValidatorsStorageService} {active exit last : List Char} {table : Record ℤ}
  {sweep churn : List Char}

/-- The whole text splits into the fields. -/
theorem splitOn_eq (h : WrittenFields store active exit last table sweep churn) :
    (['|'].intercalate [active, exit, last, stringifyFrameBalances table, sweep, churn]).splitOn
      '|' = [active, exit, last, stringifyFrameBalances table, sweep, churn] :=
  List.splitOn_intercalate '|' h.not_mem (List.cons_ne_nil _ _)

/-- A truncated text has fewer fields, or only the last one is short. -/
theorem splitOn_of_prefix (h : WrittenFields store active exit last table sweep churn)
    {content : List Char}
    (hpart : content <+: ['|'].intercalate
      [active, exit, last, stringifyFrameBalances table, sweep, churn]) :
    (content.splitOn '|').length ≠ 6 ∨ ∃ short, short <+: churn ∧
      content.splitOn '|' = [active, exit, last, stringifyFrameBalances table, sweep, short] := by
  by_cases hlength : (content.splitOn '|').length = 6
  · right
    obtain ⟨whole, field, short, hwhole, hshort, hsplit⟩ :=
      splitOn_of_prefix_of_length h.not_mem (List.cons_ne_nil _ _) hpart hlength
    have hlast : field = churn := by
      have hgetLast := congrArg List.getLast? hwhole
      simpa using hgetLast.symm
    -- the first five fields are the ones that were written
    have hfirst : whole = [active, exit, last, stringifyFrameBalances table, sweep] := by
      have hinit := congrArg List.dropLast hwhole
      simpa using hinit.symm
    rw [hfirst] at hsplit
    exact ⟨short, hlast ▸ hshort, hsplit⟩
  · exact Or.inl hlength

end WrittenFields

/-- A text without six fields is ignored. -/
theorem initializeFromCache_of_length_ne {content : List Char}
    (h : (content.splitOn '|').length ≠ 6) (now : ℤ) (store : ValidatorsStorageService) :
    initializeFromCache content now store = store := by
  unfold initializeFromCache initializeFromCacheWith
  split
  · next heq =>
      rw [heq] at h
      exact absurd rfl h
  · rfl

/-- What is left of a file is ignored, or it has all six fields and everything is
read. -/
theorem initializeFromCache_cases {content : List Char} (h : IsCacheContent content) (now : ℤ)
    (store : ValidatorsStorageService) :
    initializeFromCache content now store = store ∨
      ∃ activeValidatorsCount maxExitEpoch lastUpdate frameBalances sweepMeanEpochs churnLimit,
        '|' ∉ maxExitEpoch ∧ FrameKeyed frameBalances ∧
        initializeFromCache content now store = { store with
          activeValidatorsCount := some activeValidatorsCount
          maxExitEpoch := some maxExitEpoch
          lastUpdate := some lastUpdate
          frameBalances := some frameBalances
          sweepMeanEpochs := some sweepMeanEpochs
          churnLimit := some churnLimit } := by
  obtain ⟨earlier, written, hcacheable, hwritten, hprefix⟩ := h
  obtain ⟨active, exit, last, table, sweep, churn, hfields, rfl⟩ :=
    writtenFields_of_saveDataToCache hcacheable hwritten
  rcases hfields.splitOn_of_prefix hprefix with hlength | ⟨short, -, hsplit⟩
  · exact Or.inl (initializeFromCache_of_length_ne hlength now store)
  · by_cases hvalid : isDataValid (now / 1000) (JsNumber.ofText last) = true
    · right
      refine ⟨JsNumber.ofText active, exit, JsNumber.ofText last,
        Record.ofEntries table.objectEntries, JsNumber.ofText sweep, JsNumber.ofText short,
        hfields.not_mem exit (by simp), frameKeyed_ofEntries_objectEntries hfields.frameKeyed, ?_⟩
      simp only [initializeFromCache, initializeFromCacheWith, hsplit, hvalid, if_true,
        parseFrameBalances_stringifyFrameBalances hfields.frameKeyed]
    · left
      simp only [initializeFromCache, initializeFromCacheWith, hsplit, hvalid, if_false,
        Bool.false_eq_true]

/-! ## A file that is read back whole -/

/-- A count of at most 53 bits is written with all of its digits. -/
theorem elementText?_eq_some {n : ℕ} (hbits : n ≤ 2 ^ 53) {text : List Char}
    (h : elementText? (some (.finite n)) = some text) : text = Nat.toDigits 10 n := by
  obtain ⟨written, hwritten, rfl⟩ := JsNumber.exists_of_text?_natCast h
  rw [shortest?_of_le hbits] at hwritten
  rw [Option.some.inj hwritten]

/-- A count is read back. -/
theorem ofText_elementText? {n : ℤ} (h : 0 ≤ n) {text : List Char}
    (htext : elementText? (some (.finite n)) = some text) : JsNumber.ofText text = .finite n := by
  obtain ⟨k, rfl⟩ := Int.eq_ofNat_of_zero_le h
  rw [Int.cast_natCast] at htext ⊢
  exact JsNumber.ofText_of_text?_natCast htext

/-- A file that is less than three hours old is read: the counts as numbers, and the
table with its properties in the order in which they are listed. -/
theorem WrittenFields.initializeFromCache_eq {store : ValidatorsStorageService}
    {active exit last : List Char} {table : Record ℤ} {sweep churn : List Char}
    (h : WrittenFields store active exit last table sweep churn) {lastUpdate : ℤ}
    (hpositive : 0 ≤ lastUpdate) (hlastUpdate : store.lastUpdate = some (.finite lastUpdate))
    {now : ℤ} (hfresh : now / 1000 - lastUpdate < cacheInvalidateTime)
    (restarted : ValidatorsStorageService) :
    initializeFromCache (['|'].intercalate
        [active, exit, last, stringifyFrameBalances table, sweep, churn]) now restarted =
      { restarted with
        activeValidatorsCount := some (JsNumber.ofText active)
        maxExitEpoch := some exit
        lastUpdate := some (.finite lastUpdate)
        frameBalances := some (Record.ofEntries table.objectEntries)
        sweepMeanEpochs := some (JsNumber.ofText sweep)
        churnLimit := some (JsNumber.ofText churn) } := by
  have hlast := h.lastUpdate
  rw [hlastUpdate] at hlast
  have hread := ofText_elementText? hpositive hlast
  have hvalid : isDataValid (now / 1000) (.finite lastUpdate) = true :=
    decide_eq_true (by exact_mod_cast hfresh)
  simp only [initializeFromCache, initializeFromCacheWith, h.splitOn_eq, hread, hvalid, if_true,
    parseFrameBalances_stringifyFrameBalances h.frameKeyed]

/-- A file that is less than three hours old restores the table, with its properties
in the order in which they are listed; the list of validators is not in it. -/
theorem initializeFromCache_saveDataToCache {store : ValidatorsStorageService}
    {content : List Char} (hcacheable : Cacheable store)
    (hsaved : saveDataToCache store = some content) {lastUpdate : ℤ} (hpositive : 0 ≤ lastUpdate)
    (hlastUpdate : store.lastUpdate = some (.finite lastUpdate)) {now : ℤ}
    (hfresh : now / 1000 - lastUpdate < cacheInvalidateTime)
    (restarted : ValidatorsStorageService) :
    (initializeFromCache content now restarted).frameBalances =
        store.frameBalances.map (fun table => Record.ofEntries table.objectEntries) ∧
      (initializeFromCache content now restarted).withdrawableLidoValidatorIds =
        restarted.withdrawableLidoValidatorIds := by
  obtain ⟨active, exit, last, table, sweep, churn, hfields, rfl⟩ :=
    writtenFields_of_saveDataToCache hcacheable hsaved
  rw [hfields.initializeFromCache_eq hpositive hlastUpdate hfresh, hfields.frameBalances]
  exact ⟨rfl, rfl⟩

end WithdrawalsApi
