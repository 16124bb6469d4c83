/-
# The reader of the oracle limits

The limits are read from a contract whose address is looked up each time, and
whose answer is one of two tuples of words. Which of the two it is follows from
the number of words; the reader remembers it for the address, before anything is
decoded or checked, so that a read that fails leaves the version behind.

What a version is remembered for is an address, not an answer. As long as an
address answers with the same number of words, the memory makes no difference: a
read has the outcome it would have with a reader that remembers nothing.

The decoder of the tuples is a parameter. It is assumed to read them word by word.
-/

import WithdrawalsApi.Storage

namespace WithdrawalsApi

open Js

namespace OracleLimitsReader

/-! ## The tuples -/

/-- The components of the two tuples. -/
inductive LimitsField
  | exitedValidatorsPerDayLimit
  | appearedValidatorsPerDayLimit
  | exitedEthAmountPerDayLimit
  | appearedEthAmountPerDayLimit
  | annualBalanceIncreaseBPLimit
  | simulatedShareRateDeviationBPLimit
  | maxValidatorExitRequestsPerReport
  | maxBalanceExitRequestedPerReportInEth
  | maxEffectiveBalanceWeightWCType01
  | maxEffectiveBalanceWeightWCType02
  | maxItemsPerExtraDataTransaction
  | maxNodeOperatorsPerExtraDataItem
  | requestTimestampMargin
  | maxPositiveTokenRebase
  | initialSlashingAmountPWei
  | inactivityPenaltiesAmountPWei
  | maxCLBalanceDecreaseBP
  | clBalanceOraclesErrorUpperBPLimit
  | consolidationEthAmountPerDayLimit
  | exitedValidatorEthAmountLimit
  | externalPendingBalanceCapEth
  deriving DecidableEq, Repr

/-- `LEGACY_ORACLE_REPORT_LIMITS_ABI`. -/
def legacyOracleReportLimitsAbi : List LimitsField :=
  [.exitedValidatorsPerDayLimit, .appearedValidatorsPerDayLimit, .annualBalanceIncreaseBPLimit,
    .simulatedShareRateDeviationBPLimit, .maxValidatorExitRequestsPerReport,
    .maxItemsPerExtraDataTransaction, .maxNodeOperatorsPerExtraDataItem, .requestTimestampMargin,
    .maxPositiveTokenRebase, .initialSlashingAmountPWei, .inactivityPenaltiesAmountPWei,
    .clBalanceOraclesErrorUpperBPLimit]

/-- `SRV3_ORACLE_REPORT_LIMITS_ABI`. -/
def srv3OracleReportLimitsAbi : List LimitsField :=
  [.exitedEthAmountPerDayLimit, .appearedEthAmountPerDayLimit, .annualBalanceIncreaseBPLimit,
    .simulatedShareRateDeviationBPLimit, .maxBalanceExitRequestedPerReportInEth,
    .maxEffectiveBalanceWeightWCType01, .maxEffectiveBalanceWeightWCType02,
    .maxItemsPerExtraDataTransaction, .maxNodeOperatorsPerExtraDataItem, .requestTimestampMargin,
    .maxPositiveTokenRebase, .maxCLBalanceDecreaseBP, .clBalanceOraclesErrorUpperBPLimit,
    .consolidationEthAmountPerDayLimit, .exitedValidatorEthAmountLimit,
    .externalPendingBalanceCapEth]

/-- `LEGACY_LIMITS_WORD_COUNT`. -/
def legacyLimitsWordCount : ℕ := 12

/-- `SRV3_LIMITS_WORD_COUNT`. -/
def srv3LimitsWordCount : ℕ := 16

/-- `LEGACY_ETH_PER_VALIDATOR_EXIT`. -/
def legacyEthPerValidatorExit : ℕ := 32

/-- `REQUEST_TIMESTAMP_MARGIN_MAX_SEC`. -/
def requestTimestampMarginMaxSec : ℤ := 86400

/-- `MAX_BALANCE_EXIT_MAX_ETH`. -/
def maxBalanceExitMaxEth : ℤ := 65535

/-! ## The reader -/

inductive SanityCheckerVersion
  | legacy
  | srv3
  deriving DecidableEq, Repr

/-- The margin in seconds and the cap in whole ether. -/
structure UnifiedOracleReportLimits where
  requestTimestampMargin : ℕ
  maxBalanceExitRequestedPerReportInEth : ℕ
  deriving DecidableEq, Repr

/-- How a read fails; the decoder has faults of its own. -/
inductive ReadError (ε : Type)
  | rpc (reason : List Char)
  /-- `Unexpected getOracleReportLimits response from ${address}: wordCount=${wordCount}`. -/
  | unexpectedResponse (address : List Char) (wordCount : ℚ)
  | decoding (reason : ε)
  | fault (fault : Fault)
  /-- `requestTimestampMargin out of range: ${margin}s`. -/
  | marginOutOfRange (margin : ℤ)
  /-- `maxBalanceExitRequestedPerReportInEth out of range: ${cap} ETH`. -/
  | capOutOfRange (cap : ℤ)
  deriving DecidableEq

/-- What the two calls of a read answer: the address, as the locator spells it, and the
data as a hexadecimal text. -/
inductive Response
  | locatorRejected (reason : List Char)
  | callRejected (address reason : List Char)
  | answered (address data : List Char)

/-- The fields of the reader: the map, in the order of insertion. -/
structure Reader where
  versionByAddress : List (List Char × SanityCheckerVersion) := []

/-- The decoder, by the components of a tuple. -/
abbrev Decoder (ε : Type) := List LimitsField → List Char → Except ε (List ℕ)

def toLowerCase (address : List Char) : List Char := address.map Char.toLower

variable {ε : Type}

/-- The words of `0x` and 64 digits a word; there may be a part of a word. -/
def wordCount (data : List Char) : ℚ := ((data.length : ℚ) - 2) / 64

/-- Without an entry the version is detected, and kept. -/
def detectVersion (reader : Reader) (address data : List Char) :
    Reader × Except (ReadError ε) SanityCheckerVersion :=
  match reader.versionByAddress.lookup address with
  | some cached => (reader, .ok cached)
  | none =>
      let keep (version : SanityCheckerVersion) : Reader :=
        { versionByAddress := reader.versionByAddress ++ [(address, version)] }
      if srv3LimitsWordCount ≤ wordCount data then (keep .srv3, .ok .srv3)
      else if legacyLimitsWordCount ≤ wordCount data then (keep .legacy, .ok .legacy)
      else (reader, .error (.unexpectedResponse address (wordCount data)))

/-- A component of a decoded tuple, by its name. -/
def component (abi : List LimitsField) (decoded : List ℕ) (name : LimitsField) :
    Except (ReadError ε) ℕ :=
  match (abi.zip decoded).lookup name with
  | some value => .ok value
  | none => .error (.fault .undefinedRead)

def decode (decodeFunctionResult : Decoder ε) (version : SanityCheckerVersion)
    (data : List Char) : Except (ReadError ε) UnifiedOracleReportLimits :=
  match version with
  | .srv3 => do
      let abi := srv3OracleReportLimitsAbi
      let decoded ← (decodeFunctionResult abi data).mapError ReadError.decoding
      let requestTimestampMargin ← component abi decoded .requestTimestampMargin
      let cap ← component abi decoded .maxBalanceExitRequestedPerReportInEth
      pure { requestTimestampMargin, maxBalanceExitRequestedPerReportInEth := cap }
  | .legacy => do
      let abi := legacyOracleReportLimitsAbi
      let decoded ← (decodeFunctionResult abi data).mapError ReadError.decoding
      let requestTimestampMargin ← component abi decoded .requestTimestampMargin
      let count ← component abi decoded .maxValidatorExitRequestsPerReport
      pure {
        requestTimestampMargin
        maxBalanceExitRequestedPerReportInEth := count * legacyEthPerValidatorExit }

/-- A limit as a number, from zero to an upper bound. -/
def validateRange (limit : ℕ) (upper : ℤ) (outOfRange : ℤ → ReadError ε) :
    Except (ReadError ε) Unit :=
  match BigNumber.toNumber limit with
  | .error fault => .error (.fault fault)
  | .ok number =>
      if number < 0 ∨ upper < number then .error (outOfRange number) else .ok ()

def validateRanges (limits : UnifiedOracleReportLimits) : Except (ReadError ε) Unit := do
  validateRange limits.requestTimestampMargin requestTimestampMarginMaxSec .marginOutOfRange
  validateRange limits.maxBalanceExitRequestedPerReportInEth maxBalanceExitMaxEth .capOutOfRange

def read (decodeFunctionResult : Decoder ε) (reader : Reader) :
    Response → Reader × Except (ReadError ε) UnifiedOracleReportLimits
  | .locatorRejected reason => (reader, .error (.rpc reason))
  | .callRejected _ reason => (reader, .error (.rpc reason))
  | .answered address data =>
      let detected := detectVersion reader (toLowerCase address) data
      (detected.1, do
        let version ← detected.2
        let limits ← decode decodeFunctionResult version data
        validateRanges limits
        pure limits)

/-- The outcomes of reads one after the other. -/
def reads (decodeFunctionResult : Decoder ε) :
    Reader → List Response → List (Except (ReadError ε) UnifiedOracleReportLimits)
  | _, [] => []
  | reader, response :: responses =>
      let result := read decodeFunctionResult reader response
      result.2 :: reads decodeFunctionResult result.1 responses

/-- The outcome for a reader that has just been constructed. -/
def freshRead (decodeFunctionResult : Decoder ε) (response : Response) :
    Except (ReadError ε) UnifiedOracleReportLimits :=
  (read decodeFunctionResult {} response).2

/-! ## What an answer says -/

/-- The number of whole words. -/
def wholeWords (data : List Char) : ℕ := (data.length - 2) / 64

/-- The version by the number of whole words. -/
def versionOf (words : ℕ) : Option SanityCheckerVersion :=
  if srv3LimitsWordCount ≤ words then some .srv3
  else if legacyLimitsWordCount ≤ words then some .legacy
  else none

/-- A word as a number. -/
def word (data : List Char) (index : ℕ) : ℕ :=
  ((data.drop (2 + 64 * index)).take 64).foldl
    (fun value c => value * 16 + (JsNumber.radixDigit? 16 c).getD 0) 0

/-- Data of whole words. -/
structure WellFormed (data : List Char) : Prop where
  hexadecimal : ∃ digits, data = '0' :: 'x' :: digits ∧
    ∀ c ∈ digits, (JsNumber.radixDigit? 16 c).isSome
  whole : (data.length - 2) % 64 = 0

/-- A decoder reads static tuples word by word. -/
structure WordByWord (decodeFunctionResult : Decoder ε) : Prop where
  words : ∀ abi data decoded, decodeFunctionResult abi data = .ok decoded →
    decoded = (List.range abi.length).map (word data)
  decodes : ∀ abi data, WellFormed data → abi.length ≤ wholeWords data →
    ∃ decoded, decodeFunctionResult abi data = .ok decoded

/-- What the words say in either version. -/
def limitsOf (data : List Char) : SanityCheckerVersion → UnifiedOracleReportLimits
  | .srv3 => {
      requestTimestampMargin := word data 9
      maxBalanceExitRequestedPerReportInEth := word data 4 }
  | .legacy => {
      requestTimestampMargin := word data 7
      maxBalanceExitRequestedPerReportInEth := 32 * word data 4 }

/-- The ranges in which limits are stored. -/
structure InRange (limits : UnifiedOracleReportLimits) : Prop where
  margin : limits.requestTimestampMargin ≤ 86400
  cap : limits.maxBalanceExitRequestedPerReportInEth ≤ 65535

/-- An answer admits limits: its words are those of a version, and in range. -/
structure Admits (data : List Char) (limits : UnifiedOracleReportLimits) : Prop where
  words : (16 ≤ wholeWords data ∧ limits.requestTimestampMargin = word data 9 ∧
      limits.maxBalanceExitRequestedPerReportInEth = word data 4) ∨
    (12 ≤ wholeWords data ∧ wholeWords data ≤ 15 ∧
      limits.requestTimestampMargin = word data 7 ∧
      limits.maxBalanceExitRequestedPerReportInEth = 32 * word data 4)
  inRange : InRange limits

theorem versionOf_eq_srv3_iff {words : ℕ} : versionOf words = some .srv3 ↔ 16 ≤ words := by
  unfold versionOf srv3LimitsWordCount legacyLimitsWordCount
  grind

theorem versionOf_eq_legacy_iff {words : ℕ} :
    versionOf words = some .legacy ↔ 12 ≤ words ∧ words ≤ 15 := by
  unfold versionOf srv3LimitsWordCount legacyLimitsWordCount
  grind

/-- The words of an answer are read in the version that is detected. -/
theorem admits_iff {data : List Char} {limits : UnifiedOracleReportLimits} :
    Admits data limits ↔ ∃ version, versionOf (wholeWords data) = some version ∧
      limits = limitsOf data version ∧ InRange limits := by
  constructor
  · rintro ⟨⟨hwords, hmargin, hcap⟩ | ⟨hlower, hupper, hmargin, hcap⟩, hrange⟩
    · refine ⟨.srv3, versionOf_eq_srv3_iff.mpr hwords, ?_, hrange⟩
      rw [limitsOf, ← hmargin, ← hcap]
    · refine ⟨.legacy, versionOf_eq_legacy_iff.mpr ⟨hlower, hupper⟩, ?_, hrange⟩
      rw [limitsOf, ← hmargin, ← hcap]
  · rintro ⟨version, hversion, rfl, hrange⟩
    refine ⟨?_, hrange⟩
    cases version with
    | srv3 => exact Or.inl ⟨versionOf_eq_srv3_iff.mp hversion, rfl, rfl⟩
    | legacy =>
        obtain ⟨hlower, hupper⟩ := versionOf_eq_legacy_iff.mp hversion
        exact Or.inr ⟨hlower, hupper, rfl, rfl⟩

theorem natCast_le_wordCount_iff {n : ℕ} (hn : 0 < n) (data : List Char) :
    (n : ℚ) ≤ wordCount data ↔ n ≤ wholeWords data := by
  have hsub : n * 64 ≤ data.length - 2 ↔ n * 64 + 2 ≤ data.length := by omega
  rw [wordCount, wholeWords, le_div_iff₀ (by norm_num), le_sub_iff_add_le,
    Nat.le_div_iff_mul_le (by norm_num), hsub]
  exact_mod_cast Iff.rfl

/-- The version is detected by the whole words. -/
theorem detectVersion_of_lookup_eq_none (reader : Reader) (address data : List Char)
    (h : reader.versionByAddress.lookup address = none) :
    (detectVersion reader address data : Reader × Except (ReadError ε) _) =
      match versionOf (wholeWords data) with
      | some version =>
          ({ versionByAddress := reader.versionByAddress ++ [(address, version)] }, .ok version)
      | none => (reader, .error (.unexpectedResponse address (wordCount data))) := by
  have hsrv3 := natCast_le_wordCount_iff (n := srv3LimitsWordCount) (by decide) data
  have hlegacy := natCast_le_wordCount_iff (n := legacyLimitsWordCount) (by decide) data
  rw [detectVersion, h, versionOf]
  simp only [hsrv3, hlegacy]
  split_ifs <;> rfl

theorem component_srv3 (data : List Char) :
    (component srv3OracleReportLimitsAbi ((List.range 16).map (word data)) .requestTimestampMargin :
      Except (ReadError ε) ℕ) = .ok (word data 9) ∧
    (component srv3OracleReportLimitsAbi ((List.range 16).map (word data))
      .maxBalanceExitRequestedPerReportInEth : Except (ReadError ε) ℕ) = .ok (word data 4) :=
  ⟨rfl, rfl⟩

theorem component_legacy (data : List Char) :
    (component legacyOracleReportLimitsAbi ((List.range 12).map (word data))
      .requestTimestampMargin : Except (ReadError ε) ℕ) = .ok (word data 7) ∧
    (component legacyOracleReportLimitsAbi ((List.range 12).map (word data))
      .maxValidatorExitRequestsPerReport : Except (ReadError ε) ℕ) = .ok (word data 4) :=
  ⟨rfl, rfl⟩

/-- The tuple of a version. -/
def abiOf : SanityCheckerVersion → List LimitsField
  | .srv3 => srv3OracleReportLimitsAbi
  | .legacy => legacyOracleReportLimitsAbi

/-- Whatever is decoded, the limits are those of the words. -/
theorem decode_eq {decodeFunctionResult : Decoder ε} (hdecoder : WordByWord decodeFunctionResult)
    (version : SanityCheckerVersion) (data : List Char) :
    decode decodeFunctionResult version data =
      ((decodeFunctionResult (abiOf version) data).mapError ReadError.decoding).map
        fun _ => limitsOf data version := by
  cases version with
  | srv3 =>
      simp only [decode, abiOf]
      cases h : decodeFunctionResult srv3OracleReportLimitsAbi data with
      | error reason => rfl
      | ok decoded =>
          have hwords : decoded = (List.range 16).map (word data) := hdecoder.words _ _ _ h
          obtain ⟨hmargin, hcap⟩ := component_srv3 (ε := ε) data
          simp only [Except.mapError, bind, Except.bind, hwords, hmargin, hcap]
          rfl
  | legacy =>
      simp only [decode, abiOf]
      cases h : decodeFunctionResult legacyOracleReportLimitsAbi data with
      | error reason => rfl
      | ok decoded =>
          have hwords : decoded = (List.range 12).map (word data) := hdecoder.words _ _ _ h
          obtain ⟨hmargin, hcount⟩ := component_legacy (ε := ε) data
          have hcap : word data 4 * legacyEthPerValidatorExit = 32 * word data 4 := mul_comm _ _
          simp only [Except.mapError, bind, Except.bind, hwords, hmargin, hcount, hcap]
          rfl

theorem validateRange_eq_ok_iff (limit : ℕ) {upper : ℤ} (hupper : upper ≤ maxSafeInteger)
    (outOfRange : ℤ → ReadError ε) :
    validateRange limit upper outOfRange = .ok () ↔ (limit : ℤ) ≤ upper := by
  simp only [validateRange, BigNumber.toNumber]
  by_cases hsafe : IsSafeInteger limit
  · rw [if_pos hsafe]
    by_cases hrange : (limit : ℤ) ≤ upper
    · simp [hrange]
    · simp [hrange, not_le.mp hrange]
  · rw [if_neg hsafe]
    have hlarge : ¬ (limit : ℤ) ≤ upper := by
      intro hle
      apply hsafe
      simp only [IsSafeInteger, maxSafeInteger] at hupper ⊢
      omega
    simp [hlarge]

/-- The ranges are those of the stored limits. -/
theorem validateRanges_eq_ok_iff (limits : UnifiedOracleReportLimits) :
    (validateRanges limits : Except (ReadError ε) Unit) = .ok () ↔ InRange limits := by
  have hmargin := validateRange_eq_ok_iff limits.requestTimestampMargin
    (show requestTimestampMarginMaxSec ≤ maxSafeInteger by decide)
    (ReadError.marginOutOfRange : ℤ → ReadError ε)
  have hcap := validateRange_eq_ok_iff limits.maxBalanceExitRequestedPerReportInEth
    (show maxBalanceExitMaxEth ≤ maxSafeInteger by decide)
    (ReadError.capOutOfRange : ℤ → ReadError ε)
  have hrange : InRange limits ↔
      (limits.requestTimestampMargin : ℤ) ≤ requestTimestampMarginMaxSec ∧
        (limits.maxBalanceExitRequestedPerReportInEth : ℤ) ≤ maxBalanceExitMaxEth := by
    simp only [requestTimestampMarginMaxSec, maxBalanceExitMaxEth]
    refine ⟨fun h => ⟨by exact_mod_cast h.margin, by exact_mod_cast h.cap⟩, fun h => ?_⟩
    exact ⟨by exact_mod_cast h.1, by exact_mod_cast h.2⟩
  rw [validateRanges, hrange, ← hmargin, ← hcap]
  cases validateRange limits.requestTimestampMargin requestTimestampMarginMaxSec
    (ReadError.marginOutOfRange : ℤ → ReadError ε) with
  | error reason => simp [bind, Except.bind]
  | ok checked => simp [bind, Except.bind]

/-- What follows the detection of a version. -/
def limitsByVersion (decodeFunctionResult : Decoder ε) (version : SanityCheckerVersion)
    (data : List Char) : Except (ReadError ε) UnifiedOracleReportLimits := do
  let limits ← decode decodeFunctionResult version data
  validateRanges limits
  pure limits

theorem limitsByVersion_eq_ok_iff {decodeFunctionResult : Decoder ε}
    (hdecoder : WordByWord decodeFunctionResult) {version : SanityCheckerVersion}
    {data : List Char} {limits : UnifiedOracleReportLimits} :
    limitsByVersion decodeFunctionResult version data = .ok limits ↔
      (∃ decoded, decodeFunctionResult (abiOf version) data = .ok decoded) ∧
        limits = limitsOf data version ∧ InRange limits := by
  rw [limitsByVersion, decode_eq hdecoder]
  cases decodeFunctionResult (abiOf version) data with
  | error reason => simp [Except.mapError, Except.map, bind, Except.bind]
  | ok decoded =>
      have hranges := validateRanges_eq_ok_iff (ε := ε) (limitsOf data version)
      simp only [Except.mapError, Except.map, bind, Except.bind]
      cases hchecked : validateRanges (ε := ε) (limitsOf data version) with
      | error reason =>
          rw [hchecked] at hranges
          have hout : ¬ InRange (limitsOf data version) := fun h => by simpa using hranges.mpr h
          have hnone : ¬ (limits = limitsOf data version ∧ InRange limits) := by
            rintro ⟨rfl, h⟩
            exact hout h
          simp [hnone]
      | ok checked =>
          have hin := hranges.mp hchecked
          constructor
          · rintro ⟨⟩
            exact ⟨⟨decoded, rfl⟩, rfl, hin⟩
          · rintro ⟨-, rfl, -⟩
            rfl

/-! ## A reader that remembers nothing -/

/-- A fresh reader detects the version of every answer. -/
theorem freshRead_answered (decodeFunctionResult : Decoder ε) (address data : List Char) :
    freshRead decodeFunctionResult (.answered address data) =
      match versionOf (wholeWords data) with
      | some version => limitsByVersion decodeFunctionResult version data
      | none => .error (.unexpectedResponse (toLowerCase address) (wordCount data)) := by
  have hdetect := detectVersion_of_lookup_eq_none (ε := ε) {} (toLowerCase address) data rfl
  simp only [freshRead, read, hdetect]
  cases versionOf (wholeWords data) <;> rfl

/-- Limits are read from the words of an answer only. -/
theorem admits_of_freshRead {decodeFunctionResult : Decoder ε}
    (hdecoder : WordByWord decodeFunctionResult) {response : Response}
    {limits : UnifiedOracleReportLimits}
    (h : freshRead decodeFunctionResult response = .ok limits) :
    ∃ address data, response = .answered address data ∧ Admits data limits := by
  cases response with
  | locatorRejected reason => cases h
  | callRejected address reason => cases h
  | answered address data =>
      rw [freshRead_answered] at h
      cases hversion : versionOf (wholeWords data) with
      | none =>
          rw [hversion] at h
          cases h
      | some version =>
          rw [hversion] at h
          obtain ⟨-, hlimits, hrange⟩ := (limitsByVersion_eq_ok_iff hdecoder).mp h
          exact ⟨address, data, rfl, admits_iff.mpr ⟨version, hversion, hlimits, hrange⟩⟩

/-- Whatever an answer of whole words admits is read. -/
theorem freshRead_of_admits {decodeFunctionResult : Decoder ε}
    (hdecoder : WordByWord decodeFunctionResult) {address data : List Char}
    {limits : UnifiedOracleReportLimits} (hdata : WellFormed data) (h : Admits data limits) :
    freshRead decodeFunctionResult (.answered address data) = .ok limits := by
  obtain ⟨version, hversion, hlimits, hrange⟩ := admits_iff.mp h
  have henough : (abiOf version).length ≤ wholeWords data := by
    cases version with
    | srv3 => exact versionOf_eq_srv3_iff.mp hversion
    | legacy => exact (versionOf_eq_legacy_iff.mp hversion).1
  have hdecodes := hdecoder.decodes _ _ hdata henough
  rw [freshRead_answered, hversion]
  exact (limitsByVersion_eq_ok_iff hdecoder).mpr ⟨hdecodes, hlimits, hrange⟩

/-! ## Every sequence of reads -/

/-- Each address answers with one number of words, however it is spelled. -/
def SameWords (responses : List Response) : Prop :=
  ∀ first firstData second secondData,
    .answered first firstData ∈ responses → .answered second secondData ∈ responses →
    toLowerCase first = toLowerCase second → wholeWords firstData = wholeWords secondData

/-- What is remembered for an address is the version of its answers. -/
def Remembers (responses : List Response) (reader : Reader) : Prop :=
  ∀ address version, reader.versionByAddress.lookup address = some version →
    ∃ spelled data, .answered spelled data ∈ responses ∧ toLowerCase spelled = address ∧
      versionOf (wholeWords data) = some version

/-- An answer is detected as by a fresh reader, and its version is remembered. -/
theorem detectVersion_of_remembers {responses : List Response} (hsame : SameWords responses)
    {reader : Reader} (hreader : Remembers responses reader) {address data : List Char}
    (hmem : .answered address data ∈ responses) :
    (detectVersion reader (toLowerCase address) data :
        Reader × Except (ReadError ε) SanityCheckerVersion).2 =
      (detectVersion {} (toLowerCase address) data).2 ∧
    Remembers responses (detectVersion reader (toLowerCase address) data :
        Reader × Except (ReadError ε) SanityCheckerVersion).1 := by
  have hfresh := detectVersion_of_lookup_eq_none (ε := ε) {} (toLowerCase address) data rfl
  cases hcached : reader.versionByAddress.lookup (toLowerCase address) with
  | some cached =>
      -- the entry stems from an answer with as many words
      obtain ⟨spelled, other, hother, hspelled, hversion⟩ := hreader _ _ hcached
      rw [hsame _ _ _ _ hother hmem hspelled] at hversion
      rw [detectVersion, hcached, hfresh, hversion]
      exact ⟨rfl, hreader⟩
  | none =>
      rw [detectVersion_of_lookup_eq_none reader _ _ hcached, hfresh]
      cases hversion : versionOf (wholeWords data) with
      | none => exact ⟨rfl, hreader⟩
      | some version =>
          refine ⟨rfl, fun other known hknown => ?_⟩
          rw [List.lookup_append] at hknown
          cases hlookup : reader.versionByAddress.lookup other with
          | some kept =>
              rw [hlookup] at hknown
              cases hknown
              exact hreader other _ hlookup
          | none =>
              rw [hlookup, Option.none_or, List.lookup_cons] at hknown
              split at hknown
              case h_1 heq =>
                cases hknown
                exact ⟨address, data, hmem, (eq_of_beq heq).symm, hversion⟩
              case h_2 => cases hknown

/-- A read has the outcome of a fresh reader, and remembers no other version. -/
theorem read_of_remembers (decodeFunctionResult : Decoder ε) {responses : List Response}
    (hsame : SameWords responses) {reader : Reader} (hreader : Remembers responses reader)
    {response : Response} (hmem : response ∈ responses) :
    (read decodeFunctionResult reader response).2 = freshRead decodeFunctionResult response ∧
      Remembers responses (read decodeFunctionResult reader response).1 := by
  cases response with
  | locatorRejected reason => exact ⟨rfl, hreader⟩
  | callRejected address reason => exact ⟨rfl, hreader⟩
  | answered address data =>
      obtain ⟨hversion, hafter⟩ := detectVersion_of_remembers (ε := ε) hsame hreader hmem
      refine ⟨?_, hafter⟩
      simp only [freshRead, read, hversion]

/-- A sequence of reads of a reader that remembers right. -/
theorem reads_of_remembers (decodeFunctionResult : Decoder ε) {all : List Response}
    (hsame : SameWords all) {reader : Reader} (hreader : Remembers all reader)
    {responses : List Response} (hsubset : responses ⊆ all) :
    reads decodeFunctionResult reader responses =
      responses.map (freshRead decodeFunctionResult) := by
  induction responses generalizing reader with
  | nil => rfl
  | cons response responses ih =>
      obtain ⟨houtcome, hafter⟩ := read_of_remembers decodeFunctionResult hsame hreader
        (hsubset List.mem_cons_self)
      rw [reads, List.map_cons, houtcome,
        ih hafter fun other hmem => hsubset (List.mem_cons_of_mem _ hmem)]

/-- **The memory of the reader makes no difference**: every read of a sequence has the
outcome of a fresh reader, and that is what the words of the answer say. -/
theorem reads_eq_freshRead {decodeFunctionResult : Decoder ε}
    (hdecoder : WordByWord decodeFunctionResult) {responses : List Response}
    (hsame : SameWords responses) :
    reads decodeFunctionResult {} responses = responses.map (freshRead decodeFunctionResult) ∧
      (∀ response ∈ responses, ∀ limits, freshRead decodeFunctionResult response = .ok limits →
        ∃ address data, response = .answered address data ∧ Admits data limits) ∧
      ∀ address data limits, .answered address data ∈ responses → WellFormed data →
        Admits data limits →
          freshRead decodeFunctionResult (.answered address data) = .ok limits := by
  have hempty : Remembers responses {} := fun _ _ hlookup => (by cases hlookup)
  refine ⟨reads_of_remembers decodeFunctionResult hsame hempty (List.Subset.refl _), ?_, ?_⟩
  · exact fun _ _ _ h => admits_of_freshRead hdecoder h
  · exact fun _ _ _ _ hdata h => freshRead_of_admits hdecoder hdata h

/-- A decoder that accepts whole words, when they are enough. -/
def wholeWordDecoder : Decoder Unit := fun abi data =>
  if (data.length - 2) % 64 = 0 ∧ abi.length ≤ wholeWords data then
    .ok ((List.range abi.length).map (word data))
  else .error ()

theorem wordByWord_wholeWordDecoder : WordByWord wholeWordDecoder where
  words abi data decoded h := by
    simp only [wholeWordDecoder] at h
    split_ifs at h
    exact (Except.ok.inj h).symm
  decodes abi data hdata henough := ⟨_, if_pos ⟨hdata.whole, henough⟩⟩

/-- A tuple as data. -/
def encodeTuple (values : List ℕ) : List Char :=
  '0' :: 'x' :: values.flatMap fun value =>
    List.replicate (64 - (Nat.toDigits 16 value).length) '0' ++ Nat.toDigits 16 value

/-- The legacy contract answers, the node rejects a call, and the contract is replaced. -/
def rotation : List Response :=
  [.answered "0x53417bA9".toList
      (encodeTuple [9000, 43200, 1000, 50, 600, 8, 24, 7200, 750000, 1000, 101, 50]),
    .callRejected "0x53417bA9".toList "timeout".toList,
    .answered "0x049A972e".toList
      (encodeTuple [57600, 57600, 1000, 50, 19200, 32, 2048, 8, 24, 7200, 750000, 360, 50, 93375,
        32, 300])]

theorem sameWords_rotation : SameWords rotation := by
  intro first firstData second secondData hfirst hsecond h
  simp only [rotation, List.mem_cons, Response.answered.injEq, reduceCtorEq, List.not_mem_nil,
    or_false, false_or] at hfirst hsecond
  rcases hfirst with ⟨rfl, rfl⟩ | ⟨rfl, rfl⟩ <;> rcases hsecond with ⟨rfl, rfl⟩ | ⟨rfl, rfl⟩
  case inl.inl => rfl
  case inl.inr => exact absurd h (by decide)
  case inr.inl => exact absurd h (by decide)
  case inr.inr => rfl

/-- Both contracts say the same: a margin of two hours and a cap of 19200 ether. -/
theorem reads_eq_freshRead_rotation :
    reads wholeWordDecoder {} rotation =
      [.ok { requestTimestampMargin := 7200, maxBalanceExitRequestedPerReportInEth := 19200 },
        .error (.rpc "timeout".toList),
        .ok { requestTimestampMargin := 7200, maxBalanceExitRequestedPerReportInEth := 19200 }] :=
  (reads_eq_freshRead wordByWord_wholeWordDecoder sameWords_rotation).1.trans (by decide +kernel)

end OracleLimitsReader

end WithdrawalsApi
