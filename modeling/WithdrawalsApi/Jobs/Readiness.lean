/-
# The readiness gate can be trusted

`checkIsInitializing` looks at five values and the estimates read many more. In
every run of the jobs, with any failures, an open gate means that all of them are
there.

The queue job and the configuration job store their update time last, or with
everything else. The full update stores the table before its update time and the
sweep delay before the churn limit, but the counts long before the table: what
the gate needs is that the update time is never there without a table. A cache
file is the danger here, since it is read field by field; a truncated file is
read entirely or not at all.
-/

import WithdrawalsApi.Jobs.System

namespace WithdrawalsApi

open Js Math ValidatorsService

/-- Every stored value the estimates read is there. -/
structure Stores.ReadingsDefined (stores : Stores) : Prop where
  frameBalances : stores.validators.frameBalances.isSome
  maxExitEpoch : stores.validators.maxExitEpoch.isSome
  sweepMeanEpochs : stores.validators.sweepMeanEpochs.isSome
  churnLimit : stores.validators.churnLimit.isSome
  lastRequestId : stores.queueInfo.lastRequestId.isSome
  nextUpdate : stores.queueInfo.nextUpdate.isSome
  bunkerModeActive : stores.queueInfo.bunkerModeActive.isSome
  initialEpoch : stores.contractConfig.initialEpoch.isSome
  epochsPerFrame : stores.contractConfig.epochsPerFrame.isSome
  epochsPerFrameVEBO : stores.contractConfig.epochsPerFrameVEBO.isSome
  requestTimestampMargin : stores.contractConfig.requestTimestampMargin.isSome
  maxBalanceExitRequestedPerReportInEth :
    stores.contractConfig.maxBalanceExitRequestedPerReportInEth.isSome

/-! ## The invariants of the stores -/

/-- What holds of the validators store at every await. -/
structure ValidatorsReady (store : ValidatorsStorageService) : Prop where
  cacheable : Cacheable store
  frameBalances : store.lastUpdate.isSome → store.frameBalances.isSome
  maxExitEpoch : store.lastUpdate.isSome → store.maxExitEpoch.isSome
  sweepMeanEpochs : store.churnLimit.isSome → store.sweepMeanEpochs.isSome

structure QueueInfoReady (store : QueueInfoStorageService) : Prop where
  lastRequestId : store.lastUpdate.isSome → store.lastRequestId.isSome
  nextUpdate : store.lastUpdate.isSome → store.nextUpdate.isSome
  bunkerModeActive : store.lastUpdate.isSome → store.bunkerModeActive.isSome

structure ContractConfigReady (store : ContractConfigStorageService) : Prop where
  initialEpoch : store.lastUpdate.isSome → store.initialEpoch.isSome
  epochsPerFrame : store.lastUpdate.isSome → store.epochsPerFrame.isSome
  epochsPerFrameVEBO : store.lastUpdate.isSome → store.epochsPerFrameVEBO.isSome
  requestTimestampMargin : store.lastUpdate.isSome → store.requestTimestampMargin.isSome
  maxBalanceExitRequestedPerReportInEth :
    store.lastUpdate.isSome → store.maxBalanceExitRequestedPerReportInEth.isSome

/-- What holds of the memory at every await. -/
structure Ready (memory : Memory) : Prop where
  validators : ValidatorsReady memory.stores.validators
  queueInfo : QueueInfoReady memory.stores.queueInfo
  contractConfig : ContractConfigReady memory.stores.contractConfig
  cacheFile : ∀ content, memory.cacheFile = some content → IsCacheContent content

/-- The assertions survive: what they say is there stays there. -/
structure Keeps (before after : ValidatorsStorageService) : Prop where
  sweepMeanEpochs : before.sweepMeanEpochs.isSome → after.sweepMeanEpochs.isSome
  maxExitEpoch : before.maxExitEpoch.isSome → after.maxExitEpoch.isSome
  frameBalances : before.frameBalances.isSome → after.frameBalances.isSome

theorem Keeps.refl (store : ValidatorsStorageService) : Keeps store store := ⟨id, id, id⟩

/-- An open gate means that every value is there. -/
theorem Ready.readingsDefined {memory : Memory} (h : Ready memory)
    (hopen : memory.stores.isInitialized = true) : memory.stores.ReadingsDefined := by
  simp only [Stores.isInitialized, Bool.and_eq_true] at hopen
  obtain ⟨⟨⟨hlast, hchurn⟩, hqueue⟩, hconfig⟩ := hopen
  have hnumber {value : Option JsNumber} (htruthy : truthyNumber value = true) : value.isSome := by
    cases value with
    | none => cases htruthy
    | some _ => rfl
  have hinteger {value : Option ℤ} (htruthy : truthyInteger value = true) : value.isSome := by
    cases value with
    | none => cases htruthy
    | some _ => rfl
  exact {
    frameBalances := h.validators.frameBalances (hnumber hlast)
    maxExitEpoch := h.validators.maxExitEpoch (hnumber hlast)
    sweepMeanEpochs := h.validators.sweepMeanEpochs (hnumber hchurn)
    churnLimit := hnumber hchurn
    lastRequestId := h.queueInfo.lastRequestId (hinteger hqueue)
    nextUpdate := h.queueInfo.nextUpdate (hinteger hqueue)
    bunkerModeActive := h.queueInfo.bunkerModeActive (hinteger hqueue)
    initialEpoch := h.contractConfig.initialEpoch (hinteger hconfig)
    epochsPerFrame := h.contractConfig.epochsPerFrame (hinteger hconfig)
    epochsPerFrameVEBO := h.contractConfig.epochsPerFrameVEBO (hinteger hconfig)
    requestTimestampMargin := h.contractConfig.requestTimestampMargin (hinteger hconfig)
    maxBalanceExitRequestedPerReportInEth :=
      h.contractConfig.maxBalanceExitRequestedPerReportInEth (hinteger hconfig) }

/-! ## What the setters preserve -/

namespace ValidatorsReady

variable {store : ValidatorsStorageService}

theorem setSweepMeanEpochs (h : ValidatorsReady store) (value : JsNumber) :
    ValidatorsReady { store with sweepMeanEpochs := some value } where
  cacheable := ⟨h.cacheable.maxExitEpoch, h.cacheable.frameBalances⟩
  frameBalances := h.frameBalances
  maxExitEpoch := h.maxExitEpoch
  sweepMeanEpochs := fun _ => rfl

theorem setCounts (h : ValidatorsReady store) (hsweep : store.sweepMeanEpochs.isSome)
    (update : Update) : ValidatorsReady (setCounts update store) where
  cacheable := by
    refine ⟨fun text htext => ?_, h.cacheable.frameBalances⟩
    obtain rfl : integerText update.count.maxExitEpoch = text := Option.some.inj htext
    exact not_mem_integerText (by decide) (by decide) _
  frameBalances := h.frameBalances
  maxExitEpoch := fun _ => rfl
  sweepMeanEpochs := fun _ => hsweep

theorem setFrameBalances (h : ValidatorsReady store) (tally : Tally) (ids : List ℕ) :
    ValidatorsReady { store with
      frameBalances := some tally.frameBalances
      withdrawableLidoValidatorIds := ids } where
  cacheable := by
    refine ⟨h.cacheable.maxExitEpoch, fun table htable => ?_⟩
    obtain rfl : tally.frameBalances = table := Option.some.inj htable
    exact tally.frameKeyed
  frameBalances := fun _ => rfl
  maxExitEpoch := h.maxExitEpoch
  sweepMeanEpochs := h.sweepMeanEpochs

theorem setLastUpdate (h : ValidatorsReady store) (htable : store.frameBalances.isSome)
    (hexit : store.maxExitEpoch.isSome) (value : JsNumber) :
    ValidatorsReady { store with lastUpdate := some value } where
  cacheable := ⟨h.cacheable.maxExitEpoch, h.cacheable.frameBalances⟩
  frameBalances := fun _ => htable
  maxExitEpoch := fun _ => hexit
  sweepMeanEpochs := h.sweepMeanEpochs

/-- A file left by a crash is read entirely or not at all. -/
theorem initializeFromCache (h : ValidatorsReady store) {content : List Char}
    (hcontent : IsCacheContent content) (now : ℤ) :
    ValidatorsReady (initializeFromCache content now store) ∧
      Keeps store (WithdrawalsApi.initializeFromCache content now store) := by
  rcases initializeFromCache_cases hcontent now store with
    hsame | ⟨active, exit, last, table, sweep, churn, hexit, hkeyed, hall⟩
  · rw [hsame]
    exact ⟨h, .refl store⟩
  · rw [hall]
    refine ⟨⟨⟨fun text htext => ?_, fun other hother => ?_⟩, ?_, ?_, ?_⟩, ⟨?_, ?_, ?_⟩⟩
    · obtain rfl : exit = text := Option.some.inj htext
      exact hexit
    · obtain rfl : table = other := Option.some.inj hother
      exact hkeyed
    all_goals exact fun _ => rfl

end ValidatorsReady

/-- The assignments of the configuration job lose no value, and the update time
comes last. -/
theorem ContractConfigReady.assign {store : ContractConfigStorageService}
    (h : ContractConfigReady store) (wasSrv3KnownLastTick : Bool)
    (reads : ContractConfigService.ContractReads) (now : ℤ) :
    ContractConfigReady (ContractConfigService.assign wasSrv3KnownLastTick reads now store) := by
  by_cases hinitial : ContractConfigService.isNumber reads.frameConfig.initialEpoch = true
  · by_cases hvebo : ContractConfigService.isNumber reads.veboFrameConfig.epochsPerFrame = true
    · by_cases hframe : ContractConfigService.isNumber reads.frameConfig.epochsPerFrame = true
      · simp only [ContractConfigService.assign, if_pos hinitial, if_pos hvebo, if_pos hframe]
        exact ⟨fun _ => rfl, fun _ => rfl, fun _ => rfl, fun _ => rfl, fun _ => rfl⟩
      · simp only [ContractConfigService.assign, if_pos hinitial, if_pos hvebo, if_neg hframe]
        exact ⟨fun _ => rfl, h.epochsPerFrame, fun _ => rfl, fun _ => rfl, fun _ => rfl⟩
    · simp only [ContractConfigService.assign, if_pos hinitial, if_neg hvebo]
      exact ⟨fun _ => rfl, h.epochsPerFrame, h.epochsPerFrameVEBO, fun _ => rfl, fun _ => rfl⟩
  · simp only [ContractConfigService.assign, if_neg hinitial]
    exact ⟨h.initialEpoch, h.epochsPerFrame, h.epochsPerFrameVEBO, fun _ => rfl, fun _ => rfl⟩

theorem QueueInfoReady.published (queue : QueueInfoService.QueueState)
    (requests : List WithdrawalRequest) (clock : QueueInfoService.CronClock) :
    QueueInfoReady (QueueInfoService.published queue requests clock) :=
  ⟨fun _ => rfl, fun _ => rfl, fun _ => rfl⟩

/-! ## What the segments preserve -/

/-- A content that has been read is one a crash may leave. -/
def loadAsserts : Option ValidatorsCacheService.Suspension → Prop
  | some (.closing content) => IsCacheContent content
  | _ => True

/-- What the full update has already stored where it is suspended. -/
def updateAsserts (suspended : Option UpdateValidators.Suspension)
    (store : ValidatorsStorageService) : Prop :=
  match suspended with
  | some (.counting _ _) => store.sweepMeanEpochs.isSome
  | some (.fetchingKeys _) => store.maxExitEpoch.isSome
  | some (.fetchingSweepState _ _ _) => store.maxExitEpoch.isSome
  | some (.summing _ _ _ _ _ _) => store.maxExitEpoch.isSome
  | some (.storedFrameBalances _ _ _) => store.maxExitEpoch.isSome ∧ store.frameBalances.isSome
  | some (.writingCache _ data) => ∃ saved, Cacheable saved ∧ saveDataToCache saved = some data
  | _ => True

theorem updateAsserts_of_keeps {suspended : Option UpdateValidators.Suspension}
    {before after : ValidatorsStorageService} (h : updateAsserts suspended before)
    (hkeeps : Keeps before after) : updateAsserts suspended after := by
  unfold updateAsserts at h ⊢
  split
  · exact hkeeps.sweepMeanEpochs h
  · exact hkeeps.maxExitEpoch h
  · exact hkeeps.maxExitEpoch h
  · exact hkeeps.maxExitEpoch h
  · exact ⟨hkeeps.maxExitEpoch h.1, hkeeps.frameBalances h.2⟩
  · exact h
  · trivial

/-- What a segment that starts in a memory has to establish. -/
structure Establishes {Suspension : Type} (asserts : Option Suspension →
    ValidatorsStorageService → Prop) (memory : Memory) (result : Memory × Option Suspension) :
    Prop where
  ready : Ready result.1
  asserts : asserts result.2 result.1.stores.validators
  keeps : Keeps memory.stores.validators result.1.stores.validators

/-- A job that asserts nothing has to keep the memory ready. -/
theorem Establishes.of_fst_eq {Suspension : Type} {memory after : Memory}
    {result : Memory × Option Suspension} (hfst : result.1 = after) (hready : Ready after)
    (hkeeps : Keeps memory.stores.validators after.stores.validators) :
    Establishes (fun _ _ => True) memory result := by
  subst hfst
  exact ⟨hready, trivial, hkeeps⟩

namespace Ready

variable {memory : Memory}

theorem setValidators (h : Ready memory) {store : ValidatorsStorageService}
    (hstore : ValidatorsReady store) : Ready (memory.setValidators store) :=
  ⟨hstore, h.queueInfo, h.contractConfig, h.cacheFile⟩

theorem counts (h : Ready memory) {update : Update}
    {result : Memory × Option UpdateValidators.Suspension} (hcounts : Counts update memory result)
    (hsweep : memory.stores.validators.sweepMeanEpochs.isSome) :
    Establishes updateAsserts memory result := by
  cases hcounts with
  | next count rest => exact ⟨h, hsweep, .refl _⟩
  | done =>
      exact ⟨h.setValidators (h.validators.setCounts hsweep update), rfl, ⟨id, fun _ => rfl, id⟩⟩

theorem sums (h : Ready memory) {update : Update} {tally : Tally} {ids : List ℕ}
    {result : Memory × Option UpdateValidators.Suspension}
    (hsums : Sums update memory tally ids result)
    (hexit : memory.stores.validators.maxExitEpoch.isSome) :
    Establishes updateAsserts memory result := by
  cases hsums with
  | threw => exact ⟨h, trivial, .refl _⟩
  | next => exact ⟨h, hexit, .refl _⟩
  | done =>
      exact ⟨⟨h.validators.setFrameBalances tally ids, h.queueInfo, h.contractConfig, h.cacheFile⟩,
        ⟨hexit, rfl⟩, ⟨id, id, fun _ => rfl⟩⟩

/-- A segment of the full update. -/
theorem updateSegment (h : Ready memory) {suspension : UpdateValidators.Suspension}
    {result : Memory × Option UpdateValidators.Suspension}
    (hsegment : UpdateSegment suspension memory result)
    (hasserts : updateAsserts (some suspension) memory.stores.validators) :
    Establishes updateAsserts memory result := by
  cases hsegment with
  | ended => exact ⟨h, trivial, .refl _⟩
  | fetched => exact ⟨h, trivial, .refl _⟩
  | setSweep update hcounts =>
      have hready := h.setValidators
        (h.validators.setSweepMeanEpochs (.finite update.sweepMeanEpochs))
      obtain ⟨hcounted, hafter, hkeeps⟩ := hready.counts hcounts rfl
      exact ⟨hcounted, hafter,
        ⟨fun _ => hkeeps.sweepMeanEpochs rfl, hkeeps.maxExitEpoch, hkeeps.frameBalances⟩⟩
  | counted hcounts => exact h.counts hcounts hasserts
  | gotKeys => exact ⟨h, hasserts, .refl _⟩
  | gotSweepState hsums => exact h.sums hsums hasserts
  | summed hsums => exact h.sums hsums hasserts
  | setLastUpdate now =>
      exact ⟨h.setValidators (h.validators.setLastUpdate hasserts.2 hasserts.1 _), trivial,
        ⟨id, id, id⟩⟩
  | joined hdata => exact ⟨h, ⟨_, h.validators.cacheable, hdata⟩, .refl _⟩
  | @wrote _ _ data =>
      obtain ⟨saved, hcacheable, hsaved⟩ := hasserts
      refine ⟨⟨h.validators, h.queueInfo, h.contractConfig, fun content hcontent => ?_⟩, trivial,
        .refl _⟩
      obtain rfl : data = content := Option.some.inj hcontent
      exact ⟨saved, data, hcacheable, hsaved, List.prefix_refl data⟩
  | @wroteInPart _ _ data kept =>
      obtain ⟨saved, hcacheable, hsaved⟩ := hasserts
      refine ⟨⟨h.validators, h.queueInfo, h.contractConfig, fun content hcontent => ?_⟩, trivial,
        .refl _⟩
      obtain rfl : data.take kept = content := Option.some.inj hcontent
      exact ⟨saved, data, hcacheable, hsaved, List.take_prefix kept data⟩

/-- A segment of the load from the cache file. -/
theorem loadSegment (h : Ready memory) (suspension : ValidatorsCacheService.Suspension)
    (reply : Reply ValidatorsCacheService.Answer) (hasserts : loadAsserts (some suspension)) :
    Establishes (fun suspended _ => loadAsserts suspended) memory
      (ValidatorsCacheService.resume suspension reply memory) := by
  unfold ValidatorsCacheService.resume
  split
  · split
    · exact ⟨h, trivial, .refl _⟩
    · exact ⟨h, trivial, .refl _⟩
  · split
    next content hcontent => exact ⟨h, h.cacheFile content hcontent, .refl _⟩
    next => exact ⟨h, trivial, .refl _⟩
  next content now =>
    obtain ⟨hstore, hkeeps⟩ := h.validators.initializeFromCache hasserts now
    exact ⟨h.setValidators hstore, trivial, hkeeps⟩
  · exact ⟨h, trivial, .refl _⟩

/-- A segment of the refresh: it stores a table or nothing. -/
theorem refreshSegment (h : Ready memory)
    (suspension : UpdateLidoWithdrawableValidators.Suspension)
    (reply : Reply UpdateLidoWithdrawableValidators.Answer) :
    Establishes (fun _ _ => True) memory
      (resumeUpdateLidoWithdrawableValidators suspension reply memory) := by
  rcases refresh_fst suspension reply memory with ⟨-, hsame⟩ | ⟨-, tally, hstore⟩
  · exact .of_fst_eq hsame h (.refl _)
  · exact .of_fst_eq hstore
      ⟨h.validators.setFrameBalances tally _, h.queueInfo, h.contractConfig, h.cacheFile⟩
      ⟨id, id, fun _ => rfl⟩

theorem queueSegment (h : Ready memory) (suspension : QueueInfoService.Suspension)
    (answer : QueueInfoService.CronClock × QueueInfoService.Answer) :
    Establishes (fun _ _ => True) memory (QueueInfoService.resume suspension answer memory) := by
  rcases QueueInfoService.resume_fst suspension answer memory with
    hsame | ⟨queue, requests, clock, hstore⟩
  · exact .of_fst_eq hsame h (.refl _)
  · exact .of_fst_eq hstore
      ⟨h.validators, .published queue requests clock, h.contractConfig, h.cacheFile⟩ (.refl _)

theorem configSegment (h : Ready memory) (suspension : ContractConfigService.Suspension)
    (answer : ℤ × ContractConfigService.Answer) :
    Establishes (fun _ _ => True) memory
      (ContractConfigService.resume suspension answer memory) := by
  rcases ContractConfigService.resume_fst suspension answer memory with
    hsame | ⟨wasSrv3KnownLastTick, reads, now, hstore⟩
  · exact .of_fst_eq hsame h (.refl _)
  · exact .of_fst_eq hstore
      ⟨h.validators, h.queueInfo, h.contractConfig.assign wasSrv3KnownLastTick reads now,
        h.cacheFile⟩ (.refl _)

end Ready

/-! ## Every run -/

/-- What a job knows where it is suspended. -/
def readyAsserts : (job : JobName) → Option (jobs job).Suspension → Memory → Prop
  | .initializeFromCache => fun suspended _ => loadAsserts suspended
  | .updateValidators => fun suspended memory => updateAsserts suspended memory.stores.validators
  | .updateLidoWithdrawableValidators => fun _ _ => True
  | .updateQueueInfo => fun _ _ => True
  | .updateContractConfig => fun _ _ => True

theorem ready_segment {s : System} {event : System.Event} {job : JobName}
    {segment : Memory × Option (jobs job).Suspension} (hruns : s.Runs event job segment)
    (h : Ready s.shared) (hasserts : readyAsserts job (s.suspended job) s.shared) :
    Ready segment.1 ∧ readyAsserts job segment.2 segment.1 ∧
      Keeps s.shared.stores.validators segment.1.stores.validators := by
  cases hruns with
  | @start job input hidle =>
      cases job <;> exact ⟨h, trivial, .refl _⟩
  | @resume job answer suspension hsuspended =>
      rw [hsuspended] at hasserts
      cases job with
      | initializeFromCache =>
          have hload := h.loadSegment suspension answer hasserts
          exact ⟨hload.ready, hload.asserts, hload.keeps⟩
      | updateValidators =>
          have hupdate := h.updateSegment (updateSegment_resume suspension answer s.shared) hasserts
          exact ⟨hupdate.ready, hupdate.asserts, hupdate.keeps⟩
      | updateLidoWithdrawableValidators =>
          have hrefresh := h.refreshSegment suspension answer
          exact ⟨hrefresh.ready, hrefresh.asserts, hrefresh.keeps⟩
      | updateQueueInfo =>
          have hqueue := h.queueSegment suspension answer
          exact ⟨hqueue.ready, hqueue.asserts, hqueue.keeps⟩
      | updateContractConfig =>
          have hconfig := h.configSegment suspension answer
          exact ⟨hconfig.ready, hconfig.asserts, hconfig.keeps⟩

/-- The jobs keep the stores ready, whatever the order of their segments. -/
def readyOutline : Job.Outline jobs (fun _ _ => True) where
  invariant := Ready
  asserts := readyAsserts
  commits _ before after := Keeps before.stores.validators after.stores.validators
  segment _ hruns h hasserts := ready_segment hruns h hasserts
  stable := by
    intro job other _ suspended before after hasserts hkeeps
    cases job with
    | initializeFromCache => exact hasserts
    | updateValidators => exact updateAsserts_of_keeps hasserts hkeeps
    | updateLidoWithdrawableValidators => trivial
    | updateQueueInfo => trivial
    | updateContractConfig => trivial

namespace System

theorem ready_boot (genesisTime : ℤ) {cacheFile : Option (List Char)}
    (hcache : ∀ content, cacheFile = some content → IsCacheContent content) :
    readyOutline.Holds (boot genesisTime cacheFile) where
  invariant := by
    refine ⟨⟨⟨fun _ h => ?_, fun _ h => ?_⟩, fun h => ?_, fun h => ?_, fun h => ?_⟩,
      ⟨fun h => ?_, fun h => ?_, fun h => ?_⟩,
      ⟨fun h => ?_, fun h => ?_, fun h => ?_, fun h => ?_, fun h => ?_⟩, hcache⟩
    all_goals cases h
  asserts := by
    intro job
    cases job <;> trivial

/-- The file that a run leaves is one that the next start may find, wherever the
run is cut off. -/
theorem isCacheContent_run (genesisTime : ℤ) {cacheFile : Option (List Char)}
    (hcache : ∀ content, cacheFile = some content → IsCacheContent content)
    (events : List Event) {content : List Char}
    (hcontent : ((boot genesisTime cacheFile).run events).shared.cacheFile = some content) :
    IsCacheContent content := by
  have hholds := readyOutline.holds_run (Job.State.meets_true _ events)
    (ready_boot genesisTime hcache)
  exact hholds.invariant.cacheFile content hcontent

/-- Whatever the jobs and their failures, an open gate means that every value the
estimates read is there. -/
theorem readingsDefined_of_isInitialized (genesisTime : ℤ) {cacheFile : Option (List Char)}
    (hcache : ∀ content, cacheFile = some content → IsCacheContent content)
    (events : List Event)
    (hopen : ((boot genesisTime cacheFile).run events).shared.stores.isInitialized = true) :
    ((boot genesisTime cacheFile).run events).shared.stores.ReadingsDefined :=
  (readyOutline.holds_run (Job.State.meets_true _ events)
    (ready_boot genesisTime hcache)).invariant.readingsDefined hopen

/-- What an earlier run of the service has stored. -/
def sampleCachedStore : ValidatorsStorageService where
  maxExitEpoch := some ['3', '0', '0']
  activeValidatorsCount := some (.finite 2)
  totalValidatorsCount := some 3
  lastUpdate := some (.finite 9000)
  frameBalances := some (Record.empty.set (.integer 2) 32000000000000000000)
  sweepMeanEpochs := some (.finite 10)
  churnLimit := some (.finite 8)
  withdrawableLidoValidatorIds := [7]

/-- The file it has left. -/
def sampleCacheFile : List Char := (saveDataToCache sampleCachedStore).getD []

theorem cacheable_sampleCachedStore : Cacheable sampleCachedStore := by
  constructor
  · intro text htext
    obtain rfl : ['3', '0', '0'] = text := Option.some.inj htext
    decide
  · intro table htable
    obtain rfl : Record.empty.set (.integer 2) 32000000000000000000 = table :=
      Option.some.inj htable
    intro entry hmem
    obtain rfl := List.mem_singleton.mp hmem
    exact ⟨some 2, rfl⟩

theorem saveDataToCache_sampleCachedStore :
    saveDataToCache sampleCachedStore = some sampleCacheFile := by
  decide +kernel

theorem isCacheContent_sampleCacheFile : IsCacheContent sampleCacheFile :=
  ⟨sampleCachedStore, sampleCacheFile, cacheable_sampleCachedStore,
    saveDataToCache_sampleCachedStore, List.prefix_refl _⟩

def sampleReads : ContractConfigService.ContractReads where
  requestTimestampMargin := ⟨7680, by decide⟩
  maxBalanceExitRequestedPerReportInEth := ⟨57600, by decide⟩
  lidoSupportsDepositsReserve := false
  depositsReserveTarget := 0
  frameConfig := ⟨5, 180⟩
  veboFrameConfig := ⟨5, 60⟩

/-- The load from the file, one update of the queue with one request, and one of
the configuration. -/
def sampleStartup : List Event :=
  let settled : Event := .resume .initializeFromCache
    (⟨10000000, .settled⟩ : Reply ValidatorsCacheService.Answer)
  let queue (answer : QueueInfoService.Answer) : Event :=
    .resume .updateQueueInfo (QueueInfoService.sampleClock, answer)
  let config (answer : ContractConfigService.Answer) : Event :=
    .resume .updateContractConfig ((10000000 : ℤ), answer)
  [.start .initializeFromCache (), settled, settled, settled, .start .updateQueueInfo (),
    .start .updateContractConfig (), queue (.queue QueueInfoService.sampleQueue),
    config .blockNumber,
    queue (.page [⟨1000000000000000000, 9500⟩]), config (.reads sampleReads)]

/-- A start from a cache file opens the gate before the first full update. -/
theorem readingsDefined_of_isInitialized_sampleStartup :
    let s := (boot 0 (some sampleCacheFile)).run sampleStartup
    s.shared.stores.isInitialized = true ∧ s.shared.stores.ReadingsDefined := by
  intro s
  have hopen : s.shared.stores.isInitialized = true := by decide +kernel
  refine ⟨hopen, ?_⟩
  apply readingsDefined_of_isInitialized 0 _ sampleStartup hopen
  intro content hcontent
  obtain rfl : sampleCacheFile = content := Option.some.inj hcontent
  exact isCacheContent_sampleCacheFile

end System

end WithdrawalsApi
