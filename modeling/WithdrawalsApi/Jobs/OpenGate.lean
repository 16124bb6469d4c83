/-
# The readiness gate stays open

Behind an open gate every value is there. Two more things are expected of it: once
an estimate has been given, the service never falls back to reporting that it
initializes, and the values behind the gate are the natural numbers that the
estimates compute with.

Update times are stored in whole seconds, so no job closes the gate as long as the
clock is past the first second. The numbers come from the counts of a full update or
from the cache file, which a crash may have cut off: a churn limit that is missing
there is read as zero, and zero keeps the gate closed. An exit epoch is a text of at
most 64 bits, which is read as a natural number although it may be rounded.
-/

import WithdrawalsApi.Jobs.Readiness
import WithdrawalsApi.Storage.CacheLoading

namespace WithdrawalsApi

open Js Math ValidatorsService

/-! ## The numbers of the validators store -/

/-- The numbers are natural, as a full update stores them; a churn limit that is not
within its bounds is zero. -/
structure NaturalNumbers (store : ValidatorsStorageService) : Prop where
  maxExitEpoch : ∀ text, store.maxExitEpoch = some text →
    ∃ n : ℕ, JsNumber.ofText text = .finite n
  sweepMeanEpochs : ∀ number, store.sweepMeanEpochs = some number → ∃ n : ℕ, number = .finite n
  churnLimit : ∀ number, store.churnLimit = some number →
    ∃ n : ℕ, number = .finite n ∧ (n = 0 ∨ 4 ≤ n ∧ n ≤ 8)

/-- What a crash may leave of a file that holds natural numbers. -/
def IsNaturalContent (content : List Char) : Prop :=
  ∃ store written, Cacheable store ∧ NaturalNumbers store ∧
    saveDataToCache store = some written ∧ content <+: written

theorem IsNaturalContent.isCacheContent {content : List Char} (h : IsNaturalContent content) :
    IsCacheContent content := by
  obtain ⟨store, written, hcacheable, -, hwritten, hpart⟩ := h
  exact ⟨store, written, hcacheable, hwritten, hpart⟩

theorem IsNaturalContent.of_prefix {content part : List Char} (h : IsNaturalContent content)
    (hpart : part <+: content) : IsNaturalContent part := by
  obtain ⟨store, written, hcacheable, hnatural, hwritten, hcontent⟩ := h
  exact ⟨store, written, hcacheable, hnatural, hwritten, hpart.trans hcontent⟩

/-- The text of a natural number, or of a missing one, is read as a natural number. -/
theorem exists_natural_of_elementText? {value : Option JsNumber}
    (hnatural : ∀ number, value = some number → ∃ n : ℕ, number = .finite n) {text : List Char}
    (htext : elementText? value = some text) : ∃ n : ℕ, JsNumber.ofText text = .finite n := by
  cases value with
  | none =>
      obtain rfl : [] = text := Option.some.inj htext
      exact ⟨0, JsNumber.ofText_nil⟩
  | some number =>
      obtain ⟨n, rfl⟩ := hnatural number rfl
      have hread := ofText_elementText?_natCast ⟨n, rfl⟩ htext
      exact ⟨n, Option.some.inj hread⟩

/-- A part of a churn limit is the whole of it or nothing: a churn limit is one digit. -/
theorem exists_churnLimit_of_prefix {value : Option JsNumber}
    (hnatural : ∀ number, value = some number →
      ∃ n : ℕ, number = .finite n ∧ (n = 0 ∨ 4 ≤ n ∧ n ≤ 8)) {text short : List Char}
    (htext : elementText? value = some text) (hshort : short <+: text) :
    ∃ n : ℕ, JsNumber.ofText short = .finite n ∧ (n = 0 ∨ 4 ≤ n ∧ n ≤ 8) := by
  cases value with
  | none =>
      obtain rfl : [] = text := Option.some.inj htext
      obtain rfl : short = [] := List.prefix_nil.mp hshort
      exact ⟨0, JsNumber.ofText_nil, Or.inl rfl⟩
  | some number =>
      obtain ⟨n, rfl, hbounds⟩ := hnatural number rfl
      have hread := ofText_elementText?_natCast ⟨n, rfl⟩ htext
      have hdigits := elementText?_eq_some (by omega) htext
      rw [Nat.toDigits_of_lt_base (by omega)] at hdigits
      subst hdigits
      rcases List.prefix_cons_iff.mp hshort with rfl | ⟨rest, rfl, hrest⟩
      · exact ⟨0, JsNumber.ofText_nil, Or.inl rfl⟩
      · obtain rfl : rest = [] := List.prefix_nil.mp hrest
        exact ⟨n, Option.some.inj hread, hbounds⟩

namespace NaturalNumbers

variable {store : ValidatorsStorageService}

/-- The number of a decimal text, or of a missing one. -/
theorem exists_maxExitEpoch (h : NaturalNumbers store) :
    ∃ n : ℕ, JsNumber.ofText (store.maxExitEpoch.getD []) = .finite n := by
  cases hexit : store.maxExitEpoch with
  | none => exact ⟨0, JsNumber.ofText_nil⟩
  | some text => exact h.maxExitEpoch text hexit

theorem setSweepMeanEpochs (h : NaturalNumbers store) (value : ℕ) :
    NaturalNumbers { store with sweepMeanEpochs := some (.finite value) } where
  maxExitEpoch := h.maxExitEpoch
  sweepMeanEpochs _ hnumber := ⟨value, (Option.some.inj hnumber).symm⟩
  churnLimit := h.churnLimit

theorem setCounts (h : NaturalNumbers store) {update : Update}
    (hexit : 0 ≤ update.count.maxExitEpoch ∧ update.count.maxExitEpoch ≤ 2 ^ 64) :
    NaturalNumbers (ValidatorsService.setCounts update store) where
  maxExitEpoch := by
    intro text htext
    obtain rfl : integerText update.count.maxExitEpoch = text := Option.some.inj htext
    obtain ⟨epoch, hepoch⟩ := Int.eq_ofNat_of_zero_le hexit.1
    rw [hepoch]
    show ∃ n : ℕ, JsNumber.ofText (Nat.toDigits 10 epoch) = .finite n
    rw [JsNumber.ofText_toDigits]
    exact JsNumber.exists_rounded_natCast (by omega)
  sweepMeanEpochs := h.sweepMeanEpochs
  churnLimit number hnumber :=
    ⟨_, (Option.some.inj hnumber).symm,
      Or.inr (getChurnLimit_bounds update.count.totalActiveBalance)⟩

/-- A file left by a crash leaves natural numbers. -/
theorem initializeFromCache (h : NaturalNumbers store) {content : List Char}
    (hcontent : IsNaturalContent content) (now : ℤ) :
    NaturalNumbers (WithdrawalsApi.initializeFromCache content now store) := by
  obtain ⟨saved, written, hcacheable, hnatural, hwritten, hpart⟩ := hcontent
  obtain ⟨active, exit, last, table, sweep, churn, hfields, rfl⟩ :=
    writtenFields_of_saveDataToCache hcacheable hwritten
  have hexit := hnatural.exists_maxExitEpoch
  rw [hfields.maxExitEpoch] at hexit
  rcases hfields.splitOn_of_prefix hpart with hlength | ⟨short, hshort, hsplit⟩
  · rw [initializeFromCache_of_length_ne hlength]
    exact h
  · simp only [WithdrawalsApi.initializeFromCache, initializeFromCacheWith, hsplit,
      parseFrameBalances_stringifyFrameBalances hfields.frameKeyed]
    split
    · refine ⟨fun text htext => ?_, fun number hnumber => ?_, fun number hnumber => ?_⟩
      · obtain rfl : exit = text := Option.some.inj htext
        exact hexit
      · obtain rfl := Option.some.inj hnumber
        exact exists_natural_of_elementText? hnatural.sweepMeanEpochs hfields.sweepMeanEpochs
      · obtain rfl := Option.some.inj hnumber
        exact exists_churnLimit_of_prefix hnatural.churnLimit hfields.churnLimit hshort
    · exact h

end NaturalNumbers

/-! ## What the segments preserve -/

/-- The numbers of the memory, with the genesis time that the clock is compared with. -/
structure NaturalMemory (genesisTime : ℤ) (memory : Memory) : Prop where
  genesisTime_eq : memory.stores.genesisTime = genesisTime
  validators : NaturalNumbers memory.stores.validators
  cacheFile : ∀ content, memory.cacheFile = some content → IsNaturalContent content

/-- The exit epochs have 64 bits. -/
def ExitEpochsInRange (items : List IndexedValidator) : Prop :=
  ∀ item ∈ items, item.validator.exitEpoch < 2 ^ 64

/-- What the full update knows of its own numbers where it is suspended. -/
def updateNumbers : Option UpdateValidators.Suspension → Prop
  | some (.fetchingPendingPartialWithdrawals indexedValidators currentEpoch) =>
      (0 ≤ currentEpoch ∧ currentEpoch ≤ 2 ^ 53) ∧ ExitEpochsInRange indexedValidators
  | some (.counting update rest) =>
      (0 ≤ update.count.maxExitEpoch ∧ update.count.maxExitEpoch ≤ 2 ^ 64) ∧
        ExitEpochsInRange rest
  | some (.writingCache _ data) => IsNaturalContent data
  | _ => True

/-- The content that a load has read. -/
def loadNumbers : Option ValidatorsCacheService.Suspension → Prop
  | some (.closing content) => IsNaturalContent content
  | _ => True

theorem Count.maxExitEpoch_add_bounds {count : Count} {item : IndexedValidator}
    (h : 0 ≤ count.maxExitEpoch ∧ count.maxExitEpoch ≤ 2 ^ 64)
    (hitem : item.validator.exitEpoch < 2 ^ 64) :
    0 ≤ (count.add item).maxExitEpoch ∧ (count.add item).maxExitEpoch ≤ 2 ^ 64 := by
  simp only [Count.add]
  split
  · omega
  · exact h

namespace NaturalMemory

variable {genesisTime : ℤ} {memory : Memory}

theorem setValidators (h : NaturalMemory genesisTime memory) {store : ValidatorsStorageService}
    (hstore : NaturalNumbers store) : NaturalMemory genesisTime (memory.setValidators store) :=
  ⟨h.genesisTime_eq, hstore, h.cacheFile⟩

/-- The clock is not before the genesis, and not more seconds after it than 53 bits hold. -/
theorem currentEpoch_bounds (h : NaturalMemory genesisTime memory) {now : ℤ}
    (hnow : genesisTime ≤ now / 1000 ∧ now / 1000 - genesisTime ≤ 2 ^ 53) :
    0 ≤ memory.stores.getCurrentEpoch now ∧ memory.stores.getCurrentEpoch now ≤ 2 ^ 53 := by
  rw [Stores.getCurrentEpoch, h.genesisTime_eq]
  simp only [secondsPerSlot, slotsPerEpoch]
  omega

theorem countNext (h : NaturalMemory genesisTime memory) {update : Update}
    (hexit : 0 ≤ update.count.maxExitEpoch ∧ update.count.maxExitEpoch ≤ 2 ^ 64)
    {rest : List IndexedValidator} (hrest : ExitEpochsInRange rest) :
    NaturalMemory genesisTime (ValidatorsService.countNext update rest memory).1 ∧
      updateNumbers (ValidatorsService.countNext update rest memory).2 := by
  cases rest with
  | nil => exact ⟨h.setValidators (h.validators.setCounts hexit), trivial⟩
  | cons item rest =>
      have hitem := hrest item List.mem_cons_self
      exact ⟨h, Count.maxExitEpoch_add_bounds hexit hitem,
        fun other hmem => hrest other (List.mem_cons_of_mem item hmem)⟩

theorem sumNext (h : NaturalMemory genesisTime memory) (update : Update) (estimate : Estimate)
    (sweepState : WithdrawalSweepState) (rest : List IndexedValidator) (tally : Tally)
    (ids : List ℕ) :
    let segment := ValidatorsService.sumNext update estimate sweepState rest tally ids memory
    NaturalMemory genesisTime segment.1 ∧ updateNumbers segment.2 := by
  cases rest with
  | nil =>
      refine ⟨⟨h.genesisTime_eq, ?_, h.cacheFile⟩, trivial⟩
      exact ⟨h.validators.maxExitEpoch, h.validators.sweepMeanEpochs, h.validators.churnLimit⟩
  | cons item rest =>
      simp only [ValidatorsService.sumNext]
      split
      · split
        · exact ⟨h, trivial⟩
        · exact ⟨h, trivial⟩
      · exact ⟨h, trivial⟩

/-- A segment of the full update. -/
theorem updateSegment (h : NaturalMemory genesisTime memory) (hcacheable : Cacheable
      memory.stores.validators) {suspension : UpdateValidators.Suspension}
    (hnumbers : updateNumbers (some suspension)) {reply : Reply UpdateValidators.Answer}
    (hnow : genesisTime ≤ reply.now / 1000 ∧ reply.now / 1000 - genesisTime ≤ 2 ^ 53)
    (hlisted : ∀ items, reply.answer = .validators items → ExitEpochsInRange items) :
    let segment := resumeUpdateValidators suspension reply memory
    NaturalMemory genesisTime segment.1 ∧ updateNumbers segment.2 := by
  unfold resumeUpdateValidators
  split
  · exact ⟨h, h.currentEpoch_bounds hnow, hlisted _ rfl⟩
  · split
    next currentEpoch _ _ _ sweepMeanEpochs _ =>
      obtain ⟨hepoch, hitems⟩ := hnumbers
      refine (h.setValidators (h.validators.setSweepMeanEpochs sweepMeanEpochs)).countNext ?_ hitems
      simp only [maxSeedLookahead]
      omega
    · exact ⟨h, trivial⟩
  · exact h.countNext hnumbers.1 hnumbers.2
  · exact ⟨h, trivial⟩
  · split
    · exact h.sumNext _ _ _ _ _ _
    · exact ⟨h, trivial⟩
  · exact h.sumNext _ _ _ _ _ _
  · refine ⟨h.setValidators ?_, trivial⟩
    exact ⟨h.validators.maxExitEpoch, h.validators.sweepMeanEpochs, h.validators.churnLimit⟩
  · split
    next data hdata =>
      exact ⟨h, _, data, hcacheable, h.validators, hdata, List.prefix_refl data⟩
    · exact ⟨h, trivial⟩
  next data _ =>
    refine ⟨⟨h.genesisTime_eq, h.validators, fun content hcontent => ?_⟩, trivial⟩
    obtain rfl : data = content := Option.some.inj hcontent
    exact hnumbers
  next data _ kept =>
    refine ⟨⟨h.genesisTime_eq, h.validators, fun content hcontent => ?_⟩, trivial⟩
    obtain rfl : data.take kept = content := Option.some.inj hcontent
    exact IsNaturalContent.of_prefix hnumbers (List.take_prefix kept data)
  · exact ⟨h, trivial⟩

/-- A segment of the load from the cache file. -/
theorem loadSegment (h : NaturalMemory genesisTime memory)
    (suspension : ValidatorsCacheService.Suspension) (hnumbers : loadNumbers (some suspension))
    (reply : Reply ValidatorsCacheService.Answer) :
    let segment := ValidatorsCacheService.resume suspension reply memory
    NaturalMemory genesisTime segment.1 ∧ loadNumbers segment.2 := by
  unfold ValidatorsCacheService.resume
  split
  · split
    · exact ⟨h, trivial⟩
    · exact ⟨h, trivial⟩
  · split
    next content hcontent => exact ⟨h, h.cacheFile content hcontent⟩
    · exact ⟨h, trivial⟩
  next content now =>
    exact ⟨h.setValidators (h.validators.initializeFromCache hnumbers now), trivial⟩
  · exact ⟨h, trivial⟩

theorem refreshSegment (h : NaturalMemory genesisTime memory)
    (suspension : UpdateLidoWithdrawableValidators.Suspension)
    (reply : Reply UpdateLidoWithdrawableValidators.Answer) :
    NaturalMemory genesisTime
      (resumeUpdateLidoWithdrawableValidators suspension reply memory).1 := by
  rcases refresh_fst suspension reply memory with ⟨-, hsame⟩ | ⟨-, tally, hstore⟩
  · rw [hsame]
    exact h
  · rw [hstore]
    refine ⟨h.genesisTime_eq, ?_, h.cacheFile⟩
    exact ⟨h.validators.maxExitEpoch, h.validators.sweepMeanEpochs, h.validators.churnLimit⟩

theorem queueSegment (h : NaturalMemory genesisTime memory)
    (suspension : QueueInfoService.Suspension)
    (answer : QueueInfoService.CronClock × QueueInfoService.Answer) :
    NaturalMemory genesisTime (QueueInfoService.resume suspension answer memory).1 := by
  rcases QueueInfoService.resume_fst suspension answer memory with
    hsame | ⟨queue, requests, clock, hstore⟩
  · rw [hsame]
    exact h
  · rw [hstore]
    exact ⟨h.genesisTime_eq, h.validators, h.cacheFile⟩

theorem configSegment (h : NaturalMemory genesisTime memory)
    (suspension : ContractConfigService.Suspension) (answer : ℤ × ContractConfigService.Answer) :
    NaturalMemory genesisTime (ContractConfigService.resume suspension answer memory).1 := by
  rcases ContractConfigService.resume_fst suspension answer memory with
    hsame | ⟨wasSrv3KnownLastTick, reads, now, hstore⟩
  · rw [hsame]
    exact h
  · rw [hstore]
    exact ⟨h.genesisTime_eq, h.validators, h.cacheFile⟩

end NaturalMemory

/-! ## No job closes the gate -/

/-- Each value that the gate looks at stays truthy. -/
structure KeepsGate (before after : Stores) : Prop where
  lastUpdate : truthyNumber before.validators.lastUpdate = true →
    truthyNumber after.validators.lastUpdate = true
  churnLimit : truthyNumber before.validators.churnLimit = true →
    truthyNumber after.validators.churnLimit = true
  queueInfo : truthyInteger before.queueInfo.lastUpdate = true →
    truthyInteger after.queueInfo.lastUpdate = true
  contractConfig : truthyInteger before.contractConfig.lastUpdate = true →
    truthyInteger after.contractConfig.lastUpdate = true

namespace KeepsGate

theorem refl (stores : Stores) : KeepsGate stores stores := ⟨id, id, id, id⟩

theorem trans {first second third : Stores} (h : KeepsGate first second)
    (h' : KeepsGate second third) : KeepsGate first third where
  lastUpdate hlast := h'.lastUpdate (h.lastUpdate hlast)
  churnLimit hchurn := h'.churnLimit (h.churnLimit hchurn)
  queueInfo hlast := h'.queueInfo (h.queueInfo hlast)
  contractConfig hlast := h'.contractConfig (h.contractConfig hlast)

theorem isInitialized {before after : Stores} (h : KeepsGate before after)
    (hopen : before.isInitialized = true) : after.isInitialized = true := by
  simp only [Stores.isInitialized, Bool.and_eq_true] at hopen ⊢
  obtain ⟨⟨⟨hlast, hchurn⟩, hqueue⟩, hconfig⟩ := hopen
  exact ⟨⟨⟨h.lastUpdate hlast, h.churnLimit hchurn⟩, h.queueInfo hqueue⟩, h.contractConfig hconfig⟩

end KeepsGate

/-- A time past the first second is stored as a truthy number. -/
theorem truthyNumber_seconds {now : ℤ} (h : 1000 ≤ now) :
    truthyNumber (some (.finite (now / 1000 : ℤ))) = true := by
  have hseconds : (now / 1000 : ℤ) ≠ 0 := by omega
  simpa only [truthyNumber, Option.any_some, JsNumber.truthy, decide_eq_true_eq, ne_eq,
    Int.cast_eq_zero] using hseconds

theorem truthyInteger_seconds {now : ℤ} (h : 1000 ≤ now) :
    truthyInteger (some (now / 1000)) = true := by
  have hseconds : now / 1000 ≠ 0 := by omega
  simpa only [truthyInteger, Option.any_some, decide_eq_true_eq] using hseconds

/-- A churn limit that has been computed is not zero. -/
theorem truthyNumber_churnLimit (totalActiveBalance : ℕ) :
    truthyNumber (some (.finite (getChurnLimit totalActiveBalance))) = true := by
  have hlower := (getChurnLimit_bounds totalActiveBalance).1
  have hne : getChurnLimit totalActiveBalance ≠ 0 := by omega
  simpa only [truthyNumber, Option.any_some, JsNumber.truthy, decide_eq_true_eq, ne_eq,
    Nat.cast_eq_zero] using hne

theorem keepsGate_countNext (update : Update) (rest : List IndexedValidator) (memory : Memory) :
    KeepsGate memory.stores (countNext update rest memory).1.stores := by
  cases rest with
  | nil => exact ⟨id, fun _ => truthyNumber_churnLimit _, id, id⟩
  | cons item rest => exact .refl _

theorem keepsGate_sumNext (update : Update) (estimate : Estimate)
    (sweepState : WithdrawalSweepState) (rest : List IndexedValidator) (tally : Tally)
    (ids : List ℕ) (memory : Memory) :
    KeepsGate memory.stores
      (sumNext update estimate sweepState rest tally ids memory).1.stores := by
  cases rest with
  | nil => exact ⟨id, id, id, id⟩
  | cons item rest =>
      simp only [sumNext]
      split
      · split
        · exact .refl _
        · exact .refl _
      · exact .refl _

/-- A segment of the full update. -/
theorem keepsGate_updateSegment (suspension : UpdateValidators.Suspension)
    {reply : Reply UpdateValidators.Answer} (hnow : 1000 ≤ reply.now) (memory : Memory) :
    KeepsGate memory.stores (resumeUpdateValidators suspension reply memory).1.stores := by
  unfold resumeUpdateValidators
  split
  · exact .refl _
  · split
    · refine KeepsGate.trans ⟨?_, ?_, ?_, ?_⟩ (keepsGate_countNext _ _ _)
      all_goals exact id
    · exact .refl _
  · exact keepsGate_countNext _ _ _
  · exact .refl _
  · split
    · exact keepsGate_sumNext _ _ _ _ _ _ _
    · exact .refl _
  · exact keepsGate_sumNext _ _ _ _ _ _ _
  · exact ⟨fun _ => truthyNumber_seconds hnow, id, id, id⟩
  · split
    · exact .refl _
    · exact .refl _
  · exact .refl _
  · exact .refl _
  · exact .refl _

theorem keepsGate_refreshSegment (suspension : UpdateLidoWithdrawableValidators.Suspension)
    (reply : Reply UpdateLidoWithdrawableValidators.Answer) (memory : Memory) :
    KeepsGate memory.stores
      (resumeUpdateLidoWithdrawableValidators suspension reply memory).1.stores := by
  rcases refresh_fst suspension reply memory with ⟨-, hsame⟩ | ⟨-, tally, hstore⟩
  · rw [hsame]
    exact .refl _
  · rw [hstore]
    exact ⟨id, id, id, id⟩

theorem keepsGate_nextPage (queue : QueueInfoService.QueueState)
    (requests : List WithdrawalRequest) (requestIds : List ℤ) {clock : QueueInfoService.CronClock}
    (hnow : 1000 ≤ clock.now) (memory : Memory) :
    KeepsGate memory.stores
      (QueueInfoService.nextPage queue requests requestIds clock memory).1.stores := by
  cases requestIds with
  | nil => exact ⟨id, id, fun _ => truthyInteger_seconds hnow, id⟩
  | cons id requestIds => exact .refl _

theorem keepsGate_queueSegment (suspension : QueueInfoService.Suspension)
    {answer : QueueInfoService.CronClock × QueueInfoService.Answer} (hnow : 1000 ≤ answer.1.now)
    (memory : Memory) :
    KeepsGate memory.stores (QueueInfoService.resume suspension answer memory).1.stores := by
  unfold QueueInfoService.resume
  split
  · split
    · exact keepsGate_nextPage _ _ _ hnow memory
    · exact .refl _
  · split
    · exact keepsGate_nextPage _ _ _ hnow memory
    · exact .refl _
  · exact .refl _

/-- The update time of the configuration is the last of the fields that are assigned. -/
theorem assign_lastUpdate {store : ContractConfigStorageService}
    (h : truthyInteger store.lastUpdate = true) (wasSrv3KnownLastTick : Bool)
    (reads : ContractConfigService.ContractReads) {now : ℤ} (hnow : 1000 ≤ now) :
    truthyInteger
      (ContractConfigService.assign wasSrv3KnownLastTick reads now store).lastUpdate = true := by
  simp only [ContractConfigService.assign]
  split
  · split
    · split
      · exact truthyInteger_seconds hnow
      · exact h
    · exact h
  · exact h

theorem keepsGate_configSegment (suspension : ContractConfigService.Suspension)
    {answer : ℤ × ContractConfigService.Answer} (hnow : 1000 ≤ answer.1) (memory : Memory) :
    KeepsGate memory.stores (ContractConfigService.resume suspension answer memory).1.stores := by
  unfold ContractConfigService.resume
  split
  · exact .refl _
  · exact ⟨id, id, id, fun hlast => assign_lastUpdate hlast _ _ hnow⟩
  · exact .refl _

/-! ## Every run -/

namespace System

/-- The validators that the consensus layer lists. -/
def listedValidators? : Event → Option (List IndexedValidator)
  | .resume .updateValidators reply =>
      match (reply : Reply UpdateValidators.Answer).answer with
      | .validators items => some items
      | _ => none
  | _ => none

/-- The clock is past its first second and not before the genesis, the seconds since then
are a safe number, and the exit epochs that are listed have 64 bits. -/
structure Timely (genesisTime : ℤ) (event : Event) : Prop where
  clock : ∀ now ∈ clock? event,
    1000 ≤ now ∧ genesisTime ≤ now / 1000 ∧ now / 1000 - genesisTime ≤ 2 ^ 53
  exitEpochs : ∀ items ∈ listedValidators? event, ExitEpochsInRange items

theorem timely_iff {genesisTime : ℤ} {event : Event} :
    Timely genesisTime event ↔
      (∀ now ∈ clock? event,
        1000 ≤ now ∧ genesisTime ≤ now / 1000 ∧ now / 1000 - genesisTime ≤ 2 ^ 53) ∧
      ∀ items ∈ listedValidators? event, ∀ item ∈ items, item.validator.exitEpoch < 2 ^ 64 :=
  ⟨fun h => ⟨h.clock, h.exitEpochs⟩, fun h => ⟨h.1, h.2⟩⟩

instance (genesisTime : ℤ) (event : Event) : Decidable (Timely genesisTime event) :=
  decidable_of_iff _ timely_iff.symm

/-- What a job knows of the numbers where it is suspended. -/
def numbersAsserts : (job : JobName) → Option (jobs job).Suspension → Prop
  | .initializeFromCache => loadNumbers
  | .updateValidators => updateNumbers
  | .updateLidoWithdrawableValidators => fun _ => True
  | .updateQueueInfo => fun _ => True
  | .updateContractConfig => fun _ => True

theorem natural_segment {genesisTime : ℤ} {s : System} {event : Event} {job : JobName}
    {segment : Memory × Option (jobs job).Suspension} (htimely : Timely genesisTime event)
    (hruns : s.Runs event job segment) (hready : Ready s.shared)
    (h : NaturalMemory genesisTime s.shared) (hasserts : numbersAsserts job (s.suspended job)) :
    NaturalMemory genesisTime segment.1 ∧ numbersAsserts job segment.2 := by
  cases hruns with
  | @start job input hidle =>
      cases job <;> exact ⟨h, trivial⟩
  | @resume job answer suspension hsuspended =>
      rw [hsuspended] at hasserts
      cases job with
      | initializeFromCache => exact h.loadSegment suspension hasserts answer
      | updateValidators =>
          have hnow := (htimely.clock _ rfl).2
          refine h.updateSegment hready.validators.cacheable hasserts hnow fun items hanswer => ?_
          apply htimely.exitEpochs
          simp only [listedValidators?, hanswer, Option.mem_def]
      | updateLidoWithdrawableValidators => exact ⟨h.refreshSegment suspension answer, trivial⟩
      | updateQueueInfo => exact ⟨h.queueSegment suspension answer, trivial⟩
      | updateContractConfig => exact ⟨h.configSegment suspension answer, trivial⟩

/-- The jobs keep the stores ready and their numbers natural. -/
def naturalOutline (genesisTime : ℤ) :
    Job.Outline jobs (fun _ event => Timely genesisTime event) where
  invariant memory := Ready memory ∧ NaturalMemory genesisTime memory
  asserts job suspended memory :=
    readyAsserts job suspended memory ∧ numbersAsserts job suspended
  commits _ before after := Keeps before.stores.validators after.stores.validators
  segment htimely hruns h hasserts := by
    obtain ⟨hready, hafter, hkeeps⟩ := ready_segment hruns h.1 hasserts.1
    obtain ⟨hnatural, hnumbers⟩ := natural_segment htimely hruns h.1 h.2 hasserts.2
    exact ⟨⟨hready, hnatural⟩, ⟨hafter, hnumbers⟩, hkeeps⟩
  stable hne _ _ _ hasserts hkeeps := ⟨readyOutline.stable hne hasserts.1 hkeeps, hasserts.2⟩

theorem natural_boot (genesisTime : ℤ) {cacheFile : Option (List Char)}
    (hcache : ∀ content, cacheFile = some content → IsNaturalContent content) :
    (naturalOutline genesisTime).Holds (boot genesisTime cacheFile) := by
  have hready := ready_boot genesisTime fun content hcontent =>
    (hcache content hcontent).isCacheContent
  refine ⟨⟨hready.invariant, rfl, ⟨?_, ?_, ?_⟩, hcache⟩, fun job => ⟨hready.asserts job, ?_⟩⟩
  · intro text htext
    cases htext
  · intro number hnumber
    cases hnumber
  · intro number hnumber
    cases hnumber
  · cases job <;> trivial

theorem keepsGate_segment {genesisTime : ℤ} {s : System} {event : Event} {job : JobName}
    {segment : Memory × Option (jobs job).Suspension} (htimely : Timely genesisTime event)
    (hloaded : job ≠ .initializeFromCache) (hruns : s.Runs event job segment) :
    KeepsGate s.shared.stores segment.1.stores := by
  cases hruns with
  | @start job input hidle =>
      cases job <;> exact .refl _
  | @resume job answer suspension hsuspended =>
      cases job with
      | initializeFromCache => exact absurd rfl hloaded
      | updateValidators =>
          have hnow := (htimely.clock _ rfl).1
          exact keepsGate_updateSegment suspension hnow s.shared
      | updateLidoWithdrawableValidators =>
          exact keepsGate_refreshSegment suspension answer s.shared
      | updateQueueInfo =>
          have hnow := (htimely.clock _ rfl).1
          exact keepsGate_queueSegment suspension hnow s.shared
      | updateContractConfig =>
          have hnow := (htimely.clock _ rfl).1
          exact keepsGate_configSegment suspension hnow s.shared

theorem keepsGate_step {genesisTime : ℤ} (s : System) (event : Event)
    (hevent : Timely genesisTime event ∧ event.job ≠ .initializeFromCache) :
    KeepsGate s.shared.stores (s.step event).shared.stores := by
  rcases s.step_cases event with hsame | ⟨job, segment, hruns⟩
  · rw [hsame]
    exact .refl _
  · rw [hruns.step_shared]
    have hloaded := hevent.2
    rw [hruns.job_eq] at hloaded
    exact keepsGate_segment hevent.1 hloaded hruns

/-- After the load from the cache file no occurrence closes the gate. -/
theorem isInitialized_step {genesisTime : ℤ} (s : System) (event : Event)
    (hevent : Timely genesisTime event ∧ event.job ≠ .initializeFromCache)
    (h : s.shared.stores.isInitialized = true) :
    (s.step event).shared.stores.isInitialized = true :=
  (keepsGate_step s event hevent).isInitialized h

/-- The file that a run leaves holds natural numbers too, so the next start may read it. -/
theorem isNaturalContent_run (genesisTime : ℤ) {cacheFile : Option (List Char)}
    (hcache : ∀ content, cacheFile = some content → IsNaturalContent content)
    {events : List Event} (htimely : ∀ event ∈ events, Timely genesisTime event)
    {content : List Char}
    (hcontent : ((boot genesisTime cacheFile).run events).shared.cacheFile = some content) :
    IsNaturalContent content := by
  have hholds := (naturalOutline genesisTime).holds_run (Job.State.meets_of_forall htimely)
    (natural_boot genesisTime hcache)
  exact hholds.invariant.2.cacheFile content hcontent

/-- The readings behind an open gate. -/
theorem exists_readings {genesisTime : ℤ} {memory : Memory} (hready : Ready memory)
    (hnatural : NaturalMemory genesisTime memory)
    (hopen : memory.stores.isInitialized = true) :
    ∃ r, memory.stores.readings = .ok r ∧ 4 ≤ r.churnLimit ∧ r.churnLimit ≤ 8 := by
  have hdefined := hready.readingsDefined hopen
  obtain ⟨frameBalances, hframe⟩ := Option.isSome_iff_exists.mp hdefined.frameBalances
  obtain ⟨exitText, hexitText⟩ := Option.isSome_iff_exists.mp hdefined.maxExitEpoch
  obtain ⟨sweepNumber, hsweepNumber⟩ := Option.isSome_iff_exists.mp hdefined.sweepMeanEpochs
  obtain ⟨churnNumber, hchurnNumber⟩ := Option.isSome_iff_exists.mp hdefined.churnLimit
  obtain ⟨lastRequestId, hlast⟩ := Option.isSome_iff_exists.mp hdefined.lastRequestId
  obtain ⟨nextUpdate, hnext⟩ := Option.isSome_iff_exists.mp hdefined.nextUpdate
  obtain ⟨bunker, hbunker⟩ := Option.isSome_iff_exists.mp hdefined.bunkerModeActive
  obtain ⟨initialEpoch, hinitial⟩ := Option.isSome_iff_exists.mp hdefined.initialEpoch
  obtain ⟨epochsPerFrame, hperFrame⟩ := Option.isSome_iff_exists.mp hdefined.epochsPerFrame
  obtain ⟨epochsPerFrameVEBO, hvebo⟩ := Option.isSome_iff_exists.mp hdefined.epochsPerFrameVEBO
  obtain ⟨margin, hmargin⟩ := Option.isSome_iff_exists.mp hdefined.requestTimestampMargin
  obtain ⟨cap, hcap⟩ :=
    Option.isSome_iff_exists.mp hdefined.maxBalanceExitRequestedPerReportInEth
  obtain ⟨exit, hexit⟩ := hnatural.validators.maxExitEpoch exitText hexitText
  obtain ⟨sweep, rfl⟩ := hnatural.validators.sweepMeanEpochs sweepNumber hsweepNumber
  obtain ⟨churn, rfl, hbounds⟩ := hnatural.validators.churnLimit churnNumber hchurnNumber
  have hreadExit : definedNatural (memory.stores.validators.maxExitEpoch.map JsNumber.ofText) =
      .ok exit := by
    rw [hexitText, Option.map_some, hexit]
    exact definedNatural_eq_ok.mpr ⟨_, rfl, JsNumber.natural?_natCast exit⟩
  have hreadSweep : definedNatural memory.stores.validators.sweepMeanEpochs = .ok sweep :=
    definedNatural_eq_ok.mpr ⟨_, hsweepNumber, JsNumber.natural?_natCast sweep⟩
  have hreadChurn : definedNatural memory.stores.validators.churnLimit = .ok churn :=
    definedNatural_eq_ok.mpr ⟨_, hchurnNumber, JsNumber.natural?_natCast churn⟩
  -- an open gate excludes the zero of a file that was cut off
  have hchurn : churn ≠ 0 := by
    rintro rfl
    simp [Stores.isInitialized, hchurnNumber, truthyNumber, JsNumber.truthy] at hopen
  simp only [Stores.readings, hreadExit, hreadSweep, hreadChurn, hframe, hlast, hnext, hbunker,
    hinitial, hperFrame, hvebo, hmargin, hcap]
  exact ⟨_, rfl, hbounds.resolve_left hchurn⟩

/-- **The gate stays open**: when the load from the cache file is over, a gate that has
opened never closes again, whatever the jobs and their failures, and an estimate that
is asked for at any later time reads natural numbers and a churn limit within its
bounds. -/
theorem readings_of_openGate (genesisTime : ℤ) {cacheFile : Option (List Char)}
    (hcache : ∀ content, cacheFile = some content → IsNaturalContent content)
    {first second : List Event}
    (htimely : ∀ event ∈ first ++ second, Timely genesisTime event)
    (hloaded : ∀ event ∈ second, event.job ≠ .initializeFromCache)
    (hopen : ((boot genesisTime cacheFile).run first).shared.stores.isInitialized = true) :
    let stores := ((boot genesisTime cacheFile).run (first ++ second)).shared.stores
    stores.isInitialized = true ∧
      ∃ r, stores.readings = .ok r ∧ 4 ≤ r.churnLimit ∧ r.churnLimit ≤ 8 := by
  intro stores
  have hstays : stores.isInitialized = true := by
    simp only [stores, Job.State.run_append]
    have hevents : ∀ event ∈ second,
        Timely genesisTime event ∧ event.job ≠ .initializeFromCache :=
      fun event hmem => ⟨htimely event (List.mem_append_right first hmem), hloaded event hmem⟩
    exact Job.State.run_preserves isInitialized_step (Job.State.meets_of_forall hevents)
      hopen
  have hholds := (naturalOutline genesisTime).holds_run (Job.State.meets_of_forall htimely)
    (natural_boot genesisTime hcache)
  exact ⟨hstays, exists_readings hholds.invariant.1 hholds.invariant.2 hstays⟩

theorem isNaturalContent_sampleCacheFile : IsNaturalContent sampleCacheFile := by
  refine ⟨sampleCachedStore, sampleCacheFile, cacheable_sampleCachedStore,
    ⟨fun text htext => ?_, fun number hnumber => ?_, fun number hnumber => ?_⟩,
    saveDataToCache_sampleCachedStore, List.prefix_refl _⟩
  · obtain rfl : ['3', '0', '0'] = text := Option.some.inj htext
    exact ⟨300, JsNumber.ofText_toDigits_of_le (n := 300) (by norm_num)⟩
  · exact ⟨10, (Option.some.inj hnumber).symm⟩
  · exact ⟨8, (Option.some.inj hnumber).symm, Or.inr (by decide)⟩

/-- A full update that has counted no validators and fails when it asks for the keys. -/
def sampleFailedUpdate : List Event :=
  [startUpdate, answerUpdate 12000000 (.validators []),
    answerUpdate 12000000 (.pendingPartialWithdrawals []), answerUpdate 12000000 .rejected]

/-- After a start from a file the first full update fails with half of its values stored. -/
theorem readings_of_openGate_failedUpdate :
    let stores := ((boot 0 (some sampleCacheFile)).run
      (sampleStartup ++ sampleFailedUpdate)).shared.stores
    stores.isInitialized = true ∧
      ∃ r, stores.readings = .ok r ∧ 4 ≤ r.churnLimit ∧ r.churnLimit ≤ 8 := by
  apply readings_of_openGate 0
  · intro content hcontent
    obtain rfl : sampleCacheFile = content := Option.some.inj hcontent
    exact isNaturalContent_sampleCacheFile
  · decide +kernel
  · decide +kernel
  · decide +kernel

end System

end WithdrawalsApi
