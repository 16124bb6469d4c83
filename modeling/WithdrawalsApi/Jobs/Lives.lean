/-
# The cache file over several lives

The service may be killed at any moment and started again, any number of times. The
stores are then empty, and of everything the service has learnt only the cache file is
left. A crash that hits the write of the file leaves the old text or the beginning of
the new one.

The log of the writes says what the file is good for. At every moment of every life the
file holds the text of the last write, and a load makes of it what it makes of that
write: it never mixes two updates, and it never goes back behind a write that was there
when the load began.
-/

import WithdrawalsApi.Jobs.OpenGate
import WithdrawalsApi.Math.Lives
import WithdrawalsApi.Storage.CacheWrites

namespace WithdrawalsApi

open Js Math ValidatorsService

/-! ## The fields of the file are there when they are joined -/

/-- The counts of a full update are stored. -/
def HasCounts (store : ValidatorsStorageService) : Prop :=
  store.activeValidatorsCount.isSome ∧ store.churnLimit.isSome

/-- What the full update has stored for the file where it is suspended. -/
def updateFields : Option UpdateValidators.Suspension → ValidatorsStorageService → Prop
  | some (.fetchingKeys _), store => HasCounts store
  | some (.fetchingSweepState _ _ _), store => HasCounts store
  | some (.summing _ _ _ _ _ _), store => HasCounts store
  | some (.storedFrameBalances _ _ _), store => HasCounts store
  | some (.creatingCacheDirectory _), store => HasCounts store ∧ store.lastUpdate.isSome
  | _, _ => True

/-- The fields that are there stay there. -/
structure KeepsFields (before after : ValidatorsStorageService) : Prop where
  activeValidatorsCount :
    before.activeValidatorsCount.isSome → after.activeValidatorsCount.isSome
  churnLimit : before.churnLimit.isSome → after.churnLimit.isSome
  lastUpdate : before.lastUpdate.isSome → after.lastUpdate.isSome

theorem KeepsFields.refl (store : ValidatorsStorageService) : KeepsFields store store :=
  ⟨id, id, id⟩

theorem HasCounts.of_keepsFields {before after : ValidatorsStorageService} (h : HasCounts before)
    (hkeeps : KeepsFields before after) : HasCounts after :=
  ⟨hkeeps.activeValidatorsCount h.1, hkeeps.churnLimit h.2⟩

theorem updateFields_of_keepsFields {suspended : Option UpdateValidators.Suspension}
    {before after : ValidatorsStorageService} (h : updateFields suspended before)
    (hkeeps : KeepsFields before after) : updateFields suspended after := by
  unfold updateFields at h ⊢
  split
  · exact h.of_keepsFields hkeeps
  · exact h.of_keepsFields hkeeps
  · exact h.of_keepsFields hkeeps
  · exact h.of_keepsFields hkeeps
  · exact ⟨h.1.of_keepsFields hkeeps, hkeeps.lastUpdate h.2⟩
  · trivial

/-- A load sets all fields of the file, the first three of them, or none. -/
theorem keepsFields_initializeFromCache (content : List Char) (now : ℤ)
    (store : ValidatorsStorageService) :
    KeepsFields store (initializeFromCache content now store) := by
  unfold initializeFromCache initializeFromCacheWith
  split
  · dsimp only
    split
    · split
      · exact ⟨fun _ => rfl, id, fun _ => rfl⟩
      · exact ⟨fun _ => rfl, fun _ => rfl, fun _ => rfl⟩
    · exact .refl store
  · exact .refl store

theorem keepsFields_loadSegment (suspension : ValidatorsCacheService.Suspension)
    (reply : Reply ValidatorsCacheService.Answer) (memory : Memory) :
    KeepsFields memory.stores.validators
      (ValidatorsCacheService.resume suspension reply memory).1.stores.validators := by
  unfold ValidatorsCacheService.resume
  split
  · split <;> exact .refl _
  · split <;> exact .refl _
  · exact keepsFields_initializeFromCache _ _ _
  · exact .refl _

theorem fields_counts {update : Update} {memory : Memory}
    {result : Memory × Option UpdateValidators.Suspension} (h : Counts update memory result) :
    updateFields result.2 result.1.stores.validators ∧
      KeepsFields memory.stores.validators result.1.stores.validators := by
  cases h with
  | next count rest => exact ⟨trivial, .refl _⟩
  | done => exact ⟨⟨rfl, rfl⟩, fun _ => rfl, fun _ => rfl, id⟩

theorem fields_sums {update : Update} {memory : Memory} {tally : Tally} {ids : List ℕ}
    {result : Memory × Option UpdateValidators.Suspension}
    (h : Sums update memory tally ids result) (hcounts : HasCounts memory.stores.validators) :
    updateFields result.2 result.1.stores.validators ∧
      KeepsFields memory.stores.validators result.1.stores.validators := by
  cases h with
  | threw => exact ⟨trivial, .refl _⟩
  | next => exact ⟨hcounts, .refl _⟩
  | done => exact ⟨hcounts, id, id, id⟩

theorem fields_updateSegment {suspension : UpdateValidators.Suspension} {memory : Memory}
    {result : Memory × Option UpdateValidators.Suspension}
    (hsegment : UpdateSegment suspension memory result)
    (h : updateFields (some suspension) memory.stores.validators) :
    updateFields result.2 result.1.stores.validators ∧
      KeepsFields memory.stores.validators result.1.stores.validators := by
  cases hsegment with
  | ended => exact ⟨trivial, .refl _⟩
  | fetched => exact ⟨trivial, .refl _⟩
  | setSweep update hcounts =>
      obtain ⟨hfields, hkeeps⟩ := fields_counts hcounts
      exact ⟨hfields, hkeeps.activeValidatorsCount, hkeeps.churnLimit, hkeeps.lastUpdate⟩
  | counted hcounts => exact fields_counts hcounts
  | gotKeys => exact ⟨h, .refl _⟩
  | gotSweepState hsums => exact fields_sums hsums h
  | summed hsums => exact fields_sums hsums h
  | setLastUpdate now => exact ⟨⟨h, rfl⟩, id, id, fun _ => rfl⟩
  | joined hdata => exact ⟨trivial, .refl _⟩
  | wrote => exact ⟨trivial, .refl _⟩
  | wroteInPart => exact ⟨trivial, .refl _⟩

namespace System

/-- What a job knows of the fields of the file where it is suspended. -/
def fieldsAsserts : (job : JobName) → Option (jobs job).Suspension → Memory → Prop
  | .updateValidators => fun suspended memory => updateFields suspended memory.stores.validators
  | _ => fun _ _ => True

theorem fields_segment {s : System} {event : Event} {job : JobName}
    {segment : Memory × Option (jobs job).Suspension} (hruns : s.Runs event job segment)
    (h : fieldsAsserts job (s.suspended job) s.shared) :
    fieldsAsserts job segment.2 segment.1 ∧
      KeepsFields s.shared.stores.validators segment.1.stores.validators := by
  by_cases hjob : job = .updateValidators
  · subst hjob
    cases hruns with
    | start hidle => exact ⟨trivial, .refl _⟩
    | @resume _ reply suspension hsuspended =>
        rw [hsuspended] at h
        exact fields_updateSegment (updateSegment_resume suspension reply s.shared) h
  · refine ⟨?_, ?_⟩
    · cases job with
      | updateValidators => exact absurd rfl hjob
      | _ => trivial
    · rcases other_writes hruns hjob with ⟨hsame, -⟩ | rfl | ⟨rfl, -, _, tally, -, hstore⟩
      · rw [hsame]
        exact .refl _
      · cases hruns with
        | start hidle => exact .refl _
        | @resume _ reply suspension hsuspended =>
            exact keepsFields_loadSegment suspension reply s.shared
      · rw [hstore]
        exact ⟨id, id, id⟩

/-- The jobs keep the fields that the full update has stored for the file. -/
def fieldsOutline (condition : System → Event → Prop) : Job.Outline jobs condition where
  invariant _ := True
  asserts := fieldsAsserts
  commits _ before after := KeepsFields before.stores.validators after.stores.validators
  segment _ hruns _ hasserts := by
    obtain ⟨hfields, hkeeps⟩ := fields_segment hruns hasserts
    exact ⟨trivial, hfields, hkeeps⟩
  stable := by
    intro job other _ suspended before after hasserts hkeeps
    cases job with
    | updateValidators => exact updateFields_of_keepsFields hasserts hkeeps
    | _ => trivial

/-! ## Lives and writes -/

/-- An occurrence in the lives of the service. A crash says how many characters of the
cache file a write in flight has still written, or that it has not begun. -/
abbrev LifeEvent := Job.LifeEvent jobs (Option ℕ)

/-- The cache file after a crash. -/
def leftFile (s : System) (cut : Option ℕ) : Option (List Char) :=
  match cut, s.updateValidators with
  | some kept, some (.writingCache _ data) => some (data.take kept)
  | _, _ => s.shared.cacheFile

/-- The service starts again from the file that a crash has left. -/
def restart (genesisTime : ℤ) (s : System) (cut : Option ℕ) : System :=
  boot genesisTime (s.leftFile cut)

/-- The service after all occurrences, when there was no file at first. -/
def lives (genesisTime : ℤ) (events : List LifeEvent) : System :=
  Job.State.lives (restart genesisTime) (boot genesisTime none) events

/-- The content that a load has read from the file. -/
def readContent (s : System) : Option (List Char) :=
  match s.suspended .initializeFromCache with
  | some (.closing content) => some content
  | _ => none

/-- The writes of the file, the latest first, and the store whose fields were joined
last. -/
structure CacheLog where
  joined : ValidatorsStorageService := {}
  saves : List Save := []

def CacheLog.write (log : CacheLog) (kept : Option ℕ) : CacheLog :=
  { log with saves := ⟨log.joined, kept⟩ :: log.saves }

/-- What an answer to the full update adds to the log. -/
def noteUpdate (store : ValidatorsStorageService) :
    UpdateValidators.Suspension → Reply UpdateValidators.Answer → CacheLog → CacheLog
  | .creatingCacheDirectory _, ⟨_, .settled⟩, log => { log with joined := store }
  | .writingCache _ _, ⟨_, .settled⟩, log => log.write none
  | .writingCache _ _, ⟨_, .truncated kept⟩, log => log.write (some kept)
  | _, _, log => log

/-- What an occurrence adds to the log. -/
def note (s : System) : LifeEvent → CacheLog → CacheLog
  | .occurs (.resume .updateValidators reply), log =>
      match s.updateValidators with
      | some suspension => noteUpdate s.shared.stores.validators suspension reply log
      | none => log
  | .crashes (some kept), log =>
      match s.updateValidators with
      | some (.writingCache _ _) => log.write (some kept)
      | _ => log
  | _, log => log

/-- The log after all occurrences. -/
def cacheLog (genesisTime : ℤ) (events : List LifeEvent) : CacheLog :=
  Job.State.journal (restart genesisTime) note (boot genesisTime none) events {}

/-! ## The log tells what is in the file -/

end System

/-- The count and the update time are natural numbers. -/
structure NaturalCounts (store : ValidatorsStorageService) : Prop where
  activeValidatorsCount : ∀ number, store.activeValidatorsCount = some number →
    ∃ n : ℕ, number = .finite n
  lastUpdate : ∀ number, store.lastUpdate = some number → ∃ n : ℕ, number = .finite n

namespace NaturalCounts

variable {store : ValidatorsStorageService}

theorem empty : NaturalCounts {} where
  activeValidatorsCount := by
    intro number hnumber
    cases hnumber
  lastUpdate := by
    intro number hnumber
    cases hnumber

/-- A load brings back what was written. -/
theorem of_loads (h : NaturalCounts store) {save : Save} (hcomplete : Complete save.store)
    {now : ℤ} {after : ValidatorsStorageService} (hloads : save.Loads now store after) :
    NaturalCounts after := by
  cases hloads with
  | ignored => exact h
  | restored hfresh hfields hchurn =>
      obtain ⟨active, hactive⟩ := hcomplete.activeValidatorsCount
      obtain ⟨last, hlast⟩ := hcomplete.lastUpdate
      refine ⟨fun number hnumber => ⟨active, ?_⟩, fun number hnumber => ⟨last, ?_⟩⟩
      · rw [hfields.activeValidatorsCount, hactive] at hnumber
        exact (Option.some.inj hnumber).symm
      · rw [hfields.lastUpdate, hlast] at hnumber
        exact (Option.some.inj hnumber).symm

theorem counts (h : NaturalCounts store) (update : Update) :
    NaturalCounts (setCounts update store) where
  activeValidatorsCount _ hnumber := ⟨_, (Option.some.inj hnumber).symm⟩
  lastUpdate := h.lastUpdate

/-- Update times are stored in whole seconds. -/
theorem setLastUpdate (h : NaturalCounts store) {now : ℤ} (hnow : 1000 ≤ now) :
    NaturalCounts { store with lastUpdate := some (.finite (now / 1000 : ℤ)) } where
  activeValidatorsCount := h.activeValidatorsCount
  lastUpdate := by
    intro number hnumber
    obtain rfl : JsNumber.finite (now / 1000 : ℤ) = number := Option.some.inj hnumber
    refine ⟨(now / 1000).toNat, ?_⟩
    have hseconds : ((now / 1000).toNat : ℤ) = now / 1000 :=
      Int.toNat_of_nonneg (Int.ediv_nonneg (by omega) (by decide))
    rw [← Int.cast_natCast, hseconds]

theorem countNext {memory : Memory} (h : NaturalCounts memory.stores.validators)
    (update : Update) (rest : List IndexedValidator) :
    NaturalCounts (ValidatorsService.countNext update rest memory).1.stores.validators := by
  cases rest with
  | nil => exact h.counts update
  | cons item rest => exact h

theorem sumNext {memory : Memory} (h : NaturalCounts memory.stores.validators)
    (update : Update) (estimate : Estimate) (sweepState : WithdrawalSweepState)
    (rest : List IndexedValidator) (tally : Tally) (ids : List ℕ) :
    NaturalCounts (ValidatorsService.sumNext update estimate sweepState rest tally ids
      memory).1.stores.validators := by
  cases rest with
  | nil => exact ⟨h.activeValidatorsCount, h.lastUpdate⟩
  | cons item rest =>
      simp only [ValidatorsService.sumNext]
      split
      · split
        · exact h
        · exact h
      · exact h

/-- A segment of the full update, at a clock that is not before its first second. -/
theorem updateSegment {memory : Memory} (h : NaturalCounts memory.stores.validators)
    (suspension : UpdateValidators.Suspension) {reply : Reply UpdateValidators.Answer}
    (hnow : 1000 ≤ reply.now) :
    NaturalCounts (resumeUpdateValidators suspension reply memory).1.stores.validators := by
  unfold resumeUpdateValidators
  split
  · exact h
  · split
    · apply countNext
      exact ⟨h.activeValidatorsCount, h.lastUpdate⟩
    · exact h
  · exact h.countNext _ _
  · exact h
  · split
    · exact h.sumNext _ _ _ _ _ _
    · exact h
  · exact h.sumNext _ _ _ _ _ _
  · exact h.setLastUpdate hnow
  · split
    · exact h
    · exact h
  · exact h
  · exact h
  · exact h

end NaturalCounts

/-- The full update is about to join the fields of the file, or it is writing it. -/
def usesFile : UpdateValidators.Suspension → Bool
  | .creatingCacheDirectory _ => true
  | .writingCache _ _ => true
  | _ => false

/-- Only the end of a full update writes the file or is about to. -/
theorem cacheFile_updateSegment {suspension : UpdateValidators.Suspension} {memory : Memory}
    {result : Memory × Option UpdateValidators.Suspension}
    (hsegment : UpdateSegment suspension memory result) (hunused : usesFile suspension = false) :
    result.1.cacheFile = memory.cacheFile ∧
      ∀ saved data, result.2 ≠ some (.writingCache saved data) := by
  have hcounts {update : Update} {memory : Memory}
      {result : Memory × Option UpdateValidators.Suspension} (h : Counts update memory result) :
      result.1.cacheFile = memory.cacheFile ∧
        ∀ saved data, result.2 ≠ some (.writingCache saved data) := by
    cases h <;> exact ⟨rfl, fun _ _ hnext => by cases hnext⟩
  have hsums {update : Update} {tally : Tally} {ids : List ℕ}
      (h : Sums update memory tally ids result) :
      result.1.cacheFile = memory.cacheFile ∧
        ∀ saved data, result.2 ≠ some (.writingCache saved data) := by
    cases h <;> exact ⟨rfl, fun _ _ hnext => by cases hnext⟩
  cases hsegment with
  | setSweep update h =>
      have hset := hcounts h
      exact hset
  | counted h => exact hcounts h
  | gotSweepState h => exact hsums h
  | summed h => exact hsums h
  | joined => cases hunused
  | wrote => cases hunused
  | wroteInPart => cases hunused
  | _ => exact ⟨rfl, fun _ _ hnext => by cases hnext⟩

namespace System

/-- The content is the text of a write that is not older than some writes. -/
def WrittenSince (older saves : List Save) (content : List Char) : Prop :=
  ∃ newer save rest, saves = newer ++ save :: rest ∧ older <:+ save :: rest ∧
    save.text? = some content

/-- What the log says of the memory and of the jobs that use the file, at a moment after
the older writes. -/
structure Logs (older : List Save) (memory : Memory)
    (load : Option ValidatorsCacheService.Suspension)
    (update : Option UpdateValidators.Suspension) (log : CacheLog) : Prop where
  counts : NaturalCounts memory.stores.validators
  cacheFile : memory.cacheFile = log.saves.head?.bind Save.text?
  complete : ∀ save ∈ log.saves, Complete save.store
  writing : ∀ saved data, update = some (.writingCache saved data) →
    Complete log.joined ∧ saveDataToCache log.joined = some data
  older_suffix : older <:+ log.saves
  loading : ∀ content, load = some (.closing content) → WrittenSince older log.saves content

/-- What the log says of the service. -/
def Logged (older : List Save) (s : System) (log : CacheLog) : Prop :=
  Logs older s.shared (s.suspended .initializeFromCache) (s.suspended .updateValidators) log

namespace Logs

variable {older : List Save} {memory : Memory} {load : Option ValidatorsCacheService.Suspension}
  {update : Option UpdateValidators.Suspension} {log : CacheLog}

/-- Nothing is written, and no write begins. -/
theorem unwritten (h : Logs older memory load update log) {after : Memory}
    (hcounts : NaturalCounts after.stores.validators) (hfile : after.cacheFile = memory.cacheFile)
    {next : Option UpdateValidators.Suspension}
    (hnext : ∀ saved data, next = some (.writingCache saved data) → update = next) :
    Logs older after load next log where
  counts := hcounts
  cacheFile := hfile.trans h.cacheFile
  complete := h.complete
  writing saved data hwriting := h.writing saved data ((hnext saved data hwriting).trans hwriting)
  older_suffix := h.older_suffix
  loading := h.loading

/-- A full update in flight is lost. -/
theorem lost (h : Logs older memory load update log) : Logs older memory load none log := by
  apply h.unwritten h.counts rfl
  intro saved data hnext
  cases hnext

/-- A load in flight is lost. -/
theorem unread (h : Logs older memory load update log) : Logs older memory none update log where
  counts := h.counts
  cacheFile := h.cacheFile
  complete := h.complete
  writing := h.writing
  older_suffix := h.older_suffix
  loading := by
    intro content hnext
    cases hnext

/-- A write that is in flight takes place. -/
theorem write {saved : ValidatorsStorageService} {data : List Char}
    (h : Logs older memory load (some (.writingCache saved data)) log) (kept : Option ℕ)
    {after : Memory} (hcounts : NaturalCounts after.stores.validators)
    (hfile : after.cacheFile = some ((kept.map data.take).getD data)) :
    Logs older after load none (log.write kept) where
  counts := hcounts
  cacheFile := by
    obtain ⟨-, hdata⟩ := h.writing saved data rfl
    simp only [hfile, CacheLog.write, List.head?_cons, Option.bind_some, Save.text?, hdata,
      Option.map_some]
  complete := by
    intro save hmem
    rcases List.mem_cons.mp hmem with rfl | hearlier
    · exact (h.writing saved data rfl).1
    · exact h.complete save hearlier
  writing _ _ hnext := by cases hnext
  older_suffix := h.older_suffix.trans (List.suffix_cons _ _)
  loading := by
    intro content hload
    obtain ⟨newer, save, rest, hsaves, hsince, htext⟩ := h.loading content hload
    exact ⟨⟨log.joined, kept⟩ :: newer, save, rest, congrArg _ hsaves, hsince, htext⟩

/-- A segment of the full update before it comes to the file. -/
theorem earlySegment {suspension : UpdateValidators.Suspension}
    (h : Logs older memory load (some suspension) log) (hunused : usesFile suspension = false)
    {reply : Reply UpdateValidators.Answer} (hnow : 1000 ≤ reply.now) :
    let segment := resumeUpdateValidators suspension reply memory
    Logs older segment.1 load segment.2 log := by
  obtain ⟨hfile, hnext⟩ :=
    cacheFile_updateSegment (updateSegment_resume suspension reply memory) hunused
  exact h.unwritten (h.counts.updateSegment suspension hnow) hfile fun saved data hwriting =>
    absurd hwriting (hnext saved data)

/-- A segment of the full update. -/
theorem updateSegment {suspension : UpdateValidators.Suspension}
    (h : Logs older memory load (some suspension) log)
    (hcomplete : ∀ saved, suspension = .creatingCacheDirectory saved →
      Complete memory.stores.validators)
    {reply : Reply UpdateValidators.Answer} (hnow : 1000 ≤ reply.now) :
    let segment := resumeUpdateValidators suspension reply memory
    Logs older segment.1 load segment.2
      (noteUpdate memory.stores.validators suspension reply log) := by
  cases suspension with
  | creatingCacheDirectory saved =>
      obtain ⟨now, answer⟩ := reply
      cases answer with
      | settled =>
          simp only [resumeUpdateValidators, noteUpdate]
          cases hdata : saveDataToCache memory.stores.validators with
          | none =>
              refine ⟨h.counts, h.cacheFile, h.complete, ?_, h.older_suffix, h.loading⟩
              rintro _ _ ⟨⟩
          | some data =>
              refine ⟨h.counts, h.cacheFile, h.complete, ?_, h.older_suffix, h.loading⟩
              rintro _ _ ⟨⟩
              exact ⟨hcomplete saved rfl, hdata⟩
      | _ => exact h.unwritten h.counts rfl fun _ _ hnext => by cases hnext
  | writingCache saved data =>
      obtain ⟨now, answer⟩ := reply
      cases answer with
      | settled => exact h.write none h.counts rfl
      | truncated kept => exact h.write (some kept) h.counts rfl
      | _ => exact h.unwritten h.counts rfl fun _ _ hnext => by cases hnext
  | _ => exact h.earlySegment rfl hnow

/-- A segment of the load from the file. -/
theorem loadSegment {suspension : ValidatorsCacheService.Suspension}
    (h : Logs older memory (some suspension) update log)
    (reply : Reply ValidatorsCacheService.Answer) :
    let segment := ValidatorsCacheService.resume suspension reply memory
    Logs older segment.1 segment.2 update log := by
  have hother {next : Option ValidatorsCacheService.Suspension}
      (hnext : ∀ content, next = some (.closing content) →
        WrittenSince older log.saves content) : Logs older memory next update log :=
    ⟨h.counts, h.cacheFile, h.complete, h.writing, h.older_suffix, hnext⟩
  unfold ValidatorsCacheService.resume
  split
  · split
    · exact hother fun _ hnext => by cases hnext
    · exact hother fun _ hnext => by cases hnext
  · split
    next content hcontent =>
      apply hother
      rintro _ ⟨⟩
      have hfile := h.cacheFile
      have hsuffix := h.older_suffix
      rw [hcontent] at hfile
      cases hsaves : log.saves with
      | nil =>
          rw [hsaves] at hfile
          cases hfile
      | cons save rest =>
          rw [hsaves] at hfile hsuffix
          exact ⟨[], save, rest, rfl, hsuffix, hfile.symm⟩
    · exact hother fun _ hnext => by cases hnext
  next content now =>
    obtain ⟨newer, save, rest, hsaves, -, htext⟩ := h.loading content rfl
    have hcomplete : Complete save.store := by
      apply h.complete
      rw [hsaves]
      exact List.mem_append_right newer List.mem_cons_self
    refine ⟨h.counts.of_loads hcomplete (Save.loads_of_text hcomplete htext now _), h.cacheFile,
      h.complete, h.writing, h.older_suffix, fun _ hnext => by cases hnext⟩
  · exact hother fun _ hnext => by cases hnext

end Logs

/-- Of the jobs, only the full update writes the file. -/
theorem cacheFile_other {s : System} {event : Event} {job : JobName}
    {segment : Memory × Option (jobs job).Suspension} (hruns : s.Runs event job segment)
    (hjob : job ≠ .updateValidators) : segment.1.cacheFile = s.shared.cacheFile := by
  cases hruns with
  | @start job input hidle =>
      cases job <;> rfl
  | @resume job answer suspension hsuspended =>
      cases job with
      | initializeFromCache =>
          obtain ⟨validators, hstore⟩ :=
            ValidatorsCacheService.resume_fst suspension answer s.shared
          have hfile := congrArg Memory.cacheFile hstore
          exact hfile
      | updateValidators => exact absurd rfl hjob
      | updateLidoWithdrawableValidators =>
          rcases refresh_fst suspension answer s.shared with ⟨-, hsame⟩ | ⟨-, tally, hstore⟩
          · exact congrArg Memory.cacheFile hsame
          · have hfile := congrArg Memory.cacheFile hstore
            exact hfile
      | updateQueueInfo =>
          rcases QueueInfoService.resume_fst suspension answer s.shared with
            hsame | ⟨queue, requests, clock, hstore⟩
          · exact congrArg Memory.cacheFile hsame
          · have hfile := congrArg Memory.cacheFile hstore
            exact hfile
      | updateContractConfig =>
          rcases ContractConfigService.resume_fst suspension answer s.shared with
            hsame | ⟨wasSrv3KnownLastTick, reads, now, hstore⟩
          · exact congrArg Memory.cacheFile hsame
          · have hfile := congrArg Memory.cacheFile hstore
            exact hfile

/-- A job that does not use the file leaves what the log says. -/
theorem logged_other {older : List Save} {log : CacheLog} {s : System} {event : Event}
    {job : JobName} {segment : Memory × Option (jobs job).Suspension}
    (h : Logged older s log) (hruns : s.Runs event job segment)
    (hload : job ≠ .initializeFromCache) (hupdate : job ≠ .updateValidators) :
    Logged older (s.step event) log := by
  unfold Logged at h ⊢
  rw [hruns.step_shared, hruns.step_suspended_of_ne hload.symm,
    hruns.step_suspended_of_ne hupdate.symm]
  refine h.unwritten ?_ (cacheFile_other hruns hupdate) fun _ _ _ => rfl
  rcases other_writes hruns hupdate with ⟨hsame, -⟩ | hjob | ⟨-, -, _, tally, -, hstore⟩
  · rw [hsame]
    exact h.counts
  · exact absurd hjob hload
  · rw [hstore]
    exact ⟨h.counts.activeValidatorsCount, h.counts.lastUpdate⟩

/-- The readings are natural, and the fields of the file are there when they are joined. -/
def savesOutline (genesisTime : ℤ) : Job.Outline jobs fun _ event => Timely genesisTime event :=
  (naturalOutline genesisTime).both (fieldsOutline _)

/-- Where the fields are joined, the store has them all. -/
theorem complete_of_holds {genesisTime : ℤ} {s : System} (h : (savesOutline genesisTime).Holds s)
    (hcounts : NaturalCounts s.shared.stores.validators) {saved : ValidatorsStorageService}
    (hcreating : s.suspended .updateValidators = some (.creatingCacheDirectory saved)) :
    Complete s.shared.stores.validators := by
  obtain ⟨⟨hready, hnatural⟩, -⟩ := h.invariant
  have hasserts := (h.asserts .updateValidators).2
  rw [hcreating] at hasserts
  obtain ⟨⟨hactive, hchurn⟩, hlast⟩ := hasserts
  have hvalidators := hready.validators
  obtain ⟨active, hactive⟩ := Option.isSome_iff_exists.mp hactive
  obtain ⟨churn, hchurnLimit⟩ := Option.isSome_iff_exists.mp hchurn
  obtain ⟨last, hlastUpdate⟩ := Option.isSome_iff_exists.mp hlast
  obtain ⟨exit, hexit⟩ := Option.isSome_iff_exists.mp (hvalidators.maxExitEpoch hlast)
  obtain ⟨table, htable⟩ := Option.isSome_iff_exists.mp (hvalidators.frameBalances hlast)
  obtain ⟨sweep, hsweep⟩ := Option.isSome_iff_exists.mp (hvalidators.sweepMeanEpochs hchurn)
  obtain ⟨activeCount, rfl⟩ := hcounts.activeValidatorsCount active hactive
  obtain ⟨lastSeconds, rfl⟩ := hcounts.lastUpdate last hlastUpdate
  obtain ⟨sweepCount, rfl⟩ := hnatural.validators.sweepMeanEpochs sweep hsweep
  obtain ⟨limit, rfl, hbounds⟩ := hnatural.validators.churnLimit churn hchurnLimit
  exact {
    activeValidatorsCount := ⟨activeCount, hactive⟩
    maxExitEpoch := ⟨exit, hexit, hvalidators.cacheable.maxExitEpoch exit hexit⟩
    lastUpdate := ⟨lastSeconds, hlastUpdate⟩
    frameBalances := ⟨table, htable, hvalidators.cacheable.frameBalances table htable⟩
    sweepMeanEpochs := ⟨sweepCount, hsweep⟩
    churnLimit := ⟨limit, hchurnLimit, by omega⟩ }

/-- One occurrence for the jobs. -/
theorem logged_step {genesisTime : ℤ} {older : List Save} (s : System) (event : Event)
    (log : CacheLog) (htimely : Timely genesisTime event)
    (hholds : (savesOutline genesisTime).Holds s) (h : Logged older s log) :
    Logged older (s.step event) (note s (.occurs event) log) := by
  unfold Logged at h ⊢
  cases event with
  | start job input =>
      cases hidle : s.suspended job with
      | some suspension =>
          rw [Job.State.step_start_of_suspended hidle]
          exact h
      | none =>
          have hruns : s.Runs (.start job input) job _ := .start hidle
          cases job with
          | initializeFromCache =>
              rw [hruns.step_shared, hruns.step_suspended,
                hruns.step_suspended_of_ne (by decide : JobName.updateValidators ≠ _)]
              refine ⟨h.counts, h.cacheFile, h.complete, h.writing, h.older_suffix, ?_⟩
              rintro _ ⟨⟩
          | updateValidators =>
              rw [hruns.step_shared, hruns.step_suspended,
                hruns.step_suspended_of_ne (by decide : JobName.initializeFromCache ≠ _)]
              refine h.unwritten h.counts rfl ?_
              rintro _ _ ⟨⟩
          | _ => exact logged_other h hruns (by decide) (by decide)
  | resume job answer =>
      cases hsuspended : s.suspended job with
      | none =>
          rw [Job.State.step_resume_of_idle hsuspended]
          cases job with
          | updateValidators =>
              simp only [note, updateValidators, hsuspended]
              rw [hsuspended] at h
              exact h
          | _ => exact h
      | some suspension =>
          have hruns : s.Runs (.resume job answer) job _ := .resume hsuspended
          cases job with
          | initializeFromCache =>
              rw [hruns.step_shared, hruns.step_suspended,
                hruns.step_suspended_of_ne (by decide : JobName.updateValidators ≠ _)]
              rw [hsuspended] at h
              exact h.loadSegment answer
          | updateValidators =>
              rw [hruns.step_shared, hruns.step_suspended,
                hruns.step_suspended_of_ne (by decide : JobName.initializeFromCache ≠ _)]
              simp only [note, updateValidators, hsuspended]
              have hcomplete (saved : ValidatorsStorageService)
                  (hcreating : suspension = .creatingCacheDirectory saved) :
                  Complete s.shared.stores.validators :=
                complete_of_holds hholds h.counts (hcreating ▸ hsuspended)
              rw [hsuspended] at h
              exact h.updateSegment hcomplete (htimely.clock _ rfl).1
          | _ => exact logged_other h hruns (by decide) (by decide)

/-- A crash. -/
theorem logged_crash {older : List Save} (genesisTime : ℤ) (s : System) (cut : Option ℕ)
    (log : CacheLog) (h : Logged older s log) :
    Logged older (restart genesisTime s cut) (note s (.crashes cut) log) := by
  unfold Logged at h ⊢
  have hempty : NaturalCounts (restart genesisTime s cut).shared.stores.validators := .empty
  have hlost := h.unread.lost
  cases cut with
  | none => exact hlost.unwritten hempty rfl fun _ _ _ => rfl
  | some kept =>
      cases hsuspended : s.suspended .updateValidators with
      | none =>
          have hfile : s.leftFile (some kept) = s.shared.cacheFile := by
            simp only [leftFile, updateValidators, hsuspended]
          simp only [note, updateValidators, hsuspended]
          exact hlost.unwritten hempty hfile fun _ _ _ => rfl
      | some suspension =>
          rw [hsuspended] at h
          cases suspension with
          | writingCache saved data =>
              have hfile : s.leftFile (some kept) = some (data.take kept) := by
                simp only [leftFile, updateValidators, hsuspended]
              simp only [note, updateValidators, hsuspended]
              exact h.unread.write (some kept) hempty hfile
          | _ =>
              have hfile : s.leftFile (some kept) = s.shared.cacheFile := by
                simp only [leftFile, updateValidators, hsuspended]
              simp only [note, updateValidators, hsuspended]
              exact hlost.unwritten hempty hfile fun _ _ _ => rfl

theorem savesOutline_boot (genesisTime : ℤ) {cacheFile : Option (List Char)}
    (hcache : ∀ content, cacheFile = some content → IsNaturalContent content) :
    (savesOutline genesisTime).Holds (boot genesisTime cacheFile) := by
  apply (Job.Outline.both_holds_iff _).mpr
  refine ⟨natural_boot genesisTime hcache, trivial, fun job => ?_⟩
  cases job <;> trivial

/-- The next life begins as the first one. -/
theorem savesOutline_restart {genesisTime : ℤ} (s : System) (cut : Option ℕ)
    (h : (savesOutline genesisTime).Holds s) :
    (savesOutline genesisTime).Holds (restart genesisTime s cut) := by
  apply savesOutline_boot
  intro content hcontent
  obtain ⟨⟨-, hnatural⟩, -⟩ := h.invariant
  have hnumbers := (h.asserts .updateValidators).1.2
  unfold leftFile at hcontent
  split at hcontent
  next kept saved data hwriting =>
    obtain rfl := Option.some.inj hcontent
    have hsuspended : s.suspended .updateValidators = some (.writingCache saved data) := hwriting
    rw [hsuspended] at hnumbers
    exact IsNaturalContent.of_prefix hnumbers (List.take_prefix kept data)
  next => exact hnatural.cacheFile content hcontent

/-- The clocks of an occurrence are past the first second and not before the genesis. -/
def TimelyLife (genesisTime : ℤ) : LifeEvent → Prop
  | .occurs event => Timely genesisTime event
  | .crashes _ => True

instance (genesisTime : ℤ) (event : LifeEvent) : Decidable (TimelyLife genesisTime event) :=
  match event with
  | .occurs event => inferInstanceAs (Decidable (Timely genesisTime event))
  | .crashes _ => .isTrue trivial

/-- What the log says after some lives, if it said so before the latest occurrences. -/
theorem logged_lives {genesisTime : ℤ} {older : List Save} {s : System} {noted : CacheLog}
    {events : List LifeEvent} (htimely : ∀ event ∈ events, TimelyLife genesisTime event)
    (hholds : (savesOutline genesisTime).Holds s) (h : Logged older s noted) :
    let final := Job.State.lives (restart genesisTime) s events
    (savesOutline genesisTime).Holds final ∧
      Logged older final (Job.State.journal (restart genesisTime) note s events noted) := by
  refine (savesOutline genesisTime).holds_lives savesOutline_restart logged_step
    (fun s cut log _ hlogged => logged_crash genesisTime s cut log hlogged) ?_ hholds h
  intro event hmem
  exact htimely _ hmem

/-- The log of the first life, before anything has happened. -/
theorem logged_boot (genesisTime : ℤ) : Logged [] (boot genesisTime none) {} where
  counts := .empty
  cacheFile := rfl
  complete := by
    intro save hmem
    cases hmem
  writing := by
    intro saved data hnext
    cases hnext
  older_suffix := List.suffix_refl []
  loading := by
    intro content hnext
    cases hnext

/-- The last answer that a load awaits. -/
def answerLoad (now : ℤ) : Event :=
  .resume .initializeFromCache (⟨now, .settled⟩ : Reply ValidatorsCacheService.Answer)

/-- With the content read, the load stores what it finds there. -/
theorem validators_answerLoad {s : System} {content : List Char}
    (h : s.suspended .initializeFromCache = some (.closing content)) (now : ℤ) :
    (s.step (answerLoad now)).shared.stores.validators =
      initializeFromCache content now s.shared.stores.validators := by
  have hruns : s.Runs (answerLoad now) .initializeFromCache _ := .resume h
  rw [hruns.step_shared]
  rfl

/-- **A load never mixes writes and never goes back.** The service may be killed any
number of times, also while it writes the cache file. A load that begins after the first
occurrences ends with what one single write of the file makes of the store; and that is
the write that was the last one when the load began, or a newer one. -/
theorem loads_of_lives (genesisTime : ℤ) {first second : List LifeEvent}
    (htimely : ∀ event ∈ first ++ second, TimelyLife genesisTime event)
    (hidle : ((lives genesisTime first).suspended .initializeFromCache).isNone = true)
    {content : List Char}
    (hread : (lives genesisTime (first ++ second)).readContent = some content) (now : ℤ) :
    let s := lives genesisTime (first ++ second)
    ∃ newer save older,
      (cacheLog genesisTime (first ++ second)).saves = newer ++ save :: older ∧
      (cacheLog genesisTime first).saves <:+ save :: older ∧
      save.Loads now s.shared.stores.validators
        (s.step (answerLoad now)).shared.stores.validators := by
  intro s
  obtain ⟨hholds, hfirst⟩ := logged_lives
    (fun event hmem => htimely event (List.mem_append_left second hmem))
    (savesOutline_boot genesisTime (fun _ hnone => by cases hnone)) (logged_boot genesisTime)
  have hloading : (lives genesisTime first).suspended .initializeFromCache = none :=
    Option.isNone_iff_eq_none.mp hidle
  -- what is known of the writes before the load is forgotten, but for where they are
  have hbegun : Logged (cacheLog genesisTime first).saves (lives genesisTime first)
      (cacheLog genesisTime first) := by
    refine ⟨hfirst.counts, hfirst.cacheFile, hfirst.complete, hfirst.writing,
      List.suffix_refl _, ?_⟩
    intro other hother
    rw [hloading] at hother
    cases hother
  have hlast : Logged (cacheLog genesisTime first).saves s
      (cacheLog genesisTime (first ++ second)) := by
    have hlives : s = Job.State.lives (restart genesisTime) (lives genesisTime first) second :=
      Job.State.lives_append _ _ _ _
    have hlog : cacheLog genesisTime (first ++ second) = Job.State.journal (restart genesisTime)
        note (lives genesisTime first) second (cacheLog genesisTime first) :=
      Job.State.journal_append _ _ _ _ _ _
    rw [hlives, hlog]
    have hsecond := logged_lives
      (fun event hmem => htimely event (List.mem_append_right first hmem)) hholds hbegun
    exact hsecond.2
  have hclosing : s.suspended .initializeFromCache = some (.closing content) := by
    unfold readContent at hread
    split at hread
    next found hfound =>
      obtain rfl := Option.some.inj hread
      exact hfound
    next => cases hread
  obtain ⟨newer, save, older, hsaves, hsince, htext⟩ := hlast.loading content hclosing
  refine ⟨newer, save, older, hsaves, hsince, ?_⟩
  rw [validators_answerLoad hclosing]
  apply Save.loads_of_text _ htext
  apply hlast.complete
  rw [hsaves]
  exact List.mem_append_right newer List.mem_cons_self

/-- A full update without validators, and a second one that a crash interrupts while it
writes the file. -/
def interrupted : List LifeEvent :=
  let update := fullUpdate 12000000 [] [] ⟨100, some 0, none⟩ 0
  (update ++ update.dropLast).map .occurs ++ [.crashes (some 9)]

/-- A full update without validators, and a crash when it is over. -/
def finished : List LifeEvent :=
  (fullUpdate 12000000 [] [] ⟨100, some 0, none⟩ 0).map .occurs ++ [.crashes none]

/-- The next life reads what the crash has left. -/
def nextLoad : List LifeEvent :=
  [.occurs (.start .initializeFromCache ()), .occurs (answerLoad 13000000),
    .occurs (answerLoad 13000000)]

/-- One load finds the second write, which was cut, and is turned away; the other one
finds a whole write and restores the six fields. -/
theorem loads_of_lives_interrupted :
    (let s := lives 0 (interrupted ++ nextLoad);
      (s.step (answerLoad 13000000)).shared.stores.validators.lastUpdate.isNone = true ∧
      ∃ newer save older,
        (cacheLog 0 (interrupted ++ nextLoad)).saves = newer ++ save :: older ∧
        (cacheLog 0 interrupted).saves <:+ save :: older ∧
        save.Loads 13000000 s.shared.stores.validators
          (s.step (answerLoad 13000000)).shared.stores.validators) ∧
    (let s := lives 0 (finished ++ nextLoad);
      s.shared.stores.validators.churnLimit.isNone = true ∧
      (s.step (answerLoad 13000000)).shared.stores.validators.churnLimit.isSome = true ∧
      ∃ newer save older,
        (cacheLog 0 (finished ++ nextLoad)).saves = newer ++ save :: older ∧
        (cacheLog 0 finished).saves <:+ save :: older ∧
        save.Loads 13000000 s.shared.stores.validators
          (s.step (answerLoad 13000000)).shared.stores.validators) := by
  constructor
  · have hread : (lives 0 (interrupted ++ nextLoad)).readContent =
        some ['0', '|', '3', '6', '|', '1', '2', '0', '0'] := by decide +kernel
    exact ⟨by decide +kernel, loads_of_lives 0 (by decide +kernel) (by decide +kernel) hread
      13000000⟩
  · have hread : (lives 0 (finished ++ nextLoad)).readContent =
        some "0|36|12000|{}|0|4".toList := by decide +kernel
    exact ⟨by decide +kernel, by decide +kernel,
      loads_of_lives 0 (by decide +kernel) (by decide +kernel) hread 13000000⟩

end System

end WithdrawalsApi
