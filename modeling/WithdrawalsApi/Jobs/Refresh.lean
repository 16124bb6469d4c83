/-
# Two jobs, one table

The full update stores the list of withdrawable validators together with the
table summed from it; the refresh reads the list at its start and stores a table
many awaited calls later. Each job is alone with itself, and nothing keeps one
from running into the other: a full update that stores a new list while a refresh
is reading balances for the old one loses its table to the refresh.

The table accounts for the list as long as a refresh that stores its table finds
the list it has started from: each listed validator is counted once, with the
balance of a record that the consensus node has answered, in the frame its
withdrawal is projected for.
-/

import WithdrawalsApi.Jobs.FrameTable
import WithdrawalsApi.Jobs.System

namespace WithdrawalsApi

open Js Math ValidatorsService

/-- The stored table accounts for the stored list: there is one row for each
validator of the list and for no other, each row is that of a record as it has been
answered, and the table holds, frame by frame, what the rows of the frame add up to
and nothing else. -/
def Accounts (answered : Set IndexedValidator) (memory : Memory) : Prop :=
  ∃ rows table, memory.history.ledger = some rows ∧
    memory.stores.validators.frameBalances = some table ∧
    (rows.map Contribution.validatorIndex).Perm
      memory.stores.validators.withdrawableLidoValidatorIds ∧
    (∀ row ∈ rows, row.OfRecord ∧ row.source.record ∈ answered) ∧
    (∀ frame, table.get? (frameKey frame) =
      if contributionsOf rows frame = [] then none
      else some (totalBalance (contributionsOf rows frame))) ∧
    ∀ entry ∈ table.entries, ∃ row ∈ rows, entry.1 = frameKey row.frame

/-- A table has been summed from records of these validators, one of each. -/
structure SummedFor (answered : Set IndexedValidator) (validatorIds : List ℕ) (tally : Tally) :
    Prop where
  ids : tally.validatorIds.Perm validatorIds
  rows : tally.OfRecords answered

section

variable {answered : Set IndexedValidator}

theorem Accounts.congr {before after : Memory}
    (hvalidators : after.stores.validators = before.stores.validators)
    (hhistory : after.history = before.history) (h : Accounts answered before) :
    Accounts answered after := by
  unfold Accounts at h ⊢
  rw [hvalidators, hhistory]
  exact h

/-- A table that has been summed for the list accounts for it. -/
theorem Accounts.of_summedFor {memory : Memory} {tally : Tally}
    (hledger : memory.history.ledger = some tally.contributions)
    (htable : memory.stores.validators.frameBalances = some tally.frameBalances)
    (h : SummedFor answered memory.stores.validators.withdrawableLidoValidatorIds tally) :
    Accounts answered memory := by
  refine ⟨tally.contributions, tally.frameBalances, hledger, htable, h.ids, h.rows, ?_⟩
  rw [tally.frameBalances_eq]
  exact ⟨get?_frameTable tally.contributions, fun _ => exists_contribution_of_mem_frameTable⟩

end

namespace System

/-! ## The steps that keep the account -/

/-- The consensus node answers a batch with records of validators that were asked
for, of each at most one, in any order; it leaves out the ones it does not know. -/
def answersBatch : UpdateLidoWithdrawableValidators.Suspension →
    UpdateLidoWithdrawableValidators.Answer → Prop
  | .fetchingBatch validatorIds _ _ i _, .stateValidators data =>
      (data.map IndexedValidator.index).Subperm (batchAt validatorIds i)
  | _, _ => True

/-- What the consensus node promises of every answer it gives to a refresh. -/
def AnswersBatch (s : System) : Event → Prop
  | .resume .updateLidoWithdrawableValidators reply =>
      match s.updateLidoWithdrawableValidators with
      | some suspension => answersBatch suspension (Reply.answer reply)
      | none => True
  | _ => True

instance decidableAnswersBatchOf : (suspension : UpdateLidoWithdrawableValidators.Suspension) →
    (answer : UpdateLidoWithdrawableValidators.Answer) → Decidable (answersBatch suspension answer)
  | .fetchingBatch validatorIds _ _ i _, .stateValidators data =>
      inferInstanceAs
        (Decidable ((data.map IndexedValidator.index).Subperm (batchAt validatorIds i)))
  | .fetchingBatch _ _ _ _ _, .sweepData _ => .isTrue trivial
  | .fetchingBatch _ _ _ _ _, .rejected => .isTrue trivial
  | .fetchingSweepState _ _, _ => .isTrue trivial

instance decidableAnswersBatch (s : System) : (event : Event) → Decidable (s.AnswersBatch event)
  | .start _ _ => .isTrue trivial
  | .resume .updateLidoWithdrawableValidators reply =>
      match h : s.updateLidoWithdrawableValidators with
      | some suspension => decidable_of_iff (answersBatch suspension (Reply.answer reply))
          (by simp only [AnswersBatch, h])
      | none => .isTrue (by simp only [AnswersBatch, h])
  | .resume .updateValidators _ => .isTrue trivial
  | .resume .initializeFromCache _ => .isTrue trivial
  | .resume .updateQueueInfo _ => .isTrue trivial
  | .resume .updateContractConfig _ => .isTrue trivial

/-- A refresh that writes finds the list it has started from. -/
structure FindsItsList (s : System) (event : Event) : Prop where
  refresh : s.FindsList event
  /-- The cache file has been read before. -/
  load : event.job ≠ .initializeFromCache

/-- The steps of the two jobs while the list does not change. -/
theorem FindsItsList.of_list {s : System} {event : Event}
    (h : event.job ≠ .initializeFromCache ∧ s.updateLidoWithdrawableValidators.all
      (fun suspension => decide
        (suspension.validatorIds = s.shared.stores.validators.withdrawableLidoValidatorIds)) =
          true) : s.FindsItsList event where
  refresh _ := by
    intro suspension hsuspended
    have hall := h.2
    rw [hsuspended] at hall
    exact of_decide_eq_true hall
  load := h.1

/-- The records of validators that an answer brings. -/
def recordsIn : Event → List IndexedValidator
  | .resume .updateValidators (⟨_, .validators items⟩ : Reply UpdateValidators.Answer) => items
  | .resume .updateLidoWithdrawableValidators
      (⟨_, .stateValidators data⟩ : Reply UpdateLidoWithdrawableValidators.Answer) => data
  | _ => []

/-- The records that have been answered in a run. -/
def answeredIn (events : List Event) : Set IndexedValidator :=
  { record | ∃ event ∈ events, record ∈ recordsIn event }

section Account

variable (answered : Set IndexedValidator)

/-- What the full update has counted, and what it has stored. -/
def updateAccounts (suspended : Option UpdateValidators.Suspension) (memory : Memory) : Prop :=
  match suspended with
  | some (.summing _ _ _ _ tally ids) => ids = tally.validatorIds
  | some (.storedFrameBalances _ _ _) => Accounts answered memory
  | some (.creatingCacheDirectory _) => Accounts answered memory
  | some (.writingCache _ _) => Accounts answered memory
  | _ => True

/-- The full update works on records that have been answered. -/
def updateReads : Option UpdateValidators.Suspension → Prop
  | some (.fetchingPendingPartialWithdrawals items _) => ∀ item ∈ items, item ∈ answered
  | some (.counting update _) => ∀ item ∈ update.indexedValidators, item ∈ answered
  | some (.fetchingKeys update) => ∀ item ∈ update.indexedValidators, item ∈ answered
  | some (.fetchingSweepState _ lidoValidators _) => ∀ item ∈ lidoValidators, item ∈ answered
  | some (.summing _ _ _ rest tally _) =>
      (∀ item ∈ rest, item ∈ answered) ∧ tally.OfRecords answered
  | _ => True

/-- A refresh has counted the validators before its position in the list. -/
def refreshCounts : Option UpdateLidoWithdrawableValidators.Suspension → Prop
  | some (.fetchingBatch validatorIds _ _ i tally) =>
      SummedFor answered (validatorIds.take i) tally
  | _ => True

/-- What a job in flight knows of the table. -/
def accountAsserts : (job : JobName) → Option (jobs job).Suspension → Memory → Prop
  | .updateValidators => fun suspended memory =>
      updateAccounts answered suspended memory ∧ updateReads answered suspended
  | .updateLidoWithdrawableValidators => fun suspended _ => refreshCounts answered suspended
  | .initializeFromCache => fun _ _ => True
  | .updateQueueInfo => fun _ _ => True
  | .updateContractConfig => fun _ _ => True

variable {answered}

theorem updateAccounts_of_accounts {suspended : Option UpdateValidators.Suspension}
    {before after : Memory} (hkeeps : Accounts answered before → Accounts answered after)
    (h : updateAccounts answered suspended before) :
    updateAccounts answered suspended after := by
  unfold updateAccounts at h ⊢
  split
  · exact h
  · exact hkeeps h
  · exact hkeeps h
  · exact hkeeps h
  · trivial

/-! ## The segments -/

/-- What a segment of the full update has to establish. -/
structure KeepsAccount (answered : Set IndexedValidator) (memory : Memory)
    (result : Memory × Option UpdateValidators.Suspension) : Prop where
  completed : (memory.history.completedUpdates ≠ 0 → Accounts answered memory) →
    result.1.history.completedUpdates ≠ 0 → Accounts answered result.1
  asserts : updateAccounts answered result.2 result.1
  keeps : Accounts answered memory → Accounts answered result.1

theorem keepsAccount_sums {update : Update} {memory : Memory} {tally : Tally} {ids : List ℕ}
    {result : Memory × Option UpdateValidators.Suspension}
    (hsums : Sums update memory tally ids result) (hids : ids = tally.validatorIds)
    (hrows : tally.OfRecords answered) : KeepsAccount answered memory result := by
  cases hsums with
  | threw => exact ⟨id, trivial, id⟩
  | next _ _ _ hnext => exact ⟨id, hnext hids, id⟩
  | done =>
      have hsummed : SummedFor answered ids tally := ⟨.of_eq hids.symm, hrows⟩
      have haccounts : Accounts answered (storeFrameBalances tally ids memory) :=
        .of_summedFor rfl rfl hsummed
      exact ⟨fun _ _ => haccounts, haccounts, fun _ => haccounts⟩

theorem keepsAccount_counts {update : Update} {memory : Memory}
    {result : Memory × Option UpdateValidators.Suspension}
    (hcounts : Counts update memory result) : KeepsAccount answered memory result := by
  cases hcounts with
  | next => exact ⟨id, trivial, id⟩
  | done => exact ⟨id, trivial, id⟩

/-- A segment of the full update. -/
theorem keepsAccount_updateSegment {suspension : UpdateValidators.Suspension} {memory : Memory}
    {result : Memory × Option UpdateValidators.Suspension}
    (hsegment : UpdateSegment suspension memory result)
    (h : updateAccounts answered (some suspension) memory)
    (hreads : updateReads answered (some suspension)) : KeepsAccount answered memory result := by
  cases hsegment with
  | ended => exact ⟨id, trivial, id⟩
  | fetched => exact ⟨id, trivial, id⟩
  | setSweep update hcounts =>
      have hkeeps : KeepsAccount answered _ _ := keepsAccount_counts hcounts
      exact ⟨hkeeps.completed, hkeeps.asserts, hkeeps.keeps⟩
  | counted hcounts => exact keepsAccount_counts hcounts
  | gotKeys => exact ⟨id, trivial, id⟩
  | gotSweepState hsums => exact keepsAccount_sums hsums rfl (Tally.ofRecords_empty answered)
  | summed hsums => exact keepsAccount_sums hsums h hreads.2
  | setLastUpdate => exact ⟨id, h, id⟩
  | joined => exact ⟨id, h, id⟩
  | wrote => exact ⟨fun _ _ => h, trivial, id⟩
  | wroteInPart => exact ⟨id, trivial, id⟩

/-! ### The records of the full update -/

theorem updateReads_countNext {update : Update} (rest : List IndexedValidator) (memory : Memory)
    (h : ∀ item ∈ update.indexedValidators, item ∈ answered) :
    updateReads answered (countNext update rest memory).2 := by
  cases rest with
  | nil => exact h
  | cons item rest => exact h

theorem updateReads_sumNext (update : Update) (estimate : Estimate)
    (sweepState : WithdrawalSweepState) {rest : List IndexedValidator} {tally : Tally}
    (ids : List ℕ) (memory : Memory) (h : ∀ item ∈ rest, item ∈ answered)
    (hrows : tally.OfRecords answered) :
    updateReads answered (sumNext update estimate sweepState rest tally ids memory).2 := by
  cases rest with
  | nil => trivial
  | cons item rest =>
      have hrest : ∀ other ∈ rest, other ∈ answered :=
        fun other hother => h other (List.mem_cons_of_mem _ hother)
      rw [sumNext]
      split
      · split
        next row hrow =>
          obtain ⟨hrecord, rfl⟩ := ofRecord_of_contribution_eq_ok hrow
          exact ⟨hrest, hrows.add hrecord (h _ List.mem_cons_self)⟩
        next => trivial
      · exact ⟨hrest, hrows⟩

/-- The full update goes on with the records of its first answer. -/
theorem updateReads_resume {suspension : UpdateValidators.Suspension}
    {reply : Reply UpdateValidators.Answer} (memory : Memory)
    (hanswered : ∀ item ∈ recordsIn (.resume .updateValidators reply), item ∈ answered)
    (h : updateReads answered (some suspension)) :
    updateReads answered (resumeUpdateValidators suspension reply memory).2 := by
  unfold resumeUpdateValidators
  split
  · exact hanswered
  · split
    · exact updateReads_countNext _ _ h
    · trivial
  · exact updateReads_countNext _ _ h
  · exact fun item hitem => h item (List.mem_of_mem_filter hitem)
  · split
    · exact updateReads_sumNext _ _ _ _ _ h (Tally.ofRecords_empty answered)
    · trivial
  · exact updateReads_sumNext _ _ _ _ _ h.1 h.2
  · trivial
  · split <;> trivial
  · trivial
  · trivial
  · trivial

/-! ### The refresh -/

theorem refreshCounts_nextBatch {validatorIds : List ℕ} (estimate : Estimate)
    (sweepState : WithdrawalSweepState) {i : ℕ} {tally : Tally} (memory : Memory)
    (h : SummedFor answered (validatorIds.take i) tally) :
    refreshCounts answered (nextBatch validatorIds estimate sweepState i tally memory).2 ∧
      ((nextBatch validatorIds estimate sweepState i tally memory).1 = memory ∨
        ∃ result, (nextBatch validatorIds estimate sweepState i tally memory).1 =
          storeRefreshed validatorIds result memory ∧
            SummedFor answered validatorIds result) := by
  rcases nextBatch_cases validatorIds estimate sweepState i tally memory with
    ⟨-, hnext⟩ | ⟨hall, hnext⟩
  · rw [hnext]
    exact ⟨h, Or.inl rfl⟩
  · rw [hnext]
    rw [List.take_of_length_le hall] at h
    exact ⟨trivial, Or.inr ⟨tally, rfl, h⟩⟩

/-- A batch that does not throw has been answered in full, and counts the next
validators of the list. -/
theorem summedFor_of_addBatch {stores : Stores} {estimate : Estimate}
    {sweepState : WithdrawalSweepState} {validatorIds : List ℕ} {i : ℕ}
    {data : List IndexedValidator} {tally result : Tally}
    (hadd : addBatch stores estimate sweepState (batchAt validatorIds i) data tally = .ok result)
    (hanswer : (data.map IndexedValidator.index).Subperm (batchAt validatorIds i))
    (hanswered : ∀ item ∈ data, item ∈ answered)
    (h : SummedFor answered (validatorIds.take i) tally) :
    SummedFor answered (validatorIds.take (i + batchSize)) result := by
  refine ⟨?_, ofRecords_of_addBatch_eq_ok hadd hanswered h.rows⟩
  obtain ⟨hall, hids⟩ := addBatch_spec hadd
  have hlength : data.length ≤ (batchAt validatorIds i).length := by
    have hle := hanswer.length_le
    rwa [List.length_map] at hle
  have hperm : (data.map IndexedValidator.index).Perm (batchAt validatorIds i) := by
    apply hanswer.perm_of_length_le
    rwa [List.length_map]
  rw [hids, List.take_of_length_le hlength, List.take_add]
  exact h.ids.append hperm

/-- A segment of the refresh goes on counting, or it stores a table summed for the
list it has started from. -/
theorem refreshCounts_resume {suspension : UpdateLidoWithdrawableValidators.Suspension}
    {reply : Reply UpdateLidoWithdrawableValidators.Answer} (memory : Memory)
    (hanswer : answersBatch suspension reply.answer)
    (hanswered : ∀ item ∈ recordsIn (.resume .updateLidoWithdrawableValidators reply),
      item ∈ answered)
    (h : refreshCounts answered (some suspension)) :
    refreshCounts answered (resumeUpdateLidoWithdrawableValidators suspension reply memory).2 ∧
      ((resumeUpdateLidoWithdrawableValidators suspension reply memory).1 = memory ∨
        ∃ tally, (resumeUpdateLidoWithdrawableValidators suspension reply memory).1 =
          storeRefreshed suspension.validatorIds tally memory ∧
            SummedFor answered suspension.validatorIds tally) := by
  unfold resumeUpdateLidoWithdrawableValidators
  split
  · split
    · exact refreshCounts_nextBatch _ _ memory ⟨.refl _, Tally.ofRecords_empty answered⟩
    · exact ⟨trivial, Or.inl rfl⟩
  · split
    next tally hadd =>
      exact refreshCounts_nextBatch _ _ memory
        (summedFor_of_addBatch hadd hanswer hanswered h)
    next => exact ⟨trivial, Or.inl rfl⟩
  · exact ⟨trivial, Or.inl rfl⟩

/-- A refresh that finds its list whenever it writes keeps the account. -/
theorem account_refreshed {validatorIds : List ℕ} {before after : Memory}
    (hwrites : after = before ∨ ∃ tally,
      after = storeRefreshed validatorIds tally before ∧ SummedFor answered validatorIds tally)
    (hfinds : after = before ∨
      validatorIds = before.stores.validators.withdrawableLidoValidatorIds)
    (hcompleted : before.history.completedUpdates ≠ 0 → Accounts answered before) :
    (after.history.completedUpdates ≠ 0 → Accounts answered after) ∧
      (Accounts answered before → Accounts answered after) := by
  rcases hwrites with rfl | ⟨tally, hstored, hsummed⟩
  · exact ⟨hcompleted, id⟩
  · rcases hfinds with rfl | rfl
    · exact ⟨hcompleted, id⟩
    · have haccounts : Accounts answered after := by
        rw [hstored]
        exact .of_summedFor rfl rfl hsummed
      exact ⟨fun _ => haccounts, fun _ => haccounts⟩

/-- A segment that writes neither the store nor the history. -/
theorem account_unwritten {before after : Memory}
    (hvalidators : after.stores.validators = before.stores.validators)
    (hhistory : after.history = before.history)
    (hcompleted : before.history.completedUpdates ≠ 0 → Accounts answered before) :
    (after.history.completedUpdates ≠ 0 → Accounts answered after) ∧
      (Accounts answered before → Accounts answered after) := by
  refine ⟨fun hcount => ?_, Accounts.congr hvalidators hhistory⟩
  rw [hhistory] at hcount
  exact (hcompleted hcount).congr hvalidators hhistory

/-! ## Every run -/

variable (answered) in
/-- What a step meets: the node answers as it promises, with records that count as
answered, and a refresh that writes finds its list. -/
structure Accountable (s : System) (event : Event) : Prop where
  answersBatch : s.AnswersBatch event
  findsItsList : s.FindsItsList event
  answered : ∀ item ∈ recordsIn event, item ∈ answered

theorem account_segment {s : System} {event : Event} {job : JobName}
    {segment : Memory × Option (jobs job).Suspension}
    (hmeets : s.Accountable answered event) (hruns : s.Runs event job segment)
    (hcompleted : s.shared.history.completedUpdates ≠ 0 → Accounts answered s.shared)
    (hasserts : accountAsserts answered job (s.suspended job) s.shared) :
    (segment.1.history.completedUpdates ≠ 0 → Accounts answered segment.1) ∧
      accountAsserts answered job segment.2 segment.1 ∧
        (Accounts answered s.shared → Accounts answered segment.1) := by
  have hunwritten (hupdate : job ≠ .updateValidators) (hload : job ≠ .initializeFromCache)
      (hrefresh : job ≠ .updateLidoWithdrawableValidators) :
      (segment.1.history.completedUpdates ≠ 0 → Accounts answered segment.1) ∧
        (Accounts answered s.shared → Accounts answered segment.1) := by
    rcases other_writes hruns hupdate with ⟨hvalidators, hhistory⟩ | hjob | ⟨hjob, -⟩
    · exact account_unwritten hvalidators hhistory hcompleted
    · exact absurd hjob hload
    · exact absurd hjob hrefresh
  cases hruns with
  | @start job input hidle =>
      cases job with
      | updateValidators => exact ⟨hcompleted, ⟨trivial, trivial⟩, id⟩
      | _ => exact ⟨hcompleted, trivial, id⟩
  | @resume job answer suspension hsuspended =>
      rw [hsuspended] at hasserts
      cases job with
      | initializeFromCache =>
          exact absurd rfl hmeets.findsItsList.load
      | updateValidators =>
          have hupdate := keepsAccount_updateSegment
            (updateSegment_resume suspension answer s.shared) hasserts.1 hasserts.2
          have hreads := updateReads_resume s.shared hmeets.answered hasserts.2
          exact ⟨hupdate.completed hcompleted, ⟨hupdate.asserts, hreads⟩, hupdate.keeps⟩
      | updateLidoWithdrawableValidators =>
          have hanswer : answersBatch suspension (Reply.answer answer) := by
            have hbatch := hmeets.answersBatch
            simp only [AnswersBatch, updateLidoWithdrawableValidators, hsuspended] at hbatch
            exact hbatch
          have hfinds := (refresh_fst suspension answer s.shared).imp And.right fun hstores => by
            apply hmeets.findsItsList.refresh _ suspension hsuspended
            simp only [refreshStores, updateLidoWithdrawableValidators, hsuspended]
            exact hstores.1
          obtain ⟨hcounts, hwrites⟩ :=
            refreshCounts_resume s.shared hanswer hmeets.answered hasserts
          obtain ⟨hcount, hafter⟩ := account_refreshed hwrites hfinds hcompleted
          exact ⟨hcount, hcounts, hafter⟩
      | updateQueueInfo =>
          obtain ⟨hcount, hafter⟩ := hunwritten (by decide) (by decide) (by decide)
          exact ⟨hcount, trivial, hafter⟩
      | updateContractConfig =>
          obtain ⟨hcount, hafter⟩ := hunwritten (by decide) (by decide) (by decide)
          exact ⟨hcount, trivial, hafter⟩

variable (answered) in
/-- The two validator jobs keep the account as long as a refresh that writes finds
its list. -/
def accountOutline : Job.Outline jobs fun (s : System) event => s.Accountable answered event where
  invariant memory := memory.history.completedUpdates ≠ 0 → Accounts answered memory
  asserts := accountAsserts answered
  commits _ before after := Accounts answered before → Accounts answered after
  segment hmeets hruns hcompleted hasserts := account_segment hmeets hruns hcompleted hasserts
  stable := by
    intro job other _ suspended before after hasserts hkeeps
    cases job with
    | updateValidators => exact ⟨updateAccounts_of_accounts hkeeps hasserts.1, hasserts.2⟩
    | updateLidoWithdrawableValidators => exact hasserts
    | initializeFromCache => trivial
    | updateQueueInfo => trivial
    | updateContractConfig => trivial

end Account

/-- Whatever the cache file has left in the stores: in every state after a full
update, and so whenever no job is in flight, the table accounts for the list, with
records that have been answered up to there, provided that the refreshes that have
stored a table found the list they started from. -/
theorem accounts_of_findsItsList {memory : Memory} (hstart : memory.history.completedUpdates = 0)
    {events : List Event}
    (hanswers : Job.State.Meets AnswersBatch (.idle jobs memory) events)
    (hfinds : Job.State.Meets FindsItsList (.idle jobs memory) events)
    {before after : List Event} (hevents : events = before ++ after)
    (hcompleted :
      ((Job.State.idle jobs memory).run before).shared.history.completedUpdates ≠ 0) :
    Accounts (answeredIn before) ((Job.State.idle jobs memory).run before).shared := by
  rw [hevents, Job.State.meets_append] at hanswers hfinds
  have hrecords : Job.State.Meets
      (fun _ event => ∀ item ∈ recordsIn event, item ∈ answeredIn before)
      (.idle jobs memory) before :=
    Job.State.meets_of_forall fun event hmem item hitem => ⟨event, hmem, hitem⟩
  have hmeets : Job.State.Meets (fun (s : System) event => s.Accountable (answeredIn before) event)
      (.idle jobs memory) before :=
    ((hanswers.1.and hfinds.1).and hrecords).mono fun _ _ h => ⟨h.1.1, h.1.2, h.2⟩
  have hholds : (accountOutline (answeredIn before)).Holds (.idle jobs memory) := by
    refine ⟨fun hne => absurd hstart hne, fun job => ?_⟩
    cases job with
    | updateValidators => exact ⟨trivial, trivial⟩
    | _ => trivial
  exact ((accountOutline (answeredIn before)).holds_run hmeets hholds).invariant hcompleted

/-- A validator that has exited. -/
def exitedValidator (index : ℕ) : IndexedValidator where
  index
  balance := 32000000000
  status := .withdrawalPossible
  validator := {
    pubkey := Nat.toDigits 10 index
    withdrawalCredentials := ['0', 'x', '0', '1']
    effectiveBalance := 32000000000
    exitEpoch := 100
    withdrawableEpoch := 400 }

/-- A service whose frames have been read. -/
def configuredMemory : Memory where
  stores := {
    genesisTime := 0
    contractConfig := { initialEpoch := some 0, epochsPerFrame := some 225 } }

def sweepCursor : BeaconStateSweepData where
  slot := 100
  nextWithdrawalValidatorIndex := some 0
  latestFullSlot := none

/-- A full update that finds one validator, which is withdrawable. -/
def updateWith (index : ℕ) : List Event :=
  fullUpdate 200000000 [exitedValidator index] [Nat.toDigits 10 index] sweepCursor 1

def updateAndRefresh : List Event := updateWith 1 ++
  [startRefresh 201800000, answerRefresh 201800000 (.sweepData sweepCursor),
    answerRefresh 201800000 (.stateValidators [exitedValidator 1])]

/-- A refresh of the validator that the update has found. -/
theorem accounts_of_findsItsList_refreshed :
    let s := (Job.State.idle jobs configuredMemory).run updateAndRefresh
    (updateLidoWithdrawableValidators s).isNone = true ∧
      s.shared.stores.validators.withdrawableLidoValidatorIds = [1] ∧
      Accounts (answeredIn updateAndRefresh) s.shared := by
  intro s
  have hanswers : Job.State.Meets AnswersBatch (.idle jobs configuredMemory)
      updateAndRefresh := by decide +kernel
  have hlist : Job.State.Meets (fun (s : System) event => event.job ≠ .initializeFromCache ∧
      s.updateLidoWithdrawableValidators.all (fun suspension => decide
        (suspension.validatorIds = s.shared.stores.validators.withdrawableLidoValidatorIds)) = true)
      (.idle jobs configuredMemory) updateAndRefresh := by decide +kernel
  refine ⟨by decide +kernel, by decide +kernel, ?_⟩
  apply accounts_of_findsItsList rfl hanswers (hlist.mono fun _ _ h => .of_list h)
    (List.append_nil _).symm
  decide +kernel

/-- The refresh has started from the first list, and the second update ends before
its answer. -/
theorem accounts_not_always :
    ¬ ∀ (memory : Memory) (events : List Event), memory.history.completedUpdates = 0 →
      (∀ event ∈ events, event.job = .updateValidators ∨
        event.job = .updateLidoWithdrawableValidators) →
      Job.State.Meets AnswersBatch (.idle jobs memory) events →
      updateValidators ((Job.State.idle jobs memory).run events) = none →
      updateLidoWithdrawableValidators ((Job.State.idle jobs memory).run events) = none →
      ((Job.State.idle jobs memory).run events).shared.history.completedUpdates ≠ 0 →
      Accounts (answeredIn events) ((Job.State.idle jobs memory).run events).shared := by
  intro h
  let events := updateWith 1 ++
    [startRefresh 201800000, answerRefresh 201800000 (.sweepData sweepCursor)] ++ updateWith 2 ++
    [answerRefresh 201800000 (.stateValidators [exitedValidator 1])]
  have hjobs : ∀ event ∈ events, event.job = JobName.updateValidators ∨
      event.job = JobName.updateLidoWithdrawableValidators := by decide
  have hanswers : Job.State.Meets AnswersBatch (.idle jobs configuredMemory) events := by
    decide +kernel
  have hupdate : updateValidators ((Job.State.idle jobs configuredMemory).run events) = none := by
    rw [← Option.isNone_iff_eq_none]
    decide +kernel
  have hrefresh :
      updateLidoWithdrawableValidators ((Job.State.idle jobs configuredMemory).run events) =
        none := by
    rw [← Option.isNone_iff_eq_none]
    decide +kernel
  have hledger : ((Job.State.idle jobs configuredMemory).run events).shared.history.ledger.map
      (List.map Contribution.validatorIndex) = some [1] := by decide +kernel
  have hids : ((Job.State.idle jobs configuredMemory).run
      events).shared.stores.validators.withdrawableLidoValidatorIds = [2] := by decide +kernel
  obtain ⟨rows, -, hrows, -, hperm, -⟩ :=
    h configuredMemory events rfl hjobs hanswers hupdate hrefresh (by decide +kernel)
  rw [hrows, Option.map_some] at hledger
  rw [Option.some.inj hledger, hids] at hperm
  revert hperm
  decide

end System

end WithdrawalsApi
