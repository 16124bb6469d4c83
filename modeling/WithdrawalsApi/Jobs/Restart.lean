/-
# The refresh after a restart

The cache file keeps the table of frame balances but neither the list of the
validators it was summed from nor their number. A restarted service therefore
refreshes an empty list: once the sweep state has been read there is nothing to
ask for, and the table that is stored is empty.

The two services are compared by what a refresh, run to its end, leaves of the
table. Both run against one consensus node, which answers for its state and may
fail any call.
-/

import WithdrawalsApi.Jobs.Refresh
import WithdrawalsApi.Storage.CacheLoading

namespace WithdrawalsApi

open Js Math ValidatorsService UpdateLidoWithdrawableValidators

/-- What a consensus node answers in one state; `none` is a failed call. -/
structure ConsensusNode where
  sweepData : Option BeaconStateSweepData
  stateValidators : List ℕ → Option (List IndexedValidator)

namespace ConsensusNode

/-- The answer to the call a refresh awaits. -/
def answer (node : ConsensusNode) :
    UpdateLidoWithdrawableValidators.Suspension → UpdateLidoWithdrawableValidators.Answer
  | .fetchingSweepState _ _ =>
      match node.sweepData with
      | some state => .sweepData state
      | none => .rejected
  | .fetchingBatch validatorIds _ _ i _ =>
      match node.stateValidators (batchAt validatorIds i) with
      | some data => .stateValidators data
      | none => .rejected

/-- The sweep state can be read from the node. -/
def sweepState? (node : ConsensusNode) : Option WithdrawalSweepState :=
  match node.sweepData with
  | some state => (getWithdrawalSweepState state).toOption
  | none => none

end ConsensusNode

namespace Restart

/-- A refresh that is run to its end: the sweep state is one answer, and there is at
most one more for each validator. -/
def runRefresh (node : ConsensusNode) (now : ℤ) (memory : Memory) :
    Memory × Option UpdateLidoWithdrawableValidators.Suspension :=
  updateLidoWithdrawableValidatorsJob.alone
    (fun suspension => (⟨now, node.answer suspension⟩ : Reply Answer))
    (memory.stores.validators.withdrawableLidoValidatorIds.length + 2)
    (updateLidoWithdrawableValidatorsJob.start (⟨now, ()⟩ : Reply Unit) memory)

/-- The answers a suspended refresh may still need. -/
def work : UpdateLidoWithdrawableValidators.Suspension → ℕ
  | .fetchingSweepState validatorIds _ => validatorIds.length + 1
  | .fetchingBatch validatorIds _ _ i _ => validatorIds.length - i

/-- The table of a memory. -/
def frameBalances (memory : Memory) : Option (Record ℤ) := memory.stores.validators.frameBalances

/-- Another batch is asked for only as long as validators are left. -/
theorem work_nextBatch {validatorIds : List ℕ} {estimate : Estimate}
    {sweepState : WithdrawalSweepState} {i : ℕ} {tally : Tally} {memory : Memory}
    {next : UpdateLidoWithdrawableValidators.Suspension}
    (h : next ∈ (nextBatch validatorIds estimate sweepState i tally memory).2) :
    i < validatorIds.length ∧ work next = validatorIds.length - i := by
  rcases nextBatch_cases validatorIds estimate sweepState i tally memory with
    ⟨hopen, hnext⟩ | ⟨-, hnext⟩
  · rw [hnext] at h
    obtain rfl := Option.some.inj h
    exact ⟨hopen, rfl⟩
  · rw [hnext] at h
    cases h

theorem work_decreases (suspension : UpdateLidoWithdrawableValidators.Suspension)
    (reply : Reply Answer) (memory : Memory) :
    ∀ next ∈ (resumeUpdateLidoWithdrawableValidators suspension reply memory).2,
      work next < work suspension := by
  intro next hnext
  unfold resumeUpdateLidoWithdrawableValidators at hnext
  split at hnext
  · split at hnext
    · obtain ⟨-, hwork⟩ := work_nextBatch hnext
      rw [hwork, work]
      omega
    · cases hnext
  · split at hnext
    · obtain ⟨hopen, hwork⟩ := work_nextBatch hnext
      rw [hwork, work]
      rw [batchSize] at hopen ⊢
      omega
    · cases hnext
  · cases hnext

/-- The refresh has ended. -/
theorem runRefresh_ended (node : ConsensusNode) (now : ℤ) (memory : Memory) :
    (runRefresh node now memory).2 = none := by
  have hdecreases (suspension : UpdateLidoWithdrawableValidators.Suspension) (memory : Memory) :=
    work_decreases suspension ⟨now, node.answer suspension⟩ memory
  apply Job.alone_ends hdecreases
  intro suspension hsuspension
  obtain rfl := Option.some.inj hsuspension
  exact Nat.lt_succ_self _

/-! ## What a refresh leaves of the table -/

/-- A refresh leaves the table it has found, or one that is summed from as many
validators as the list has. -/
def Leaves (memory after : Memory) : Prop :=
  frameBalances after = frameBalances memory ∨ ∃ tally : Tally,
    frameBalances after = some tally.frameBalances ∧
      tally.contributions.length = memory.stores.validators.withdrawableLidoValidatorIds.length

/-- A refresh in flight has written nothing, and it has counted the validators up to
its position. -/
def Refreshing (memory : Memory)
    (state : Memory × Option UpdateLidoWithdrawableValidators.Suspension) : Prop :=
  match state.2 with
  | none => Leaves memory state.1
  | some (.fetchingSweepState validatorIds _) =>
      state.1 = memory ∧ validatorIds = memory.stores.validators.withdrawableLidoValidatorIds
  | some (.fetchingBatch validatorIds _ _ i tally) =>
      state.1 = memory ∧ validatorIds = memory.stores.validators.withdrawableLidoValidatorIds ∧
        tally.contributions.length = min i validatorIds.length

theorem refreshing_nextBatch {memory : Memory} (estimate : Estimate)
    (sweepState : WithdrawalSweepState) {i : ℕ} {tally : Tally}
    (hcounted : tally.contributions.length =
      min i memory.stores.validators.withdrawableLidoValidatorIds.length) :
    Refreshing memory (nextBatch memory.stores.validators.withdrawableLidoValidatorIds estimate
      sweepState i tally memory) := by
  rcases nextBatch_cases memory.stores.validators.withdrawableLidoValidatorIds estimate sweepState
    i tally memory with ⟨-, hnext⟩ | ⟨hall, hnext⟩
  · rw [hnext]
    exact ⟨rfl, rfl, hcounted⟩
  · rw [hnext]
    rw [Nat.min_eq_right hall] at hcounted
    exact Or.inr ⟨tally, rfl, hcounted⟩

theorem length_contributions_addBatch {stores : Stores} {estimate : Estimate}
    {sweepState : WithdrawalSweepState} {batch : List ℕ} {data : List IndexedValidator}
    {tally result : Tally}
    (h : addBatch stores estimate sweepState batch data tally = .ok result) :
    result.contributions.length = tally.contributions.length + batch.length := by
  obtain ⟨hlength, hids⟩ := addBatch_spec h
  have hcount := congrArg List.length hids
  simpa [Tally.validatorIds, Nat.min_eq_left hlength] using hcount

theorem refreshing_resume {memory before : Memory}
    (suspension : UpdateLidoWithdrawableValidators.Suspension) (reply : Reply Answer)
    (h : Refreshing memory (before, some suspension)) :
    Refreshing memory (resumeUpdateLidoWithdrawableValidators suspension reply before) := by
  have hunwritten : before = memory := by
    cases suspension with
    | fetchingSweepState validatorIds estimate => exact h.1
    | fetchingBatch validatorIds estimate sweepState i tally => exact h.1
  subst hunwritten
  unfold resumeUpdateLidoWithdrawableValidators
  split
  · obtain ⟨-, rfl⟩ := h
    split
    · exact refreshing_nextBatch _ _ (Nat.zero_min _).symm
    · exact Or.inl rfl
  · obtain ⟨-, rfl, hcounted⟩ := h
    split
    next hadded =>
      apply refreshing_nextBatch
      rw [length_contributions_addBatch hadded, hcounted, batchAt, List.length_take,
        List.length_drop]
      omega
    next => exact Or.inl rfl
  · exact Or.inl rfl

theorem leaves_runRefresh (node : ConsensusNode) (now : ℤ) (memory : Memory) :
    Leaves memory (runRefresh node now memory).1 := by
  have hrefreshing : Refreshing memory (runRefresh node now memory) :=
    Job.alone_preserves (fun suspension _ => refreshing_resume suspension _) _ ⟨rfl, rfl⟩
  unfold Refreshing at hrefreshing
  rw [runRefresh_ended] at hrefreshing
  exact hrefreshing

/-- The sweep state is there and the batches begin, or the refresh ends. -/
def afterSweepState (node : ConsensusNode) (validatorIds : List ℕ) (estimate : Estimate)
    (memory : Memory) : Memory × Option UpdateLidoWithdrawableValidators.Suspension :=
  match node.sweepState? with
  | some sweepState => nextBatch validatorIds estimate sweepState 0 Tally.empty memory
  | none => (memory, none)

theorem resume_fetchingSweepState (node : ConsensusNode) (now : ℤ) (validatorIds : List ℕ)
    (estimate : Estimate) (memory : Memory) :
    resumeUpdateLidoWithdrawableValidators (.fetchingSweepState validatorIds estimate)
        ⟨now, node.answer (.fetchingSweepState validatorIds estimate)⟩ memory =
      afterSweepState node validatorIds estimate memory := by
  unfold afterSweepState ConsensusNode.sweepState? ConsensusNode.answer
  cases node.sweepData with
  | none => rfl
  | some state =>
      simp only [resumeUpdateLidoWithdrawableValidators]
      cases getWithdrawalSweepState state <;> rfl

theorem runRefresh_eq (node : ConsensusNode) (now : ℤ) (memory : Memory) :
    runRefresh node now memory = updateLidoWithdrawableValidatorsJob.alone
      (fun suspension => (⟨now, node.answer suspension⟩ : Reply Answer))
      (memory.stores.validators.withdrawableLidoValidatorIds.length + 1)
      (afterSweepState node memory.stores.validators.withdrawableLidoValidatorIds
        (readEstimate memory.stores now) memory) :=
  congrArg _ (resume_fetchingSweepState node now _ _ memory)

/-- Without the sweep state nothing is stored. -/
theorem runRefresh_of_unreadable {node : ConsensusNode} (hnode : node.sweepState? = none)
    (now : ℤ) (memory : Memory) : (runRefresh node now memory).1 = memory := by
  rw [runRefresh_eq, afterSweepState, hnode]
  rfl

/-- With the sweep state, the refresh of an empty list stores an empty table. -/
theorem frameBalances_runRefresh_nil {node : ConsensusNode} {sweepState : WithdrawalSweepState}
    (hnode : node.sweepState? = some sweepState) (now : ℤ) {memory : Memory}
    (hempty : memory.stores.validators.withdrawableLidoValidatorIds = []) :
    frameBalances (runRefresh node now memory).1 = some Record.empty := by
  rw [runRefresh_eq, afterSweepState, hnode, hempty]
  rfl

/-! ## The two services -/

/-- A store that a completed update has left, with the clock of its update time. -/
def LeftByUpdate (store : ValidatorsStorageService) (savedAt : ℤ) : Prop :=
  ∃ update tally, store = stored update tally tally.validatorIds savedAt

/-- What a completed update has left can be saved and read back. -/
theorem LeftByUpdate.persistable {store : ValidatorsStorageService} {savedAt : ℤ}
    (h : LeftByUpdate store savedAt) (hsavedAt : 0 ≤ savedAt) : Persistable store := by
  obtain ⟨update, tally, rfl⟩ := h
  obtain ⟨seconds, hseconds⟩ := Int.eq_ofNat_of_zero_le
    (Int.ediv_nonneg hsavedAt (by decide : (0 : ℤ) ≤ 1000))
  obtain ⟨hlower, hupper⟩ := getChurnLimit_bounds update.count.totalActiveBalance
  constructor
  · exact ⟨_, rfl⟩
  · exact ⟨_, rfl, not_mem_integerText (by decide) (by decide) _⟩
  · refine ⟨seconds, ?_⟩
    rw [stored, hseconds]
    rfl
  · exact ⟨_, rfl, tally.frameKeyed⟩
  · exact ⟨_, rfl⟩
  · exact ⟨_, rfl, hlower, hupper⟩

/-- The same properties with the same values, listed in the same order. -/
def SameFrameBalances (first second : Option (Record ℤ)) : Prop :=
  first.map Record.objectEntries = second.map Record.objectEntries

theorem sameFrameBalances_restored (table : Option (Record ℤ)) :
    SameFrameBalances (table.map fun table => Record.ofEntries table.objectEntries) table := by
  cases table with
  | none => rfl
  | some table =>
      exact congrArg some table.objectEntries_ofEntries

/-- A table that was summed from some validators is not the empty one. -/
theorem not_sameFrameBalances_empty {tally : Tally} (h : tally.contributions ≠ []) :
    ¬ SameFrameBalances (some Record.empty) (some tally.frameBalances) := by
  intro hsame
  apply entries_frameTable_ne_nil h
  have hlisted : tally.frameBalances.objectEntries = [] := (Option.some.inj hsame).symm
  rw [← tally.frameBalances_eq]
  exact List.Perm.nil_eq (hlisted ▸ tally.frameBalances.objectEntries_perm) |>.symm

/-- A refresh of a table that lists validators does not leave the empty one. -/
theorem not_sameFrameBalances_runRefresh (node : ConsensusNode) (now : ℤ) (memory : Memory)
    (update : Update) {tally : Tally} (savedAt : ℤ) (hids : tally.validatorIds ≠ []) :
    ¬ SameFrameBalances (some Record.empty) (frameBalances (runRefresh node now
      (memory.setValidators (stored update tally tally.validatorIds savedAt))).1) := by
  intro hsame
  set kept := memory.setValidators (stored update tally tally.validatorIds savedAt)
  have hcontributions : tally.contributions ≠ [] := fun hnil =>
    hids (List.map_eq_nil_iff.mpr hnil)
  rcases leaves_runRefresh node now kept with hfound | ⟨result, htable, hlength⟩
  · rw [hfound] at hsame
    exact not_sameFrameBalances_empty hcontributions hsame
  · rw [htable] at hsame
    apply not_sameFrameBalances_empty _ hsame
    intro hnil
    rw [hnil] at hlength
    exact hids (List.length_eq_zero_iff.mp hlength.symm)

/-- **The refresh after a restart leaves the table that it would have left before
exactly when** the list of validators was empty, or the sweep state cannot be read. -/
theorem sameFrameBalances_iff {store : ValidatorsStorageService} {savedAt : ℤ}
    {content : List Char} {loadedAt : ℤ} (hleft : LeftByUpdate store savedAt)
    (hsavedAt : 0 ≤ savedAt) (hsaved : saveDataToCache store = some content)
    (hage : loadedAt / 1000 - savedAt / 1000 < cacheInvalidateTime) (node : ConsensusNode)
    (now : ℤ) (memory : Memory) :
    SameFrameBalances
        (frameBalances (runRefresh node now
          (memory.setValidators (initializeFromCache content loadedAt {}))).1)
        (frameBalances (runRefresh node now (memory.setValidators store)).1) ↔
      store.withdrawableLidoValidatorIds = [] ∨ node.sweepState? = none := by
  obtain ⟨update, tally, rfl⟩ := id hleft
  obtain ⟨hrestored, hids⟩ := initializeFromCache_saveDataToCache
    (hleft.persistable hsavedAt).cacheable hsaved
    (Int.ediv_nonneg hsavedAt (by decide)) rfl hage {}
  set restarted := memory.setValidators (initializeFromCache content loadedAt {})
  set kept := memory.setValidators (stored update tally tally.validatorIds savedAt)
  have htables : SameFrameBalances (frameBalances restarted) (frameBalances kept) := by
    show SameFrameBalances (initializeFromCache content loadedAt {}).frameBalances _
    rw [hrestored]
    exact sameFrameBalances_restored _
  cases hnode : node.sweepState? with
  | none =>
      rw [runRefresh_of_unreadable hnode, runRefresh_of_unreadable hnode]
      simp [htables]
  | some sweepState =>
      rw [frameBalances_runRefresh_nil hnode now hids]
      simp only [reduceCtorEq, or_false]
      constructor
      · intro hsame
        by_contra hlisted
        exact not_sameFrameBalances_runRefresh node now memory update savedAt hlisted hsame
      · intro hempty
        rw [frameBalances_runRefresh_nil hnode now hempty]
        rfl

/-- An update that has found one withdrawable validator. -/
def savedStore : ValidatorsStorageService :=
  let update : Update := {
    indexedValidators := [System.exitedValidator 1]
    sweepMeanEpochs := 1
    count := { maxExitEpoch := 300 } }
  let tally := Tally.empty.add {
    validatorIndex := 1
    frame := some 2
    balance := 32000000000000000000
    source := {
      record := System.exitedValidator 1
      sweepState := ⟨0, 520⟩
      estimate := readEstimate System.configuredMemory.stores 200000000
      genesisTime := 0
      contractConfig := System.configuredMemory.stores.contractConfig } }
  stored update tally tally.validatorIds 200000000

/-- The file it has written. -/
def savedFile : List Char := (saveDataToCache savedStore).getD []

/-- A node that knows the validator. -/
def answeringNode : ConsensusNode where
  sweepData := some System.sweepCursor
  stateValidators validatorIds := some (validatorIds.map System.exitedValidator)

/-- The service restarts half an hour later. -/
theorem sameFrameBalances_iff_halfAnHour :
    SameFrameBalances
        (frameBalances (runRefresh answeringNode 201800000
          (System.configuredMemory.setValidators
            (initializeFromCache savedFile 201800000 {}))).1)
        (frameBalances (runRefresh answeringNode 201800000
          (System.configuredMemory.setValidators savedStore)).1) ↔
      savedStore.withdrawableLidoValidatorIds = [] ∨ answeringNode.sweepState? = none :=
  have hsaved : saveDataToCache savedStore = some savedFile := by decide +kernel
  sameFrameBalances_iff ⟨_, _, rfl⟩ (by decide) hsaved (by decide) answeringNode 201800000
    System.configuredMemory

/-- The refresh after the restart discards the table that was restored. -/
theorem restart_not_equivalent :
    ¬ ∀ (store : ValidatorsStorageService) (savedAt : ℤ) (content : List Char) (loadedAt : ℤ)
      (node : ConsensusNode) (now : ℤ) (memory : Memory),
      LeftByUpdate store savedAt → 0 ≤ savedAt → saveDataToCache store = some content →
      loadedAt / 1000 - savedAt / 1000 < cacheInvalidateTime →
        SameFrameBalances
          (frameBalances (runRefresh node now
            (memory.setValidators (initializeFromCache content loadedAt {}))).1)
          (frameBalances (runRefresh node now (memory.setValidators store)).1) := by
  intro hsame
  have hsaved : saveDataToCache savedStore = some savedFile := by decide +kernel
  have hdiscarded := hsame savedStore 200000000 savedFile 201800000 answeringNode 201800000
    System.configuredMemory ⟨_, _, rfl⟩ (by decide) hsaved (by decide)
  revert hdiscarded
  unfold SameFrameBalances
  decide +kernel

end Restart

end WithdrawalsApi
