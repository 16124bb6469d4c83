/-
# The refresh agrees with the full update

The two jobs sum the table in loops of their own. The full update goes over all Lido
validators in the order of the consensus state and passes over those that cannot
withdraw; the refresh asks for the validators that the update has listed, twenty at
a time, and takes the records of an answer by their position, whatever their order.
Both add the same row for a validator, and a table depends on its rows only up to
their order.

A full update that is run to its end and a refresh right after it, against the same
state and at the same clock, therefore leave the same table.
-/

import WithdrawalsApi.Jobs.FrameTable
import WithdrawalsApi.Jobs.Restart
import WithdrawalsApi.Js.Rows

namespace WithdrawalsApi

open Js Math

/-! ## Tables and the order of their rows -/

theorem totalBalance_perm {first second : List Contribution} (h : first.Perm second) :
    totalBalance first = totalBalance second := (h.map _).sum_eq

/-- Nothing but frames is in a table. -/
theorem get?_frameTable_of_not_frameKey {key : PropertyKey} (h : ¬ ∃ frame, key = frameKey frame)
    (contributions : List Contribution) : (frameTable contributions).get? key = none := by
  rw [Option.eq_none_iff_forall_ne_some]
  intro value hvalue
  exact h (frameKeyed_frameTable contributions _ (Record.get?_eq_some_iff.mp hvalue))

/-- A table depends on its rows up to their order. -/
theorem get?_frameTable_perm {first second : List Contribution} (h : first.Perm second)
    (key : PropertyKey) : (frameTable first).get? key = (frameTable second).get? key := by
  by_cases hkey : ∃ frame, key = frameKey frame
  · obtain ⟨frame, rfl⟩ := hkey
    have hof : (contributionsOf first frame).Perm (contributionsOf second frame) := h.filter _
    have hnil : contributionsOf first frame = [] ↔ contributionsOf second frame = [] := by
      rw [← List.length_eq_zero_iff, hof.length_eq, List.length_eq_zero_iff]
    rw [get?_frameTable, get?_frameTable, totalBalance_perm hof]
    simp only [hnil]
  · rw [get?_frameTable_of_not_frameKey hkey, get?_frameTable_of_not_frameKey hkey]

namespace ValidatorsService

/-! ## The full update -/

section FullUpdate

open UpdateValidators

variable (state : ConsensusState) (keys : List (List Char)) (now : ℤ)

/-- A full update that is run to its end: each validator is counted, at most each is
summed, and seven answers more are awaited. -/
def runUpdate (memory : Memory) : Memory × Option Suspension :=
  updateValidatorsJob.alone (state.answer keys now) (2 * state.validators.length + 7)
    (updateValidatorsJob.start () memory)

/-- What the loop over all validators has counted. -/
def countAll (update : Update) (rest : List IndexedValidator) : Update :=
  { update with count := rest.foldl Count.add update.count }

/-- The loop over all validators, its awaited calls answered. -/
theorem alone_countNext (update : Update) (rest : List IndexedValidator) (memory : Memory) :
    updateValidatorsJob.alone (state.answer keys now) rest.length
        (countNext update rest memory) =
      (memory.setValidators (setCounts (countAll update rest) memory.stores.validators),
        some (.fetchingKeys (countAll update rest))) := by
  induction rest generalizing update with
  | nil => rfl
  | cons item rest ih => exact ih { update with count := update.count.add item }

/-- The table and the list are those of given validators, for the clock and the counts
that the store itself holds. -/
structure SummedUp (counted : List IndexedValidator) (sweepState : WithdrawalSweepState)
    (memory : Memory) : Prop where
  projects : ∀ item ∈ counted,
    Projects memory.stores (readEstimate memory.stores now) sweepState item
  frameBalances : memory.stores.validators.frameBalances = some (frameTable
    (counted.map (rowOf memory.stores (readEstimate memory.stores now) sweepState)))
  ids : memory.stores.validators.withdrawableLidoValidatorIds =
    counted.map IndexedValidator.index

/-- Only the file is left to be written. -/
def Saves : Suspension → Prop
  | .storedFrameBalances _ _ _ => True
  | .creatingCacheDirectory _ => True
  | .writingCache _ _ => True
  | _ => False

/-- The table is stored, and at most the file is left to be written. -/
def Saving (counted : List IndexedValidator) (sweepState : WithdrawalSweepState)
    (s : Memory × Option Suspension) : Prop :=
  SummedUp now counted sweepState s.1 ∧ ∀ suspension ∈ s.2, Saves suspension

variable {state keys now}

/-- What follows the table leaves it as it is. -/
theorem saving_resume {counted : List IndexedValidator} {sweepState : WithdrawalSweepState}
    {suspension : Suspension} (reply : Reply Answer) {memory : Memory}
    (h : Saving now counted sweepState (memory, some suspension)) :
    Saving now counted sweepState (resumeUpdateValidators suspension reply memory) := by
  obtain ⟨hsummed, hsaves⟩ := h
  have hsaves := hsaves suspension rfl
  have hended (after : Memory) (hafter : SummedUp now counted sweepState after) :
      Saving now counted sweepState (after, none) := ⟨hafter, fun _ hnext => (by cases hnext)⟩
  have hsegment := updateSegment_resume suspension reply memory
  generalize resumeUpdateValidators suspension reply memory = result at hsegment
  cases hsegment with
  | ended => exact hended _ hsummed
  | setLastUpdate =>
      refine ⟨⟨hsummed.projects, hsummed.frameBalances, hsummed.ids⟩, ?_⟩
      rintro next ⟨⟩
      trivial
  | joined =>
      refine ⟨hsummed, ?_⟩
      rintro next ⟨⟩
      trivial
  | wrote => exact hended _ ⟨hsummed.projects, hsummed.frameBalances, hsummed.ids⟩
  | wroteInPart => exact hended _ ⟨hsummed.projects, hsummed.frameBalances, hsummed.ids⟩
  | _ => exact hsaves.elim

theorem saving_alone {counted : List IndexedValidator} {sweepState : WithdrawalSweepState}
    (fuel : ℕ) {start : Memory × Option Suspension} (h : Saving now counted sweepState start) :
    Saving now counted sweepState
      (updateValidatorsJob.alone (state.answer keys now) fuel start) :=
  @Job.alone_preserves _ updateValidatorsJob (state.answer keys now)
    (Saving now counted sweepState) (fun _ _ hsaving => saving_resume _ hsaving) fuel start h

/-- A full update goes on from where it has been left. -/
theorem alone_answer_add (first second : ℕ) (start : Memory × Option Suspension) :
    updateValidatorsJob.alone (state.answer keys now) (first + second) start =
      updateValidatorsJob.alone (state.answer keys now) second
        (updateValidatorsJob.alone (state.answer keys now) first start) :=
  @Job.alone_add _ updateValidatorsJob (state.answer keys now) first second start

/-- The full update throws before it counts, or it counts all validators, sums up the
table and goes on to the file. -/
theorem runUpdate_cases (memory : Memory) :
    runUpdate state keys now memory = (memory, none) ∨
      ∃ update fuel before, update.indexedValidators = state.validators ∧
        before.history = memory.history ∧
        runUpdate state keys now memory = updateValidatorsJob.alone (state.answer keys now) fuel
          (findAndSetLidoValidatorsWithdrawableBalances state keys now update before) := by
  set lidoValidators := getLidoValidatorsByKeys keys state.validators with hlidoValidators
  have hlido : lidoValidators.length ≤ state.validators.length := List.length_filter_le _ _
  have hfuel : 2 * state.validators.length + 7 = 2 + (state.validators.length +
      ((lidoValidators.length + 2) + (state.validators.length - lidoValidators.length + 3))) := by
    omega
  have hrun : runUpdate state keys now memory = updateValidatorsJob.alone (state.answer keys now)
      (state.validators.length +
        ((lidoValidators.length + 2) + (state.validators.length - lidoValidators.length + 3)))
      (resumeUpdateValidators (.fetchingPendingPartialWithdrawals state.validators
          (memory.stores.getCurrentEpoch now))
        ⟨now, .pendingPartialWithdrawals state.pendingPartialWithdrawals⟩ memory) := by
    rw [runUpdate, hfuel]
    exact alone_answer_add 2 _ _
  rw [hrun, resumeUpdateValidators]
  cases SweepService.getSweepDelayInEpochs state.pendingPartialWithdrawals state.validators
      (memory.stores.getCurrentEpoch now) with
  | error fault => exact Or.inl (Job.alone_none _ _)
  | ok sweepMeanEpochs =>
      right
      let update : Update := {
        indexedValidators := state.validators
        sweepMeanEpochs
        count := { maxExitEpoch := memory.stores.getCurrentEpoch now + maxSeedLookahead + 1 } }
      let swept := memory.setValidators { memory.stores.validators with
        sweepMeanEpochs := some (.finite sweepMeanEpochs) }
      refine ⟨countAll update state.validators,
        state.validators.length - lidoValidators.length + 3, swept.setValidators
          (setCounts (countAll update state.validators) swept.stores.validators), rfl, rfl,
        (alone_answer_add state.validators.length _ _).trans ?_⟩
      rw [alone_countNext]
      exact alone_answer_add (lidoValidators.length + 2) _ _

/-- The table is stored for the validators that have been found withdrawable, or the
loop over them has thrown. -/
theorem saving_findAndSet (update : Update) (before : Memory) :
    findAndSetLidoValidatorsWithdrawableBalances state keys now update before = (before, none) ∨
      ∃ sweepState, getWithdrawalSweepState state.sweepData = .ok sweepState ∧
        Saving now (withdrawableOf (getLidoValidatorsByKeys keys update.indexedValidators))
          sweepState
          (findAndSetLidoValidatorsWithdrawableBalances state keys now update before) := by
  rw [findAndSetLidoValidatorsWithdrawableBalances_eq]
  cases hsweep : getWithdrawalSweepState state.sweepData with
  | error fault => exact Or.inl rfl
  | ok sweepState =>
      simp only
      by_cases hall : ∀ item ∈ withdrawableOf (getLidoValidatorsByKeys keys
          update.indexedValidators),
          Projects before.stores (readEstimate before.stores now) sweepState item
      · right
        refine ⟨sweepState, rfl, ?_⟩
        rw [summed_of_projects hall]
        constructor
        · exact ⟨hall, congrArg some (frameBalances_addAll_empty _), List.nil_append _⟩
        · rintro suspension ⟨⟩
          trivial
      · exact Or.inl (summed_of_not_projects hall _ _ _)

/-- A full update that completes leaves the table and the list of the validators it
has found withdrawable. -/
theorem summedUp_runUpdate {memory : Memory}
    (hcompletes : (runUpdate state keys now memory).1.history.completedUpdates =
      memory.history.completedUpdates + 1) :
    ∃ sweepState, getWithdrawalSweepState state.sweepData = .ok sweepState ∧
      SummedUp now (withdrawableOf (getLidoValidatorsByKeys keys state.validators)) sweepState
        (runUpdate state keys now memory).1 := by
  have hthrew {after : Memory} (hhistory : after.history = memory.history) :
      runUpdate state keys now memory ≠ (after, none) := by
    intro hrun
    rw [hrun, hhistory] at hcompletes
    exact absurd hcompletes (Nat.lt_succ_self _).ne
  rcases @runUpdate_cases state keys now memory with hrun | hrun
  · exact absurd hrun (hthrew rfl)
  · obtain ⟨update, fuel, before, hindexed, hhistory, hrun⟩ := hrun
    rcases @saving_findAndSet state keys now update before with
      hended | ⟨sweepState, hsweep, hsaving⟩
    · rw [hended] at hrun
      exact absurd (hrun.trans (Job.alone_none _ _)) (hthrew hhistory)
    · rw [hindexed] at hsaving
      rw [hrun]
      exact ⟨sweepState, hsweep, (saving_alone fuel hsaving).1⟩

end FullUpdate

/-! ## The refresh -/

section Refresh

open UpdateLidoWithdrawableValidators

/-- The node answers for a consensus state: exactly one record for each validator that
it is asked for, in any order. -/
structure AnswersFor (node : ConsensusNode) (state : ConsensusState) : Prop where
  sweepData : node.sweepData = some state.sweepData
  stateValidators : ∀ batch : List ℕ, batch.Nodup →
    (∀ id ∈ batch, id ∈ state.validators.map IndexedValidator.index) →
    ∃ data, node.stateValidators batch = some data ∧
      (∀ item ∈ data, item ∈ state.validators) ∧
      (data.map IndexedValidator.index).Perm batch

/-- Where indices are distinct, validators are known by them. -/
theorem perm_of_perm_index {validators : List IndexedValidator}
    (hdistinct : (validators.map IndexedValidator.index).Nodup)
    {first second : List IndexedValidator} (hfirst : ∀ item ∈ first, item ∈ validators)
    (hsecond : ∀ item ∈ second, item ∈ validators)
    (h : (first.map IndexedValidator.index).Perm (second.map IndexedValidator.index)) :
    first.Perm second := by
  let known (id : ℕ) : Option IndexedValidator :=
    validators.find? fun item => decide (item.index = id)
  have hknown (item : IndexedValidator) (hitem : item ∈ validators) :
      known item.index = some item := by
    cases hfind : known item.index with
    | none => exact absurd (decide_eq_true rfl) (List.find?_eq_none.mp hfind item hitem)
    | some other =>
        have hindex : other.index = item.index := by simpa using List.find?_some hfind
        rw [List.inj_on_of_nodup_map hdistinct (List.mem_of_find?_eq_some hfind) hitem hindex]
  have hitems (items : List IndexedValidator) (hmem : ∀ item ∈ items, item ∈ validators) :
      (items.map IndexedValidator.index).filterMap known = items := by
    rw [List.filterMap_map]
    exact (List.filterMap_congr fun item hitem => hknown item (hmem item hitem)).trans
      List.filterMap_some
  have hperm := h.filterMap known
  rw [hitems first hfirst, hitems second hsecond] at hperm
  exact hperm

variable {stores : Stores} {estimate : Estimate} {sweepState : WithdrawalSweepState}

/-- An answer of the length of the batch is added row by row. -/
theorem addBatch_eq_ok {batch : List ℕ} {data : List IndexedValidator}
    (hlength : data.length = batch.length)
    (hprojects : ∀ item ∈ data, Projects stores estimate sweepState item) (tally : Tally) :
    addBatch stores estimate sweepState batch data tally =
      .ok (addAll tally (data.map (rowOf stores estimate sweepState))) := by
  induction batch generalizing data tally with
  | nil =>
      obtain rfl := List.length_eq_zero_iff.mp hlength
      rfl
  | cons id batch ih =>
      cases data with
      | nil => cases hlength
      | cons item data =>
          obtain ⟨row, hrow⟩ := hprojects item List.mem_cons_self
          rw [addBatch, hrow, Outcome.ok_bind,
            eq_rowOf_of_contribution_eq_ok stores estimate sweepState item row hrow]
          apply ih (Nat.succ.inj hlength)
          exact fun other hmem => hprojects other (List.mem_cons_of_mem _ hmem)

variable {node : ConsensusNode} {state : ConsensusState} {counted : List IndexedValidator}

/-- A batch is answered with its records, in some order. -/
theorem AnswersFor.exists_data (hnode : AnswersFor node state)
    (hcounted : counted.Sublist state.validators) (i : ℕ) :
    ∃ data : List IndexedValidator,
      node.stateValidators (batchAt (counted.map IndexedValidator.index) i) = some data ∧
        data.Perm ((counted.drop i).take batchSize) := by
  have hbatch : batchAt (counted.map IndexedValidator.index) i =
      ((counted.drop i).take batchSize).map IndexedValidator.index := by
    rw [batchAt, ← List.map_drop, ← List.map_take]
  have hsublist : ((counted.drop i).take batchSize).Sublist state.validators :=
    (List.take_sublist _ _).trans ((List.drop_sublist _ _).trans hcounted)
  rw [hbatch]
  obtain ⟨data, hdata, hmem, hperm⟩ := hnode.stateValidators _
    (state.distinct.sublist (hsublist.map _)) fun id hid => (hsublist.map _).subset hid
  exact ⟨data, hdata,
    perm_of_perm_index state.distinct hmem (fun _ hitem => hsublist.subset hitem) hperm⟩

/-- The loop over the batches, each answered in some order. The induction is on the
answers that are still awaited. -/
theorem alone_nextBatch (hnode : AnswersFor node state)
    (hcounted : counted.Sublist state.validators) {memory : Memory}
    (hprojects : ∀ item ∈ counted, Projects memory.stores estimate sweepState item) (now : ℤ)
    {fuel i : ℕ} (hfuel : counted.length ≤ fuel + i) (tally : Tally) :
    ∃ data : List IndexedValidator, data.Perm (counted.drop i) ∧
      updateLidoWithdrawableValidatorsJob.alone
          (fun suspension => (⟨now, node.answer suspension⟩ : Reply Answer)) fuel
          (nextBatch (counted.map IndexedValidator.index) estimate sweepState i tally memory) =
        (storeRefreshed (counted.map IndexedValidator.index)
          (addAll tally (data.map (rowOf memory.stores estimate sweepState))) memory, none) := by
  induction fuel generalizing i tally with
  | zero =>
      have hall : counted.length ≤ i := by omega
      refine ⟨[], ?_, ?_⟩
      · rw [List.drop_eq_nil_of_le hall]
      · exact if_neg (by simpa using hall)
  | succ fuel ih =>
      rcases nextBatch_cases (counted.map IndexedValidator.index) estimate sweepState i tally
        memory with ⟨-, hnext⟩ | ⟨hall, hnext⟩
      · obtain ⟨data, hdata, hperm⟩ := hnode.exists_data hcounted i
        have hlength : data.length =
            (batchAt (counted.map IndexedValidator.index) i).length := by
          rw [hperm.length_eq, batchAt, ← List.map_drop, ← List.map_take, List.length_map]
        have hadded := addBatch_eq_ok hlength (fun item hitem => hprojects item
          (List.mem_of_mem_drop (List.mem_of_mem_take (hperm.mem_iff.mp hitem)))) tally
        obtain ⟨rest, hrest, hend⟩ := ih (i := i + batchSize) (by rw [batchSize]; omega)
          (addAll tally (data.map (rowOf memory.stores estimate sweepState)))
        refine ⟨data ++ rest, ?_, ?_⟩
        · rw [← List.take_append_drop batchSize (counted.drop i), List.drop_drop]
          exact hperm.append hrest
        · rw [hnext, List.map_append, addAll, List.foldl_append]
          refine Eq.trans ?_ hend
          show updateLidoWithdrawableValidatorsJob.alone _ fuel
            (resumeUpdateLidoWithdrawableValidators _ ⟨now, node.answer _⟩ memory) = _
          rw [ConsensusNode.answer, hdata]
          simp only [resumeUpdateLidoWithdrawableValidators, hadded]
      · refine ⟨[], ?_, ?_⟩
        · rw [List.length_map] at hall
          rw [List.drop_eq_nil_of_le hall]
        · rw [hnext]
          exact Job.alone_none _ _

/-- The refresh of a list of validators sums the table of these validators anew. -/
theorem runRefresh_of_summedUp (hnode : AnswersFor node state)
    (hcounted : counted.Sublist state.validators) {now : ℤ} {memory : Memory}
    (hsweep : getWithdrawalSweepState state.sweepData = .ok sweepState)
    (hsummed : SummedUp now counted sweepState memory) :
    ∃ data : List IndexedValidator, data.Perm counted ∧
      Restart.runRefresh node now memory = (storeRefreshed
        memory.stores.validators.withdrawableLidoValidatorIds (addAll Tally.empty (data.map
          (rowOf memory.stores (readEstimate memory.stores now) sweepState))) memory, none) := by
  have hstate : node.sweepState? = some sweepState := by
    rw [ConsensusNode.sweepState?, hnode.sweepData]
    simp only [hsweep]
    rfl
  have hfuel : counted.length ≤
      memory.stores.validators.withdrawableLidoValidatorIds.length + 1 + 0 := by
    rw [hsummed.ids, List.length_map]
    exact Nat.le_succ _
  obtain ⟨data, hdata, hrun⟩ := alone_nextBatch hnode hcounted hsummed.projects now
    hfuel Tally.empty
  refine ⟨data, hdata, ?_⟩
  rw [← hsummed.ids] at hrun
  rw [Restart.runRefresh_eq, Restart.afterSweepState, hstate]
  exact hrun

/-- **The refresh agrees with the full update.** Right after a full update that has
completed, against the same consensus state and at the same clock, the refresh stores
a table with the same frames and the same balances, however many validators it asks
for and in whatever order an answer has them. Frames that are array indices are
listed in the same order as well. -/
theorem refresh_agrees (hnode : AnswersFor node state)
    {keys : List (List Char)} {now : ℤ} {memory : Memory}
    (hcompletes : (runUpdate state keys now memory).1.history.completedUpdates =
      memory.history.completedUpdates + 1) :
    let updated := (runUpdate state keys now memory).1
    ∃ (table : Record ℤ) (tally : Tally),
      updated.stores.validators.frameBalances = some table ∧
      Restart.runRefresh node now updated = (storeRefreshed
        updated.stores.validators.withdrawableLidoValidatorIds tally updated, none) ∧
      (∀ key, tally.frameBalances.get? key = table.get? key) ∧
      (table.ArrayIndexed → tally.frameBalances.objectEntries = table.objectEntries) := by
  intro updated
  obtain ⟨sweepState, hsweep, hsummed⟩ := summedUp_runUpdate hcompletes
  have hcounted : (withdrawableOf (getLidoValidatorsByKeys keys state.validators)).Sublist
      state.validators := List.filter_sublist.trans List.filter_sublist
  obtain ⟨data, hdata, hrun⟩ := runRefresh_of_summedUp hnode hcounted hsweep hsummed
  have hget (key : PropertyKey) := get?_frameTable_perm
    (hdata.map (rowOf updated.stores (readEstimate updated.stores now) sweepState)) key
  rw [← frameBalances_addAll_empty] at hget
  refine ⟨_, _, hsummed.frameBalances, hrun, hget, ?_⟩
  intro harray
  exact (harray.objectEntries_eq_of_get?_eq fun key => (hget key).symm).symm

/-- One validator more than a batch has. -/
def twoBatches : ConsensusState where
  validators := (List.range 21).map (withdrawableFrom · 400)
  distinct := by decide +kernel
  pendingPartialWithdrawals := []
  sweepData := ⟨100, some 7, none⟩

/-- A node that answers a batch backwards. -/
def backwards : ConsensusNode where
  sweepData := some twoBatches.sweepData
  stateValidators batch := some (batch.map (withdrawableFrom · 400)).reverse

theorem answersFor_backwards : AnswersFor backwards twoBatches := by
  refine ⟨rfl, ?_⟩
  intro batch _ hknown
  have hindex (ids : List ℕ) :
      (ids.map (withdrawableFrom · 400)).map IndexedValidator.index = ids := by
    rw [List.map_map]
    exact List.map_id ids
  refine ⟨_, rfl, ?_, ?_⟩
  · intro item hitem
    obtain ⟨id, hid, rfl⟩ := List.mem_map.mp (List.mem_reverse.mp hitem)
    have hmem := hknown id hid
    rw [twoBatches, hindex] at hmem
    exact List.mem_map_of_mem hmem
  · rw [List.map_reverse, hindex]
    exact List.reverse_perm batch

/-- A refresh with two calls, each answered backwards. -/
theorem refresh_agrees_twoBatches :
    let memory : Memory := {
      stores := {
        genesisTime := 0
        contractConfig := { initialEpoch := some 0, epochsPerFrame := some 90 } } }
    let updated := (runUpdate twoBatches ((List.range 21).map (Nat.toDigits 10)) 100000000 memory).1
    ∃ (table : Record ℤ) (tally : Tally),
      updated.stores.validators.frameBalances = some table ∧
      Restart.runRefresh backwards 100000000 updated = (storeRefreshed
        updated.stores.validators.withdrawableLidoValidatorIds tally updated, none) ∧
      (∀ key, tally.frameBalances.get? key = table.get? key) ∧
      (table.ArrayIndexed → tally.frameBalances.objectEntries = table.objectEntries) :=
  refresh_agrees answersFor_backwards (by decide +kernel)

end Refresh

end ValidatorsService

end WithdrawalsApi
