/-
# The table conserves balances

`findAndSetLidoValidatorsWithdrawableBalances` adds up the balances of the
validators with a known withdrawable epoch, each under the frame after the one in
which the sweep is projected to reach it. Nothing is lost and nothing is counted
twice: a key holds the balances of exactly the validators of its frame, whatever
the order of the list.

A projection is later than the clock, by one slot at least, so every frame of the
table is still to come.
-/

import WithdrawalsApi.Jobs.Validators
import WithdrawalsApi.Sweep.Timestamp
import Mathlib.Data.List.Induction

namespace WithdrawalsApi

open Js Math

/-! ## Sums under keys -/

theorem frameKey_inj {first second : Option ℤ} : frameKey first = frameKey second ↔
    first = second := by
  constructor
  · intro h
    cases first with
    | none => cases second with
      | none => rfl
      | some frame => cases h
    | some frame => cases second with
      | none => cases h
      | some other => exact congrArg some (PropertyKey.integer.inj h)
  · rintro rfl
    rfl

/-- The contributions of a frame. -/
def contributionsOf (contributions : List Contribution) (frame : Option ℤ) : List Contribution :=
  contributions.filter fun contribution => decide (contribution.frame = frame)

/-- What contributions add up to. -/
def totalBalance (contributions : List Contribution) : ℤ :=
  (contributions.map Contribution.balance).sum

/-- A frame that is not in the table counts as zero. -/
theorem addToFrame_eq (frameBalances : Record ℤ) (contribution : Contribution) :
    addToFrame frameBalances contribution = frameBalances.set (frameKey contribution.frame)
      ((frameBalances.get? (frameKey contribution.frame)).getD 0 + contribution.balance) := by
  simp only [addToFrame]
  cases frameBalances.get? (frameKey contribution.frame) with
  | some prevBalance => rfl
  | none => rw [Option.getD_none, zero_add]

theorem frameTable_append_singleton (contributions : List Contribution)
    (contribution : Contribution) :
    frameTable (contributions ++ [contribution]) =
      addToFrame (frameTable contributions) contribution := by
  rw [frameTable, List.foldl_append]
  rfl

/-- A frame of the table holds the sum of its contributions, and it is in the table
when it has one. The induction is on the contributions, the latest last. -/
theorem get?_frameTable (contributions : List Contribution) (frame : Option ℤ) :
    (frameTable contributions).get? (frameKey frame) =
      if contributionsOf contributions frame = [] then none
      else some (totalBalance (contributionsOf contributions frame)) := by
  induction contributions using List.reverseRecOn with
  | nil => rfl
  | append_singleton contributions contribution ih =>
      rw [frameTable_append_singleton, addToFrame_eq, Record.get?_set, contributionsOf,
        List.filter_append, ← contributionsOf]
      by_cases hframe : contribution.frame = frame
      · subst hframe
        rw [if_pos rfl, ih]
        by_cases hnone : contributionsOf contributions contribution.frame = []
        · simp [hnone, totalBalance]
        · simp [hnone, totalBalance]
      · rw [if_neg (mt frameKey_inj.mp hframe), ih]
        simp [hframe]

/-- Every contribution is in the table once. -/
theorem sum_frameTable (contributions : List Contribution) :
    ((frameTable contributions).entries.map Prod.snd).sum = totalBalance contributions := by
  induction contributions using List.reverseRecOn with
  | nil => rfl
  | append_singleton contributions contribution ih =>
      have hset := (frameTable contributions).sum_values_set (frameKey contribution.frame)
        (((frameTable contributions).get? (frameKey contribution.frame)).getD 0 +
          contribution.balance)
      rw [frameTable_append_singleton, addToFrame_eq, totalBalance, List.map_append,
        List.sum_append, ← totalBalance, ← ih]
      simp only [List.map_cons, List.map_nil, List.sum_singleton]
      omega

/-- An entry of the table has a contribution. -/
theorem exists_contribution_of_mem_frameTable {contributions : List Contribution}
    {entry : PropertyKey × ℤ} (h : entry ∈ (frameTable contributions).entries) :
    ∃ contribution ∈ contributions, entry.1 = frameKey contribution.frame := by
  obtain ⟨frame, hframe⟩ := frameKeyed_frameTable contributions entry h
  have hget : (frameTable contributions).get? (frameKey frame) = some entry.2 := by
    rw [← hframe]
    exact Record.get?_eq_some_iff.mpr h
  rw [get?_frameTable] at hget
  split at hget
  case isTrue => cases hget
  case isFalse hsome =>
    obtain ⟨contribution, hmem⟩ := List.exists_mem_of_ne_nil _ hsome
    obtain ⟨hmem, hof⟩ := List.mem_filter.mp hmem
    exact ⟨contribution, hmem, by rw [hframe, of_decide_eq_true hof]⟩

namespace ValidatorsService

open UpdateValidators

/-! ## The loop over the Lido validators -/

/-- The validators that the loop counts. -/
def withdrawableOf (lidoValidators : List IndexedValidator) : List IndexedValidator :=
  lidoValidators.filter fun item =>
    decide (item.validator.withdrawableEpoch ≠ farFutureEpoch ∧ 0 < item.balance)

section Estimates

variable (stores : Stores) (estimate : Estimate) (sweepState : WithdrawalSweepState)

/-- The frame in which the sweep is projected to reach a validator. -/
def projectedFrame (item : IndexedValidator) : Option ℤ :=
  match getValidatorWithdrawalTimestamp item.index sweepState estimate.totalValidatorsCount
      estimate.activeValidatorCount estimate.currentEpoch item.validator.withdrawableEpoch
      estimate.now with
  | .ok timestamp => stores.getFrameByTimestamp timestamp
  | .error _ => none

/-- What a validator contributes if its projection returns. -/
def rowOf (item : IndexedValidator) : Contribution where
  validatorIndex := item.index
  frame := (projectedFrame stores estimate sweepState item).map (· + 1)
  balance := parseGwei item.balance
  source := {
    record := item
    sweepState
    estimate
    genesisTime := stores.genesisTime
    contractConfig := stores.contractConfig }

theorem eq_rowOf_of_contribution_eq_ok (item : IndexedValidator) (row : Contribution)
    (h : contribution stores estimate sweepState item = .ok row) :
    row = rowOf stores estimate sweepState item := by
  obtain ⟨timestamp, htimestamp, hrow⟩ := Outcome.bind_eq_ok.mp h
  rw [← Outcome.pure_eq_ok.mp hrow, rowOf, projectedFrame, htimestamp]

/-- The projection of a validator returns. -/
def Projects (item : IndexedValidator) : Prop :=
  ∃ row, contribution stores estimate sweepState item = .ok row

/-- A projection returns unless an index is no safe integer. -/
theorem projects_iff {item : IndexedValidator} : Projects stores estimate sweepState item ↔
    IsSafeInteger item.index ∧ IsSafeInteger sweepState.sweepCursorValidatorIndex := by
  simp only [Projects, contribution, getValidatorWithdrawalTimestamp, Outcome.bind_eq_ok,
    BigNumber.toNumber_eq_ok, Outcome.pure_eq_ok]
  constructor
  · rintro ⟨_, _, ⟨_, ⟨hindex, -⟩, _, ⟨hcursor, -⟩, -⟩, -⟩
    exact ⟨hindex, hcursor⟩
  · rintro ⟨hindex, hcursor⟩
    exact ⟨_, _, ⟨_, ⟨hindex, rfl⟩, _, ⟨hcursor, rfl⟩, rfl⟩, rfl⟩

end Estimates

/-- A tally with more contributions. -/
def addAll (tally : Tally) (rows : List Contribution) : Tally := rows.foldl Tally.add tally

theorem contributions_addAll (tally : Tally) (rows : List Contribution) :
    (addAll tally rows).contributions = tally.contributions ++ rows := by
  induction rows generalizing tally with
  | nil => exact (List.append_nil _).symm
  | cons row rows ih =>
      rw [addAll, List.foldl_cons, ← addAll, ih]
      exact List.append_assoc _ _ _

theorem frameBalances_addAll_empty (rows : List Contribution) :
    (addAll Tally.empty rows).frameBalances = frameTable rows := by
  rw [Tally.frameBalances_eq, contributions_addAll]
  rfl

/-- What the loop leaves: the table and the list are stored, or it has thrown. -/
def summed (update : Update) (estimate : Estimate) (sweepState : WithdrawalSweepState)
    (rest : List IndexedValidator) (tally : Tally) (ids : List ℕ) (memory : Memory) :
    Memory × Option Suspension :=
  match (withdrawableOf rest).mapM (contribution memory.stores estimate sweepState) with
  | .ok rows =>
      let ids := ids ++ (withdrawableOf rest).map IndexedValidator.index
      (storeFrameBalances (addAll tally rows) ids memory,
        some (.storedFrameBalances update (addAll tally rows) ids))
  | .error _ => (memory, none)

theorem summed_of_projects {rest : List IndexedValidator} {estimate : Estimate}
    {sweepState : WithdrawalSweepState} {memory : Memory}
    (h : ∀ item ∈ withdrawableOf rest, Projects memory.stores estimate sweepState item)
    (update : Update) (tally : Tally) (ids : List ℕ) :
    summed update estimate sweepState rest tally ids memory =
      let counted := addAll tally
        ((withdrawableOf rest).map (rowOf memory.stores estimate sweepState))
      let ids := ids ++ (withdrawableOf rest).map IndexedValidator.index
      (storeFrameBalances counted ids memory,
        some (.storedFrameBalances update counted ids)) := by
  have hrows := (Outcome.mapM_eq_ok_iff
    (eq_rowOf_of_contribution_eq_ok memory.stores estimate sweepState)).mpr ⟨h, rfl⟩
  rw [summed, hrows]

theorem summed_of_not_projects {rest : List IndexedValidator} {estimate : Estimate}
    {sweepState : WithdrawalSweepState} {memory : Memory}
    (h : ¬ ∀ item ∈ withdrawableOf rest, Projects memory.stores estimate sweepState item)
    (update : Update) (tally : Tally) (ids : List ℕ) :
    summed update estimate sweepState rest tally ids memory = (memory, none) := by
  unfold summed
  cases hrows : (withdrawableOf rest).mapM (contribution memory.stores estimate sweepState) with
  | error fault => rfl
  | ok rows => exact absurd (Outcome.forall_of_mapM_eq_ok hrows) h

/-- A validator that is not counted is passed over. -/
theorem summed_cons_of_not {item : IndexedValidator}
    (hcounts : ¬ (item.validator.withdrawableEpoch ≠ farFutureEpoch ∧ 0 < item.balance))
    (update : Update) (estimate : Estimate) (sweepState : WithdrawalSweepState)
    (rest : List IndexedValidator) (tally : Tally) (ids : List ℕ) (memory : Memory) :
    summed update estimate sweepState (item :: rest) tally ids memory =
      summed update estimate sweepState rest tally ids memory := by
  have hrest : withdrawableOf (item :: rest) = withdrawableOf rest :=
    List.filter_cons_of_neg (by simpa using hcounts)
  rw [summed, summed, hrest]

/-- A validator that is counted adds its row, or the loop throws. -/
theorem summed_cons {item : IndexedValidator}
    (hcounts : item.validator.withdrawableEpoch ≠ farFutureEpoch ∧ 0 < item.balance)
    (update : Update) (estimate : Estimate) (sweepState : WithdrawalSweepState)
    (rest : List IndexedValidator) (tally : Tally) (ids : List ℕ) (memory : Memory) :
    summed update estimate sweepState (item :: rest) tally ids memory =
      match contribution memory.stores estimate sweepState item with
      | .ok row =>
          summed update estimate sweepState rest (tally.add row) (ids ++ [item.index]) memory
      | .error _ => (memory, none) := by
  have hrest : withdrawableOf (item :: rest) = item :: withdrawableOf rest :=
    List.filter_cons_of_pos (decide_eq_true hcounts)
  rw [summed, hrest, List.mapM_cons]
  cases contribution memory.stores estimate sweepState item with
  | error fault => rfl
  | ok row =>
      rw [Outcome.ok_bind]
      simp only [summed]
      cases (withdrawableOf rest).mapM (contribution memory.stores estimate sweepState) with
      | error fault => rfl
      | ok rows =>
          rw [List.map_cons, List.append_cons]
          rfl

/-- The loop, its awaited calls answered, one for each validator. -/
theorem alone_sumNext {rule : Suspension → Reply Answer}
    (hrule : ∀ update estimate sweepState rest tally ids,
      (rule (.summing update estimate sweepState rest tally ids)).answer = .settled)
    (update : Update) (estimate : Estimate) (sweepState : WithdrawalSweepState)
    (rest : List IndexedValidator) (tally : Tally) (ids : List ℕ) (memory : Memory) :
    updateValidatorsJob.alone rule rest.length
        (sumNext update estimate sweepState rest tally ids memory) =
      summed update estimate sweepState rest tally ids memory := by
  induction rest generalizing tally ids with
  | nil =>
      simp only [summed, withdrawableOf, sumNext, List.filter_nil, List.map_nil, List.append_nil]
      rfl
  | cons item rest ih =>
      have hnext (tally : Tally) (ids : List ℕ) :
          updateValidatorsJob.alone rule (rest.length + 1)
            (memory, some (Suspension.summing update estimate sweepState rest tally ids)) =
          summed update estimate sweepState rest tally ids memory := by
        rw [← ih]
        show updateValidatorsJob.alone rule rest.length (resumeUpdateValidators _ _ memory) = _
        have hanswer := hrule update estimate sweepState rest tally ids
        generalize rule (Suspension.summing update estimate sweepState rest tally ids) = reply
          at hanswer
        obtain ⟨now, answer⟩ := reply
        obtain rfl : answer = .settled := hanswer
        rfl
      rw [List.length_cons, sumNext]
      split
      case isTrue hcounts =>
        rw [summed_cons hcounts]
        cases contribution memory.stores estimate sweepState item with
        | ok row => exact hnext _ _
        | error fault => exact Job.alone_none _ _
      case isFalse hcounts =>
        rw [summed_cons_of_not hcounts]
        exact hnext _ _

end ValidatorsService

/-! ## The stored table -/

/-- The genesis clock with the frame configuration that has been read. -/
def Stores.time? (stores : Stores) : Option GenesisTimeService := do
  let initialEpoch ← stores.contractConfig.initialEpoch
  let epochsPerFrame ← stores.contractConfig.epochsPerFrame
  some {
    genesisTime := stores.genesisTime
    initialEpoch
    epochsPerFrame := epochsPerFrame
    epochsPerFrame_pos := natCast_epochsPerFrame_pos epochsPerFrame }

theorem Stores.getFrameByTimestamp_of_time? {stores : Stores} {time : GenesisTimeService}
    (htime : stores.time? = some time) (timestamp : ℤ) :
    stores.getFrameByTimestamp (some timestamp) = some (time.getFrameByTimestamp timestamp) := by
  unfold time? at htime
  unfold getFrameByTimestamp
  cases hinitial : stores.contractConfig.initialEpoch with
  | none => simp [hinitial] at htime
  | some initialEpoch =>
      cases hframe : stores.contractConfig.epochsPerFrame with
      | none => simp [hinitial, hframe] at htime
      | some epochsPerFrame =>
          rw [hinitial, hframe] at htime
          obtain rfl := Option.some.inj htime
          rfl

/-- What the consensus node answers in one state. -/
structure ConsensusState where
  validators : List IndexedValidator
  /-- The index of a validator is its own. -/
  distinct : (validators.map IndexedValidator.index).Nodup
  pendingPartialWithdrawals : List PendingPartialWithdrawal
  sweepData : BeaconStateSweepData

open ValidatorsService UpdateValidators

/-- The answers to a full update: the consensus state, the keys, and whatever else it
waits for. -/
def ConsensusState.answer (state : ConsensusState) (keys : List (List Char)) (now : ℤ) :
    Suspension → Reply Answer
  | .fetchingValidators => ⟨now, .validators state.validators⟩
  | .fetchingPendingPartialWithdrawals _ _ =>
      ⟨now, .pendingPartialWithdrawals state.pendingPartialWithdrawals⟩
  | .fetchingKeys _ => ⟨now, .keys keys⟩
  | .fetchingSweepState _ _ _ => ⟨now, .sweepData state.sweepData⟩
  | _ => ⟨now, .settled⟩

namespace ValidatorsService

variable (state : ConsensusState) (keys : List (List Char)) (now : ℤ) (update : Update)
  (memory : Memory)

/-- The part of a full update from the call of the keys API on, up to the first call
after the table has been stored. -/
def findAndSetLidoValidatorsWithdrawableBalances : Memory × Option Suspension :=
  updateValidatorsJob.alone (state.answer keys now)
    ((getLidoValidatorsByKeys keys update.indexedValidators).length + 2)
    (memory, some (Suspension.fetchingKeys update))

theorem findAndSetLidoValidatorsWithdrawableBalances_eq :
    findAndSetLidoValidatorsWithdrawableBalances state keys now update memory =
      match getWithdrawalSweepState state.sweepData with
      | .ok sweepState =>
          summed update (readEstimate memory.stores now) sweepState
            (getLidoValidatorsByKeys keys update.indexedValidators) Tally.empty [] memory
      | .error _ => (memory, none) := by
  have hrun : findAndSetLidoValidatorsWithdrawableBalances state keys now update memory =
      updateValidatorsJob.alone (state.answer keys now)
        (getLidoValidatorsByKeys keys update.indexedValidators).length
        (resumeUpdateValidators
          (.fetchingSweepState update (getLidoValidatorsByKeys keys update.indexedValidators)
            (readEstimate memory.stores now))
          ⟨now, .sweepData state.sweepData⟩ memory) := rfl
  rw [hrun, resumeUpdateValidators]
  cases getWithdrawalSweepState state.sweepData with
  | error fault => exact Job.alone_none _ _
  | ok sweepState =>
      exact alone_sumNext (fun _ _ _ _ _ _ => rfl) update _ sweepState _ Tally.empty [] memory

variable {state keys now update memory}

/-! ### What the table holds -/

theorem contributionsOf_map_rowOf {stores : Stores} {estimate : Estimate}
    {sweepState : WithdrawalSweepState} (items : List IndexedValidator) (frame : ℤ) :
    contributionsOf (items.map (rowOf stores estimate sweepState)) (some frame) =
      (items.filter fun item =>
        decide (projectedFrame stores estimate sweepState item = some (frame - 1))).map
          (rowOf stores estimate sweepState) := by
  have hframe (item : IndexedValidator) : (rowOf stores estimate sweepState item).frame =
      some frame ↔ projectedFrame stores estimate sweepState item = some (frame - 1) := by
    simp only [rowOf, Option.map_eq_some_iff]
    constructor
    · rintro ⟨other, hother, rfl⟩
      rw [hother, add_sub_cancel_right]
    · intro h
      exact ⟨_, h, sub_add_cancel _ _⟩
  rw [contributionsOf, List.filter_map]
  congr 1
  apply List.filter_congr
  intro item _
  rw [Function.comp_apply, decide_eq_decide]
  exact hframe item

theorem totalBalance_map_rowOf {stores : Stores} {estimate : Estimate}
    {sweepState : WithdrawalSweepState} (items : List IndexedValidator) :
    totalBalance (items.map (rowOf stores estimate sweepState)) =
      (items.map fun item => parseGwei item.balance).sum := by
  rw [totalBalance, List.map_map]
  rfl

/-- A validator whose projection returns is projected into a frame that is not over. -/
theorem projectedFrame_of_projects {time : GenesisTimeService}
    (htime : memory.stores.time? = some time) {total active : ℕ}
    (htotal : memory.stores.validators.totalValidatorsCount = some total)
    (hcount : memory.stores.validators.activeValidatorsCount = some (.finite active))
    (hpos : 0 < active) (hle : active ≤ total) {sweepState : WithdrawalSweepState}
    {item : IndexedValidator}
    (h : Projects memory.stores (readEstimate memory.stores now) sweepState item) :
    ∃ frame, projectedFrame memory.stores (readEstimate memory.stores now) sweepState item =
        some frame ∧ time.getFrameOfEpoch (time.getCurrentEpoch now) ≤ frame := by
  obtain ⟨row, hrow⟩ := h
  obtain ⟨result, hresult, -⟩ := Outcome.bind_eq_ok.mp hrow
  simp only [readEstimate, htotal, hcount] at hresult
  obtain ⟨timestamp, rfl, hlater⟩ := lt_of_getValidatorWithdrawalTimestamp_eq_ok
    (hpos.trans_le hle) hpos hresult
  refine ⟨time.getFrameByTimestamp timestamp, ?_, ?_⟩
  · simp only [projectedFrame, readEstimate, htotal, hcount, hresult]
    exact Stores.getFrameByTimestamp_of_time? htime timestamp
  · rw [time.getFrameByTimestamp_eq]
    exact time.getFrameOfEpoch_mono (time.getCurrentEpoch_mono hlater.le)

/-- **The table conserves balances.** The table is stored unless an index is no safe
integer. A frame holds the balances in wei of exactly the counted validators that are
projected into the frame before it; all frames together hold the balances of all of
them, the list names them in their order, and every frame is still to come. -/
theorem frameBalances_conserved {time : GenesisTimeService}
    (htime : memory.stores.time? = some time) {total active : ℕ}
    (htotal : memory.stores.validators.totalValidatorsCount = some total)
    (hcount : memory.stores.validators.activeValidatorsCount = some (.finite active))
    (hpos : 0 < active) (hle : active ≤ total) {sweepState : WithdrawalSweepState}
    (hsweep : getWithdrawalSweepState state.sweepData = .ok sweepState) :
    let after := findAndSetLidoValidatorsWithdrawableBalances state keys now update memory
    let counted := withdrawableOf (getLidoValidatorsByKeys keys update.indexedValidators)
    let sweptIn (frame : ℤ) := counted.filter fun item => decide
      (projectedFrame memory.stores (readEstimate memory.stores now) sweepState item = some frame)
    let balanceOf (items : List IndexedValidator) :=
      (items.map fun item => parseGwei item.balance).sum
    (after.2.isSome = true ↔ ∀ item ∈ counted,
        IsSafeInteger item.index ∧ IsSafeInteger sweepState.sweepCursorValidatorIndex) ∧
      (after.2.isSome = true → ∃ table,
        after.1.stores.validators.frameBalances = some table ∧
        (∀ frame, table.get? (.integer frame) =
          if sweptIn (frame - 1) = [] then none else some (balanceOf (sweptIn (frame - 1)))) ∧
        (table.entries.map Prod.snd).sum = balanceOf counted ∧
        after.1.stores.validators.withdrawableLidoValidatorIds =
          counted.map IndexedValidator.index ∧
        ∀ entry ∈ table.entries, ∃ frame, entry.1 = .integer frame ∧
          time.getFrameOfEpoch (time.getCurrentEpoch now) < frame) := by
  intro after counted sweptIn balanceOf
  have hprojects : (∀ item ∈ counted, IsSafeInteger item.index ∧
      IsSafeInteger sweepState.sweepCursorValidatorIndex) ↔
      ∀ item ∈ counted,
        Projects memory.stores (readEstimate memory.stores now) sweepState item := by
    simp only [projects_iff]
  have hafter : after = summed update (readEstimate memory.stores now) sweepState
      (getLidoValidatorsByKeys keys update.indexedValidators) Tally.empty [] memory := by
    rw [show after = _ from findAndSetLidoValidatorsWithdrawableBalances_eq state keys now
      update memory, hsweep]
  rw [hprojects]
  by_cases hall : ∀ item ∈ counted,
      Projects memory.stores (readEstimate memory.stores now) sweepState item
  · rw [hafter, summed_of_projects hall]
    refine ⟨iff_of_true rfl hall, fun _ => ⟨_, rfl, ?_, ?_, List.nil_append _, ?_⟩⟩
    · intro frame
      rw [frameBalances_addAll_empty]
      show Record.get? _ (frameKey (some frame)) = _
      rw [get?_frameTable, contributionsOf_map_rowOf, totalBalance_map_rowOf]
      simp only [List.map_eq_nil_iff]
      rfl
    · rw [frameBalances_addAll_empty, sum_frameTable, totalBalance_map_rowOf]
    · rw [frameBalances_addAll_empty]
      intro entry hentry
      obtain ⟨row, hrow, hkey⟩ := exists_contribution_of_mem_frameTable hentry
      obtain ⟨item, hitem, rfl⟩ := List.mem_map.mp hrow
      obtain ⟨frame, hframe, hcurrent⟩ :=
        projectedFrame_of_projects htime htotal hcount hpos hle (hall item hitem)
      refine ⟨frame + 1, ?_, Int.lt_add_one_of_le hcurrent⟩
      rw [hkey, rowOf, hframe]
      rfl
  · rw [hafter, summed_of_not_projects hall]
    exact ⟨iff_of_false (by simp) hall, fun h => (by simp at h)⟩

/-- A validator that may withdraw from an epoch on. -/
def withdrawableFrom (index withdrawableEpoch : ℕ) : IndexedValidator where
  index
  balance := 32000000000
  status := .withdrawalPossible
  validator := {
    pubkey := Nat.toDigits 10 index
    withdrawalCredentials := ['0', 'x', '0', '1']
    effectiveBalance := 32000000000
    exitEpoch := 100
    withdrawableEpoch }

/-- Two of the validators may withdraw, and the sweep reaches both in one frame. -/
theorem frameBalances_conserved_sharedFrame :
    let state : ConsensusState := {
      validators := [withdrawableFrom 1 400, withdrawableFrom 2 farFutureEpoch,
        withdrawableFrom 3 401]
      distinct := by decide
      pendingPartialWithdrawals := []
      sweepData := ⟨100, some 0, none⟩ }
    let update : Update := {
      indexedValidators := state.validators
      sweepMeanEpochs := 1
      count := { maxExitEpoch := 300 } }
    let memory : Memory := {
      stores := {
        genesisTime := 0
        contractConfig := { initialEpoch := some 0, epochsPerFrame := some 90 }
        validators := {
          totalValidatorsCount := some 3, activeValidatorsCount := some (.finite (2 : ℕ)) } } }
    let after := findAndSetLidoValidatorsWithdrawableBalances state [['1'], ['2'], ['3']]
      100000000 update memory
    after.2.isSome = true ∧ ∃ table, after.1.stores.validators.frameBalances = some table ∧
      table.get? (.integer 5) = some 64000000000000000000 ∧
      (table.entries.map Prod.snd).sum = 64000000000000000000 ∧
      after.1.stores.validators.withdrawableLidoValidatorIds = [1, 3] := by
  intro state update memory after
  obtain ⟨hstored, hholds⟩ := @frameBalances_conserved state [['1'], ['2'], ['3']] 100000000
    update memory _ rfl 3 2 rfl rfl (by decide) (by decide) _ rfl
  have hstored : after.2.isSome = true := hstored.mpr (by decide +kernel)
  obtain ⟨table, htable, hframes, hsum, hids, -⟩ := hholds hstored
  refine ⟨hstored, table, htable, ?_, ?_, ?_⟩
  · rw [hframes]
    decide +kernel
  · rw [hsum]
    decide +kernel
  · rw [hids]
    decide +kernel

end ValidatorsService

end WithdrawalsApi
