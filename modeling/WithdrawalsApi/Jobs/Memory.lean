/-
# The memory the jobs share

The jobs write the stores and, after a full update, the cache file. Beside them
the memory keeps a history that no job reads: what completed updates have
published of the validators store, and which validators the stored frame table
was summed from. Statements about consistency are about the history.

The table of frame balances is summed up in two jobs in the same way. A table
under construction carries the contributions it is the sum of.
-/

import WithdrawalsApi.Storage.ValidatorsCache
import WithdrawalsApi.Sweep

namespace WithdrawalsApi

open Js

namespace Stores

/-- `getCurrentEpoch`, which needs the genesis time only. -/
def getCurrentEpoch (stores : Stores) (now : ℤ) : ℤ :=
  (now / 1000 - stores.genesisTime) / (secondsPerSlot * slotsPerEpoch)

/-- `getFrameByTimestamp`; without a frame configuration, or of `NaN`, it is
`NaN`. -/
def getFrameByTimestamp (stores : Stores) (timestamp : Option ℤ) : Option ℤ := do
  let initialEpoch ← stores.contractConfig.initialEpoch
  let epochsPerFrame ← stores.contractConfig.epochsPerFrame
  let timestamp ← timestamp
  let time : GenesisTimeService := {
    genesisTime := stores.genesisTime
    initialEpoch
    epochsPerFrame := epochsPerFrame
    epochsPerFrame_pos := natCast_epochsPerFrame_pos epochsPerFrame }
  some (time.getFrameByTimestamp timestamp)

end Stores

/-! ## The rows of a table -/

/-- What a job reads before it estimates withdrawals. -/
structure Estimate where
  currentEpoch : ℤ
  totalValidatorsCount : Option ℕ
  activeValidatorCount : Option JsNumber
  now : ℤ

/-- What a withdrawal is estimated from: the record of a validator as it has been
read, the sweep, what the job has read of the stores, and the frames. -/
structure EstimateSource where
  record : IndexedValidator
  sweepState : WithdrawalSweepState
  estimate : Estimate
  genesisTime : ℤ
  contractConfig : ContractConfigStorageService

def EstimateSource.getFrameByTimestamp (source : EstimateSource) (timestamp : Option ℤ) :
    Option ℤ :=
  Stores.getFrameByTimestamp
    { genesisTime := source.genesisTime, contractConfig := source.contractConfig } timestamp

/-- What one validator adds to a table: its balance in wei, in one frame. No job
reads the source. -/
structure Contribution where
  validatorIndex : ℕ
  frame : Option ℤ
  balance : ℤ
  source : EstimateSource

/-- A row is about the validator of its record: its balance, from gwei in wei, in
the frame after the one in which the sweep is projected to reach it. -/
structure Contribution.OfRecord (row : Contribution) : Prop where
  validatorIndex : row.validatorIndex = row.source.record.index
  balance : row.balance = row.source.record.balance * 10 ^ 9
  frame : ∃ timestamp, getValidatorWithdrawalTimestamp row.source.record.index
      row.source.sweepState row.source.estimate.totalValidatorsCount
      row.source.estimate.activeValidatorCount row.source.estimate.currentEpoch
      row.source.record.validator.withdrawableEpoch row.source.estimate.now = .ok timestamp ∧
    row.frame = (row.source.getFrameByTimestamp timestamp).map (· + 1)

/-- `frameBalances[frame] = prevBalance ? prevBalance.add(balance) : BigNumber.from(balance)`. -/
def addToFrame (frameBalances : Record ℤ) (contribution : Contribution) : Record ℤ :=
  let frame := frameKey contribution.frame
  frameBalances.set frame
    (match frameBalances.get? frame with
      | some prevBalance => prevBalance + contribution.balance
      | none => contribution.balance)

/-- The table that contributions sum up to, in the order in which they are added. -/
def frameTable (contributions : List Contribution) : Record ℤ :=
  contributions.foldl addToFrame Record.empty

theorem frameKeyed_addToFrame {frameBalances : Record ℤ} (h : FrameKeyed frameBalances)
    (contribution : Contribution) : FrameKeyed (addToFrame frameBalances contribution) := by
  intro entry hmem
  have hname : entry.1 ∈ (addToFrame frameBalances contribution).entries.map Prod.fst :=
    List.mem_map_of_mem hmem
  rcases Record.fst_mem_setEntries hname with hkey | hkey
  · exact ⟨contribution.frame, hkey⟩
  · obtain ⟨other, hother, heq⟩ := List.mem_map.mp hkey
    rw [← heq]
    exact h other hother

theorem frameKeyed_frameTable (contributions : List Contribution) :
    FrameKeyed (frameTable contributions) := by
  have hfold (frameBalances : Record ℤ) (h : FrameKeyed frameBalances) :
      FrameKeyed (contributions.foldl addToFrame frameBalances) := by
    induction contributions generalizing frameBalances with
    | nil => exact h
    | cons contribution contributions ih => exact ih _ (frameKeyed_addToFrame h contribution)
  exact hfold Record.empty frameKeyed_empty

/-- Contributions leave something in the table. -/
theorem entries_frameTable_ne_nil {contributions : List Contribution} (h : contributions ≠ []) :
    (frameTable contributions).entries ≠ [] := by
  rw [frameTable, ← List.dropLast_append_getLast h, List.foldl_append]
  exact Record.setEntries_ne_nil _ _ _

/-- A table under construction and the contributions it is the sum of. -/
structure Tally where
  contributions : List Contribution
  frameBalances : Record ℤ
  frameBalances_eq : frameBalances = frameTable contributions

namespace Tally

def empty : Tally where
  contributions := []
  frameBalances := Record.empty
  frameBalances_eq := rfl

def add (tally : Tally) (contribution : Contribution) : Tally where
  contributions := tally.contributions ++ [contribution]
  frameBalances := addToFrame tally.frameBalances contribution
  frameBalances_eq := by
    rw [tally.frameBalances_eq, frameTable, frameTable, List.foldl_append]
    rfl

/-- Every row is that of a record that has been answered. -/
def OfRecords (tally : Tally) (answered : Set IndexedValidator) : Prop :=
  ∀ row ∈ tally.contributions, row.OfRecord ∧ row.source.record ∈ answered

theorem ofRecords_empty (answered : Set IndexedValidator) : empty.OfRecords answered :=
  List.forall_mem_nil _

theorem OfRecords.add {tally : Tally} {answered : Set IndexedValidator} {row : Contribution}
    (h : tally.OfRecords answered) (hrow : row.OfRecord)
    (hanswered : row.source.record ∈ answered) : (tally.add row).OfRecords answered := by
  intro other hother
  rcases List.mem_append.mp hother with hmem | hmem
  · exact h other hmem
  · rw [List.mem_singleton.mp hmem]
    exact ⟨hrow, hanswered⟩

/-- The validators that have been counted. -/
def validatorIds (tally : Tally) : List ℕ := tally.contributions.map Contribution.validatorIndex

@[simp]
theorem validatorIds_add (tally : Tally) (contribution : Contribution) :
    (tally.add contribution).validatorIds = tally.validatorIds ++ [contribution.validatorIndex] :=
  List.map_append

theorem frameKeyed (tally : Tally) : FrameKeyed tally.frameBalances := by
  rw [tally.frameBalances_eq]
  exact frameKeyed_frameTable tally.contributions

end Tally

/-- What has happened to the validators store. -/
structure History where
  /-- What completed updates have stored, the latest first. -/
  published : List ValidatorsStorageService := []
  /-- What the stored table was summed from, when a job has stored one. -/
  ledger : Option (List Contribution) := none
  /-- How many full updates have run to their end. -/
  completedUpdates : ℕ := 0

/-- The stores, the cache file and the history. -/
structure Memory where
  stores : Stores
  cacheFile : Option (List Char) := none
  history : History := {}

namespace Memory

def setValidators (memory : Memory) (validators : ValidatorsStorageService) : Memory :=
  { memory with stores := { memory.stores with validators } }

def setQueueInfo (memory : Memory) (queueInfo : QueueInfoStorageService) : Memory :=
  { memory with stores := { memory.stores with queueInfo } }

def setRewards (memory : Memory) (rewards : RewardsStorageService) : Memory :=
  { memory with stores := { memory.stores with rewards } }

def setContractConfig (memory : Memory) (contractConfig : ContractConfigStorageService) : Memory :=
  { memory with stores := { memory.stores with contractConfig } }

end Memory

end WithdrawalsApi
