/-
# The rewards of a frame

The rewards of a frame are estimated from the reports of the last week. A report
announces itself with a `TokenRebased` event, which tells how much time it
covers; the amounts are in three other events from the block of the report on.
The projection divides them by the frames that the report spans, and takes the
least on the consensus layer and the least on the execution layer, which need not
be of the same report.

The frames are a quotient by the stored length of a frame. While that is not
stored yet the divisor is `NaN`, and `BigNumber` throws.
-/

import WithdrawalsApi.GenesisTime
import WithdrawalsApi.Storage
import Mathlib.Order.Bounds.Basic

namespace WithdrawalsApi

open Js

namespace RewardsService

/-- `ONE_WEEK_HOURS`. -/
def oneWeekHours : ℕ := 24 * 7

/-- `getHoursAgoBlock`, of a current block. -/
def getHoursAgoBlock (hours currentBlock : ℕ) : ℕ :=
  let slot := secondsPerSlot.toNat
  currentBlock - (hours * 60 * 60 + slot - 1) / slot

/-! ## The frames of a report -/

/-- A log of `TokenRebased`. -/
structure TokenRebasedLog where
  blockNumber : ℕ
  timeElapsed : ℕ

structure Report where
  blockNumber : ℕ
  frames : ℤ

/-- The seconds of a frame as a `BigNumber`: a number that is no safe integer, or
`NaN`, makes none. -/
def frameSeconds (epochsPerFrame : Option ℕ+) : Outcome ℤ :=
  match epochsPerFrame with
  | none => .error .invalidNumber
  | some epochs =>
      let seconds := secondsPerSlot * slotsPerEpoch * epochs
      if seconds < maxSafeInteger then .ok seconds else .error .overflow

/-- The report of one log. -/
def reportOf (epochsPerFrame : Option ℕ+) (log : TokenRebasedLog) : Outcome Report := do
  let seconds ← frameSeconds epochsPerFrame
  let frames ← BigNumber.div log.timeElapsed seconds
  pure { blockNumber := log.blockNumber, frames }

/-- `getFramesFromLastReports`, once the logs have arrived; no logs give `null`. -/
def getFramesFromLastReports (epochsPerFrame : Option ℕ+) (logs : List TokenRebasedLog) :
    Outcome (Option (List Report)) :=
  if logs.isEmpty then .ok none else some <$> logs.mapM (reportOf epochsPerFrame)

/-- Whether reports can be divided into frames of this length. -/
def DividesReports (epochsPerFrame : Option ℕ+) : Prop :=
  ∃ epochs ∈ epochsPerFrame, secondsPerSlot * slotsPerEpoch * (epochs : ℕ) < maxSafeInteger

/-- The report of one log, with frames of so many epochs. -/
def quotientReport (epochs : ℕ+) (log : TokenRebasedLog) : Report where
  blockNumber := log.blockNumber
  frames := log.timeElapsed / (secondsPerSlot * slotsPerEpoch * epochs)

theorem frameSeconds_pos (epochs : ℕ+) : 0 < secondsPerSlot * slotsPerEpoch * (epochs : ℕ) := by
  have hepochs : (0 : ℤ) < (epochs : ℕ) := Int.natCast_pos.mpr epochs.pos
  simp only [secondsPerSlot, slotsPerEpoch]
  omega

theorem reportOf_of_divides {epochs : ℕ+}
    (h : secondsPerSlot * slotsPerEpoch * (epochs : ℕ) < maxSafeInteger) (log : TokenRebasedLog) :
    reportOf (some epochs) log = .ok (quotientReport epochs log) := by
  have hseconds : frameSeconds (some epochs) =
      .ok (secondsPerSlot * slotsPerEpoch * (epochs : ℕ)) := by
    simp only [frameSeconds]
    rw [if_pos h]
  have hframes := BigNumber.div_of_pos (Int.natCast_nonneg log.timeElapsed)
    (frameSeconds_pos epochs)
  simp only [reportOf, hseconds, Outcome.ok_bind, hframes]
  rfl

theorem reportOf_of_not_divides {epochsPerFrame : Option ℕ+} (h : ¬ DividesReports epochsPerFrame)
    (log : TokenRebasedLog) : ∃ fault, reportOf epochsPerFrame log = .error fault := by
  cases epochsPerFrame with
  | none => exact ⟨.invalidNumber, rfl⟩
  | some epochs =>
      refine ⟨.overflow, ?_⟩
      have hoverflow : ¬ secondsPerSlot * slotsPerEpoch * (epochs : ℕ) < maxSafeInteger :=
        fun hlt => h ⟨epochs, rfl, hlt⟩
      simp only [reportOf, frameSeconds]
      rw [if_neg hoverflow]
      rfl

/-- The reports of logs that there are. -/
theorem getFramesFromLastReports_of_divides {epochs : ℕ+}
    (h : secondsPerSlot * slotsPerEpoch * (epochs : ℕ) < maxSafeInteger)
    {logs : List TokenRebasedLog} (hlogs : logs ≠ []) :
    getFramesFromLastReports (some epochs) logs =
      .ok (some (logs.map (quotientReport epochs))) := by
  cases logs with
  | nil => exact absurd rfl hlogs
  | cons log logs =>
      have hreports : (log :: logs).mapM (reportOf (some epochs)) =
          .ok ((log :: logs).map (quotientReport epochs)) :=
        Outcome.mapM_eq_ok_map fun other _ => reportOf_of_divides h other
      rw [getFramesFromLastReports, hreports]
      rfl

/-- Without a length of a frame the first log throws. -/
theorem getFramesFromLastReports_of_not_divides {epochsPerFrame : Option ℕ+}
    (h : ¬ DividesReports epochsPerFrame) {logs : List TokenRebasedLog} (hlogs : logs ≠ []) :
    ∃ fault, getFramesFromLastReports epochsPerFrame logs = .error fault := by
  cases logs with
  | nil => exact absurd rfl hlogs
  | cons log logs =>
      obtain ⟨fault, hfault⟩ := reportOf_of_not_divides h log
      refine ⟨fault, ?_⟩
      rw [getFramesFromLastReports, List.mapM_cons, hfault]
      rfl

/-! ## The rewards of a report -/

/-- The balances that a log of `ETHDistributed` tells. -/
structure EthDistributedLog where
  preCLBalance : ℕ
  postCLBalance : ℕ

/-- What the three queries from the block of a report on have answered; of the other two
events only the amounts are read. -/
structure ReportLogs where
  ethDistributed : List EthDistributedLog
  elRewardsReceived : List ℕ
  withdrawalsReceived : List ℕ

/-- Without a log both balances are zero. -/
def getEthDistributed (logs : List EthDistributedLog) : EthDistributedLog :=
  logs.head?.getD { preCLBalance := 0, postCLBalance := 0 }

def getElRewards (logs : List ℕ) : ℕ := logs.head?.getD 0

def getWithdrawalsReceived (logs : List ℕ) : ℕ := logs.head?.getD 0

structure ReportRewards where
  clRewards : ℤ
  elRewards : ℤ

/-- The growth of the validators' balances, counting what they have paid out. -/
def clGrowth (logs : ReportLogs) : ℤ :=
  let ethDistributed := getEthDistributed logs.ethDistributed
  let clValidatorsBalanceDiff : ℤ := ethDistributed.postCLBalance - ethDistributed.preCLBalance
  clValidatorsBalanceDiff + getWithdrawalsReceived logs.withdrawalsReceived

def getRewardsByBlockNumber (framesPassed : ℤ) (logs : ReportLogs) : Outcome ReportRewards := do
  let clRewards ← BigNumber.div (clGrowth logs) framesPassed
  let elRewards ← BigNumber.div (getElRewards logs.elRewardsReceived) framesPassed
  pure { clRewards, elRewards }

/-- The rewards of a report that spans a frame. -/
def quotientRewards (framesPassed : ℤ) (logs : ReportLogs) : ReportRewards where
  clRewards := (clGrowth logs).tdiv framesPassed
  elRewards := (getElRewards logs.elRewardsReceived : ℤ).tdiv framesPassed

theorem getRewardsByBlockNumber_of_ne_zero {framesPassed : ℤ} (h : framesPassed ≠ 0)
    (logs : ReportLogs) :
    getRewardsByBlockNumber framesPassed logs = .ok (quotientRewards framesPassed logs) := by
  simp only [getRewardsByBlockNumber, BigNumber.div, if_neg h, Outcome.ok_bind]
  rfl

/-! ## The least rewards -/

/-- What `getMinLastTotalRewardsPerFrame` returns. -/
structure TotalRewards where
  clRewards : ℤ
  elRewards : ℤ
  allRewards : ℤ

/-- One round of the search for a minimum. -/
def lesser (least next : ℤ) : ℤ := if next < least then next else least

/-- The minimum of what comes first and of the rest. -/
def minimum (first : ℤ) (rest : List ℤ) : ℤ := rest.foldl lesser first

/-- Without a report that spans a frame the rewards are zero. -/
def minTotalRewards : List ReportRewards → TotalRewards
  | [] => { clRewards := 0, elRewards := 0, allRewards := 0 }
  | first :: rest =>
      let rewards := first :: rest
      let minCL := minimum first.clRewards (rewards.map ReportRewards.clRewards)
      let minEL := minimum first.elRewards (rewards.map ReportRewards.elRewards)
      { clRewards := minCL, elRewards := minEL, allRewards := minEL + minCL }

theorem lesser_eq_min (least next : ℤ) : lesser least next = min least next := by
  unfold lesser
  split_ifs with h
  · exact (min_eq_right h.le).symm
  · exact (min_eq_left (not_lt.mp h)).symm

/-- The search finds the least of the amounts. -/
theorem isLeast_minimum (first : ℤ) (rest : List ℤ) :
    IsLeast { amount | amount ∈ first :: rest } (minimum first rest) := by
  induction rest generalizing first with
  | nil => simp [minimum, IsLeast, lowerBounds]
  | cons next rest ih =>
      obtain ⟨hmem, hle⟩ := ih (lesser first next)
      rw [lesser_eq_min] at hmem hle
      rw [minimum, List.foldl_cons, lesser_eq_min]
      constructor
      · rcases List.mem_cons.mp hmem with heq | hrest
        · rcases min_choice first next with hfirst | hnext
          · exact List.mem_cons.mpr (Or.inl (heq.trans hfirst))
          · exact List.mem_cons_of_mem _ (List.mem_cons.mpr (Or.inl (heq.trans hnext)))
        · exact List.mem_cons_of_mem _ (List.mem_cons_of_mem _ hrest)
      · intro amount hamount
        have hmin := hle (List.mem_cons_self : min first next ∈ min first next :: rest)
        rcases List.mem_cons.mp hamount with rfl | hamount
        · exact hmin.trans (min_le_left amount next)
        · rcases List.mem_cons.mp hamount with rfl | hrest
          · exact hmin.trans (min_le_right first amount)
          · exact hle (List.mem_cons_of_mem _ hrest)

/-- The total is that of the least rewards on either layer, or zero when there are
none. -/
structure IsMinTotal (rewards : List ReportRewards) (total : TotalRewards) : Prop where
  all : total.allRewards = total.clRewards + total.elRewards
  none : rewards = [] → total.clRewards = 0 ∧ total.elRewards = 0
  cl : rewards ≠ [] → IsLeast { amount | ∃ reward ∈ rewards, reward.clRewards = amount }
    total.clRewards
  el : rewards ≠ [] → IsLeast { amount | ∃ reward ∈ rewards, reward.elRewards = amount }
    total.elRewards

/-- The minimum over a list that is searched from its first element on. -/
theorem isLeast_minimum_map (value : ReportRewards → ℤ) (first : ReportRewards)
    (rest : List ReportRewards) :
    IsLeast { amount | ∃ reward ∈ first :: rest, value reward = amount }
      (minimum (value first) ((first :: rest).map value)) := by
  have hleast := isLeast_minimum (value first) ((first :: rest).map value)
  have hset : { amount | amount ∈ value first :: (first :: rest).map value } =
      { amount | ∃ reward ∈ first :: rest, value reward = amount } := by
    ext amount
    have hswap : amount = value first ↔ value first = amount := eq_comm
    simp [hswap]
  rw [hset] at hleast
  exact hleast

theorem isMinTotal_minTotalRewards (rewards : List ReportRewards) :
    IsMinTotal rewards (minTotalRewards rewards) := by
  cases rewards with
  | nil =>
      exact ⟨rfl, fun _ => ⟨rfl, rfl⟩, fun h => absurd rfl h, fun h => absurd rfl h⟩
  | cons first rest =>
      constructor
      case all => exact add_comm _ _
      case none => exact fun h => absurd h (List.cons_ne_nil first rest)
      case cl => exact fun _ => isLeast_minimum_map ReportRewards.clRewards first rest
      case el => exact fun _ => isLeast_minimum_map ReportRewards.elRewards first rest

end RewardsService

end WithdrawalsApi
