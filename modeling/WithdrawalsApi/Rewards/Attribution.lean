/-
# Reports and the events that are taken for theirs

The amounts of a report are looked up with three queries, each from the block of the
report up to the latest one, and the first log counts. A report emits
`ETHDistributed` in any case, so the balances are its own. The other two events it
emits only for an amount that is not zero: without one, the first log is that of a
later report, and its amount is taken for this one.

The projection is the least over all reports. What is taken for a report is never less
than its own, so the projection is pessimistic as long as the own figure of every report
is not below that of one that has taken nothing from another.
-/

import WithdrawalsApi.Rewards.Projection
import Mathlib.Data.List.Pairwise

namespace WithdrawalsApi

open Js

namespace RewardsService

/-- An oracle report, with the amounts of the events in its block. -/
structure OracleReport where
  blockNumber : ℕ
  timeElapsed : ℕ
  preCLBalance : ℕ
  postCLBalance : ℕ
  withdrawalsReceived : ℕ
  elRewardsReceived : ℕ
  deriving DecidableEq

deriving instance DecidableEq for TotalRewards

namespace OracleReport

variable (epochs : ℕ+) (report : OracleReport)

def frames : ℤ := report.timeElapsed / (secondsPerSlot * slotsPerEpoch * epochs)

/-- The report's own rewards on the consensus layer, for each frame. -/
def clRewards : ℤ :=
  ((report.postCLBalance : ℤ) - report.preCLBalance + report.withdrawalsReceived).tdiv
    (report.frames epochs)

/-- The report's own rewards on the execution layer, for each frame. -/
def elRewards : ℤ := (report.elRewardsReceived : ℤ).tdiv (report.frames epochs)

theorem frames_nonneg : 0 ≤ report.frames epochs :=
  Int.ediv_nonneg (Int.natCast_nonneg _) (frameSeconds_pos epochs).le

end OracleReport

/-- An event that is emitted unless its amount is zero. -/
def emitted (amount : ℕ) : Option ℕ := if amount = 0 then none else some amount

/-- The reports on chain; a frame has one report at most. -/
structure History where
  reports : List OracleReport
  ascending : reports.Pairwise fun first second => first.blockNumber < second.blockNumber

namespace History

variable (history : History)

def reportsFrom (fromBlock : ℕ) : List OracleReport :=
  history.reports.filter fun report => decide (fromBlock ≤ report.blockNumber)

/-- The answer to the query for `TokenRebased`. -/
def tokenRebasedLogs (fromBlock : ℕ) : List TokenRebasedLog :=
  (history.reportsFrom fromBlock).map fun report =>
    { blockNumber := report.blockNumber, timeElapsed := report.timeElapsed }

/-- The answers to the three queries for a report. -/
def reportLogs (fromBlock : ℕ) : ReportLogs where
  ethDistributed := (history.reportsFrom fromBlock).map fun report =>
    { preCLBalance := report.preCLBalance, postCLBalance := report.postCLBalance }
  elRewardsReceived :=
    (history.reportsFrom fromBlock).filterMap fun report => emitted report.elRewardsReceived
  withdrawalsReceived :=
    (history.reportsFrom fromBlock).filterMap fun report => emitted report.withdrawalsReceived

/-- `getMinLastTotalRewardsPerFrame`, with all queries answered from the chain. -/
def getMinLastTotalRewardsPerFrame (epochsPerFrame : Option ℕ+) (currentBlock : ℕ) :
    Outcome TotalRewards := do
  let weekAgoBlock := getHoursAgoBlock oneWeekHours currentBlock
  let framesFromLastReports ←
    getFramesFromLastReports epochsPerFrame (history.tokenRebasedLogs weekAgoBlock)
  match framesFromLastReports with
  | none => pure { clRewards := 0, elRewards := 0, allRewards := 0 }
  | some reports => do
      let rewards ← (reports.filter fun report => report.frames ≠ 0).mapM fun report =>
        getRewardsByBlockNumber report.frames (history.reportLogs report.blockNumber)
      pure (minTotalRewards rewards)

/-- The reports of the last week that span a frame. -/
def spanning (epochs : ℕ+) (currentBlock : ℕ) : List OracleReport :=
  (history.reportsFrom (getHoursAgoBlock oneWeekHours currentBlock)).filter fun report =>
    report.frames epochs ≠ 0

/-- The withdrawals that are taken for those of a report: the first from its block on. -/
def withdrawalsFrom (report : OracleReport) : ℕ :=
  getWithdrawalsReceived (history.reportLogs report.blockNumber).withdrawalsReceived

/-- The rewards that are taken for those of a report: the first from its block on. -/
def elRewardsFrom (report : OracleReport) : ℕ :=
  getElRewards (history.reportLogs report.blockNumber).elRewardsReceived

/-- The first amount that is emitted from a block on. -/
def firstEmitted (amount : OracleReport → ℕ) (fromBlock : ℕ) : ℕ :=
  ((history.reportsFrom fromBlock).filterMap fun report => emitted (amount report)).head?.getD 0

/-- The first amount that is emitted after a report, or zero. -/
def nextEmitted (amount : OracleReport → ℕ) (report : OracleReport) : ℕ :=
  history.firstEmitted amount (report.blockNumber + 1)

/-- A report keeps its own rewards on the consensus layer: it has received withdrawals, or
those that are received next do not change its rewards. -/
def KeepsClRewards (epochs : ℕ+) (report : OracleReport) : Prop :=
  report.withdrawalsReceived = 0 →
    ((report.postCLBalance : ℤ) - report.preCLBalance +
      history.nextEmitted OracleReport.withdrawalsReceived report).tdiv (report.frames epochs) =
        report.clRewards epochs

/-- A report keeps its own rewards on the execution layer: it has received some, or those
that are received next are less than one wei for each of its frames. -/
def KeepsElRewards (epochs : ℕ+) (report : OracleReport) : Prop :=
  report.elRewardsReceived = 0 →
    (history.nextEmitted OracleReport.elRewardsReceived report : ℤ) < report.frames epochs

instance (epochs : ℕ+) (report : OracleReport) : Decidable (history.KeepsClRewards epochs report) :=
  inferInstanceAs (Decidable (_ → _))

instance (epochs : ℕ+) (report : OracleReport) : Decidable (history.KeepsElRewards epochs report) :=
  inferInstanceAs (Decidable (_ → _))

/-- A projection that is at most the rewards of any report that spans a frame, on either
layer. -/
structure Pessimistic (epochs : ℕ+) (currentBlock : ℕ) (total : TotalRewards) : Prop where
  all : total.allRewards = total.clRewards + total.elRewards
  cl : ∀ report ∈ history.spanning epochs currentBlock, total.clRewards ≤ report.clRewards epochs
  el : ∀ report ∈ history.spanning epochs currentBlock, total.elRewards ≤ report.elRewards epochs

/-! ## What is taken for the amounts of a report -/

variable {history} {report : OracleReport}

/-- The reports from the block of a report on begin with that report. -/
theorem exists_reportsFrom_eq_cons (hmem : report ∈ history.reports) :
    ∃ later, history.reportsFrom report.blockNumber = report :: later ∧
      ∀ other ∈ later, other ∈ history.reports ∧ report.blockNumber < other.blockNumber := by
  obtain ⟨before, later, hreports⟩ := List.append_of_mem hmem
  have hascending := history.ascending
  rw [hreports, List.pairwise_append] at hascending
  obtain ⟨-, hfrom, hbefore⟩ := hascending
  have hskipped : before.filter (fun other =>
      decide (report.blockNumber ≤ other.blockNumber)) = [] := by
    rw [List.filter_eq_nil_iff]
    intro other hother
    have := hbefore other hother report List.mem_cons_self
    simpa using this
  have hlater := (List.pairwise_cons.mp hfrom).1
  refine ⟨later, ?_, fun other hother => ⟨?_, hlater other hother⟩⟩
  · rw [reportsFrom, hreports, List.filter_append, hskipped, List.nil_append,
      List.filter_eq_self]
    intro other hother
    rcases List.mem_cons.mp hother with rfl | hmem
    · simp
    · simpa using (hlater other hmem).le
  · rw [hreports]
    exact List.mem_append_right _ (List.mem_cons_of_mem _ hother)

/-- The balances are always those of the report. -/
theorem getEthDistributed_reportLogs (hmem : report ∈ history.reports) :
    getEthDistributed (history.reportLogs report.blockNumber).ethDistributed =
      { preCLBalance := report.preCLBalance, postCLBalance := report.postCLBalance } := by
  obtain ⟨later, hfrom, -⟩ := exists_reportsFrom_eq_cons hmem
  rw [reportLogs, hfrom]
  rfl

/-- A report's own amount is found, or when it has emitted none, the next one. -/
theorem firstEmitted_eq (amount : OracleReport → ℕ) (hmem : report ∈ history.reports) :
    history.firstEmitted amount report.blockNumber =
      if amount report = 0 then history.nextEmitted amount report else amount report := by
  obtain ⟨later, hfrom, hlater⟩ := exists_reportsFrom_eq_cons hmem
  have hnext : history.reportsFrom (report.blockNumber + 1) = later := by
    have hskips : history.reportsFrom (report.blockNumber + 1) =
        (history.reportsFrom report.blockNumber).filter fun other =>
          decide (report.blockNumber + 1 ≤ other.blockNumber) := by
      rw [reportsFrom, reportsFrom, List.filter_filter]
      refine List.filter_congr fun other _ => ?_
      rw [← Bool.decide_and]
      exact decide_eq_decide.mpr (by omega)
    rw [hskips, hfrom, List.filter_cons_of_neg (by simp), List.filter_eq_self]
    exact fun other hother => decide_eq_true (hlater other hother).2
  rw [nextEmitted, firstEmitted, firstEmitted, hnext, hfrom]
  by_cases hzero : amount report = 0 <;> simp [emitted, hzero]

/-! ## What is projected -/

variable (history) in
/-- The rewards on the consensus layer that are taken for those of a report. -/
def clRewardsFrom (epochs : ℕ+) (report : OracleReport) : ℤ :=
  ((report.postCLBalance : ℤ) - report.preCLBalance + history.withdrawalsFrom report).tdiv
    (report.frames epochs)

variable (history) in
/-- The rewards that are computed for a report. -/
def rewardsFrom (epochs : ℕ+) (report : OracleReport) : ReportRewards where
  clRewards := history.clRewardsFrom epochs report
  elRewards := (history.elRewardsFrom report : ℤ).tdiv (report.frames epochs)

variable {epochs : ℕ+} {currentBlock : ℕ}

theorem mem_reports_of_mem_spanning (h : report ∈ history.spanning epochs currentBlock) :
    report ∈ history.reports :=
  List.mem_of_mem_filter (List.mem_of_mem_filter h)

theorem frames_pos_of_mem_spanning (h : report ∈ history.spanning epochs currentBlock) :
    0 < report.frames epochs := by
  have hne := of_decide_eq_true (List.mem_filter.mp h).2
  exact lt_of_le_of_ne (report.frames_nonneg epochs) (Ne.symm hne)

/-- The rewards of a report as they are computed from the answers. -/
theorem getRewardsByBlockNumber_reportLogs (h : report ∈ history.spanning epochs currentBlock) :
    getRewardsByBlockNumber (report.frames epochs) (history.reportLogs report.blockNumber) =
      .ok (history.rewardsFrom epochs report) := by
  have hgrowth : clGrowth (history.reportLogs report.blockNumber) =
      (report.postCLBalance : ℤ) - report.preCLBalance + history.withdrawalsFrom report := by
    rw [clGrowth, getEthDistributed_reportLogs (mem_reports_of_mem_spanning h)]
    rfl
  rw [getRewardsByBlockNumber_of_ne_zero (frames_pos_of_mem_spanning h).ne', quotientRewards,
    hgrowth]
  rfl

/-- The reports that are left once those within a frame are dropped. -/
theorem filter_map_quotientReport (history : History) (epochs : ℕ+) (currentBlock : ℕ) :
    ((history.tokenRebasedLogs (getHoursAgoBlock oneWeekHours currentBlock)).map
        (quotientReport epochs)).filter (fun report => report.frames ≠ 0) =
      (history.spanning epochs currentBlock).map fun report =>
        { blockNumber := report.blockNumber, frames := report.frames epochs } := by
  rw [tokenRebasedLogs, List.map_map, List.filter_map]
  rfl

/-- What is taken for them. -/
theorem mapM_getRewardsByBlockNumber_spanning (history : History) (epochs : ℕ+)
    (currentBlock : ℕ) :
    ((history.spanning epochs currentBlock).map fun report =>
        ({ blockNumber := report.blockNumber, frames := report.frames epochs } : Report)).mapM
        (fun report => getRewardsByBlockNumber report.frames
          (history.reportLogs report.blockNumber)) =
      .ok ((history.spanning epochs currentBlock).map (history.rewardsFrom epochs)) := by
  rw [List.mapM_map]
  exact Outcome.mapM_eq_ok_map fun report hmem => getRewardsByBlockNumber_reportLogs hmem

/-- The projection returns the least of what is taken for the reports that span a
frame. -/
theorem exists_getMinLastTotalRewardsPerFrame
    (hsafe : secondsPerSlot * slotsPerEpoch * (epochs : ℕ) < maxSafeInteger) :
    ∃ total, history.getMinLastTotalRewardsPerFrame (some epochs) currentBlock = .ok total ∧
      IsMinTotal ((history.spanning epochs currentBlock).map (history.rewardsFrom epochs))
        total := by
  let weekAgoBlock := getHoursAgoBlock oneWeekHours currentBlock
  by_cases hlogs : history.reportsFrom weekAgoBlock = []
  · refine ⟨{ clRewards := 0, elRewards := 0, allRewards := 0 }, ?_, ?_⟩
    · have hnone : history.tokenRebasedLogs weekAgoBlock = [] := by
        rw [tokenRebasedLogs, hlogs]
        rfl
      rw [getMinLastTotalRewardsPerFrame]
      simp only [weekAgoBlock] at hnone
      rw [hnone]
      rfl
    · have hnone : history.spanning epochs currentBlock = [] := by
        rw [spanning, hlogs]
        rfl
      rw [hnone]
      exact isMinTotal_minTotalRewards []
  · refine ⟨_, ?_, isMinTotal_minTotalRewards _⟩
    have hreports := history.filter_map_quotientReport epochs currentBlock
    have hframes := getFramesFromLastReports_of_divides hsafe
      (mt List.map_eq_nil_iff.mp hlogs : history.tokenRebasedLogs weekAgoBlock ≠ [])
    rw [getMinLastTotalRewardsPerFrame]
    simp only [weekAgoBlock] at hframes
    rw [hframes, Outcome.ok_bind]
    dsimp only
    rw [hreports, mapM_getRewardsByBlockNumber_spanning]
    rfl

/-- A least of figures that are not less than the own ones is at most every own one exactly
when each own one is not below one that is found as it is. -/
theorem forall_le_iff_exists_kept {α : Type} {items : List α} {own found : α → ℤ} {least : ℤ}
    (hleast : items ≠ [] → IsLeast { amount | ∃ item ∈ items, found item = amount } least)
    (hle : ∀ item ∈ items, own item ≤ found item) :
    (∀ item ∈ items, least ≤ own item) ↔
      ∀ item ∈ items, ∃ kept ∈ items, found kept = own kept ∧ own kept ≤ own item := by
  constructor
  · intro hbound item hmem
    obtain ⟨⟨kept, hkept, hfound⟩, -⟩ := hleast (List.ne_nil_of_mem hmem)
    have hown : found kept = own kept :=
      le_antisymm (hfound.trans_le (hbound kept hkept)) (hle kept hkept)
    exact ⟨kept, hkept, hown, hown.symm.trans_le (hfound.trans_le (hbound item hmem))⟩
  · intro hexists item hmem
    obtain ⟨kept, hkept, hown, hitem⟩ := hexists item hmem
    have hlower := (hleast (List.ne_nil_of_mem hmem)).2 ⟨kept, hkept, rfl⟩
    exact hlower.trans (hown.trans_le hitem)

theorem withdrawalsFrom_eq (hmem : report ∈ history.reports) :
    history.withdrawalsFrom report = if report.withdrawalsReceived = 0
      then history.nextEmitted OracleReport.withdrawalsReceived report
      else report.withdrawalsReceived :=
  firstEmitted_eq OracleReport.withdrawalsReceived hmem

theorem elRewardsFrom_eq (hmem : report ∈ history.reports) :
    history.elRewardsFrom report = if report.elRewardsReceived = 0
      then history.nextEmitted OracleReport.elRewardsReceived report
      else report.elRewardsReceived :=
  firstEmitted_eq OracleReport.elRewardsReceived hmem

/-- What is taken for the rewards of a report is not less than its own. -/
theorem clRewards_le_clRewardsFrom (h : report ∈ history.spanning epochs currentBlock) :
    report.clRewards epochs ≤ history.clRewardsFrom epochs report := by
  have hframes := frames_pos_of_mem_spanning h
  rw [clRewardsFrom, OracleReport.clRewards, withdrawalsFrom_eq (mem_reports_of_mem_spanning h)]
  refine Int.tdiv_le_tdiv hframes ?_
  split <;> omega

theorem elRewards_le_elRewardsFrom (h : report ∈ history.spanning epochs currentBlock) :
    report.elRewards epochs ≤
      (history.elRewardsFrom report : ℤ).tdiv (report.frames epochs) := by
  have hframes := frames_pos_of_mem_spanning h
  rw [OracleReport.elRewards, elRewardsFrom_eq (mem_reports_of_mem_spanning h)]
  refine Int.tdiv_le_tdiv hframes ?_
  split <;> omega

/-- It is its own exactly when the report keeps it. -/
theorem clRewardsFrom_eq_iff (h : report ∈ history.spanning epochs currentBlock) :
    history.clRewardsFrom epochs report = report.clRewards epochs ↔
      history.KeepsClRewards epochs report := by
  rw [clRewardsFrom, withdrawalsFrom_eq (mem_reports_of_mem_spanning h), KeepsClRewards]
  by_cases hzero : report.withdrawalsReceived = 0
  · simp [hzero]
  · simp [hzero, OracleReport.clRewards]

theorem elRewardsFrom_eq_iff (h : report ∈ history.spanning epochs currentBlock) :
    (history.elRewardsFrom report : ℤ).tdiv (report.frames epochs) = report.elRewards epochs ↔
      history.KeepsElRewards epochs report := by
  have hframes := frames_pos_of_mem_spanning h
  rw [elRewardsFrom_eq (mem_reports_of_mem_spanning h), KeepsElRewards, OracleReport.elRewards]
  by_cases hzero : report.elRewardsReceived = 0
  · have hless (amount : ℕ) :
        (amount : ℤ).tdiv (report.frames epochs) = 0 ↔ (amount : ℤ) < report.frames epochs := by
      have hnonneg : (0 : ℤ) ≤ amount / report.frames epochs :=
        Int.ediv_nonneg (Int.natCast_nonneg _) hframes.le
      have hone : (amount : ℤ) / report.frames epochs < 1 ↔
          (amount : ℤ) < report.frames epochs := by
        rw [Int.ediv_lt_iff_lt_mul hframes, one_mul]
      rw [Int.tdiv_eq_ediv_of_nonneg (Int.natCast_nonneg _), ← hone]
      omega
    rw [if_pos hzero, hzero, Nat.cast_zero, Int.zero_tdiv, hless]
    exact ⟨fun h _ => h, fun h => h rfl⟩
  · simp [hzero]

/-- **The projection is pessimistic exactly when** no report that spans a frame has figures
below those of every report that keeps its own: on either layer. -/
theorem pessimistic_iff (history : History) {epochs : ℕ+}
    (hsafe : secondsPerSlot * slotsPerEpoch * (epochs : ℕ) < maxSafeInteger)
    (currentBlock : ℕ) :
    ∃ total, history.getMinLastTotalRewardsPerFrame (some epochs) currentBlock = .ok total ∧
      total.allRewards = total.clRewards + total.elRewards ∧
      (history.Pessimistic epochs currentBlock total ↔
        (∀ report ∈ history.spanning epochs currentBlock,
          ∃ kept ∈ history.spanning epochs currentBlock,
            history.KeepsClRewards epochs kept ∧
              kept.clRewards epochs ≤ report.clRewards epochs) ∧
        ∀ report ∈ history.spanning epochs currentBlock,
          ∃ kept ∈ history.spanning epochs currentBlock,
            history.KeepsElRewards epochs kept ∧
              kept.elRewards epochs ≤ report.elRewards epochs) := by
  obtain ⟨total, htotal, hmin⟩ := exists_getMinLastTotalRewardsPerFrame hsafe
  refine ⟨total, htotal, hmin.all, ?_⟩
  have hleast {value : ReportRewards → ℤ} {least : ℤ}
      (h : (history.spanning epochs currentBlock).map (history.rewardsFrom epochs) ≠ [] →
        IsLeast { amount | ∃ reward ∈ (history.spanning epochs currentBlock).map
          (history.rewardsFrom epochs), value reward = amount } least)
      (hne : history.spanning epochs currentBlock ≠ []) :
      IsLeast { amount | ∃ report ∈ history.spanning epochs currentBlock,
        value (history.rewardsFrom epochs report) = amount } least := by
    simpa only [List.mem_map, exists_exists_and_eq_and] using h (mt List.map_eq_nil_iff.mp hne)
  have hcl := forall_le_iff_exists_kept (hleast hmin.cl) fun _ => clRewards_le_clRewardsFrom
  have hel := forall_le_iff_exists_kept (hleast hmin.el) fun _ => elRewards_le_elRewardsFrom
  have hsplit : history.Pessimistic epochs currentBlock total ↔
      (∀ report ∈ history.spanning epochs currentBlock,
        total.clRewards ≤ report.clRewards epochs) ∧
      ∀ report ∈ history.spanning epochs currentBlock,
        total.elRewards ≤ report.elRewards epochs :=
    ⟨fun h => ⟨h.cl, h.el⟩, fun h => ⟨hmin.all, h.1, h.2⟩⟩
  rw [hsplit, hcl, hel]
  refine and_congr (forall₂_congr fun report _ => ?_) (forall₂_congr fun report _ => ?_)
  · refine exists_congr fun kept => and_congr_right fun hkept => and_congr_left' ?_
    exact clRewardsFrom_eq_iff hkept
  · refine exists_congr fun kept => and_congr_right fun hkept => and_congr_left' ?_
    exact elRewardsFrom_eq_iff hkept

/-- A report of one frame that has received nothing. -/
def nothingReceived (blockNumber : ℕ) : OracleReport where
  blockNumber
  timeElapsed := 17280
  preCLBalance := 1000
  postCLBalance := 1010
  withdrawalsReceived := 0
  elRewardsReceived := 0

/-- A report of one frame that has received withdrawals and rewards. -/
def rewardsReceived (blockNumber : ℕ) : OracleReport where
  blockNumber
  timeElapsed := 17280
  preCLBalance := 1010
  postCLBalance := 1000
  withdrawalsReceived := 30
  elRewardsReceived := 40

def nothingThenRewards : History where
  reports := [nothingReceived 21995000, rewardsReceived 21996440]
  ascending := by decide

def rewardsThenNothing : History where
  reports := [rewardsReceived 21995000, nothingReceived 21996440]
  ascending := by decide

/-- After the last report no event follows, and the projection is pessimistic. -/
theorem pessimistic_rewardsThenNothing :
    ∃ total,
      rewardsThenNothing.getMinLastTotalRewardsPerFrame (some 45) 22000000 = .ok total ∧
      rewardsThenNothing.Pessimistic 45 22000000 total := by
  obtain ⟨total, htotal, -, hiff⟩ := pessimistic_iff rewardsThenNothing
    (by decide : secondsPerSlot * slotsPerEpoch * ((45 : ℕ+) : ℕ) < maxSafeInteger) 22000000
  exact ⟨total, htotal, hiff.mpr (by decide +kernel)⟩

/-- The first report takes the rewards of the second for its own. -/
theorem not_pessimistic_nothingThenRewards :
    ¬ ∀ (history : History) (epochs : ℕ+) (currentBlock : ℕ) (total : TotalRewards),
      history.getMinLastTotalRewardsPerFrame (some epochs) currentBlock = .ok total →
      history.Pessimistic epochs currentBlock total := by
  intro h
  have htotal : nothingThenRewards.getMinLastTotalRewardsPerFrame (some 45) 22000000 =
      .ok { clRewards := 20, elRewards := 40, allRewards := 60 } := by decide +kernel
  have hpessimistic := h nothingThenRewards 45 22000000 _ htotal
  have hbound := hpessimistic.el (nothingReceived 21995000) (by decide +kernel)
  exact absurd hbound (by decide +kernel)

end History

end RewardsService

end WithdrawalsApi
