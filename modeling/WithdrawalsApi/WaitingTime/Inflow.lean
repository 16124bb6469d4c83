/-
# What an estimate promises

A request that the buffer and the vaults do not cover waits for an inflow. Three
inflows are projected, and each of them covers a deficit by some reports and not
by earlier ones: the sets of these reports are stated here without the
arithmetic that finds their first elements. Rewards accrue per epoch. The known
withdrawals of validators are released frame by frame. Exits that are requested
from now on release a fixed amount for every VEBO frame.

The code computes the first report of each set and returns the least of the
three (`isLeast_calculateWithdrawalFrame`). What follows about estimates is then
a matter of comparing sets of reports.
-/

import WithdrawalsApi.WaitingTime.Frame
import WithdrawalsApi.Math.Coverage
import Mathlib.Tactic.Positivity
import Mathlib.Tactic.SplitIfs

namespace WithdrawalsApi

open Js Math

/-- The buffer, alone or with the vaults, exceeds what the queue asks for. -/
def CalculateWaitingTimeV2Args.Covered (args : CalculateWaitingTimeV2Args) : Prop :=
  args.unfinalized < args.buffer ∨ args.unfinalized < args.buffer + args.vaultsBalance

instance (args : CalculateWaitingTimeV2Args) : Decidable args.Covered :=
  inferInstanceAs (Decidable (_ ∨ _))

/-- What the buffer and the vaults leave open. -/
def CalculateWaitingTimeV2Args.deficit (args : CalculateWaitingTimeV2Args) : ℤ :=
  args.unfinalized - (args.buffer + args.vaultsBalance)

theorem CalculateWaitingTimeV2Args.deficit_nonneg {args : CalculateWaitingTimeV2Args}
    (h : ¬ args.Covered) : 0 ≤ args.deficit := by
  simp only [Covered, not_or, not_lt] at h
  exact sub_nonneg.mpr h.2

/-! ## The loop over the table and the reduction -/

/-- One round of the loop, with the rewards it charges for. -/
theorem validatorBalancesLoop_number {key : PropertyKey} {frame : ℤ}
    (h : key.number? = some frame) (rate balance amount lastFrame : ℤ)
    (rest : List (PropertyKey × ℤ)) :
    validatorBalancesLoop rate ((key, balance) :: rest) amount lastFrame =
      if amount - balance - accrued rate lastFrame frame ≤ 0
      then some <$> BigNumber.toNumber frame
      else validatorBalancesLoop rate rest (amount - balance - accrued rate lastFrame frame)
        (max lastFrame frame) := by
  have hcharged :
      (if 0 ≤ frame - lastFrame then
        (amount - balance - (frame - lastFrame) * rate, frame)
      else (amount - balance, lastFrame)) =
      (amount - balance - accrued rate lastFrame frame, max lastFrame frame) := by
    simp only [accrued, zsmul_eq_mul, Int.cast_id]
    split
    · rw [max_eq_right (by omega), max_eq_right (by omega)]
    · rw [max_eq_left (by omega), max_eq_left (by omega)]
      simp
  simp only [validatorBalancesLoop, frameOfKey, h, Outcome.ok_bind, hcharged]

/-- A name that is no number makes the loop throw. -/
theorem validatorBalancesLoop_name {key : PropertyKey} (h : key.number? = none)
    (rate balance amount lastFrame : ℤ) (rest : List (PropertyKey × ℤ)) :
    validatorBalancesLoop rate ((key, balance) :: rest) amount lastFrame =
      .error .invalidNumber := by
  simp only [validatorBalancesLoop, frameOfKey, h, Outcome.error_bind]

/-- The loop consumes the table as the scan does. The induction is on what is
left of the table. -/
theorem validatorBalancesLoop_eq_ok {rate : ℤ} {entries : List (PropertyKey × ℤ)}
    {amount lastFrame : ℤ} {candidate : Option ℤ}
    (h : validatorBalancesLoop rate entries amount lastFrame = .ok candidate) :
    candidate = firstCovering rate (Record.integerRows entries) amount lastFrame := by
  induction entries generalizing amount lastFrame with
  | nil =>
      simp only [validatorBalancesLoop, Except.ok.injEq] at h
      exact h.symm
  | cons entry rest ih =>
      obtain ⟨key, balance⟩ := entry
      cases hkey : key.number? with
      | none =>
          rw [validatorBalancesLoop_name hkey] at h
          cases h
      | some frame =>
          rw [validatorBalancesLoop_number hkey] at h
          simp only [Record.integerRows_cons hkey, firstCovering]
          split at h
          case isTrue hcovered =>
            rw [if_pos hcovered]
            obtain ⟨number, hnumber, rfl⟩ := Outcome.map_eq_ok.mp h
            rw [(BigNumber.toNumber_eq_ok.mp hnumber).2]
          case isFalse hopen =>
            rw [if_neg hopen]
            exact ih h

/-- The reduction returns a candidate of least frame. -/
theorem reduceMinFrame_eq_ok {candidates : List CalculateWaitingTimeV2Result}
    {result : CalculateWaitingTimeV2Result} (h : reduceMinFrame candidates = .ok result) :
    result ∈ candidates ∧ ∀ other ∈ candidates, result.frame ≤ other.frame := by
  cases candidates with
  | nil => cases h
  | cons first rest =>
      simp only [reduceMinFrame, Except.ok.injEq] at h
      subst h
      exact foldl_keep_smaller_spec CalculateWaitingTimeV2Result.frame rest first

/-- A candidate that is tested for truth is picked of a set that is discarded when it
starts at zero. -/
theorem picks_truthyFrame {candidate : Option ℤ} {reached : Set ℤ}
    (hpicks : Picks candidate reached) : Picks (truthyFrame candidate) (discardLeast 0 reached) :=
  hpicks.discard 0

namespace Readings

variable (r : Readings) (now : ℤ)

/-! ## The inflows -/

def rewardsPerEpoch : ℤ := r.rewardsAvailableForWithdrawals / r.time.epochsPerFrame

/-- What exits and rewards release in one VEBO frame. -/
def totalEthPerVEBOFrame : ℤ :=
  r.effectiveExitEthPerVEBOFrame + r.rewardsPerEpoch * r.epochsPerFrameVEBO

/-- The reports by which rewards alone have covered a deficit. -/
def rewardsReach (deficit : ℤ) : Set ℤ :=
  { frame | deficit <
      (r.time.referenceEpoch frame - r.time.getCurrentEpoch now) * r.rewardsPerEpoch }

/-- The reports by which the known withdrawals, taken in the order of the
table, and the rewards in between have covered a deficit. -/
def tableReach (deficit : ℤ) : Set ℤ :=
  stopped r.rewardsAvailableForWithdrawals r.frameBalances.rows deficit (r.gapAdjustedFrame now)

/-- The reports by which the exits of some number of VEBO frames have covered a
deficit and have been swept. -/
def exitReach (deficit latestEpoch : ℤ) : Set ℤ :=
  { frame | ∃ veboFrames : ℤ, deficit < veboFrames * r.totalEthPerVEBOFrame ∧
      latestEpoch + veboFrames * r.epochsPerFrameVEBO + r.sweepMeanEpochs <
        r.time.referenceEpoch frame }

/-- The reports by which one of the inflows has covered a deficit. A projection
by rewards or by the table that ends at frame zero is taken for none. -/
def projectedReach (deficit latestEpoch : ℤ) : Set ℤ :=
  { frame | frame ∈ discardLeast 0 (r.tableReach now deficit) ∨
      frame ∈ discardLeast 0 (r.rewardsReach now deficit) ∨
      frame ∈ r.exitReach deficit latestEpoch }

/-! ## Signs -/

theorem rewardsAvailableForWithdrawals_nonneg : 0 ≤ r.rewardsAvailableForWithdrawals := by
  simp only [rewardsAvailableForWithdrawals]
  split <;> omega

theorem rewardsPerEpoch_nonneg : 0 ≤ r.rewardsPerEpoch :=
  Int.ediv_nonneg r.rewardsAvailableForWithdrawals_nonneg r.time.epochsPerFrame_pos.le

theorem effectiveExitEthPerVEBOFrame_nonneg : 0 ≤ r.effectiveExitEthPerVEBOFrame := by
  have hchurn : 0 ≤ minActivationBalance * r.churnLimit * r.epochsPerFrameVEBO := by
    simp only [minActivationBalance]
    positivity
  have hcap : (0 : ℤ) ≤ r.maxBalanceExitRequestedPerReportInEth.eth * 10 ^ 18 := by positivity
  simp only [effectiveExitEthPerVEBOFrame]
  split_ifs
  · exact hchurn
  · exact hcap

theorem totalEthPerVEBOFrame_nonneg : 0 ≤ r.totalEthPerVEBOFrame :=
  add_nonneg r.effectiveExitEthPerVEBOFrame_nonneg
    (mul_nonneg r.rewardsPerEpoch_nonneg (by positivity))

/-! ## Smaller deficits are covered earlier -/

theorem rewardsReach_antitone {small large : ℤ} (h : small ≤ large) :
    r.rewardsReach now large ⊆ r.rewardsReach now small := fun _ hlarge => h.trans_lt hlarge

theorem exitReach_antitone {small large earlier later : ℤ} (hdeficit : small ≤ large)
    (hepoch : earlier ≤ later) : r.exitReach large later ⊆ r.exitReach small earlier := by
  rintro frame ⟨veboFrames, hlarge, hlater⟩
  exact ⟨veboFrames, hdeficit.trans_lt hlarge, by omega⟩

/-- Where the table is listed in ascending order, a smaller deficit is covered by every
report that covers a larger one. -/
theorem tableReach_antitone (hascending : r.frameBalances.ListedAscending) {small large : ℤ}
    (h : small ≤ large) : r.tableReach now large ⊆ r.tableReach now small := by
  simp only [tableReach, stopped_eq_covers _ hascending]
  exact covers_antitone h

/-- Rewards cover nothing by a report that is already over. -/
theorem currentFrame_lt_of_mem_rewardsReach {deficit frame : ℤ} (hdeficit : 0 ≤ deficit)
    (h : frame ∈ r.rewardsReach now deficit) : r.currentFrame now < frame := by
  have hproduct := hdeficit.trans_lt h
  have hepoch := pos_of_mul_pos_left hproduct r.rewardsPerEpoch_nonneg
  exact r.time.getFrameOfEpoch_lt_iff.mpr (by omega)

/-- Exits cover nothing by a report at or before the latest exit epoch. -/
theorem latestEpoch_lt_of_mem_exitReach {deficit latestEpoch frame : ℤ} (hdeficit : 0 ≤ deficit)
    (h : frame ∈ r.exitReach deficit latestEpoch) : latestEpoch < r.time.referenceEpoch frame := by
  obtain ⟨veboFrames, hcovered, hepoch⟩ := h
  have hframes := pos_of_mul_pos_left (hdeficit.trans_lt hcovered)
    r.totalEthPerVEBOFrame_nonneg
  have : 0 < veboFrames * r.epochsPerFrameVEBO := by positivity
  omega

/-- A projection of a deficit by rewards or by the table ends at frame zero. -/
def EndsAtFrameZero (deficit : ℤ) : Prop :=
  IsLeast (r.tableReach now deficit) 0 ∨ IsLeast (r.rewardsReach now deficit) 0

/-- Once the frames are counted from zero on, no projection ends at frame zero,
unless the table has kept it. -/
theorem not_endsAtFrameZero {deficit : ℤ} (hdeficit : 0 ≤ deficit)
    (hframe : 0 ≤ r.currentFrame now) (hkeys : ∀ row ∈ r.frameBalances.rows, 0 < row.1) :
    ¬ r.EndsAtFrameZero now deficit := by
  rintro (htable | hrewards)
  · obtain ⟨row, hrow, hle⟩ := exists_release_le_of_mem_stopped htable.1
    exact absurd (hkeys row hrow) hle.not_gt
  · exact absurd (r.currentFrame_lt_of_mem_rewardsReach now hdeficit hrewards.1) hframe.not_gt

/-- A smaller deficit with an earlier exit epoch is covered by every report that
covers a larger one with a later epoch. -/
theorem projectedReach_antitone {small large earlier later : ℤ}
    (hascending : r.frameBalances.ListedAscending) (hzero : ¬ r.EndsAtFrameZero now small)
    (hdeficit : small ≤ large) (hepoch : earlier ≤ later) :
    r.projectedReach now large later ⊆ r.projectedReach now small earlier := by
  obtain ⟨htable, hrewards⟩ := not_or.mp hzero
  rintro frame (hreach | hreach | hreach)
  · refine Or.inl ?_
    rw [discardLeast_eq_self htable]
    exact r.tableReach_antitone now hascending hdeficit (discardLeast_subset _ _ hreach)
  · refine Or.inr (Or.inl ?_)
    rw [discardLeast_eq_self hrewards]
    exact r.rewardsReach_antitone now hdeficit (discardLeast_subset _ _ hreach)
  · exact Or.inr (Or.inr (r.exitReach_antitone hdeficit hepoch hreach))

/-- With a table of frames to come and no exit in the past, nothing is covered by
a report that is already over. -/
theorem currentFrame_lt_of_mem_projectedReach {deficit latestEpoch frame : ℤ}
    (hdeficit : 0 ≤ deficit) (hkeys : ∀ row ∈ r.frameBalances.rows, r.currentFrame now < row.1)
    (hepoch : r.time.getCurrentEpoch now ≤ latestEpoch)
    (h : frame ∈ r.projectedReach now deficit latestEpoch) : r.currentFrame now < frame := by
  rcases h with htable | hrewards | hexits
  · obtain ⟨row, hrow, hle⟩ :=
      exists_release_le_of_mem_stopped (discardLeast_subset _ _ htable)
    exact (hkeys row hrow).trans_le hle
  · exact r.currentFrame_lt_of_mem_rewardsReach now hdeficit (discardLeast_subset _ _ hrewards)
  · have := r.latestEpoch_lt_of_mem_exitReach hdeficit hexits
    exact r.time.getFrameOfEpoch_lt_iff.mpr (by omega)

/-! ## The code finds the first reports -/

/-- Floor division finds the first multiple beyond an amount. -/
private theorem lt_mul_iff_div_lt {amount rate n : ℤ} (hrate : 0 < rate) :
    amount < n * rate ↔ amount / rate < n :=
  (Int.ediv_lt_iff_lt_mul hrate).symm

/-- The floor of the epochs a deficit takes, moved on to the next report, finds the
first report whose reference epoch the rewards reach: a report is late enough
exactly when its reference epoch is later than that floor. -/
theorem isLeast_reportCovering (time : GenesisTimeService) {rate : ℤ} (hrate : 0 < rate)
    (deficit epoch : ℤ) :
    IsLeast { frame | deficit < (time.referenceEpoch frame - epoch) * rate }
      (time.getFrameOfEpoch (epoch + deficit / rate) + 1) := by
  have hreach : { frame | deficit < (time.referenceEpoch frame - epoch) * rate } =
      { frame | time.getFrameOfEpoch (epoch + deficit / rate) + 1 ≤ frame } := by
    ext frame
    change deficit < _ * _ ↔ _ < frame
    rw [lt_mul_iff_div_lt hrate, time.getFrameOfEpoch_lt_iff]
    constructor <;> intro h <;> omega
  rw [hreach]
  exact isLeast_Ici

/-- The rewards case in terms of the rewards of an epoch. -/
theorem calculateFrameByRewardsOnly_eq (deficit : ℤ) :
    r.calculateFrameByRewardsOnly now deficit r.rewardsAvailableForWithdrawals =
      if r.rewardsAvailableForWithdrawals = 0 then .ok none
      else (do
        let onlyRewardPotentialEpoch ← BigNumber.div deficit r.rewardsPerEpoch
        let epochs ← BigNumber.toNumber onlyRewardPotentialEpoch
        pure (some (r.time.getFrameOfEpoch (r.time.getCurrentEpoch now + epochs) + 1))) := by
  rw [calculateFrameByRewardsOnly, BigNumber.div_of_pos r.rewardsAvailableForWithdrawals_nonneg
    r.time.epochsPerFrame_pos, Outcome.ok_bind]
  rfl

theorem picks_calculateFrameByRewardsOnly {deficit : ℤ} (hdeficit : 0 ≤ deficit)
    {candidate : Option ℤ}
    (h : r.calculateFrameByRewardsOnly now deficit r.rewardsAvailableForWithdrawals =
      .ok candidate) :
    Picks candidate (r.rewardsReach now deficit) := by
  rw [calculateFrameByRewardsOnly_eq] at h
  split at h
  case isTrue hzero =>
    obtain rfl : none = candidate := by simpa using h
    have hrate : r.rewardsPerEpoch = 0 := by simp [rewardsPerEpoch, hzero]
    simp [rewardsReach, hrate, hdeficit.not_gt]
  case isFalse =>
    simp only [Outcome.bind_eq_ok, BigNumber.div_eq_ok, BigNumber.toNumber_eq_ok,
      Outcome.pure_eq_ok] at h
    obtain ⟨_, ⟨hne, rfl⟩, _, ⟨-, rfl⟩, rfl⟩ := h
    have hrate : 0 < r.rewardsPerEpoch := lt_of_le_of_ne r.rewardsPerEpoch_nonneg hne.symm
    rw [Int.tdiv_eq_ediv_of_nonneg hdeficit]
    exact isLeast_reportCovering r.time hrate deficit (r.time.getCurrentEpoch now)

theorem picks_calculateFrameByValidatorBalances {deficit : ℤ} {candidate : Option ℤ}
    (h : calculateFrameByValidatorBalances deficit r.frameBalances (r.gapAdjustedFrame now)
      r.rewardsAvailableForWithdrawals = .ok candidate) :
    Picks candidate (r.tableReach now deficit) := by
  rw [validatorBalancesLoop_eq_ok h]
  exact picks_stopped _ _ _ _

/-- The exit case in terms of what a VEBO frame releases. -/
theorem calculateFrameExitValidatorsCaseWithVEBO_eq (deficit latestEpoch : ℤ) :
    r.calculateFrameExitValidatorsCaseWithVEBO deficit latestEpoch
        r.rewardsAvailableForWithdrawals =
      if r.totalEthPerVEBOFrame = 0 then .ok none
      else (do
        let fullVEBOFrames ← BigNumber.div deficit r.totalEthPerVEBOFrame
        let potentialExitEpoch ← BigNumber.toNumber (latestEpoch +
          (fullVEBOFrames + 1) * r.epochsPerFrameVEBO + r.sweepMeanEpochs)
        pure (some (r.time.getFrameOfEpoch potentialExitEpoch + 1))) := by
  rw [calculateFrameExitValidatorsCaseWithVEBO,
    BigNumber.div_of_pos r.rewardsAvailableForWithdrawals_nonneg r.time.epochsPerFrame_pos,
    Outcome.ok_bind]
  rfl

/-- The VEBO frames that a deficit takes, with the sweep after them and moved on to the next
report, find the first report that the exits reach. -/
theorem isLeast_exitReach (htotal : 0 < r.totalEthPerVEBOFrame) (deficit latestEpoch : ℤ) :
    IsLeast (r.exitReach deficit latestEpoch) (r.time.getFrameOfEpoch (latestEpoch +
      (deficit / r.totalEthPerVEBOFrame + 1) * r.epochsPerFrameVEBO + r.sweepMeanEpochs) + 1) := by
  have hreach : r.exitReach deficit latestEpoch =
      { frame | r.time.getFrameOfEpoch (latestEpoch +
        (deficit / r.totalEthPerVEBOFrame + 1) * r.epochsPerFrameVEBO + r.sweepMeanEpochs) +
          1 ≤ frame } := by
    ext frame
    change (∃ veboFrames : ℤ, _) ↔ _ < frame
    rw [r.time.getFrameOfEpoch_lt_iff]
    constructor
    · rintro ⟨veboFrames, hcovered, hepoch⟩
      rw [lt_mul_iff_div_lt htotal] at hcovered
      have hfewer : (deficit / r.totalEthPerVEBOFrame + 1) * r.epochsPerFrameVEBO ≤
          veboFrames * r.epochsPerFrameVEBO :=
        mul_le_mul_of_nonneg_right (by omega) (by positivity)
      omega
    · intro hepoch
      exact ⟨_, (lt_mul_iff_div_lt htotal).mpr (lt_add_one _), hepoch⟩
  rw [hreach]
  exact isLeast_Ici

/-- Where a VEBO frame releases nothing, exits cover nothing. -/
theorem exitReach_eq_empty (htotal : r.totalEthPerVEBOFrame = 0) {deficit : ℤ}
    (hdeficit : 0 ≤ deficit) (latestEpoch : ℤ) : r.exitReach deficit latestEpoch = ∅ := by
  simp [exitReach, htotal, hdeficit.not_gt]

theorem picks_calculateFrameExitValidatorsCaseWithVEBO {deficit latestEpoch : ℤ}
    (hdeficit : 0 ≤ deficit) {candidate : Option ℤ}
    (h : r.calculateFrameExitValidatorsCaseWithVEBO deficit latestEpoch
      r.rewardsAvailableForWithdrawals = .ok candidate) :
    Picks candidate (r.exitReach deficit latestEpoch) := by
  rw [calculateFrameExitValidatorsCaseWithVEBO_eq] at h
  split at h
  case isTrue hzero =>
    obtain rfl : none = candidate := by simpa using h
    exact r.exitReach_eq_empty hzero hdeficit latestEpoch
  case isFalse hne =>
    simp only [Outcome.bind_eq_ok, BigNumber.div_eq_ok, BigNumber.toNumber_eq_ok,
      Outcome.pure_eq_ok] at h
    obtain ⟨_, ⟨-, rfl⟩, _, ⟨-, rfl⟩, rfl⟩ := h
    have htotal : 0 < r.totalEthPerVEBOFrame :=
      lt_of_le_of_ne r.totalEthPerVEBOFrame_nonneg (Ne.symm hne)
    rw [Int.tdiv_eq_ediv_of_nonneg hdeficit]
    exact r.isLeast_exitReach htotal deficit latestEpoch

/-- A report is the first that any inflow reaches exactly when it is the least of the
reports that the inflows offer. -/
theorem isLeast_projectedReach_iff {deficit latestEpoch : ℤ} {table rewards exits : Option ℤ}
    (htable : Picks table (discardLeast 0 (r.tableReach now deficit)))
    (hrewards : Picks rewards (discardLeast 0 (r.rewardsReach now deficit)))
    (hexits : Picks exits (r.exitReach deficit latestEpoch)) {frame : ℤ} :
    IsLeast (r.projectedReach now deficit latestEpoch) frame ↔
      (table = some frame ∨ rewards = some frame ∨ exits = some frame) ∧
        ∀ other, table = some other ∨ rewards = some other ∨ exits = some other →
          frame ≤ other := by
  have hpicks : ∀ source ∈
      [(table, discardLeast 0 (r.tableReach now deficit)),
        (rewards, discardLeast 0 (r.rewardsReach now deficit)),
        (exits, r.exitReach deficit latestEpoch)], Picks source.1 source.2 := by
    simp only [List.forall_mem_cons]
    exact ⟨htable, hrewards, hexits, by simp⟩
  have hiff : IsLeast _ frame ↔ _ := isLeast_iUnion_iff_of_picks hpicks
  simpa [projectedReach, List.mem_filterMap] using hiff

/-- **The least of the projections is the first report that any inflow reaches.** -/
theorem isLeast_projectWithdrawalFrame {deficit latestEpoch : ℤ} (hdeficit : 0 ≤ deficit)
    {result : CalculateWaitingTimeV2Result}
    (h : r.projectWithdrawalFrame now deficit latestEpoch = .ok result) :
    IsLeast (r.projectedReach now deficit latestEpoch) result.frame := by
  simp only [projectWithdrawalFrame, Outcome.bind_eq_ok] at h
  obtain ⟨rewards, hrewards, table, htable, exits, hexits, hreduce⟩ := h
  obtain ⟨hmem, hle⟩ := reduceMinFrame_eq_ok hreduce
  have hoffered {frame : ℤ} :
      (∃ entry ∈ applicableCases table rewards exits, entry.frame = frame) ↔
        truthyFrame table = some frame ∨ truthyFrame rewards = some frame ∨
          exits = some frame := by
    unfold applicableCases
    cases truthyFrame table <;> cases truthyFrame rewards <;> cases exits <;> simp
  rw [r.isLeast_projectedReach_iff now
    (picks_truthyFrame (r.picks_calculateFrameByValidatorBalances now htable))
    (picks_truthyFrame (r.picks_calculateFrameByRewardsOnly now hdeficit hrewards))
    (r.picks_calculateFrameExitValidatorsCaseWithVEBO hdeficit hexits)]
  refine ⟨hoffered.mp ⟨result, hmem, rfl⟩, fun other hother => ?_⟩
  obtain ⟨entry, hentry, rfl⟩ := hoffered.mpr hother
  exact hle entry hentry

/-! ## The whole estimate -/

/-- Outside bunker mode there is no frame of it. -/
theorem truthyFrame_getFrameIsBunker (hbunker : r.bunkerModeActive = false) :
    truthyFrame (r.getFrameIsBunker now) = none := by
  simp [getFrameIsBunker, hbunker, truthyFrame]

/-- In bunker mode the estimate is a fixed number of frames ahead. -/
theorem calculateWithdrawalFrame_of_bunker {args : CalculateWaitingTimeV2Args} {frame : ℤ}
    (hbunker : truthyFrame (r.getFrameIsBunker now) = some frame) :
    r.calculateWithdrawalFrame now args = .ok ⟨frame, .bunker⟩ := by
  simp [calculateWithdrawalFrame, hbunker]

theorem frame_of_bunker {frame : ℤ} (hbunker : truthyFrame (r.getFrameIsBunker now) = some frame) :
    frame = r.currentFrame now + withdrawalBunkerDelayFrames := by
  unfold getFrameIsBunker at hbunker
  split at hbunker
  · simp only [truthyFrame, Option.filter_eq_some_iff, Option.some.injEq] at hbunker
    exact hbunker.1.symm
  · cases hbunker

/-- What is covered goes to the next report, or to the one after it. -/
theorem frame_of_covered {args : CalculateWaitingTimeV2Args}
    {result : CalculateWaitingTimeV2Result}
    (hbunker : truthyFrame (r.getFrameIsBunker now) = none) (hcovered : args.Covered)
    (h : r.calculateWithdrawalFrame now args = .ok result) :
    result.frame = if r.isRequestShouldBePostponed now args.requestTimestamp
      then r.gapAdjustedFrame now + 2 else r.gapAdjustedFrame now + 1 := by
  simp only [calculateWithdrawalFrame, hbunker] at h
  split at h
  · cases h
    split <;> rfl
  · split at h
    · cases h
      split <;> rfl
    · exact absurd hcovered (by simp [CalculateWaitingTimeV2Args.Covered, *])

/-- **What is not covered goes to the first report that any inflow reaches.** -/
theorem isLeast_calculateWithdrawalFrame {args : CalculateWaitingTimeV2Args}
    {result : CalculateWaitingTimeV2Result}
    (hbunker : truthyFrame (r.getFrameIsBunker now) = none) (hcovered : ¬ args.Covered)
    (h : r.calculateWithdrawalFrame now args = .ok result) :
    IsLeast (r.projectedReach now args.deficit args.latestEpoch) result.frame := by
  have hopen := hcovered
  simp only [CalculateWaitingTimeV2Args.Covered, not_or] at hopen
  simp only [calculateWithdrawalFrame, hbunker, if_neg hopen.1, if_neg hopen.2] at h
  exact r.isLeast_projectWithdrawalFrame now
    (CalculateWaitingTimeV2Args.deficit_nonneg hcovered) h

end Readings

end WithdrawalsApi
