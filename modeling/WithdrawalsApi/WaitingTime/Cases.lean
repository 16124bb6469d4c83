/-
# The three cases one by one

Each case of an estimate answers a question of its own, whatever the others
say. The known withdrawals are asked for the first listed frame by which they
and the rewards have covered a deficit. The rewards are asked for the first
report whose reference epoch they reach with more than the deficit. With a cap
of zero the exits release nothing, and their case counts the same rewards in
steps of whole VEBO frames: it is never earlier than the case of the rewards,
so the estimate is the earlier of the other two.
-/

import WithdrawalsApi.WaitingTime.Inflow
import WithdrawalsApi.WaitingTime.Totality

namespace WithdrawalsApi

open Js Math

/-! ## Known withdrawals -/

/-- What the table and the rewards have brought in by a frame: the balances of
the frames up to it, and the rewards of the frames after the current one. -/
def broughtInBy (frameBalances : Record ℤ)
    (currentFrame rewardsAvailableForWithdrawals frame : ℤ) : ℤ :=
  released (Record.integerRows frameBalances.entries) frame +
    rewardsAvailableForWithdrawals * max 0 (frame - currentFrame)

/-- The frames of the table by which a deficit has been covered. -/
def coveringFrames (deficit : ℤ) (frameBalances : Record ℤ)
    (currentFrame rewardsAvailableForWithdrawals : ℤ) : Set ℤ :=
  { frame | PropertyKey.integer frame ∈ frameBalances.entries.map Prod.fst ∧
      deficit ≤ broughtInBy frameBalances currentFrame rewardsAvailableForWithdrawals frame }

/-- The order of the table is no matter of what it brings in. -/
theorem released_rows_add_accrued (frameBalances : Record ℤ)
    (currentFrame rewardsAvailableForWithdrawals frame : ℤ) :
    released frameBalances.rows frame +
        accrued rewardsAvailableForWithdrawals currentFrame frame =
      broughtInBy frameBalances currentFrame rewardsAvailableForWithdrawals frame := by
  have hrows : frameBalances.rows.Perm (Record.integerRows frameBalances.entries) :=
    frameBalances.objectEntries_perm.filterMap _
  have hreleased : released frameBalances.rows frame =
      released (Record.integerRows frameBalances.entries) frame :=
    ((hrows.filter _).map _).sum_eq
  rw [hreleased, broughtInBy, accrued, zsmul_eq_mul, Int.cast_id, mul_comm]

theorem integer_mem_keys_iff {frameBalances : Record ℤ} (hkeys : frameBalances.ArrayIndexed)
    {frame : ℤ} :
    PropertyKey.integer frame ∈ frameBalances.entries.map Prod.fst ↔
      ∃ row ∈ frameBalances.rows, row.1 = frame := by
  simp only [List.mem_map, Prod.exists, Record.mem_rows_of_integers hkeys.exists_eq_integer,
    exists_and_right, exists_eq_right]

/-- What is covered by some position is covered by a frame of the table. -/
theorem picks_coveringFrames {candidate : Option ℤ} {frameBalances : Record ℤ}
    (hkeys : frameBalances.ArrayIndexed) {deficit currentFrame rewardsAvailableForWithdrawals : ℤ}
    (h : Picks candidate
      (covers rewardsAvailableForWithdrawals frameBalances.rows deficit currentFrame)) :
    Picks candidate
      (coveringFrames deficit frameBalances currentFrame rewardsAvailableForWithdrawals) := by
  apply h.of_subset
  · rintro frame ⟨hkey, hcovered⟩
    obtain ⟨row, hrow, rfl⟩ := (integer_mem_keys_iff hkeys).mp hkey
    rw [← released_rows_add_accrued] at hcovered
    exact ⟨row, hrow, le_rfl, hcovered⟩
  · rintro position ⟨row, hrow, hle, hcovered⟩
    rw [released_rows_add_accrued] at hcovered
    exact ⟨row.1, ⟨(integer_mem_keys_iff hkeys).mpr ⟨row, hrow, rfl⟩, hcovered⟩, hle⟩

/-- **The case of the known withdrawals is the first frame that covers.** The
table lists array indices, which is how the loop comes to see them in ascending
order; the loop's own amount and frame are the telescoped sum. -/
theorem calculateFrameByValidatorBalances_isLeast {frameBalances : Record ℤ}
    (hkeys : frameBalances.ArrayIndexed)
    (deficit currentFrame rewardsAvailableForWithdrawals : ℤ) :
    ∃ candidate,
      calculateFrameByValidatorBalances deficit frameBalances currentFrame
          rewardsAvailableForWithdrawals = .ok candidate ∧
        (candidate = none ↔ coveringFrames deficit frameBalances currentFrame
          rewardsAvailableForWithdrawals = ∅) ∧
        ∀ frame, candidate = some frame ↔
          IsLeast (coveringFrames deficit frameBalances currentFrame
            rewardsAvailableForWithdrawals) frame := by
  have hreturns : ∃ candidate, validatorBalancesLoop rewardsAvailableForWithdrawals
      frameBalances.objectEntries deficit currentFrame = .ok candidate := by
    rw [exists_validatorBalancesLoop_eq_ok_iff]
    constructor
    · exact stopsBeforeNames_of_arrayIndexed hkeys
    · intro frame hframe
      obtain ⟨amount, hrow⟩ := (firstCovering_eq_some_iff.mp hframe).exists_mem
      exact isSafeInteger_of_arrayIndexed hkeys hrow
  obtain ⟨candidate, hcandidate⟩ := hreturns
  have hpicks : Picks candidate
      (coveringFrames deficit frameBalances currentFrame rewardsAvailableForWithdrawals) := by
    apply picks_coveringFrames hkeys
    rw [validatorBalancesLoop_eq_ok hcandidate]
    exact picks_firstCovering _ hkeys.rows_ascending deficit currentFrame
  exact ⟨candidate, hcandidate, hpicks.eq_none_iff, fun _ => hpicks.eq_some_iff⟩

/-- Three frames in the order in which they were created: one to come, one that is
over, the current one. -/
def threeFrames : Record ℤ where
  entries := [(.integer 702, 5), (.integer 699, 3), (.integer 700, 4)]
  nodup := by decide

theorem calculateFrameByValidatorBalances_threeFrames :
    ∃ candidate, calculateFrameByValidatorBalances 20 threeFrames 700 6 = .ok candidate ∧
      (candidate = none ↔ coveringFrames 20 threeFrames 700 6 = ∅) ∧
      ∀ frame, candidate = some frame ↔ IsLeast (coveringFrames 20 threeFrames 700 6) frame :=
  calculateFrameByValidatorBalances_isLeast (by decide) 20 700 6

/-- The frame that is over and the current one bring in seven, the two frames
of rewards twelve more, and the last balance covers the deficit. -/
example : calculateFrameByValidatorBalances 20 threeFrames 700 6 = .ok (some 702) := by decide

namespace Readings

/-! ## Rewards -/

/-- **The case of the rewards is the first report that they reach** with more than
the deficit, wherever the current epoch lies in its frame: until that report the
rewards exceed the deficit, and until the one before it they do not. -/
theorem calculateFrameByRewardsOnly_isLeast (r : Readings) (now : ℤ)
    {deficit rewardsAvailable : ℤ} (hrate : 1 ≤ rewardsAvailable / r.time.epochsPerFrame)
    (hdeficit : 0 ≤ deficit)
    (hsafe : IsSafeInteger (deficit / (rewardsAvailable / r.time.epochsPerFrame))) :
    ∃ frame, r.calculateFrameByRewardsOnly now deficit rewardsAvailable = .ok (some frame) ∧
      IsLeast { frame | deficit < (r.time.referenceEpoch frame - r.time.getCurrentEpoch now) *
        (rewardsAvailable / r.time.epochsPerFrame) } frame ∧
      (r.time.referenceEpoch (frame - 1) - r.time.getCurrentEpoch now) *
        (rewardsAvailable / r.time.epochsPerFrame) ≤ deficit := by
  have hframe := r.time.epochsPerFrame_pos
  have hrewards : 0 < rewardsAvailable := by
    have hle := (Int.le_ediv_iff_mul_le hframe).mp hrate
    omega
  have hleast := isLeast_reportCovering r.time hrate deficit (r.time.getCurrentEpoch now)
  refine ⟨_, ?_, hleast, ?_⟩
  · have hnumber : BigNumber.toNumber (deficit / (rewardsAvailable / r.time.epochsPerFrame)) =
        .ok _ := BigNumber.toNumber_eq_ok.mpr ⟨hsafe, rfl⟩
    rw [calculateFrameByRewardsOnly, if_neg hrewards.ne',
      BigNumber.div_of_pos hrewards.le hframe, Outcome.ok_bind,
      BigNumber.div_of_pos hdeficit hrate, Outcome.ok_bind, hnumber]
    rfl
  · by_contra hcovered
    exact absurd (hleast.2 (not_le.mp hcovered)) (by omega)

theorem calculateFrameByRewardsOnly_tenEther :
    ∃ frame, sampleReadings.calculateFrameByRewardsOnly 1744714823000 (10 * 10 ^ 18)
        (900 * 10 ^ 18) = .ok (some frame) ∧
      IsLeast { frame | 10 * 10 ^ 18 < (sampleReadings.time.referenceEpoch frame -
        sampleReadings.time.getCurrentEpoch 1744714823000) *
          (900 * 10 ^ 18 / sampleReadings.time.epochsPerFrame) } frame ∧
      (sampleReadings.time.referenceEpoch (frame - 1) -
        sampleReadings.time.getCurrentEpoch 1744714823000) *
          (900 * 10 ^ 18 / sampleReadings.time.epochsPerFrame) ≤ 10 * 10 ^ 18 :=
  calculateFrameByRewardsOnly_isLeast sampleReadings 1744714823000 (by decide) (by decide)
    (by decide)

/-! ## Paused exits -/

variable (r : Readings) (now : ℤ)

/-- With a cap of zero a VEBO frame releases its rewards and nothing else. -/
theorem totalEthPerVEBOFrame_of_cap_eq_zero
    (hcap : r.maxBalanceExitRequestedPerReportInEth.eth = 0) :
    r.totalEthPerVEBOFrame = r.rewardsPerEpoch * r.epochsPerFrameVEBO := by
  have hflow : ¬ minActivationBalance * r.churnLimit * r.epochsPerFrameVEBO < (0 : ℤ) := by
    simp only [minActivationBalance, not_lt]
    positivity
  simp only [totalEthPerVEBOFrame, effectiveExitEthPerVEBOFrame, hcap, Nat.cast_zero, zero_mul,
    if_neg hflow, zero_add]

/-- What the rewards of whole VEBO frames cover from the latest exit epoch on, the
rewards of the epochs in between cover from the current epoch on. -/
theorem exitReach_subset_rewardsReach
    (hcap : r.maxBalanceExitRequestedPerReportInEth.eth = 0) {deficit latestEpoch : ℤ}
    (hlatest : r.time.getCurrentEpoch now ≤ latestEpoch) :
    r.exitReach deficit latestEpoch ⊆ r.rewardsReach now deficit := by
  rintro frame ⟨veboFrames, hcovered, hepoch⟩
  have hepochs : veboFrames * r.epochsPerFrameVEBO ≤
      r.time.referenceEpoch frame - r.time.getCurrentEpoch now := by omega
  calc
    deficit < veboFrames * r.totalEthPerVEBOFrame := hcovered
    _ = veboFrames * r.epochsPerFrameVEBO * r.rewardsPerEpoch := by
        rw [r.totalEthPerVEBOFrame_of_cap_eq_zero hcap, mul_comm r.rewardsPerEpoch, mul_assoc]
    _ ≤ _ := mul_le_mul_of_nonneg_right hepochs r.rewardsPerEpoch_nonneg

/-- With paused exits two inflows are left. -/
theorem projectedReach_of_pausedExits
    (hcap : r.maxBalanceExitRequestedPerReportInEth.eth = 0)
    (hepoch : r.time.initialEpoch ≤ r.time.getCurrentEpoch now)
    (hkeys : ∀ row ∈ r.frameBalances.rows, 0 < row.1) {deficit latestEpoch : ℤ}
    (hdeficit : 0 ≤ deficit) (hlatest : r.time.getCurrentEpoch now ≤ latestEpoch) :
    r.projectedReach now deficit latestEpoch =
      r.tableReach now deficit ∪ r.rewardsReach now deficit := by
  have hframe : 0 ≤ r.currentFrame now :=
    Int.ediv_nonneg (by omega) r.time.epochsPerFrame_pos.le
  obtain ⟨htable, hrewards⟩ := not_or.mp (r.not_endsAtFrameZero now hdeficit hframe hkeys)
  have hexits : r.exitReach deficit latestEpoch ⊆ r.rewardsReach now deficit :=
    r.exitReach_subset_rewardsReach now hcap hlatest
  ext frame
  simp only [projectedReach, discardLeast_eq_self htable, discardLeast_eq_self hrewards,
    Set.mem_ofPred_eq, Set.mem_union]
  constructor
  · rintro (hreach | hreach | hreach)
    · exact Or.inl hreach
    · exact Or.inr hreach
    · exact Or.inr (hexits hreach)
  · exact fun hreach => hreach.imp_right Or.inl

/-- Rewards of at least one wei per epoch always make a case. -/
theorem calculateFrameByRewardsOnly_eq_some {deficit : ℤ}
    (hrewards : r.rewardsAvailableForWithdrawals ≠ 0) {candidate : Option ℤ}
    (h : r.calculateFrameByRewardsOnly now deficit r.rewardsAvailableForWithdrawals =
      .ok candidate) : ∃ frame, candidate = some frame := by
  rw [calculateFrameByRewardsOnly_eq, if_neg hrewards] at h
  simp only [Outcome.bind_eq_ok, Outcome.pure_eq_ok] at h
  obtain ⟨_, -, _, -, rfl⟩ := h
  exact ⟨_, rfl⟩

/-- **Paused exits never shorten an estimate.** Their case is never earlier than
the case of the rewards, and what is estimated is the earlier of the cases of the
rewards and of the known withdrawals. -/
theorem calculateWithdrawalFrame_of_pausedExits {args : CalculateWaitingTimeV2Args}
    (hbunker : r.bunkerModeActive = false)
    (hcap : r.maxBalanceExitRequestedPerReportInEth.eth = 0)
    (hepoch : r.time.initialEpoch ≤ r.time.getCurrentEpoch now)
    (hkeys : ∀ row ∈ r.frameBalances.rows, 0 < row.1)
    (hvaults : 0 ≤ args.vaultsBalance)
    (hopen : args.buffer + args.vaultsBalance ≤ args.unfinalized)
    (hlatest : r.time.getCurrentEpoch now ≤ args.latestEpoch)
    (hrewards : r.time.epochsPerFrame ≤ r.rewardsAvailableForWithdrawals) :
    (∀ deficit exitFrame rewardsFrame, 0 ≤ deficit →
      r.calculateFrameExitValidatorsCaseWithVEBO deficit args.latestEpoch
        r.rewardsAvailableForWithdrawals = .ok (some exitFrame) →
      r.calculateFrameByRewardsOnly now deficit r.rewardsAvailableForWithdrawals =
        .ok (some rewardsFrame) → rewardsFrame ≤ exitFrame) ∧
    ∀ result, r.calculateWithdrawalFrame now args = .ok result →
      ∃ rewardsFrame tableFrame,
        r.calculateFrameByRewardsOnly now args.deficit r.rewardsAvailableForWithdrawals =
          .ok (some rewardsFrame) ∧
        calculateFrameByValidatorBalances args.deficit r.frameBalances (r.gapAdjustedFrame now)
          r.rewardsAvailableForWithdrawals = .ok tableFrame ∧
        result.frame = tableFrame.elim rewardsFrame (min rewardsFrame) := by
  constructor
  · intro deficit exitFrame rewardsFrame hdeficit hexits hrewardsOnly
    have hexit : IsLeast (r.exitReach deficit args.latestEpoch) exitFrame :=
      r.picks_calculateFrameExitValidatorsCaseWithVEBO hdeficit hexits
    have hreward : IsLeast (r.rewardsReach now deficit) rewardsFrame :=
      r.picks_calculateFrameByRewardsOnly now hdeficit hrewardsOnly
    exact hreward.2 (r.exitReach_subset_rewardsReach now hcap hlatest hexit.1)
  · intro result hresult
    have hnone := r.truthyFrame_getFrameIsBunker now hbunker
    have hcovered : ¬ args.Covered := by
      simp only [CalculateWaitingTimeV2Args.Covered]
      omega
    have hdeficit := CalculateWaitingTimeV2Args.deficit_nonneg hcovered
    have hne : r.rewardsAvailableForWithdrawals ≠ 0 := by
      have := r.time.epochsPerFrame_pos
      omega
    rw [calculateWithdrawalFrame_of_not_covered hnone hcovered] at hresult
    have hleast := r.isLeast_projectWithdrawalFrame now hdeficit hresult
    rw [r.projectedReach_of_pausedExits now hcap hepoch hkeys hdeficit hlatest] at hleast
    simp only [projectWithdrawalFrame, Outcome.bind_eq_ok] at hresult
    obtain ⟨rewards, hrewardsOnly, table, htable, -⟩ := hresult
    obtain ⟨rewardsFrame, rfl⟩ := r.calculateFrameByRewardsOnly_eq_some now hne hrewardsOnly
    have hreward : IsLeast (r.rewardsReach now args.deficit) rewardsFrame :=
      r.picks_calculateFrameByRewardsOnly now hdeficit hrewardsOnly
    refine ⟨rewardsFrame, table, hrewardsOnly, htable, ?_⟩
    have hpicks := r.picks_calculateFrameByValidatorBalances now htable
    cases table with
    | none =>
        have hempty : r.tableReach now args.deficit = ∅ := hpicks
        rw [hempty, Set.empty_union] at hleast
        exact hleast.unique hreward
    | some tableFrame =>
        have htableLeast : IsLeast (r.tableReach now args.deficit) tableFrame := hpicks
        rw [Set.union_comm] at hleast
        exact hleast.unique (hreward.union htableLeast)

/-- Governance has frozen the exits, and rewards still come in. -/
def pausedExits : Readings :=
  { frozenExits with rewardsPerFrame := sampleReadings.rewardsPerFrame }

theorem calculateWithdrawalFrame_pausedExits :
    (∀ deficit exitFrame rewardsFrame, 0 ≤ deficit →
      pausedExits.calculateFrameExitValidatorsCaseWithVEBO deficit tenEther.latestEpoch
        pausedExits.rewardsAvailableForWithdrawals = .ok (some exitFrame) →
      pausedExits.calculateFrameByRewardsOnly 1744714823000 deficit
        pausedExits.rewardsAvailableForWithdrawals = .ok (some rewardsFrame) →
      rewardsFrame ≤ exitFrame) ∧
    ∀ result, pausedExits.calculateWithdrawalFrame 1744714823000 tenEther = .ok result →
      ∃ rewardsFrame tableFrame,
        pausedExits.calculateFrameByRewardsOnly 1744714823000 tenEther.deficit
          pausedExits.rewardsAvailableForWithdrawals = .ok (some rewardsFrame) ∧
        calculateFrameByValidatorBalances tenEther.deficit pausedExits.frameBalances
          (pausedExits.gapAdjustedFrame 1744714823000)
          pausedExits.rewardsAvailableForWithdrawals = .ok tableFrame ∧
        result.frame = tableFrame.elim rewardsFrame (min rewardsFrame) :=
  pausedExits.calculateWithdrawalFrame_of_pausedExits 1744714823000 rfl rfl (by decide)
    (by simp [pausedExits, frozenExits, sampleReadings, Record.rows, Record.objectEntries,
      Record.empty])
    (by decide) (by decide) (by decide) (by decide)

end Readings

end WithdrawalsApi
