/-
# The nearest admissible report

A report can serve a request when it is not over for longer than the gap and
keeps the margin. The first such report is the next one or the one after it, and
it is what a covered request is promised.

An amount that the buffer and the vaults hold exactly is enough, but the code
compares strictly. Such a request goes on to the projections with nothing left
open, and what they promise is the first report that an inflow of any size
reaches; it may be closer than the margin or later than necessary. With nothing
left open each projection is a plain comparison: rewards reach the report after
the current frame, the table the first row that is not in the red, and exits the
first report after one VEBO frame and a sweep.
-/

import WithdrawalsApi.WaitingTime.NextReport
import WithdrawalsApi.WaitingTime.Totality

namespace WithdrawalsApi

open Js Math

namespace Readings

variable (r : Readings) (now : ℤ)

/-- The reports that are not over for longer than the gap and that keep the
margin. -/
def admissibleReports (requestTimestamp : ℤ) : Set ℤ :=
  { frame | now < r.time.reportTime frame + gapAfterReport ∧
      r.requestTimestampMargin.toMs ≤ r.time.timeToWithdrawalFrame frame requestTimestamp }

/-- The next report, or the one after it when the next one is too close. -/
def nearestReport (requestTimestamp : ℤ) : ℤ :=
  if r.isRequestShouldBePostponed now requestTimestamp then r.gapAdjustedFrame now + 2
  else r.gapAdjustedFrame now + 1

/-- A projection of a deficit ends at a frame: every conversion on the way
succeeds, and it is the first report that an inflow reaches. -/
structure ProjectsTo (deficit latestEpoch frame : ℤ) : Prop where
  rewards : r.rewardsAvailableForWithdrawals = 0 ∨
    r.time.epochsPerFrame ≤ r.rewardsAvailableForWithdrawals
  keys : StopsBeforeNames r.rewardsAvailableForWithdrawals r.frameBalances.objectEntries deficit
    (r.gapAdjustedFrame now)
  converts : r.ConvertsSafely now deficit latestEpoch
  isLeast : IsLeast (r.projectedReach now deficit latestEpoch) frame

/-- The epoch by which the exits of one VEBO frame after the latest exit have been
swept. -/
def firstExitsSwept (latestEpoch : ℤ) : ℤ :=
  latestEpoch + r.epochsPerFrameVEBO + r.sweepMeanEpochs

/-- With nothing left open, no projection throws or ends before a report, and one of
them ends there. Rewards and the table do not count at frame zero. -/
structure NothingOpenEndsAt (latestEpoch frame : ℤ) : Prop where
  rewards : r.rewardsAvailableForWithdrawals = 0 ∨
    r.time.epochsPerFrame ≤ r.rewardsAvailableForWithdrawals
  keys : StopsBeforeNames r.rewardsAvailableForWithdrawals r.frameBalances.objectEntries 0
    (r.gapAdjustedFrame now)
  rewardsLater : r.rewardsAvailableForWithdrawals ≠ 0 → r.currentFrame now + 1 ≠ 0 →
    frame ≤ r.currentFrame now + 1
  tableSafe : ∀ stop, StopsAt r.rewardsAvailableForWithdrawals r.frameBalances.rows 0
    (r.gapAdjustedFrame now) stop → IsSafeInteger stop
  tableLater : ∀ stop, StopsAt r.rewardsAvailableForWithdrawals r.frameBalances.rows 0
    (r.gapAdjustedFrame now) stop → stop ≠ 0 → frame ≤ stop
  exitsSafe : r.totalEthPerVEBOFrame ≠ 0 → IsSafeInteger (r.firstExitsSwept latestEpoch)
  exitsLater : r.totalEthPerVEBOFrame ≠ 0 →
    r.time.referenceEpoch (frame - 1) ≤ r.firstExitsSwept latestEpoch
  reached :
    (r.rewardsAvailableForWithdrawals ≠ 0 ∧ frame ≠ 0 ∧ frame = r.currentFrame now + 1) ∨
    (StopsAt r.rewardsAvailableForWithdrawals r.frameBalances.rows 0 (r.gapAdjustedFrame now)
      frame ∧ frame ≠ 0) ∨
    (r.totalEthPerVEBOFrame ≠ 0 ∧ r.firstExitsSwept latestEpoch < r.time.referenceEpoch frame)

variable {r now}

/-! ## The first admissible report -/

/-- **What a covered request is promised is the nearest admissible report**, when
frames leave room for the margin and the gap. -/
theorem isLeast_nearestReport {requestTimestamp : ℤ} (hnow : requestTimestamp ≤ now)
    (hlength : r.requestTimestampMargin.toMs + gapAfterReport ≤ r.time.frameLength) :
    IsLeast (r.admissibleReports now requestTimestamp) (r.nearestReport now requestTimestamp) := by
  have hmargin := r.requestTimestampMargin.toMs_nonneg
  have hlater {frame : ℤ} (hframe : frame ∈ r.admissibleReports now requestTimestamp) :
      r.gapAdjustedFrame now < frame := by
    by_contra hle
    have hreport := r.time.reportTime_le_iff.mpr (not_lt.mp hle)
    have hover := r.reportTime_gapAdjustedFrame_add_gap_le now (by omega)
    have hopen := hframe.1
    omega
  unfold nearestReport
  split
  case isTrue hpostponed =>
    have hclose := (r.isRequestShouldBePostponed_iff now).mp hpostponed
    refine ⟨⟨?_, not_lt.mp (r.not_tooClose_of_next now hnow hlength)⟩, ?_⟩
    · have hroom := r.now_add_frameLength_lt now
      have hgap : 0 ≤ gapAfterReport := by decide
      omega
    · intro frame hframe
      have hne : frame ≠ r.gapAdjustedFrame now + 1 := by
        rintro rfl
        exact absurd hframe.2 (not_le.mpr hclose)
      have := hlater hframe
      omega
  case isFalse hkept =>
    rw [r.isRequestShouldBePostponed_iff now] at hkept
    exact ⟨⟨r.now_lt_reportTime_next_add_gap now, not_lt.mp hkept⟩, fun _ hframe => hlater hframe⟩

/-! ## Where a projection ends -/

/-- Some case applies when some report is reached. -/
theorem applicableCases_ne_nil_of_mem {deficit latestEpoch frame : ℤ} (hdeficit : 0 ≤ deficit)
    {table rewards exits : Option ℤ}
    (hrewards : r.calculateFrameByRewardsOnly now deficit r.rewardsAvailableForWithdrawals =
      .ok rewards)
    (htable : calculateFrameByValidatorBalances deficit r.frameBalances (r.gapAdjustedFrame now)
      r.rewardsAvailableForWithdrawals = .ok table)
    (hexits : r.calculateFrameExitValidatorsCaseWithVEBO deficit latestEpoch
      r.rewardsAvailableForWithdrawals = .ok exits)
    (hmem : frame ∈ r.projectedReach now deficit latestEpoch) :
    applicableCases table rewards exits ≠ [] := by
  rw [applicableCases_ne_nil_iff]
  rcases hmem with hmem | hmem | hmem
  · obtain ⟨chosen, hchosen, -⟩ :=
      ((r.picks_calculateFrameByValidatorBalances now htable).discard 0).exists_le_of_mem hmem
    exact Or.inl (Option.ne_none_iff_exists'.mpr ⟨chosen, hchosen⟩)
  · obtain ⟨chosen, hchosen, -⟩ := ((r.picks_calculateFrameByRewardsOnly now hdeficit
      hrewards).discard 0).exists_le_of_mem hmem
    exact Or.inr (Or.inl (Option.ne_none_iff_exists'.mpr ⟨chosen, hchosen⟩))
  · obtain ⟨chosen, hchosen, -⟩ := (r.picks_calculateFrameExitValidatorsCaseWithVEBO hdeficit
      hexits).exists_le_of_mem hmem
    exact Or.inr (Or.inr (Option.ne_none_iff_exists'.mpr ⟨chosen, hchosen⟩))

/-- The projections return a frame exactly when they end there. -/
theorem projectWithdrawalFrame_iff {deficit latestEpoch frame : ℤ} (hdeficit : 0 ≤ deficit) :
    (∃ result, r.projectWithdrawalFrame now deficit latestEpoch = .ok result ∧
        result.frame = frame) ↔ r.ProjectsTo now deficit latestEpoch frame := by
  constructor
  · rintro ⟨result, hresult, rfl⟩
    have hleast := r.isLeast_projectWithdrawalFrame now hdeficit hresult
    simp only [projectWithdrawalFrame, Outcome.bind_eq_ok] at hresult
    obtain ⟨rewards, hrewards, table, htable, exits, hexits, -⟩ := hresult
    have hflow := rewards_of_calculateFrameByRewardsOnly hrewards
    obtain ⟨hkeys, hsafe⟩ := exists_calculateFrameByValidatorBalances_eq_ok_iff.mp ⟨_, htable⟩
    exact {
      rewards := hflow
      keys := hkeys
      converts := {
        rewards :=
          (exists_calculateFrameByRewardsOnly_eq_ok_iff hdeficit hflow).mp ⟨_, hrewards⟩
        table := hsafe
        exits := (exists_calculateFrameExitValidatorsCaseWithVEBO_eq_ok_iff hdeficit).mp
          ⟨_, hexits⟩ }
      isLeast := hleast }
  · intro h
    obtain ⟨rewards, hrewards⟩ : ∃ candidate, r.calculateFrameByRewardsOnly now deficit
        r.rewardsAvailableForWithdrawals = .ok candidate :=
      (exists_calculateFrameByRewardsOnly_eq_ok_iff hdeficit h.rewards).mpr h.converts.rewards
    obtain ⟨table, htable⟩ :=
      exists_calculateFrameByValidatorBalances_eq_ok_iff.mpr ⟨h.keys, h.converts.table⟩
    obtain ⟨exits, hexits⟩ :=
      (exists_calculateFrameExitValidatorsCaseWithVEBO_eq_ok_iff hdeficit).mpr h.converts.exits
    obtain ⟨result, hreduce⟩ := exists_reduceMinFrame_eq_ok_iff.mpr
      (applicableCases_ne_nil_of_mem hdeficit hrewards htable hexits h.isLeast.1)
    have hresult : r.projectWithdrawalFrame now deficit latestEpoch = .ok result := by
      simp only [projectWithdrawalFrame, Outcome.bind_eq_ok]
      exact ⟨rewards, hrewards, table, htable, exits, hexits, hreduce⟩
    exact ⟨result, hresult,
      (r.isLeast_projectWithdrawalFrame now hdeficit hresult).unique h.isLeast⟩

/-! ## Nothing left open -/

/-- With nothing left open, rewards reach the report after the current frame. -/
theorem picks_rewardsReach_zero
    (hrewards : r.rewardsAvailableForWithdrawals = 0 ∨
      r.time.epochsPerFrame ≤ r.rewardsAvailableForWithdrawals) :
    Picks (if r.rewardsAvailableForWithdrawals = 0 then none else some (r.currentFrame now + 1))
      (r.rewardsReach now 0) := by
  split
  case isTrue hzero =>
    have hrate : r.rewardsPerEpoch = 0 := by simp [rewardsPerEpoch, hzero]
    simp [rewardsReach, hrate]
  case isFalse hne =>
    have hleast := isLeast_reportCovering r.time (rewardsPerEpoch_pos hrewards hne) 0
      (r.time.getCurrentEpoch now)
    rwa [Int.zero_ediv, add_zero] at hleast

/-- With nothing left open, exits reach the first report after one VEBO frame and a
sweep. -/
theorem picks_exitReach_zero (latestEpoch : ℤ) :
    Picks (if r.totalEthPerVEBOFrame = 0 then none
      else some (r.time.getFrameOfEpoch (r.firstExitsSwept latestEpoch) + 1))
      (r.exitReach 0 latestEpoch) := by
  split
  case isTrue hzero => exact r.exitReach_eq_empty hzero le_rfl latestEpoch
  case isFalse hne =>
    have htotal := lt_of_le_of_ne r.totalEthPerVEBOFrame_nonneg (Ne.symm hne)
    have hleast := r.isLeast_exitReach htotal 0 latestEpoch
    rwa [Int.zero_ediv, zero_add, one_mul] at hleast

/-- The report after an epoch, by the epochs of the reports around it. -/
theorem getFrameOfEpoch_succ_eq_iff {time : GenesisTimeService} {epoch frame : ℤ} :
    time.getFrameOfEpoch epoch + 1 = frame ↔
      time.referenceEpoch (frame - 1) ≤ epoch ∧ epoch < time.referenceEpoch frame := by
  rw [← not_lt, ← time.getFrameOfEpoch_lt_iff, ← time.getFrameOfEpoch_lt_iff]
  omega

/-- With nothing left open, the numbers that are converted are those of the table and of
the exits. -/
theorem convertsSafely_zero_iff {latestEpoch : ℤ} :
    r.ConvertsSafely now 0 latestEpoch ↔
      (∀ stop, StopsAt r.rewardsAvailableForWithdrawals r.frameBalances.rows 0
        (r.gapAdjustedFrame now) stop → IsSafeInteger stop) ∧
      (r.totalEthPerVEBOFrame ≠ 0 → IsSafeInteger (r.firstExitsSwept latestEpoch)) := by
  have hswept : latestEpoch + (0 / r.totalEthPerVEBOFrame + 1) * r.epochsPerFrameVEBO +
      r.sweepMeanEpochs = r.firstExitsSwept latestEpoch := by
    rw [Int.zero_ediv, zero_add, one_mul, firstExitsSwept]
  constructor
  · exact fun h => ⟨h.table, hswept ▸ h.exits⟩
  · exact fun h => ⟨fun _ => by rw [Int.zero_ediv]; decide, h.1, hswept ▸ h.2⟩

/-- The table ends at the row where the scan stops, unless that is frame zero. -/
theorem truthyFrame_firstCovering_eq_some_iff {rate amount lastFrame stop : ℤ}
    {rows : List (ℤ × ℤ)} :
    truthyFrame (firstCovering rate rows amount lastFrame) = some stop ↔
      StopsAt rate rows amount lastFrame stop ∧ stop ≠ 0 := by
  rw [truthyFrame, Option.filter_eq_some_iff, firstCovering_eq_some_iff, decide_eq_true_eq]

/-- With nothing left open, rewards end at the report after the current frame, unless that
is frame zero. -/
theorem truthyFrame_rewardsReport_eq_some_iff {stop : ℤ} :
    truthyFrame (if r.rewardsAvailableForWithdrawals = 0 then none
      else some (r.currentFrame now + 1)) = some stop ↔
      r.rewardsAvailableForWithdrawals ≠ 0 ∧ stop ≠ 0 ∧ stop = r.currentFrame now + 1 := by
  rw [truthyFrame, Option.filter_eq_some_iff, decide_eq_true_eq]
  by_cases hzero : r.rewardsAvailableForWithdrawals = 0
  · simp [hzero]
  · rw [if_neg hzero, Option.some.injEq, eq_comm]
    exact ⟨fun h => ⟨hzero, h.2, h.1⟩, fun h => ⟨h.2.2, h.2.1⟩⟩

/-- With nothing left open, exits end at the report after the sweep. -/
theorem exitsReport_eq_some_iff {latestEpoch stop : ℤ} :
    (if r.totalEthPerVEBOFrame = 0 then none
      else some (r.time.getFrameOfEpoch (r.firstExitsSwept latestEpoch) + 1)) = some stop ↔
      r.totalEthPerVEBOFrame ≠ 0 ∧
        r.time.referenceEpoch (stop - 1) ≤ r.firstExitsSwept latestEpoch ∧
        r.firstExitsSwept latestEpoch < r.time.referenceEpoch stop := by
  rw [← getFrameOfEpoch_succ_eq_iff]
  split <;> simp [*]

/-- **The first report that an inflow reaches with nothing left open**, by
comparisons. -/
theorem isLeast_projectedReach_zero_iff {latestEpoch frame : ℤ}
    (hrewards : r.rewardsAvailableForWithdrawals = 0 ∨
      r.time.epochsPerFrame ≤ r.rewardsAvailableForWithdrawals) :
    IsLeast (r.projectedReach now 0 latestEpoch) frame ↔
      ((r.rewardsAvailableForWithdrawals ≠ 0 ∧ frame ≠ 0 ∧ frame = r.currentFrame now + 1) ∨
        (StopsAt r.rewardsAvailableForWithdrawals r.frameBalances.rows 0 (r.gapAdjustedFrame now)
          frame ∧ frame ≠ 0) ∨
        (r.totalEthPerVEBOFrame ≠ 0 ∧
          r.firstExitsSwept latestEpoch < r.time.referenceEpoch frame)) ∧
      (r.rewardsAvailableForWithdrawals ≠ 0 → r.currentFrame now + 1 ≠ 0 →
        frame ≤ r.currentFrame now + 1) ∧
      (∀ stop, StopsAt r.rewardsAvailableForWithdrawals r.frameBalances.rows 0
        (r.gapAdjustedFrame now) stop → stop ≠ 0 → frame ≤ stop) ∧
      (r.totalEthPerVEBOFrame ≠ 0 →
        r.time.referenceEpoch (frame - 1) ≤ r.firstExitsSwept latestEpoch) := by
  rw [r.isLeast_projectedReach_iff now (picks_truthyFrame (picks_stopped _ _ _ _))
    (picks_truthyFrame (picks_rewardsReach_zero hrewards)) (picks_exitReach_zero latestEpoch)]
  simp only [truthyFrame_firstCovering_eq_some_iff, truthyFrame_rewardsReport_eq_some_iff,
    exitsReport_eq_some_iff]
  constructor
  · rintro ⟨hreached, hle⟩
    refine ⟨?_, fun hne hzero => hle _ (Or.inr (Or.inl ⟨hne, hzero, rfl⟩)),
      fun stop hstop hzero => hle _ (Or.inl ⟨hstop, hzero⟩), fun hne => ?_⟩
    · rcases hreached with htable | hflow | hexits
      · exact Or.inr (Or.inl htable)
      · exact Or.inl hflow
      · exact Or.inr (Or.inr ⟨hexits.1, hexits.2.2⟩)
    · have hswept := hle _ (Or.inr (Or.inr ⟨hne, getFrameOfEpoch_succ_eq_iff.mp rfl⟩))
      rw [← not_lt, ← r.time.getFrameOfEpoch_lt_iff]
      omega
  · rintro ⟨hreached, hflowLater, htableLater, hexitsLater⟩
    refine ⟨?_, ?_⟩
    · rcases hreached with hflow | htable | hexits
      · exact Or.inr (Or.inl hflow)
      · exact Or.inl htable
      · exact Or.inr (Or.inr ⟨hexits.1, hexitsLater hexits.1, hexits.2⟩)
    · rintro other (htable | hflow | hexits)
      · exact htableLater other htable.1 htable.2
      · have hlater := hflowLater hflow.1 (hflow.2.2 ▸ hflow.2.1)
        omega
      · have hlater := hexitsLater hexits.1
        have hbefore := r.time.getFrameOfEpoch_lt_iff.mpr hexits.2.2
        rw [← not_lt, ← r.time.getFrameOfEpoch_lt_iff] at hlater
        omega

/-- **The projections of nothing end at a report exactly when** the comparisons say
so. -/
theorem projectsTo_zero_iff {latestEpoch frame : ℤ} :
    r.ProjectsTo now 0 latestEpoch frame ↔ r.NothingOpenEndsAt now latestEpoch frame := by
  constructor
  · intro h
    obtain ⟨hreached, hrewardsLater, htableLater, hexitsLater⟩ :=
      (isLeast_projectedReach_zero_iff h.rewards).mp h.isLeast
    obtain ⟨htableSafe, hexitsSafe⟩ := convertsSafely_zero_iff.mp h.converts
    exact {
      rewards := h.rewards
      keys := h.keys
      rewardsLater := hrewardsLater
      tableSafe := htableSafe
      tableLater := htableLater
      exitsSafe := hexitsSafe
      exitsLater := hexitsLater
      reached := hreached }
  · intro h
    exact {
      rewards := h.rewards
      keys := h.keys
      converts := convertsSafely_zero_iff.mpr ⟨h.tableSafe, h.exitsSafe⟩
      isLeast := (isLeast_projectedReach_zero_iff h.rewards).mpr
        ⟨h.reached, h.rewardsLater, h.tableLater, h.exitsLater⟩ }

/-! ## Enough ether -/

/-- **A request for which there is enough ether goes to the nearest admissible
report exactly when** the buffer, alone or with the vaults, exceeds what the
queue asks for, or with nothing left open an inflow reaches that report and none an
earlier one. -/
theorem nearestReport_iff {args : CalculateWaitingTimeV2Args}
    (hbunker : r.bunkerModeActive = false) (hnow : args.requestTimestamp ≤ now)
    (hlength : r.requestTimestampMargin.toMs + gapAfterReport ≤ r.time.frameLength)
    (henough : args.unfinalized ≤ args.buffer + args.vaultsBalance) :
    (∃ result, r.calculateWithdrawalFrame now args = .ok result ∧
        IsLeast (r.admissibleReports now args.requestTimestamp) result.frame) ↔
      args.Covered ∨ r.NothingOpenEndsAt now args.latestEpoch
        (r.nearestReport now args.requestTimestamp) := by
  have hturbo := r.truthyFrame_getFrameIsBunker now hbunker
  have hnearest := isLeast_nearestReport (r := r) hnow hlength
  by_cases hcovered : args.Covered
  · refine iff_of_true ?_ (Or.inl hcovered)
    obtain ⟨result, hresult⟩ := calculateWithdrawalFrame_of_covered hturbo hcovered
    refine ⟨result, hresult, ?_⟩
    rw [r.frame_of_covered now hturbo hcovered hresult]
    exact hnearest
  · have hdeficit : args.deficit = 0 := by
      have := CalculateWaitingTimeV2Args.deficit_nonneg hcovered
      simp only [CalculateWaitingTimeV2Args.deficit] at this ⊢
      omega
    rw [calculateWithdrawalFrame_of_not_covered hturbo hcovered, hdeficit,
      ← projectsTo_zero_iff, ← projectWithdrawalFrame_iff le_rfl]
    simp only [hcovered, false_or]
    constructor
    · rintro ⟨result, hresult, hleast⟩
      exact ⟨result, hresult, hleast.unique hnearest⟩
    · rintro ⟨result, hresult, hframe⟩
      exact ⟨result, hresult, hframe ▸ hnearest⟩

/-- The same ten ether, all of them in the buffer. -/
def tenEtherBuffered : CalculateWaitingTimeV2Args := { tenEther with buffer := 10 * 10 ^ 18 }

theorem nearestReport_iff_tenEtherBuffered :
    (∃ result, sampleReadings.calculateWithdrawalFrame 1744714823000 tenEtherBuffered =
        .ok result ∧ IsLeast (sampleReadings.admissibleReports 1744714823000
          tenEtherBuffered.requestTimestamp) result.frame) ↔
      tenEtherBuffered.Covered ∨
        sampleReadings.NothingOpenEndsAt 1744714823000 tenEtherBuffered.latestEpoch
          (sampleReadings.nearestReport 1744714823000 tenEtherBuffered.requestTimestamp) :=
  nearestReport_iff rfl (by decide) (by decide) (by decide)

/-- Rewards cover a deficit of zero by the report that is one hour away, which
does not keep the margin of two hours. -/
theorem nearestReport_not_always :
    ¬ ∀ (r : Readings) (now : ℤ) (args : CalculateWaitingTimeV2Args),
      r.bunkerModeActive = false → args.requestTimestamp ≤ now →
      r.requestTimestampMargin.toMs + gapAfterReport ≤ r.time.frameLength →
      args.unfinalized ≤ args.buffer + args.vaultsBalance →
      ∃ result, r.calculateWithdrawalFrame now args = .ok result ∧
        IsLeast (r.admissibleReports now args.requestTimestamp) result.frame := by
  intro hnearest
  obtain ⟨result, hresult, hleast⟩ := hnearest sampleReadings 1744714823000 tenEtherBuffered
    rfl (by decide) (by decide) (by decide)
  have hframe : sampleReadings.calculateWithdrawalFrame 1744714823000 tenEtherBuffered =
      .ok ⟨700, .rewardsOnly⟩ := by decide
  obtain rfl := Except.ok.inj (hframe.symm.trans hresult)
  have hmargin := hleast.1.2
  revert hmargin
  decide

end Readings

end WithdrawalsApi
