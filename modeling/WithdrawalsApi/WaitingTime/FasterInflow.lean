/-
# Faster inflow

Two estimates are compared that differ in what comes in: rewards, the reserve
that is refilled from them, the cap and the churn of exits, the latest exit
epoch, the sweep and the known withdrawals. Every quantity between these
parameters and the frame is rounded, and none of the roundings matters: each of
the three reached sets grows, so its least element does not move up.

The known withdrawals are consumed in the order of `Object.keys`. For frame
numbers that are array indices this order is ascending. A table whose keys are
larger may list a later frame first, and a larger balance there ends the loop at
that frame.
-/

import WithdrawalsApi.WaitingTime.Inflow
import WithdrawalsApi.WaitingTime.NextReport

namespace WithdrawalsApi

open Js Math

/-! ## Tables -/

/-- Two tables with the same keys, all of them positive frame numbers, and with
balances that are not negative and not smaller in the second table. -/
structure Js.Record.GrowsTo (small large : Record ℤ) : Prop where
  positive : ∀ entry ∈ small.entries, ∃ frame : ℤ, 0 < frame ∧ entry.1 = .integer frame
  keys : ∀ key, key ∈ small.entries.map Prod.fst ↔ key ∈ large.entries.map Prod.fst
  balances : ∀ key first second, (key, first) ∈ small.entries → (key, second) ∈ large.entries →
    0 ≤ first ∧ first ≤ second

namespace Js.Record

theorem mem_rows_keys_of_integers {record : Record ℤ}
    (h : ∀ entry ∈ record.entries, ∃ n : ℤ, entry.1 = .integer n) {frame : ℤ} :
    frame ∈ record.rows.map Prod.fst ↔
      PropertyKey.integer frame ∈ record.entries.map Prod.fst := by
  simp only [List.mem_map, Prod.exists, mem_rows_of_integers h, exists_and_right, exists_eq_right]

namespace GrowsTo

variable {small large : Record ℤ}

theorem integers_small (h : small.GrowsTo large) :
    ∀ entry ∈ small.entries, ∃ n : ℤ, entry.1 = .integer n := by
  intro entry hmem
  obtain ⟨frame, -, hframe⟩ := h.positive entry hmem
  exact ⟨frame, hframe⟩

theorem integers_large (h : small.GrowsTo large) :
    ∀ entry ∈ large.entries, ∃ n : ℤ, entry.1 = .integer n := by
  intro entry hmem
  obtain ⟨other, hother, hkey⟩ := List.mem_map.mp ((h.keys _).mpr (List.mem_map_of_mem hmem))
  rw [← hkey]
  exact h.integers_small other hother

end GrowsTo

end Js.Record

/-- Lists of pairs with the same keys are related entry by entry. -/
private theorem forall₂_of_map_fst_eq {small large : List (ℤ × ℤ)}
    (hkeys : small.map Prod.fst = large.map Prod.fst)
    (hle : ∀ key first second, (key, first) ∈ small → (key, second) ∈ large → first ≤ second) :
    List.Forall₂ (fun first second => first.1 = second.1 ∧ first.2 ≤ second.2) small large := by
  induction small generalizing large with
  | nil =>
      rw [List.map_nil, eq_comm, List.map_eq_nil_iff] at hkeys
      rw [hkeys]
      exact .nil
  | cons first small ih =>
      cases large with
      | nil => cases hkeys
      | cons second large =>
          obtain ⟨hhead, hrest⟩ := List.cons.inj hkeys
          have hmem : (first.1, second.2) ∈ second :: large := by
            rw [hhead]
            exact List.mem_cons_self
          refine .cons ⟨hhead, hle first.1 _ _ List.mem_cons_self hmem⟩ (ih hrest ?_)
          intro key low high hlow hhigh
          exact hle key low high (List.mem_cons_of_mem _ hlow) (List.mem_cons_of_mem _ hhigh)

/-- Tables that are listed in ascending order are related row by row. -/
theorem Js.Record.GrowsTo.forall₂_rows {small large : Record ℤ} (h : small.GrowsTo large)
    (hsmall : small.ListedAscending) (hlarge : large.ListedAscending) :
    List.Forall₂ (fun first second => first.1 = second.1 ∧ first.2 ≤ second.2)
      small.rows large.rows := by
  have hsmallSorted : (small.rows.map Prod.fst).Pairwise (· < ·) := List.pairwise_map.mpr hsmall
  have hlargeSorted : (large.rows.map Prod.fst).Pairwise (· < ·) := List.pairwise_map.mpr hlarge
  have hperm : (small.rows.map Prod.fst).Perm (large.rows.map Prod.fst) := by
    refine (List.perm_ext_iff_of_nodup (hsmallSorted.imp LT.lt.ne)
      (hlargeSorted.imp LT.lt.ne)).mpr fun frame => ?_
    rw [Js.Record.mem_rows_keys_of_integers h.integers_small,
      Js.Record.mem_rows_keys_of_integers h.integers_large, h.keys]
  refine forall₂_of_map_fst_eq (hperm.eq_of_pairwise' hsmallSorted hlargeSorted) ?_
  intro frame first second hfirst hsecond
  have hfirstEntry := (Js.Record.mem_rows_of_integers h.integers_small).mp hfirst
  have hsecondEntry := (Js.Record.mem_rows_of_integers h.integers_large).mp hsecond
  exact (h.balances _ _ _ hfirstEntry hsecondEntry).2

theorem Js.Record.GrowsTo.rows_pos {small large : Record ℤ} (h : small.GrowsTo large)
    {row : ℤ × ℤ} (hmem : row ∈ large.rows) : 0 < row.1 := by
  have hkey : PropertyKey.integer row.1 ∈ large.entries.map Prod.fst :=
    List.mem_map_of_mem ((Js.Record.mem_rows_of_integers h.integers_large).mp hmem)
  obtain ⟨entry, hentry, heq⟩ := List.mem_map.mp ((h.keys _).mpr hkey)
  obtain ⟨frame, hpos, hframe⟩ := h.positive entry hentry
  rw [hframe, PropertyKey.integer.injEq] at heq
  exact heq ▸ hpos

namespace Readings

/-! ## The inflow parameters -/

/-- Two sets of readings that differ in the inflow, which is not slower in the
second. What no projection reads is left open. -/
structure FasterInflow (slow fast : Readings) : Prop where
  time : fast.time = slow.time
  epochsPerFrameVEBO : fast.epochsPerFrameVEBO = slow.epochsPerFrameVEBO
  requestTimestampMargin : fast.requestTimestampMargin = slow.requestTimestampMargin
  rewardsPerFrame : slow.rewardsPerFrame ≤ fast.rewardsPerFrame
  depositsReserveTarget : fast.depositsReserveTarget ≤ slow.depositsReserveTarget
  maxBalanceExitRequestedPerReportInEth :
    slow.maxBalanceExitRequestedPerReportInEth.eth ≤
      fast.maxBalanceExitRequestedPerReportInEth.eth
  churnLimit : slow.churnLimit ≤ fast.churnLimit
  sweepMeanEpochs : fast.sweepMeanEpochs ≤ slow.sweepMeanEpochs
  frameBalances : slow.frameBalances.GrowsTo fast.frameBalances

namespace FasterInflow

variable {slow fast : Readings} {now : ℤ}

theorem rewardsAvailableForWithdrawals_le (h : FasterInflow slow fast) :
    slow.rewardsAvailableForWithdrawals ≤ fast.rewardsAvailableForWithdrawals := by
  have hrewards := h.rewardsPerFrame
  have htarget := h.depositsReserveTarget
  simp only [rewardsAvailableForWithdrawals]
  split_ifs <;> omega

theorem rewardsPerEpoch_le (h : FasterInflow slow fast) :
    slow.rewardsPerEpoch ≤ fast.rewardsPerEpoch := by
  simp only [rewardsPerEpoch, h.time]
  exact Int.ediv_le_ediv slow.time.epochsPerFrame_pos h.rewardsAvailableForWithdrawals_le

theorem effectiveExitEthPerVEBOFrame_le (h : FasterInflow slow fast) :
    slow.effectiveExitEthPerVEBOFrame ≤ fast.effectiveExitEthPerVEBOFrame := by
  have hchurn : minActivationBalance * slow.churnLimit * slow.epochsPerFrameVEBO ≤
      minActivationBalance * fast.churnLimit * slow.epochsPerFrameVEBO := by
    have := h.churnLimit
    simp only [minActivationBalance]
    gcongr
  have hcap := h.maxBalanceExitRequestedPerReportInEth
  simp only [effectiveExitEthPerVEBOFrame, h.epochsPerFrameVEBO]
  split_ifs <;> omega

theorem totalEthPerVEBOFrame_le (h : FasterInflow slow fast) :
    slow.totalEthPerVEBOFrame ≤ fast.totalEthPerVEBOFrame := by
  simp only [totalEthPerVEBOFrame, h.epochsPerFrameVEBO]
  exact add_le_add h.effectiveExitEthPerVEBOFrame_le
    (mul_le_mul_of_nonneg_right h.rewardsPerEpoch_le (by positivity))

theorem gapAdjustedFrame_eq (h : FasterInflow slow fast) :
    fast.gapAdjustedFrame now = slow.gapAdjustedFrame now := by
  unfold gapAdjustedFrame currentFrame
  rw [h.time]

theorem isRequestShouldBePostponed_eq (h : FasterInflow slow fast) (requestTimestamp : ℤ) :
    fast.isRequestShouldBePostponed now requestTimestamp =
      slow.isRequestShouldBePostponed now requestTimestamp := by
  simp only [isRequestShouldBePostponed, h.gapAdjustedFrame_eq, h.time, h.requestTimestampMargin]

/-! ## Each reached set grows -/

/-- What is covered by rewards is covered by larger ones: a report that has been
reached is not in the past. -/
theorem rewardsReach_subset (h : FasterInflow slow fast) {deficit : ℤ} (hdeficit : 0 ≤ deficit) :
    slow.rewardsReach now deficit ⊆ fast.rewardsReach now deficit := by
  intro frame hframe
  have hcovered : deficit < (slow.time.referenceEpoch frame - slow.time.getCurrentEpoch now) *
    slow.rewardsPerEpoch := hframe
  have hepochs := pos_of_mul_pos_left (hdeficit.trans_lt hcovered) slow.rewardsPerEpoch_nonneg
  change deficit < (fast.time.referenceEpoch frame - fast.time.getCurrentEpoch now) *
    fast.rewardsPerEpoch
  rw [h.time]
  exact hcovered.trans_le (mul_le_mul_of_nonneg_left h.rewardsPerEpoch_le hepochs.le)

theorem tableReach_subset (h : FasterInflow slow fast)
    (hslow : slow.frameBalances.ListedAscending) (hfast : fast.frameBalances.ListedAscending)
    {deficit : ℤ} : slow.tableReach now deficit ⊆ fast.tableReach now deficit := by
  simp only [tableReach, stopped_eq_covers _ hslow, stopped_eq_covers _ hfast,
    h.gapAdjustedFrame_eq]
  exact covers_subset_of_forall₂ h.rewardsAvailableForWithdrawals_le
    (h.frameBalances.forall₂_rows hslow hfast)

theorem exitReach_subset (h : FasterInflow slow fast) {deficit earlier later : ℤ}
    (hdeficit : 0 ≤ deficit) (hepoch : earlier ≤ later) :
    slow.exitReach deficit later ⊆ fast.exitReach deficit earlier := by
  rintro frame ⟨veboFrames, hcovered, hswept⟩
  have hframes := pos_of_mul_pos_left (hdeficit.trans_lt hcovered)
    slow.totalEthPerVEBOFrame_nonneg
  have hsweep := h.sweepMeanEpochs
  refine ⟨veboFrames, hcovered.trans_le ?_, ?_⟩
  · exact mul_le_mul_of_nonneg_left h.totalEthPerVEBOFrame_le hframes.le
  · rw [h.time, h.epochsPerFrameVEBO]
    omega

/-- No projection over the faster inflow is discarded, so every report that some
slower inflow reaches is reached. -/
theorem projectedReach_subset (h : FasterInflow slow fast)
    (hslow : slow.frameBalances.ListedAscending) (hfast : fast.frameBalances.ListedAscending)
    (hstarted : slow.time.initialEpoch ≤ slow.time.getCurrentEpoch now) {deficit earlier later : ℤ}
    (hdeficit : 0 ≤ deficit) (hepoch : earlier ≤ later) :
    slow.projectedReach now deficit later ⊆ fast.projectedReach now deficit earlier := by
  have hframe : 0 ≤ fast.currentFrame now := by
    simp only [currentFrame, h.time, GenesisTimeService.getFrameOfEpoch]
    exact Int.ediv_nonneg (sub_nonneg.mpr hstarted) slow.time.epochsPerFrame_pos.le
  obtain ⟨htableZero, hrewardsZero⟩ := not_or.mp
    (fast.not_endsAtFrameZero now hdeficit hframe fun _ hmem => h.frameBalances.rows_pos hmem)
  rintro frame (htable | hrewards | hexits)
  · refine Or.inl ?_
    rw [discardLeast_eq_self htableZero]
    exact h.tableReach_subset hslow hfast (discardLeast_subset _ _ htable)
  · refine Or.inr (Or.inl ?_)
    rw [discardLeast_eq_self hrewardsZero]
    exact h.rewardsReach_subset hdeficit (discardLeast_subset _ _ hrewards)
  · exact Or.inr (Or.inr (h.exitReach_subset hdeficit hepoch hexits))

end FasterInflow

/-! ## The estimates -/

/-- **Faster inflow never delays**, where both tables are listed in ascending
order. What the buffer and the vaults cover does not depend on the inflow. -/
theorem frame_le_of_fasterInflow {slow fast : Readings} {now : ℤ}
    {args : CalculateWaitingTimeV2Args} {latestEpoch : ℤ}
    {first second : CalculateWaitingTimeV2Result} (h : FasterInflow slow fast)
    (hslowBunker : slow.bunkerModeActive = false) (hfastBunker : fast.bunkerModeActive = false)
    (hstarted : slow.time.initialEpoch ≤ slow.time.getCurrentEpoch now)
    (hslowTable : slow.frameBalances.ListedAscending)
    (hfastTable : fast.frameBalances.ListedAscending) (hepoch : latestEpoch ≤ args.latestEpoch)
    (hfirst : slow.calculateWithdrawalFrame now args = .ok first)
    (hsecond : fast.calculateWithdrawalFrame now { args with latestEpoch } = .ok second) :
    second.frame ≤ first.frame := by
  have hslowTurbo := slow.truthyFrame_getFrameIsBunker now hslowBunker
  have hfastTurbo := fast.truthyFrame_getFrameIsBunker now hfastBunker
  have hiff : CalculateWaitingTimeV2Args.Covered { args with latestEpoch } ↔ args.Covered := Iff.rfl
  by_cases hcovered : args.Covered
  · rw [slow.frame_of_covered now hslowTurbo hcovered hfirst,
      fast.frame_of_covered now hfastTurbo (hiff.mpr hcovered) hsecond,
      h.isRequestShouldBePostponed_eq, h.gapAdjustedFrame_eq]
  · have hslow := slow.isLeast_calculateWithdrawalFrame now hslowTurbo hcovered hfirst
    have hfast := fast.isLeast_calculateWithdrawalFrame now hfastTurbo
      (mt hiff.mp hcovered) hsecond
    exact hfast.2 (h.projectedReach_subset hslowTable hfastTable hstarted
      (CalculateWaitingTimeV2Args.deficit_nonneg hcovered) hepoch hslow.1)

/-- Two known withdrawals, the one of the later frame entered first, and nothing
else that comes in. -/
def knownWithdrawals (frame later : ℤ) : Readings :=
  { sampleReadings with
    maxBalanceExitRequestedPerReportInEth := ⟨0, Nat.zero_le _⟩
    rewardsPerFrame := 0
    frameBalances := Record.ofEntries
      [(.integer (frame + 1), later), (.integer frame, 10 * 10 ^ 18)] }

theorem growsTo_knownWithdrawals {frame low high : ℤ} (hframe : 0 < frame) (hlow : 0 ≤ low)
    (hle : low ≤ high) :
    (knownWithdrawals frame low).frameBalances.GrowsTo
      (knownWithdrawals frame high).frameBalances := by
  have hentries (later : ℤ) : (knownWithdrawals frame later).frameBalances.entries =
      [(.integer (frame + 1), later), (.integer frame, 10 * 10 ^ 18)] :=
    Record.entries_ofEntries (by simp)
  constructor
  · intro entry hmem
    rw [hentries, List.mem_pair] at hmem
    rcases hmem with rfl | rfl
    · exact ⟨frame + 1, by omega, rfl⟩
    · exact ⟨frame, hframe, rfl⟩
  · intro key
    simp [hentries]
  · intro key first second hfirst hsecond
    simp only [hentries, List.mem_pair, Prod.mk.injEq] at hfirst hsecond
    rcases hfirst with ⟨rfl, rfl⟩ | ⟨rfl, rfl⟩ <;> rcases hsecond with ⟨heq, rfl⟩ | ⟨heq, rfl⟩
    · exact ⟨hlow, hle⟩
    · simp at heq
    · simp at heq
    · decide

theorem fasterInflow_knownWithdrawals {frame low high : ℤ} (hframe : 0 < frame) (hlow : 0 ≤ low)
    (hle : low ≤ high) :
    FasterInflow (knownWithdrawals frame low) (knownWithdrawals frame high) where
  time := rfl
  epochsPerFrameVEBO := rfl
  requestTimestampMargin := rfl
  rewardsPerFrame := le_rfl
  depositsReserveTarget := le_rfl
  maxBalanceExitRequestedPerReportInEth := le_rfl
  churnLimit := le_rfl
  sweepMeanEpochs := le_rfl
  frameBalances := growsTo_knownWithdrawals hframe hlow hle

/-- Rewards of 900 ether per frame move the estimate from the frame of the known
withdrawal to the frame before it. -/
theorem frame_le_of_fasterInflow_rewards :
    (⟨700, .rewardsOnly⟩ : CalculateWaitingTimeV2Result).frame ≤
      (⟨701, .validatorBalances⟩ : CalculateWaitingTimeV2Result).frame :=
  have hfaster : FasterInflow (knownWithdrawals 701 1)
      { knownWithdrawals 701 1 with rewardsPerFrame := 900 * 10 ^ 18 } :=
    { fasterInflow_knownWithdrawals (by decide) (by decide) le_rfl with
      rewardsPerFrame := by decide }
  have hslow : (knownWithdrawals 701 1).calculateWithdrawalFrame 1744714823000 tenEther =
      .ok ⟨701, .validatorBalances⟩ := by decide
  frame_le_of_fasterInflow hfaster rfl rfl (by decide) (by decide) (by decide) le_rfl hslow
    (by decide)

/-- Frame numbers from `2 ^ 32 - 1` on are listed in the order in which they were
entered: the larger balance of the later frame covers the request there. -/
theorem fasterInflow_may_delay :
    ¬ ∀ (slow fast : Readings) (now : ℤ) (args : CalculateWaitingTimeV2Args) (latestEpoch : ℤ)
      (first second : CalculateWaitingTimeV2Result), FasterInflow slow fast →
      slow.bunkerModeActive = false → fast.bunkerModeActive = false →
      slow.time.initialEpoch ≤ slow.time.getCurrentEpoch now → latestEpoch ≤ args.latestEpoch →
      slow.calculateWithdrawalFrame now args = .ok first →
      fast.calculateWithdrawalFrame now { args with latestEpoch } = .ok second →
      second.frame ≤ first.frame := by
  intro hnever
  have := hnever (knownWithdrawals (2 ^ 32) 1) (knownWithdrawals (2 ^ 32) (10 * 10 ^ 18))
    1744714823000 tenEther 359100 ⟨2 ^ 32, .validatorBalances⟩ ⟨2 ^ 32 + 1, .validatorBalances⟩
    (fasterInflow_knownWithdrawals (by decide) (by decide) (by decide)) rfl rfl (by decide)
    (by decide) (by decide) (by decide)
  revert this
  decide

end Readings

end WithdrawalsApi
