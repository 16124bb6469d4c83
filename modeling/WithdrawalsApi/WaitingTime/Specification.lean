/-
# What an estimate is

Stated apart from the way it is computed, an estimate is one of three things. In bunker
mode it is a fixed number of frames ahead. What the buffer and the vaults cover goes to
the next report, or to the one after it when the next one is too close. Everything else
goes to the first report that one of the inflows reaches, and it is called after the
inflow; where several reach the same report, exits take precedence over rewards and
rewards over the validators whose withdrawals are known.

The computation takes three projections, drops those that are not there or end at frame
zero, and reduces the rest to the smallest, where the later of equal ones is kept. It
returns exactly the estimates of the specification.
-/

import WithdrawalsApi.WaitingTime.NearestReport

namespace WithdrawalsApi

open Js Math

namespace Readings

variable (r : Readings) (now : ℤ)

/-- The frame of bunker mode. That of number zero is taken for none. -/
def BunkerFrame (frame : ℤ) : Prop :=
  r.bunkerModeActive = true ∧ frame = r.currentFrame now + withdrawalBunkerDelayFrames ∧ frame ≠ 0

/-- What the inflow is called that reaches a report. -/
inductive NamesInflow (deficit latestEpoch frame : ℤ) : WaitingTimeCalculationType → Prop
  | exitValidators (hexits : frame ∈ r.exitReach deficit latestEpoch) :
      NamesInflow deficit latestEpoch frame .exitValidators
  | rewardsOnly (hexits : frame ∉ r.exitReach deficit latestEpoch)
      (hrewards : frame ∈ discardLeast 0 (r.rewardsReach now deficit)) :
      NamesInflow deficit latestEpoch frame .rewardsOnly
  | validatorBalances (hexits : frame ∉ r.exitReach deficit latestEpoch)
      (hrewards : frame ∉ discardLeast 0 (r.rewardsReach now deficit)) :
      NamesInflow deficit latestEpoch frame .validatorBalances

/-- The estimates of an amount. -/
inductive Estimates (args : CalculateWaitingTimeV2Args) : CalculateWaitingTimeV2Result → Prop
  | bunker {frame : ℤ} (hbunker : r.BunkerFrame now frame) : Estimates args ⟨frame, .bunker⟩
  | postponed (hbunker : ∀ frame, ¬ r.BunkerFrame now frame) (hcovered : args.Covered)
      (hclose : r.isRequestShouldBePostponed now args.requestTimestamp = true) :
      Estimates args ⟨r.gapAdjustedFrame now + 2, .requestTimestampMargin⟩
  | buffer (hbunker : ∀ frame, ¬ r.BunkerFrame now frame) (hbuffer : args.unfinalized < args.buffer)
      (hclose : r.isRequestShouldBePostponed now args.requestTimestamp = false) :
      Estimates args ⟨r.gapAdjustedFrame now + 1, .buffer⟩
  | vaultsBalance (hbunker : ∀ frame, ¬ r.BunkerFrame now frame)
      (hbuffer : ¬ args.unfinalized < args.buffer)
      (hvaults : args.unfinalized < args.buffer + args.vaultsBalance)
      (hclose : r.isRequestShouldBePostponed now args.requestTimestamp = false) :
      Estimates args ⟨r.gapAdjustedFrame now + 1, .vaultsBalance⟩
  | projection (hbunker : ∀ frame, ¬ r.BunkerFrame now frame) (hcovered : ¬ args.Covered)
      {frame : ℤ} {type : WaitingTimeCalculationType}
      (hprojects : r.ProjectsTo now args.deficit args.latestEpoch frame)
      (hinflow : r.NamesInflow now args.deficit args.latestEpoch frame type) :
      Estimates args ⟨frame, type⟩

variable {r now}

theorem truthyFrame_getFrameIsBunker_iff {frame : ℤ} :
    truthyFrame (r.getFrameIsBunker now) = some frame ↔ r.BunkerFrame now frame := by
  unfold getFrameIsBunker BunkerFrame
  cases r.bunkerModeActive with
  | false => simp [truthyFrame]
  | true =>
      simp only [if_true, truthyFrame, Option.filter_eq_some_iff, Option.some.injEq,
        decide_eq_true_eq, true_and]
      exact and_congr_left' eq_comm

theorem truthyFrame_getFrameIsBunker_eq_none_iff :
    truthyFrame (r.getFrameIsBunker now) = none ↔ ∀ frame, ¬ r.BunkerFrame now frame := by
  simp only [Option.eq_none_iff_forall_not_mem, Option.mem_def, truthyFrame_getFrameIsBunker_iff]

/-! ## The reduction of the projections -/

/-- A report is called after one inflow only. -/
theorem NamesInflow.unique {deficit latestEpoch frame : ℤ}
    {first second : WaitingTimeCalculationType}
    (hfirst : r.NamesInflow now deficit latestEpoch frame first)
    (hsecond : r.NamesInflow now deficit latestEpoch frame second) : first = second := by
  cases hfirst <;> cases hsecond <;> first | rfl | contradiction

/-- An inflow with a later candidate, or none, does not reach a report. -/
theorem not_mem_of_lt_candidate {candidate : Option ℤ} {reached : Set ℤ} {frame : ℤ}
    (hpicks : Picks candidate reached) (hlater : ∀ other ∈ candidate, frame < other) :
    frame ∉ reached := by
  intro hmem
  obtain ⟨other, rfl, hle⟩ := hpicks.exists_le_of_mem hmem
  exact hle.not_gt (hlater other rfl)

/-- The projections with the inflows that they are called after, in the order in which they
are reduced. -/
def projections (table rewards exits : Option ℤ) :
    List (Option ℤ × WaitingTimeCalculationType) :=
  [(table, .validatorBalances), (rewards, .rewardsOnly), (exits, .exitValidators)]

def offers (projection : Option ℤ × WaitingTimeCalculationType) :
    Option CalculateWaitingTimeV2Result :=
  projection.1.map fun frame => ⟨frame, projection.2⟩

theorem offers_eq_some {projection : Option ℤ × WaitingTimeCalculationType}
    {result : CalculateWaitingTimeV2Result} :
    offers projection = some result ↔ projection = (some result.frame, result.type) := by
  obtain ⟨candidate, type⟩ := projection
  cases candidate with
  | none => simp [offers]
  | some frame =>
      cases result
      simp [offers]

theorem applicableCases_eq_filterMap (table rewards exits : Option ℤ) :
    applicableCases table rewards exits =
      (projections (truthyFrame table) (truthyFrame rewards) exits).filterMap offers := by
  unfold applicableCases projections
  cases truthyFrame table <;> cases truthyFrame rewards <;> cases exits <;> rfl

/-- What the reduction keeps is called after the last inflow that reaches its report. -/
theorem namesInflow_of_reduceMinFrame {deficit latestEpoch : ℤ} {table rewards exits : Option ℤ}
    (hrewards : Picks rewards (discardLeast 0 (r.rewardsReach now deficit)))
    (hexits : Picks exits (r.exitReach deficit latestEpoch))
    {result : CalculateWaitingTimeV2Result}
    (h : reduceMinFrame ((projections table rewards exits).filterMap offers) = .ok result) :
    r.NamesInflow now deficit latestEpoch result.frame result.type := by
  cases hcandidates : (projections table rewards exits).filterMap offers with
  | nil =>
      rw [hcandidates] at h
      cases h
  | cons first rest =>
      rw [hcandidates, reduceMinFrame, Except.ok.injEq] at h
      obtain ⟨before, source, after, hsplit, hsource, hafter⟩ :=
        exists_source_of_foldl_keep_smaller CalculateWaitingTimeV2Result.frame offers hcandidates
      rw [h, offers_eq_some] at hsource
      rw [h] at hafter
      have hlater {candidate : Option ℤ} {type : WaitingTimeCalculationType}
          (hmem : (candidate, type) ∈ after) : ∀ other ∈ candidate, result.frame < other :=
        fun other hother => hafter _ hmem ⟨other, type⟩ (offers_eq_some.mpr (by rw [hother]))
      rcases before with _ | ⟨_, _ | ⟨_, _ | ⟨_, more⟩⟩⟩
      · obtain ⟨htable, rfl⟩ := List.cons.inj hsplit
        obtain ⟨-, htype⟩ := Prod.mk.inj (htable.trans hsource)
        rw [← htype]
        have hrewardsLater := hlater List.mem_cons_self
        have hexitsLater := hlater (List.mem_cons_of_mem _ List.mem_cons_self)
        exact .validatorBalances (not_mem_of_lt_candidate hexits hexitsLater)
          (not_mem_of_lt_candidate hrewards hrewardsLater)
      · obtain ⟨-, hrest⟩ := List.cons.inj hsplit
        obtain ⟨hrewardsSource, rfl⟩ := List.cons.inj hrest
        obtain ⟨rfl, htype⟩ := Prod.mk.inj (hrewardsSource.trans hsource)
        rw [← htype]
        exact .rewardsOnly (not_mem_of_lt_candidate hexits (hlater List.mem_cons_self)) hrewards.1
      · obtain ⟨-, hrest⟩ := List.cons.inj hsplit
        obtain ⟨-, hlast⟩ := List.cons.inj hrest
        obtain ⟨rfl, htype⟩ := Prod.mk.inj ((List.cons.inj hlast).1.trans hsource)
        rw [← htype]
        exact .exitValidators hexits.1
      · -- there are three projections only
        have hlength := congrArg List.length hsplit
        simp [projections] at hlength

/-- **The projections return exactly** the first report that an inflow reaches, called after
the inflow. -/
theorem projectWithdrawalFrame_eq_ok_iff {deficit latestEpoch : ℤ} (hdeficit : 0 ≤ deficit)
    {result : CalculateWaitingTimeV2Result} :
    r.projectWithdrawalFrame now deficit latestEpoch = .ok result ↔
      r.ProjectsTo now deficit latestEpoch result.frame ∧
        r.NamesInflow now deficit latestEpoch result.frame result.type := by
  have hnames {result : CalculateWaitingTimeV2Result}
      (h : r.projectWithdrawalFrame now deficit latestEpoch = .ok result) :
      r.NamesInflow now deficit latestEpoch result.frame result.type := by
    simp only [projectWithdrawalFrame, Outcome.bind_eq_ok] at h
    obtain ⟨rewards, hrewards, table, -, exits, hexits, hreduce⟩ := h
    rw [applicableCases_eq_filterMap] at hreduce
    exact namesInflow_of_reduceMinFrame
      ((r.picks_calculateFrameByRewardsOnly now hdeficit hrewards).discard 0)
      (r.picks_calculateFrameExitValidatorsCaseWithVEBO hdeficit hexits) hreduce
  constructor
  · intro h
    exact ⟨(projectWithdrawalFrame_iff hdeficit).mp ⟨result, h, rfl⟩, hnames h⟩
  · rintro ⟨hprojects, hinflow⟩
    obtain ⟨returned, hreturned, hframe⟩ := (projectWithdrawalFrame_iff hdeficit).mpr hprojects
    have htype : returned.type = result.type := by
      have hreturnedNames := hnames hreturned
      rw [hframe] at hreturnedNames
      exact hreturnedNames.unique hinflow
    rw [hreturned]
    cases returned
    cases result
    rw [Except.ok.injEq, CalculateWaitingTimeV2Result.mk.injEq]
    exact ⟨hframe, htype⟩

/-! ## The whole estimate -/

/-- What is covered goes to the next report, or to the one after it. -/
theorem calculateWithdrawalFrame_of_covered_eq {args : CalculateWaitingTimeV2Args}
    (hbunker : truthyFrame (r.getFrameIsBunker now) = none) (hcovered : args.Covered) :
    r.calculateWithdrawalFrame now args =
      .ok (if r.isRequestShouldBePostponed now args.requestTimestamp
        then ⟨r.gapAdjustedFrame now + 2, .requestTimestampMargin⟩
        else ⟨r.gapAdjustedFrame now + 1,
          if args.unfinalized < args.buffer then .buffer else .vaultsBalance⟩) := by
  simp only [calculateWithdrawalFrame, hbunker]
  by_cases hbuffer : args.unfinalized < args.buffer
  · simp only [if_pos hbuffer]
  · simp only [if_neg hbuffer, if_pos (hcovered.resolve_left hbuffer)]

theorem estimates_of_covered {args : CalculateWaitingTimeV2Args}
    {result : CalculateWaitingTimeV2Result} (hcovered : args.Covered)
    (hbunker : truthyFrame (r.getFrameIsBunker now) = none) :
    r.calculateWithdrawalFrame now args = .ok result ↔ r.Estimates now args result := by
  have hnot := truthyFrame_getFrameIsBunker_eq_none_iff.mp hbunker
  rw [calculateWithdrawalFrame_of_covered_eq hbunker hcovered, Except.ok.injEq]
  constructor
  · rintro rfl
    split
    · next hclose => exact .postponed hnot hcovered hclose
    · next hclose =>
      have hfar := Bool.eq_false_iff.mpr hclose
      split
      · next hbuffer => exact .buffer hnot hbuffer hfar
      · next hbuffer => exact .vaultsBalance hnot hbuffer (hcovered.resolve_left hbuffer) hfar
  · intro h
    cases h with
    | bunker hframe => exact absurd hframe (hnot _)
    | postponed _ _ hclose => rw [hclose, if_pos rfl]
    | buffer _ hbuffer hclose => rw [hclose, if_neg Bool.false_ne_true, if_pos hbuffer]
    | vaultsBalance _ hbuffer _ hclose => rw [hclose, if_neg Bool.false_ne_true, if_neg hbuffer]
    | projection _ hopen _ _ => exact absurd hcovered hopen

/-- **`calculateWithdrawalFrame` returns exactly the estimates of its specification.** -/
theorem calculateWithdrawalFrame_eq_ok_iff {args : CalculateWaitingTimeV2Args}
    {result : CalculateWaitingTimeV2Result} :
    r.calculateWithdrawalFrame now args = .ok result ↔ r.Estimates now args result := by
  cases hbunker : truthyFrame (r.getFrameIsBunker now) with
  | some frame =>
      have hframe := truthyFrame_getFrameIsBunker_iff.mp hbunker
      rw [calculateWithdrawalFrame_of_bunker r now hbunker, Except.ok.injEq]
      constructor
      · rintro rfl
        exact .bunker hframe
      · intro h
        cases h with
        | bunker hother => rw [hframe.2.1, hother.2.1]
        | postponed hnot => exact absurd hframe (hnot frame)
        | buffer hnot => exact absurd hframe (hnot frame)
        | vaultsBalance hnot => exact absurd hframe (hnot frame)
        | projection hnot => exact absurd hframe (hnot frame)
  | none =>
      by_cases hcovered : args.Covered
      · exact estimates_of_covered hcovered hbunker
      · have hnot := truthyFrame_getFrameIsBunker_eq_none_iff.mp hbunker
        rw [calculateWithdrawalFrame_of_not_covered hbunker hcovered,
          projectWithdrawalFrame_eq_ok_iff (CalculateWaitingTimeV2Args.deficit_nonneg hcovered)]
        constructor
        · rintro ⟨hprojects, hinflow⟩
          exact .projection hnot hcovered hprojects hinflow
        · intro h
          cases h with
          | bunker hframe => exact absurd hframe (hnot _)
          | postponed _ hcovers => exact absurd hcovers hcovered
          | buffer _ hbuffer => exact absurd (Or.inl hbuffer) hcovered
          | vaultsBalance _ _ hvaults => exact absurd (Or.inr hvaults) hcovered
          | projection _ _ hprojects hinflow => exact ⟨hprojects, hinflow⟩

end Readings

end WithdrawalsApi
