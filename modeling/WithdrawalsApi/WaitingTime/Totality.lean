/-
# When an estimate returns

`BigNumber` arithmetic is partial, and so is the reduction to the least
candidate. For what the buffer and the vaults cover, and in bunker mode, none of
it is used. Otherwise an estimate returns exactly when something drains the
queue and the numbers of epochs and frames are safe integers.

Rewards that amount to less than one wei per epoch make the division by the
rewards of an epoch throw; the results exclude them.
-/

import WithdrawalsApi.WaitingTime.Inflow
import WithdrawalsApi.WaitingTime.NextReport

namespace WithdrawalsApi

open Js Math

/-- The scan stops before it comes to a key that is no number. -/
def StopsBeforeNames (rate : ℤ) (entries : List (PropertyKey × ℤ)) (amount lastFrame : ℤ) : Prop :=
  ∀ before key balance after, entries = before ++ (key, balance) :: after →
    PropertyKey.number? key = none →
      ∃ frame, firstCovering rate (Record.integerRows before) amount lastFrame = some frame

theorem stopsBeforeNames_of_integers {rate : ℤ} {entries : List (PropertyKey × ℤ)}
    (hkeys : ∀ entry ∈ entries, ∃ frame, entry.1 = .integer frame) {amount lastFrame : ℤ} :
    StopsBeforeNames rate entries amount lastFrame := by
  rintro before key balance after rfl hname
  obtain ⟨frame, rfl⟩ := hkeys (key, balance) (by simp)
  cases hname

theorem stopsBeforeNames_of_arrayIndexed {frameBalances : Record ℤ}
    (hkeys : frameBalances.ArrayIndexed) {rate amount lastFrame : ℤ} :
    StopsBeforeNames rate frameBalances.objectEntries amount lastFrame := by
  apply stopsBeforeNames_of_integers
  intro entry hmem
  obtain ⟨n, -, hkey⟩ := hkeys.eq_integer hmem
  exact ⟨n, hkey⟩

/-- Array indices are safe integers. -/
theorem isSafeInteger_of_arrayIndexed {frameBalances : Record ℤ}
    (hkeys : frameBalances.ArrayIndexed) {frame balance : ℤ}
    (hrow : (frame, balance) ∈ frameBalances.rows) : IsSafeInteger frame := by
  have hentry := (Record.mem_rows_of_integers hkeys.exists_eq_integer).mp hrow
  obtain ⟨n, hn⟩ := Option.isSome_iff_exists.mp (hkeys _ hentry)
  have hlt : n < 2 ^ 32 - 1 := PropertyKey.lt_of_arrayIndex? hn
  obtain rfl : frame = n := PropertyKey.integer.inj (PropertyKey.eq_integer_of_arrayIndex? hn)
  simp only [IsSafeInteger, maxSafeInteger]
  omega

/-- A key that is no number, before any row, is come to. -/
theorem not_stopsBeforeNames_name_cons {key : PropertyKey} (h : key.number? = none)
    {rate balance amount lastFrame : ℤ} {rest : List (PropertyKey × ℤ)} :
    ¬ StopsBeforeNames rate ((key, balance) :: rest) amount lastFrame := by
  intro hstops
  obtain ⟨frame, hframe⟩ := hstops [] key balance rest rfl h
  cases hframe

/-- At a row that covers everything the scan stops. -/
theorem stopsBeforeNames_of_covered {key : PropertyKey} {frame : ℤ}
    (h : key.number? = some frame) {rate balance amount lastFrame : ℤ}
    {rest : List (PropertyKey × ℤ)}
    (hcovered : amount - balance - accrued rate lastFrame frame ≤ 0) :
    StopsBeforeNames rate ((key, balance) :: rest) amount lastFrame := by
  intro before name amount after hsplit hname
  cases before with
  | nil =>
      obtain ⟨⟨rfl, -⟩, -⟩ : (key = name ∧ balance = amount) ∧ rest = after := by
        simpa using hsplit
      rw [h] at hname
      cases hname
  | cons first before =>
      obtain ⟨rfl, -⟩ := List.cons.inj hsplit
      exact ⟨frame, by rw [Record.integerRows_cons h, firstCovering, if_pos hcovered]⟩

/-- Past a row that leaves something open, the scan goes on with the rest. -/
theorem stopsBeforeNames_cons {key : PropertyKey} {frame : ℤ} (h : key.number? = some frame)
    {rate balance amount lastFrame : ℤ} {rest : List (PropertyKey × ℤ)}
    (hopen : ¬ amount - balance - accrued rate lastFrame frame ≤ 0) :
    StopsBeforeNames rate ((key, balance) :: rest) amount lastFrame ↔
      StopsBeforeNames rate rest (amount - balance - accrued rate lastFrame frame)
        (max lastFrame frame) := by
  constructor
  · rintro hstops before name amount after rfl hname
    obtain ⟨stop, hstop⟩ := hstops (_ :: before) name amount after rfl hname
    rw [Record.integerRows_cons h, firstCovering, if_neg hopen] at hstop
    exact ⟨stop, hstop⟩
  · intro hstops before name amount after hsplit hname
    cases before with
    | nil =>
        obtain ⟨⟨rfl, -⟩, -⟩ : (key = name ∧ balance = amount) ∧ rest = after := by
          simpa using hsplit
        rw [h] at hname
        cases hname
    | cons first before =>
        obtain ⟨rfl, hrest⟩ := List.cons.inj hsplit
        obtain ⟨stop, hstop⟩ := hstops before name amount after hrest hname
        refine ⟨stop, ?_⟩
        rw [Record.integerRows_cons h, firstCovering, if_neg hopen]
        exact hstop

/-- The loop returns unless it comes to a key that is no number, or stops at a
frame that is no safe integer. -/
theorem exists_validatorBalancesLoop_eq_ok_iff {rate : ℤ} {entries : List (PropertyKey × ℤ)}
    {amount lastFrame : ℤ} :
    (∃ candidate, validatorBalancesLoop rate entries amount lastFrame = .ok candidate) ↔
      StopsBeforeNames rate entries amount lastFrame ∧
        ∀ frame, firstCovering rate (Record.integerRows entries) amount lastFrame = some frame →
          IsSafeInteger frame := by
  induction entries generalizing amount lastFrame with
  | nil => simp [validatorBalancesLoop, firstCovering, StopsBeforeNames]
  | cons entry rest ih =>
      obtain ⟨⟨key, balance⟩, rfl⟩ : ∃ e, e = entry := ⟨entry, rfl⟩
      cases hkey : key.number? with
      | none =>
          simp [validatorBalancesLoop_name hkey, not_stopsBeforeNames_name_cons hkey]
      | some frame =>
          rw [validatorBalancesLoop_number hkey]
          split
          case isTrue hcovered =>
            simp only [stopsBeforeNames_of_covered hkey hcovered, Record.integerRows_cons hkey,
              firstCovering, if_pos hcovered, Outcome.map_eq_ok, BigNumber.toNumber_eq_ok,
              true_and]
            constructor
            · rintro ⟨_, _, ⟨hsafe, rfl⟩, rfl⟩ _ ⟨⟩
              exact hsafe
            · intro hsafe
              exact ⟨_, _, ⟨hsafe frame rfl, rfl⟩, rfl⟩
          case isFalse hopen =>
            rw [ih, stopsBeforeNames_cons hkey hopen]
            simp only [Record.integerRows_cons hkey, firstCovering, if_neg hopen]

namespace Readings

variable (r : Readings) (now : ℤ)

/-- Something drains the queue: exits, rewards, or the known withdrawals, which
must not cover the deficit at frame zero. -/
def Drains (deficit : ℤ) : Prop :=
  0 < r.maxBalanceExitRequestedPerReportInEth.eth ∨ r.rewardsAvailableForWithdrawals ≠ 0 ∨
    ∃ frame, frame ≠ 0 ∧ StopsAt r.rewardsAvailableForWithdrawals r.frameBalances.rows deficit
      (r.gapAdjustedFrame now) frame

/-- The numbers that an estimate converts are safe integers. -/
structure ConvertsSafely (deficit latestEpoch : ℤ) : Prop where
  rewards : r.rewardsAvailableForWithdrawals ≠ 0 → IsSafeInteger (deficit / r.rewardsPerEpoch)
  table : ∀ frame, StopsAt r.rewardsAvailableForWithdrawals r.frameBalances.rows deficit
    (r.gapAdjustedFrame now) frame → IsSafeInteger frame
  exits : r.totalEthPerVEBOFrame ≠ 0 → IsSafeInteger (latestEpoch +
    (deficit / r.totalEthPerVEBOFrame + 1) * r.epochsPerFrameVEBO + r.sweepMeanEpochs)

/-- What the projections of a deficit need to return: rewards of a wei per epoch, or
none, keys that are numbers up to the row where the scan stops, something that drains
the queue, and numbers that are safe integers. -/
structure Projects (deficit latestEpoch : ℤ) : Prop where
  rewards : r.rewardsAvailableForWithdrawals = 0 ∨
    r.time.epochsPerFrame ≤ r.rewardsAvailableForWithdrawals
  keys : StopsBeforeNames r.rewardsAvailableForWithdrawals r.frameBalances.objectEntries deficit
    (r.gapAdjustedFrame now)
  drains : r.Drains now deficit
  converts : r.ConvertsSafely now deficit latestEpoch

/-- What an estimate needs to return. -/
def Estimable (args : CalculateWaitingTimeV2Args) : Prop :=
  truthyFrame (r.getFrameIsBunker now) ≠ none ∨ args.Covered ∨
    r.Projects now args.deficit args.latestEpoch

variable {r now} {deficit latestEpoch : ℤ}

theorem rewardsPerEpoch_pos
    (hrewards : r.rewardsAvailableForWithdrawals = 0 ∨
      r.time.epochsPerFrame ≤ r.rewardsAvailableForWithdrawals)
    (hne : r.rewardsAvailableForWithdrawals ≠ 0) : 0 < r.rewardsPerEpoch := by
  have hle := hrewards.resolve_left hne
  have hone : 1 ≤ r.rewardsPerEpoch := by
    rw [rewardsPerEpoch, Int.le_ediv_iff_mul_le r.time.epochsPerFrame_pos, one_mul]
    exact hle
  omega

/-- The case of the rewards returns only for rewards of a wei per epoch, or for none. -/
theorem rewards_of_calculateFrameByRewardsOnly {candidate : Option ℤ}
    (h : r.calculateFrameByRewardsOnly now deficit r.rewardsAvailableForWithdrawals =
      .ok candidate) :
    r.rewardsAvailableForWithdrawals = 0 ∨
      r.time.epochsPerFrame ≤ r.rewardsAvailableForWithdrawals := by
  rw [calculateFrameByRewardsOnly_eq] at h
  split at h
  case isTrue hnone => exact Or.inl hnone
  case isFalse =>
    obtain ⟨_, hquotient, -⟩ := Outcome.bind_eq_ok.mp h
    have hne := (BigNumber.div_eq_ok.mp hquotient).1
    have hone : 1 ≤ r.rewardsPerEpoch :=
      Int.add_one_le_iff.mpr (lt_of_le_of_ne r.rewardsPerEpoch_nonneg hne.symm)
    rw [rewardsPerEpoch, Int.le_ediv_iff_mul_le r.time.epochsPerFrame_pos, one_mul] at hone
    exact Or.inr hone

/-- Exits and rewards release something as soon as there is a cap or a reward. -/
theorem totalEthPerVEBOFrame_ne_zero_iff (hchurn : 0 < r.churnLimit)
    (hrewards : r.rewardsAvailableForWithdrawals = 0 ∨
      r.time.epochsPerFrame ≤ r.rewardsAvailableForWithdrawals) :
    r.totalEthPerVEBOFrame ≠ 0 ↔
      0 < r.maxBalanceExitRequestedPerReportInEth.eth ∨
        r.rewardsAvailableForWithdrawals ≠ 0 := by
  have hexits : 0 < r.effectiveExitEthPerVEBOFrame ↔
      0 < r.maxBalanceExitRequestedPerReportInEth.eth := by
    have hflow : 0 < minActivationBalance * r.churnLimit * r.epochsPerFrameVEBO := by
      simp only [minActivationBalance]
      positivity
    have hcap : (0 : ℤ) < r.maxBalanceExitRequestedPerReportInEth.eth * 10 ^ 18 ↔
        0 < r.maxBalanceExitRequestedPerReportInEth.eth := by omega
    simp only [effectiveExitEthPerVEBOFrame]
    split_ifs with hlt
    · exact iff_of_true hflow (hcap.mp (hflow.trans hlt))
    · exact hcap
  have hvebo : (0 : ℤ) < r.epochsPerFrameVEBO := by positivity
  by_cases hzero : r.rewardsAvailableForWithdrawals = 0
  · have hrate : r.rewardsPerEpoch = 0 := by simp [rewardsPerEpoch, hzero]
    rw [← hexits]
    have := r.effectiveExitEthPerVEBOFrame_nonneg
    simp only [totalEthPerVEBOFrame, hrate, hzero, zero_mul, add_zero, ne_eq, not_true_eq_false,
      or_false]
    omega
  · have hrate := rewardsPerEpoch_pos hrewards hzero
    have hpos : 0 < r.totalEthPerVEBOFrame :=
      add_pos_of_nonneg_of_pos r.effectiveExitEthPerVEBOFrame_nonneg (mul_pos hrate hvebo)
    exact iff_of_true hpos.ne' (Or.inr hzero)

theorem exists_calculateFrameByRewardsOnly_eq_ok_iff (hdeficit : 0 ≤ deficit)
    (hrewards : r.rewardsAvailableForWithdrawals = 0 ∨
      r.time.epochsPerFrame ≤ r.rewardsAvailableForWithdrawals) :
    (∃ candidate, r.calculateFrameByRewardsOnly now deficit r.rewardsAvailableForWithdrawals =
        .ok candidate) ↔
      (r.rewardsAvailableForWithdrawals ≠ 0 → IsSafeInteger (deficit / r.rewardsPerEpoch)) := by
  rw [calculateFrameByRewardsOnly_eq]
  split
  case isTrue hzero => simp [hzero]
  case isFalse hne =>
    have hrate := rewardsPerEpoch_pos hrewards hne
    simp only [BigNumber.div_of_pos hdeficit hrate, Outcome.ok_bind, Outcome.bind_eq_ok,
      BigNumber.toNumber_eq_ok, Outcome.pure_eq_ok]
    constructor
    · rintro ⟨_, _, ⟨hsafe, -⟩, -⟩ -
      exact hsafe
    · intro hsafe
      exact ⟨_, _, ⟨hsafe hne, rfl⟩, rfl⟩

theorem exists_calculateFrameExitValidatorsCaseWithVEBO_eq_ok_iff (hdeficit : 0 ≤ deficit) :
    (∃ candidate, r.calculateFrameExitValidatorsCaseWithVEBO deficit latestEpoch
        r.rewardsAvailableForWithdrawals = .ok candidate) ↔
      (r.totalEthPerVEBOFrame ≠ 0 → IsSafeInteger (latestEpoch +
        (deficit / r.totalEthPerVEBOFrame + 1) * r.epochsPerFrameVEBO + r.sweepMeanEpochs)) := by
  rw [calculateFrameExitValidatorsCaseWithVEBO_eq]
  split
  case isTrue hzero => simp [hzero]
  case isFalse hne =>
    have htotal := lt_of_le_of_ne r.totalEthPerVEBOFrame_nonneg (Ne.symm hne)
    simp only [BigNumber.div_of_pos hdeficit htotal, Outcome.ok_bind, Outcome.bind_eq_ok,
      BigNumber.toNumber_eq_ok, Outcome.pure_eq_ok]
    constructor
    · rintro ⟨_, _, ⟨hsafe, -⟩, -⟩ -
      exact hsafe
    · intro hsafe
      exact ⟨_, _, ⟨hsafe hne, rfl⟩, rfl⟩

theorem exists_calculateFrameByValidatorBalances_eq_ok_iff :
    (∃ candidate, calculateFrameByValidatorBalances deficit r.frameBalances
        (r.gapAdjustedFrame now) r.rewardsAvailableForWithdrawals = .ok candidate) ↔
      StopsBeforeNames r.rewardsAvailableForWithdrawals r.frameBalances.objectEntries deficit
          (r.gapAdjustedFrame now) ∧
        ∀ frame, StopsAt r.rewardsAvailableForWithdrawals r.frameBalances.rows deficit
          (r.gapAdjustedFrame now) frame → IsSafeInteger frame := by
  simp only [← firstCovering_eq_some_iff]
  exact exists_validatorBalancesLoop_eq_ok_iff

/-- The reduction returns unless there is nothing to reduce. -/
theorem exists_reduceMinFrame_eq_ok_iff {candidates : List CalculateWaitingTimeV2Result} :
    (∃ result, reduceMinFrame candidates = .ok result) ↔ candidates ≠ [] := by
  cases candidates <;> simp [reduceMinFrame]

theorem applicableCases_ne_nil_iff {table rewards exits : Option ℤ} :
    applicableCases table rewards exits ≠ [] ↔
      truthyFrame table ≠ none ∨ truthyFrame rewards ≠ none ∨ exits ≠ none := by
  unfold applicableCases
  cases truthyFrame table <;> cases truthyFrame rewards <;> cases exits <;> simp

/-- The case of the rewards applies only where there are some. -/
theorem rewards_ne_zero_of_calculateFrameByRewardsOnly {candidate : Option ℤ}
    (h : r.calculateFrameByRewardsOnly now deficit r.rewardsAvailableForWithdrawals =
      .ok candidate) (hsome : truthyFrame candidate ≠ none) :
    r.rewardsAvailableForWithdrawals ≠ 0 := by
  intro hzero
  rw [calculateFrameByRewardsOnly_eq, if_pos hzero] at h
  cases h
  exact hsome rfl

/-- The case of the exits applies exactly where a frame releases something. -/
theorem calculateFrameExitValidatorsCaseWithVEBO_ne_none_iff {candidate : Option ℤ}
    (h : r.calculateFrameExitValidatorsCaseWithVEBO deficit latestEpoch
      r.rewardsAvailableForWithdrawals = .ok candidate) :
    candidate ≠ none ↔ r.totalEthPerVEBOFrame ≠ 0 := by
  rw [calculateFrameExitValidatorsCaseWithVEBO_eq] at h
  split at h
  case isTrue hzero =>
    obtain rfl : none = candidate := by simpa using h
    simp [hzero]
  case isFalse hne =>
    simp only [Outcome.bind_eq_ok, Outcome.pure_eq_ok] at h
    obtain ⟨_, -, _, -, rfl⟩ := h
    simp [hne]

/-- Some case applies exactly when something drains the queue. Rewards drain it
through the exit case as well, so it does not matter where they end. -/
theorem applicableCases_ne_nil_iff_drains (hchurn : 0 < r.churnLimit)
    (hrewards : r.rewardsAvailableForWithdrawals = 0 ∨
      r.time.epochsPerFrame ≤ r.rewardsAvailableForWithdrawals)
    {table rewards exits : Option ℤ}
    (htable : calculateFrameByValidatorBalances deficit r.frameBalances (r.gapAdjustedFrame now)
      r.rewardsAvailableForWithdrawals = .ok table)
    (hrewardsOnly : r.calculateFrameByRewardsOnly now deficit r.rewardsAvailableForWithdrawals =
      .ok rewards)
    (hexits : r.calculateFrameExitValidatorsCaseWithVEBO deficit latestEpoch
      r.rewardsAvailableForWithdrawals = .ok exits) :
    applicableCases table rewards exits ≠ [] ↔ r.Drains now deficit := by
  have htotal := totalEthPerVEBOFrame_ne_zero_iff hchurn hrewards
  have hscan : table = firstCovering r.rewardsAvailableForWithdrawals r.frameBalances.rows
      deficit (r.gapAdjustedFrame now) := validatorBalancesLoop_eq_ok htable
  have htableSome : truthyFrame table ≠ none ↔ ∃ frame, frame ≠ 0 ∧
      StopsAt r.rewardsAvailableForWithdrawals r.frameBalances.rows deficit
        (r.gapAdjustedFrame now) frame := by
    simp only [← firstCovering_eq_some_iff, ← hscan]
    cases table <;> simp [truthyFrame, and_comm]
  have hexitsSome := calculateFrameExitValidatorsCaseWithVEBO_ne_none_iff hexits
  rw [applicableCases_ne_nil_iff, htableSome, hexitsSome, htotal]
  constructor
  · rintro (hstop | hsome | hflow)
    · exact Or.inr (Or.inr hstop)
    · exact Or.inr (Or.inl (rewards_ne_zero_of_calculateFrameByRewardsOnly hrewardsOnly hsome))
    · exact hflow.elim Or.inl fun hne => Or.inr (Or.inl hne)
  · rintro (hcap | hne | hstop)
    · exact Or.inr (Or.inr (Or.inl hcap))
    · exact Or.inr (Or.inr (Or.inr hne))
    · exact Or.inl hstop

/-- **The projections return exactly when** something drains the queue, the keys they
come to are numbers and the converted numbers are safe integers. -/
theorem exists_projectWithdrawalFrame_iff_projects (hdeficit : 0 ≤ deficit)
    (hchurn : 0 < r.churnLimit) :
    (∃ result, r.projectWithdrawalFrame now deficit latestEpoch = .ok result) ↔
      r.Projects now deficit latestEpoch := by
  simp only [projectWithdrawalFrame, Outcome.bind_eq_ok]
  constructor
  · rintro ⟨result, rewards, hrewardsOnly, table, htable, exits, hexits, hreduce⟩
    have hrewards := rewards_of_calculateFrameByRewardsOnly hrewardsOnly
    obtain ⟨hkeys, hsafe⟩ := exists_calculateFrameByValidatorBalances_eq_ok_iff.mp ⟨table, htable⟩
    have hne := exists_reduceMinFrame_eq_ok_iff.mp ⟨result, hreduce⟩
    exact {
      rewards := hrewards
      keys := hkeys
      drains :=
        (applicableCases_ne_nil_iff_drains hchurn hrewards htable hrewardsOnly hexits).mp hne
      converts := {
        rewards := (exists_calculateFrameByRewardsOnly_eq_ok_iff hdeficit hrewards).mp
          ⟨rewards, hrewardsOnly⟩
        table := hsafe
        exits := (exists_calculateFrameExitValidatorsCaseWithVEBO_eq_ok_iff hdeficit).mp
          ⟨exits, hexits⟩ } }
  · rintro ⟨hrewards, hkeys, hdrains, hconverts⟩
    obtain ⟨rewards, hrewardsOnly⟩ :=
      (exists_calculateFrameByRewardsOnly_eq_ok_iff hdeficit hrewards).mpr hconverts.rewards
    obtain ⟨table, htable⟩ :=
      exists_calculateFrameByValidatorBalances_eq_ok_iff.mpr ⟨hkeys, hconverts.table⟩
    obtain ⟨exits, hexits⟩ :=
      (exists_calculateFrameExitValidatorsCaseWithVEBO_eq_ok_iff hdeficit).mpr hconverts.exits
    have hne :=
      (applicableCases_ne_nil_iff_drains hchurn hrewards htable hrewardsOnly hexits).mpr hdrains
    obtain ⟨result, hreduce⟩ := exists_reduceMinFrame_eq_ok_iff.mpr hne
    exact ⟨result, rewards, hrewardsOnly, table, htable, exits, hexits, hreduce⟩

/-- What is covered is estimated without a projection. -/
theorem calculateWithdrawalFrame_of_covered {args : CalculateWaitingTimeV2Args}
    (hbunker : truthyFrame (r.getFrameIsBunker now) = none) (hcovered : args.Covered) :
    ∃ result, r.calculateWithdrawalFrame now args = .ok result := by
  simp only [calculateWithdrawalFrame, hbunker]
  split
  · exact ⟨_, rfl⟩
  · next hbuffer =>
    rw [if_pos (hcovered.resolve_left hbuffer)]
    exact ⟨_, rfl⟩

/-- What is not covered is projected. -/
theorem calculateWithdrawalFrame_of_not_covered {args : CalculateWaitingTimeV2Args}
    (hbunker : truthyFrame (r.getFrameIsBunker now) = none) (hcovered : ¬ args.Covered) :
    r.calculateWithdrawalFrame now args =
      r.projectWithdrawalFrame now args.deficit args.latestEpoch := by
  have hopen := hcovered
  simp only [CalculateWaitingTimeV2Args.Covered, not_or] at hopen
  simp only [calculateWithdrawalFrame, hbunker, if_neg hopen.1, if_neg hopen.2]
  rfl

/-- An estimate returns exactly when bunker mode or the buffer and the vaults settle it,
or the projections return. -/
theorem exists_calculateWithdrawalFrame_iff_estimable {args : CalculateWaitingTimeV2Args}
    (hchurn : 0 < r.churnLimit) :
    (∃ result, r.calculateWithdrawalFrame now args = .ok result) ↔ r.Estimable now args := by
  unfold Estimable
  cases hbunker : truthyFrame (r.getFrameIsBunker now) with
  | some frame => simp [r.calculateWithdrawalFrame_of_bunker now hbunker]
  | none =>
      by_cases hcovered : args.Covered
      · exact iff_of_true (calculateWithdrawalFrame_of_covered hbunker hcovered)
          (Or.inr (Or.inl hcovered))
      · rw [calculateWithdrawalFrame_of_not_covered hbunker hcovered,
          exists_projectWithdrawalFrame_iff_projects
            (CalculateWaitingTimeV2Args.deficit_nonneg hcovered) hchurn]
        simp [hcovered]

/-- **An estimate returns exactly when** bunker mode or the buffer and the vaults
settle it, or something drains the queue and the converted numbers are safe
integers. -/
theorem exists_calculateWithdrawalFrame_eq_ok_iff {args : CalculateWaitingTimeV2Args}
    (hchurn : 4 ≤ r.churnLimit)
    (hkeys : ∀ entry ∈ r.frameBalances.entries, ∃ frame : ℕ, entry.1 = .integer frame)
    (hrewards : r.rewardsAvailableForWithdrawals = 0 ∨
      r.time.epochsPerFrame ≤ r.rewardsAvailableForWithdrawals) :
    (∃ result, r.calculateWithdrawalFrame now args = .ok result) ↔
      truthyFrame (r.getFrameIsBunker now) ≠ none ∨ args.Covered ∨
        (r.Drains now args.deficit ∧ r.ConvertsSafely now args.deficit args.latestEpoch) := by
  have hnumbers : StopsBeforeNames r.rewardsAvailableForWithdrawals
      r.frameBalances.objectEntries args.deficit (r.gapAdjustedFrame now) := by
    apply stopsBeforeNames_of_integers
    intro entry hmem
    obtain ⟨frame, hframe⟩ := hkeys entry (r.frameBalances.objectEntries_perm.mem_iff.mp hmem)
    exact ⟨frame, hframe⟩
  have hprojects : r.Projects now args.deficit args.latestEpoch ↔
      r.Drains now args.deficit ∧ r.ConvertsSafely now args.deficit args.latestEpoch :=
    ⟨fun h => ⟨h.drains, h.converts⟩, fun h => ⟨hrewards, hnumbers, h.1, h.2⟩⟩
  rw [exists_calculateWithdrawalFrame_iff_estimable (by omega), Estimable, hprojects]

theorem exists_calculateWithdrawalFrame_eq_ok_iff_tenEther :
    (∃ result, sampleReadings.calculateWithdrawalFrame 1744714823000 tenEther = .ok result) ↔
      truthyFrame (sampleReadings.getFrameIsBunker 1744714823000) ≠ none ∨ tenEther.Covered ∨
        (sampleReadings.Drains 1744714823000 tenEther.deficit ∧
          sampleReadings.ConvertsSafely 1744714823000 tenEther.deficit tenEther.latestEpoch) :=
  exists_calculateWithdrawalFrame_eq_ok_iff (by decide) (by simp [sampleReadings, Record.empty])
    (by decide)

/-- Governance has frozen the exits, and no rewards come in. -/
def frozenExits : Readings :=
  { sampleReadings with
    maxBalanceExitRequestedPerReportInEth := ⟨0, by norm_num⟩
    rewardsPerFrame := 0 }

/-- With no known withdrawal either, no case applies and the reduction throws. -/
theorem calculateWithdrawalFrame_not_total :
    ¬ ∀ (stores : Stores) (r : Readings) (now : ℤ) (args : CalculateWaitingTimeV2Args),
      stores.isInitialized = true → stores.readings = .ok r →
      4 ≤ r.churnLimit → r.churnLimit ≤ 8 →
      (∀ entry ∈ r.frameBalances.entries, ∃ frame : ℕ, entry.1 = .integer frame) →
      0 ≤ args.unfinalized → 0 ≤ args.buffer → 0 ≤ args.vaultsBalance →
      ∃ result, r.calculateWithdrawalFrame now args = .ok result := by
  intro htotal
  have hthrows : frozenExits.calculateWithdrawalFrame 1744714823000 tenEther =
      .error .emptyReduce := by decide
  obtain ⟨result, hresult⟩ := htotal frozenExits.toStores frozenExits 1744714823000 tenEther
    (frozenExits.isInitialized_toStores (by decide))
    (frozenExits.readings_toStores (by decide) (by decide)) (by decide) (by decide)
    (by simp [frozenExits, sampleReadings, Record.empty]) (by decide) (by decide) (by decide)
  rw [hthrows] at hresult
  cases hresult

end Readings

end WithdrawalsApi
