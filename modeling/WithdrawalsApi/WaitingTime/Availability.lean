/-
# An answer for an amount is an answer for every id

Arithmetic on amounts is partial: a division by zero, a number that is no safe
integer or a date out of range makes a response fail, and one id that fails makes
the response for a list of ids fail. What an amount asks for on top of the queue is
the largest of these computations. So when the service answers for an amount of
nothing, none of the computations for the requests before it can fail, and a list
of ids is answered in full, whatever the ids.
-/

import WithdrawalsApi.WaitingTime.Newcomers
import WithdrawalsApi.WaitingTime.Totality

namespace WithdrawalsApi

open Js Math

/-! ## Lists of ids -/

/-- The list fails as soon as one id does; which of several errors the caller sees is
that of the first id here. -/
def Stores.calculateRequestsTime (stores : Stores) (now : ℤ) (state : BlockState)
    (ids : List ℕ) : Outcome (List GetWaitingTimeInfoResult) := do
  let _balancesStateUnfinalized ← balanceGauge state.unfinalized
  let _balancesStateBuffer ← balanceGauge state.buffer
  let _balancesStateVaults ← balanceGauge state.vaultsBalance
  ids.mapM fun requestId => stores.getWaitingTimeInfoById now state requestId

namespace Readings

variable {r : Readings} {now : ℤ} {state : BlockState} {request : WithdrawalRequest}

/-! ## Smaller deficits -/

/-- What reaches a report for more reaches one for less, and that is not frame zero. -/
theorem truthyFrame_ne_none_of_subset {candidate larger : Option ℤ} {reached covered : Set ℤ}
    (hpicks : Picks candidate reached) (hlarger : Picks larger covered)
    (hsubset : covered ⊆ reached) (hzero : ¬ IsLeast reached 0)
    (h : truthyFrame larger ≠ none) : truthyFrame candidate ≠ none := by
  cases larger with
  | none => exact absurd rfl h
  | some frame =>
      cases candidate with
      | none =>
          have hempty : reached = ∅ := hpicks
          have hmem := hsubset hlarger.1
          rw [hempty] at hmem
          exact absurd hmem (Set.notMem_empty frame)
      | some least =>
          have hne : least ≠ 0 := by
            rintro rfl
            exact hzero hpicks
          simp [truthyFrame, Option.filter, hne]

theorem ediv_le_ediv_of_nonneg {small large rate : ℤ} (hrate : 0 ≤ rate) (hle : small ≤ large) :
    small / rate ≤ large / rate := by
  rcases hrate.eq_or_lt with rfl | hpos
  · simp
  · exact Int.ediv_le_ediv hpos hle

/-- A quotient lies between zero and the quotient of more. -/
theorem isSafeInteger_div_of_le {small large rate : ℤ} (hsmall : 0 ≤ small) (hle : small ≤ large)
    (hrate : 0 ≤ rate) (h : IsSafeInteger (large / rate)) : IsSafeInteger (small / rate) := by
  have hnonneg : 0 ≤ small / rate := Int.ediv_nonneg hsmall hrate
  have hquotient := ediv_le_ediv_of_nonneg hrate hle
  have hupper := h.2
  simp only [IsSafeInteger, maxSafeInteger] at hupper ⊢
  omega

/-- The epoch by which exits have covered less is an epoch, and no later. -/
theorem isSafeInteger_exits_of_le {small large earlier later : ℤ} (hsmall : 0 ≤ small)
    (hle : small ≤ large) (hearlier : 0 ≤ earlier) (hepoch : earlier ≤ later)
    (h : IsSafeInteger (later + (large / r.totalEthPerVEBOFrame + 1) * r.epochsPerFrameVEBO +
      r.sweepMeanEpochs)) :
    IsSafeInteger (earlier + (small / r.totalEthPerVEBOFrame + 1) * r.epochsPerFrameVEBO +
      r.sweepMeanEpochs) := by
  have hquotient : small / r.totalEthPerVEBOFrame ≤ large / r.totalEthPerVEBOFrame :=
    ediv_le_ediv_of_nonneg r.totalEthPerVEBOFrame_nonneg hle
  have hnonneg : 0 ≤ small / r.totalEthPerVEBOFrame :=
    Int.ediv_nonneg hsmall r.totalEthPerVEBOFrame_nonneg
  have hepochs : (small / r.totalEthPerVEBOFrame + 1) * r.epochsPerFrameVEBO ≤
      (large / r.totalEthPerVEBOFrame + 1) * (r.epochsPerFrameVEBO : ℤ) :=
    mul_le_mul_of_nonneg_right (by omega) (by positivity)
  have hepochsNonneg : 0 ≤ (small / r.totalEthPerVEBOFrame + 1) * (r.epochsPerFrameVEBO : ℤ) := by
    positivity
  have hupper := h.2
  simp only [IsSafeInteger, maxSafeInteger] at hupper ⊢
  omega

/-- **A projection for less returns where one for more does**, and where its exits
begin no later. -/
theorem exists_projectWithdrawalFrame_of_le {small large earlier later : ℤ}
    (hindexed : r.frameBalances.ArrayIndexed) (hzero : ¬ r.EndsAtFrameZero now small)
    (hsmall : 0 ≤ small) (hle : small ≤ large) (hearlier : 0 ≤ earlier) (hepoch : earlier ≤ later)
    (h : ∃ result, r.projectWithdrawalFrame now large later = .ok result) :
    ∃ result, r.projectWithdrawalFrame now small earlier = .ok result := by
  obtain ⟨result, h⟩ := h
  simp only [projectWithdrawalFrame, Outcome.bind_eq_ok] at h
  obtain ⟨largeRewards, hlargeRewards, largeTable, hlargeTable, largeExits, hlargeExits, hreduce⟩ :=
    h
  have hlarge : 0 ≤ large := hsmall.trans hle
  have hrewards := rewards_of_calculateFrameByRewardsOnly hlargeRewards
  -- each case returns for the smaller deficit
  obtain ⟨rewards, hrewardsOnly⟩ :=
    (exists_calculateFrameByRewardsOnly_eq_ok_iff hsmall hrewards).mpr fun hne => by
      have hsafe := (exists_calculateFrameByRewardsOnly_eq_ok_iff hlarge hrewards).mp
        ⟨largeRewards, hlargeRewards⟩ hne
      exact isSafeInteger_div_of_le hsmall hle r.rewardsPerEpoch_nonneg hsafe
  obtain ⟨table, htable⟩ : ∃ table, calculateFrameByValidatorBalances small r.frameBalances
      (r.gapAdjustedFrame now) r.rewardsAvailableForWithdrawals = .ok table := by
    refine exists_calculateFrameByValidatorBalances_eq_ok_iff.mpr
      ⟨stopsBeforeNames_of_arrayIndexed hindexed, fun frame hstops => ?_⟩
    obtain ⟨amount, hrow⟩ := hstops.exists_mem
    exact isSafeInteger_of_arrayIndexed hindexed hrow
  obtain ⟨exits, hexits⟩ : ∃ exits, r.calculateFrameExitValidatorsCaseWithVEBO small earlier
      r.rewardsAvailableForWithdrawals = .ok exits := by
    refine (exists_calculateFrameExitValidatorsCaseWithVEBO_eq_ok_iff hsmall).mpr fun hne => ?_
    have hsafe := (exists_calculateFrameExitValidatorsCaseWithVEBO_eq_ok_iff hlarge).mp
      ⟨largeExits, hlargeExits⟩ hne
    exact isSafeInteger_exits_of_le hsmall hle hearlier hepoch hsafe
  -- and some case applies
  have happlies : applicableCases table rewards exits ≠ [] := by
    have hlargeApplies := exists_reduceMinFrame_eq_ok_iff.mp ⟨result, hreduce⟩
    rw [applicableCases_ne_nil_iff] at hlargeApplies ⊢
    refine hlargeApplies.imp ?_ (Or.imp ?_ ?_)
    · exact truthyFrame_ne_none_of_subset
        (r.picks_calculateFrameByValidatorBalances now htable)
        (r.picks_calculateFrameByValidatorBalances now hlargeTable)
        (r.tableReach_antitone now hindexed.rows_ascending hle) fun hends => hzero (Or.inl hends)
    · exact truthyFrame_ne_none_of_subset
        (r.picks_calculateFrameByRewardsOnly now hsmall hrewardsOnly)
        (r.picks_calculateFrameByRewardsOnly now hlarge hlargeRewards)
        (r.rewardsReach_antitone now hle) fun hends => hzero (Or.inr hends)
    · rw [calculateFrameExitValidatorsCaseWithVEBO_ne_none_iff hlargeExits,
        calculateFrameExitValidatorsCaseWithVEBO_ne_none_iff hexits]
      exact id
  obtain ⟨least, hleast⟩ := exists_reduceMinFrame_eq_ok_iff.mpr happlies
  refine ⟨least, ?_⟩
  simp only [projectWithdrawalFrame, Outcome.bind_eq_ok]
  exact ⟨rewards, hrewardsOnly, table, htable, exits, hexits, hleast⟩

/-! ## The estimate for a request -/

/-- A request that was made after the genesis assumes exits at an epoch. -/
theorem maxExitEpochInPast_nonneg (hmade : r.time.genesisTime ≤ request.timestamp) :
    0 ≤ r.maxExitEpochInPast now request := by
  have hepoch : 0 ≤ r.time.getCurrentEpoch (request.timestamp * 1000) := by
    rw [GenesisTimeService.getCurrentEpoch]
    exact Int.ediv_nonneg (by omega) (by decide)
  exact hepoch.trans getCurrentEpoch_le_maxExitEpochInPast

theorem getMaxExitEpoch_nonneg : 0 ≤ r.getMaxExitEpoch now := by
  simp only [getMaxExitEpoch]
  omega

/-- An estimate for an amount on top of the queue is one for what is asked for before
it, whatever else the request assumes. -/
theorem exists_calculateWithdrawalFrame_of_amount (hindexed : r.frameBalances.ArrayIndexed)
    (hstarted : r.time.initialEpoch ≤ r.time.getCurrentEpoch now)
    (hfresh : ∀ row ∈ r.frameBalances.rows, r.currentFrame now < row.1)
    (hqueue : calculateUnfinalizedEthToRequestId r.requests request ≤ state.unfinalized)
    {amount : ℕ}
    (hamount : ∃ result, r.calculateWithdrawalFrame now (r.amountArgs now state amount) =
      .ok result) {latestEpoch : ℤ} (hlatest : 0 ≤ latestEpoch)
    (hepoch : latestEpoch ≤ r.getMaxExitEpoch now) :
    ∃ result, r.calculateWithdrawalFrame now (r.requestArgs state request latestEpoch) =
      .ok result := by
  cases hbunker : truthyFrame (r.getFrameIsBunker now) with
  | some frame => exact ⟨_, r.calculateWithdrawalFrame_of_bunker now hbunker⟩
  | none =>
      by_cases hcovered : (r.requestArgs state request latestEpoch).Covered
      · exact calculateWithdrawalFrame_of_covered hbunker hcovered
      · have hopen : ¬ (r.amountArgs now state amount).Covered :=
          mt (requestCovered_of_amount hqueue) hcovered
        rw [calculateWithdrawalFrame_of_not_covered hbunker hopen] at hamount
        rw [calculateWithdrawalFrame_of_not_covered hbunker hcovered]
        have hdeficit := CalculateWaitingTimeV2Args.deficit_nonneg hcovered
        have hcounted : 0 ≤ r.currentFrame now := currentFrame_nonneg hstarted
        refine exists_projectWithdrawalFrame_of_le hindexed ?_ hdeficit
          (requestDeficit_le_amount hqueue) hlatest hepoch hamount
        exact r.not_endsAtFrameZero now hdeficit hcounted fun row hrow =>
          hcounted.trans_lt (hfresh row hrow)

/-- The requests that wait in the queue, with what the chain says of them. -/
structure Waits (r : Readings) (now : ℤ) (state : BlockState) (request : WithdrawalRequest) :
    Prop where
  /-- It was made between the genesis and the clock. -/
  made : r.time.genesisTime ≤ request.timestamp
  past : (request.timestamp * 1000 : ℤ) ≤ now
  /-- What is asked for up to it is a part of what is asked for at all. -/
  queue : calculateUnfinalizedEthToRequestId r.requests request ≤ state.unfinalized

instance (r : Readings) (now : ℤ) (state : BlockState) (request : WithdrawalRequest) :
    Decidable (Waits r now state request) :=
  decidable_of_iff (r.time.genesisTime ≤ request.timestamp ∧
      (request.timestamp * 1000 : ℤ) ≤ now ∧
      calculateUnfinalizedEthToRequestId r.requests request ≤ state.unfinalized)
    ⟨fun h => ⟨h.1, h.2.1, h.2.2⟩, fun h => ⟨h.made, h.past, h.queue⟩⟩

/-- An amount of nothing is answered, and one frame after the answer there is a date. -/
structure AnswersNothing (r : Readings) (now : ℤ) (state : BlockState)
    (info : GetWaitingTimeInfoResult) : Prop where
  answer : r.getWaitingTimeInfo now state 0 = .ok info
  date : ∀ requestInfo ∈ info.requestInfo,
    requestInfo.finalizationAt + r.time.frameLength + 500 ≤ maxTimeValue

theorem exists_estimateRequest {info : GetWaitingTimeInfoResult}
    (hindexed : r.frameBalances.ArrayIndexed)
    (hstarted : r.time.initialEpoch ≤ r.time.getCurrentEpoch now)
    (hfresh : ∀ row ∈ r.frameBalances.rows, r.currentFrame now < row.1)
    (hanswers : r.AnswersNothing now state info) (hwaits : r.Waits now state request) :
    ∃ response, r.estimateRequest now state request = .ok response := by
  obtain ⟨result, hresult, -, requestInfo, hinfo, -, hin, hat⟩ :=
    getWaitingTimeInfo_eq_ok hanswers.answer
  have hdate := hanswers.date requestInfo hinfo
  have hahead := delay_nonneg_of_fresh hfresh hresult
  have hpromise := abs_le.mp (r.abs_promise_sub_reportTime_le hahead)
  rw [validateTimeResponseWithFallback, if_neg hahead.not_gt] at hin hpromise
  have hlength := r.time.frameLength_pos
  have hpast := hwaits.past
  -- the clock is a date, and so is the time of the request
  have hclock : now + gapAfterReport ≤ maxTimeValue := by omega
  simp only [gapAfterReport, maxTimeValue] at hclock
  have hsafe : IsSafeInteger request.timestamp := by
    simp only [IsSafeInteger, maxSafeInteger]
    omega
  have hexists {latestEpoch : ℤ} (hlatest : 0 ≤ latestEpoch)
      (hepoch : latestEpoch ≤ r.getMaxExitEpoch now) :=
    exists_calculateWithdrawalFrame_of_amount hindexed hstarted hfresh hwaits.queue
      ⟨result, hresult⟩ hlatest hepoch
  obtain ⟨first, hfirst⟩ :=
    hexists (maxExitEpochInPast_nonneg hwaits.made) (maxExitEpochInPast_le hpast)
  have hsecond : ∃ second, r.recalculation now state request = .ok second :=
    hexists getMaxExitEpoch_nonneg le_rfl
  obtain ⟨settled, hsettled⟩ := exists_checkInPastCase_iff.mpr ⟨hsafe, fun _ => hsecond⟩
  obtain ⟨settlement, frame, hsettles, hpromised⟩ := checkInPastCase_eq_ok hfirst hsettled
  have hpresent := hsettles.now_le_promisedAt
  have hbefore : r.promisedAt request settlement frame ≤
      r.time.reportTime result.frame + r.time.frameLength + gapAfterReport := by
    rcases hsettles.promisedAt_cases hindexed hstarted hfresh hpast hwaits.queue hresult with
      ⟨hafter, -⟩ | ⟨hbefore, -⟩
    · rw [hafter, r.time.reportTime_succ]
    · omega
  have hrequestedAt : toISOString (request.timestamp * 1000) = .ok (request.timestamp * 1000) := by
    refine toISOString_eq_ok.mpr ⟨⟨?_, ?_⟩, rfl⟩ <;> simp only [maxTimeValue] <;> omega
  have hfinalizationAt : toISOString (request.timestamp * 1000 + settled.finalizationIn) =
      .ok (request.timestamp * 1000 + settled.finalizationIn) := by
    refine toISOString_eq_ok.mpr ⟨⟨?_, ?_⟩, rfl⟩
    · simp only [maxTimeValue]
      omega
    · omega
  simp only [estimateRequest, Outcome.bind_eq_ok, BigNumber.toNumber_eq_ok, Outcome.pure_eq_ok]
  exact ⟨_, _, ⟨hsafe, rfl⟩, first, hfirst, settled, hsettled, _, hrequestedAt, _,
    hfinalizationAt, rfl⟩

/-! ## Every id -/

theorem exists_getWaitingTimeInfoById {info : GetWaitingTimeInfoResult} {unfinalized : ℕ}
    (hqueue : r.HoldsUnfinalized unfinalized) (hindexed : r.frameBalances.ArrayIndexed)
    (hstarted : r.time.initialEpoch ≤ r.time.getCurrentEpoch now)
    (hfresh : ∀ row ∈ r.frameBalances.rows, r.currentFrame now < row.1)
    (hanswers : r.AnswersNothing now state info)
    (hwaits : ∀ request ∈ r.requests, r.Waits now state request) (requestId : ℕ) :
    ∃ response, r.getWaitingTimeInfoById now state requestId = .ok response := by
  by_cases hprecedes : r.PrecedesQueue requestId
  · exact ⟨_, getWaitingTimeInfoById_of_precedesQueue hprecedes⟩
  · rw [getWaitingTimeInfoById_of_not_precedesQueue hprecedes]
    cases hfind : r.requests.find? fun item => decide (item.id = requestId) with
    | some request =>
        have hmem := List.mem_of_find?_eq_some hfind
        exact exists_estimateRequest hindexed hstarted hfresh hanswers (hwaits request hmem)
    | none =>
        -- the queue has no gap, so the id is not before its end
        have hmem : ¬ ∃ request ∈ r.requests, request.id = requestId := by
          simpa [List.find?_eq_none] using hfind
        have hlast := hqueue.lastRequestId_le hprecedes hmem
        simp only [if_pos hlast, hanswers.answer]
        exact ⟨_, rfl⟩

/-- **Any list of ids is answered in full when an amount of nothing is.** -/
theorem exists_calculateRequestsTime {stores : Stores} {info : GetWaitingTimeInfoResult}
    {unfinalized : ℕ} (hinitialized : stores.isInitialized = true)
    (hreadings : stores.readings = .ok r) (hqueue : r.HoldsUnfinalized unfinalized)
    (hindexed : r.frameBalances.ArrayIndexed)
    (hstarted : r.time.initialEpoch ≤ r.time.getCurrentEpoch now)
    (hfresh : ∀ row ∈ r.frameBalances.rows, r.currentFrame now < row.1)
    (hanswers : r.AnswersNothing now state info)
    (hwaits : ∀ request ∈ r.requests, r.Waits now state request) (ids : List ℕ) :
    ∃ infos, stores.calculateRequestsTime now state ids = .ok infos ∧
      List.Forall₂ (fun requestId response =>
        stores.getWaitingTimeInfoById now state requestId = .ok response) ids infos := by
  have hevery (requestId : ℕ) :
      ∃ response, stores.getWaitingTimeInfoById now state requestId = .ok response := by
    rw [Stores.getWaitingTimeInfoById_of_readings hinitialized hreadings]
    exact exists_getWaitingTimeInfoById hqueue hindexed hstarted hfresh hanswers hwaits requestId
  choose response hresponse using hevery
  have hanswer := hanswers.answer
  simp only [getWaitingTimeInfo, Outcome.bind_eq_ok] at hanswer
  obtain ⟨_, hunfinalized, _, hbuffer, _, hvaults, -⟩ := hanswer
  refine ⟨ids.map response, ?_, ?_⟩
  · simp only [Stores.calculateRequestsTime, hunfinalized, hbuffer, hvaults, Outcome.ok_bind]
    exact Outcome.mapM_eq_ok_map fun requestId _ => hresponse requestId
  · exact List.forall₂_map_right_iff.mpr (List.forall₂_same.mpr fun requestId _ =>
      hresponse requestId)

/-- A queue of one request, id 7, for ten ether that rewards bring in. -/
theorem exists_calculateRequestsTime_lateQueue :
    ∃ infos, lateQueue.toStores.calculateRequestsTime 1744714824000 ⟨10 ^ 19, 0, 0⟩ [3, 7, 9] =
        .ok infos ∧
      List.Forall₂ (fun requestId response => lateQueue.toStores.getWaitingTimeInfoById
        1744714824000 ⟨10 ^ 19, 0, 0⟩ requestId = .ok response) [3, 7, 9] infos := by
  have hqueue : lateQueue.HoldsUnfinalized 1 := ⟨by decide, by decide, by decide⟩
  have hanswers : lateQueue.AnswersNothing 1744714824000 ⟨10 ^ 19, 0, 0⟩
      ⟨some ⟨5399000, 1744720223000, none, none, .rewardsOnly⟩, .calculated, some 0⟩ := by
    refine ⟨by decide, ?_⟩
    rintro _ ⟨⟩
    decide
  exact exists_calculateRequestsTime (lateQueue.isInitialized_toStores (by decide))
    (lateQueue.readings_toStores (by decide) (by decide)) hqueue (by decide) (by decide) (by decide)
    hanswers (by decide) [3, 7, 9]

end Readings

end WithdrawalsApi
