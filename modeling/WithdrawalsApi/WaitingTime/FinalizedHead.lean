/-
# Finalizing the head of the queue

A report finalizes the first requests of the queue and pays them out of the
buffer. Every estimate reads the queue ahead of a request and the buffer, and
both shrink by the same amount. What is left open does not change, and neither
does any answer about a request that is still queued, about an id that is still
to come, or about an amount on top of the queue. Only the announced next update
is another one.

For an amount the queue is read from the chain as one number, for a request it is
summed up over the stored queue; the two agree that the payment cancels.
-/

import WithdrawalsApi.WaitingTime.Fifo

namespace WithdrawalsApi

open Js

/-- What the first requests of a queue ask for. -/
def headAmount (requests : List WithdrawalRequest) (count : ℕ) : ℕ :=
  ((requests.take count).map WithdrawalRequest.amountOfStETH).sum

/-- The chain after a payment out of the buffer to the head of the queue. -/
def BlockState.payOut (state : BlockState) (amount : ℤ) : BlockState :=
  { state with unfinalized := state.unfinalized - amount, buffer := state.buffer - amount }

/-- A response with the next update that is announced after the payment. -/
def GetWaitingTimeInfoResult.reannounced (info : GetWaitingTimeInfoResult) (nextUpdate : Date) :
    GetWaitingTimeInfoResult :=
  { info with nextCalculationAt := some nextUpdate.toISOString }

/-- The amounts ahead of a request that stays are the finalized ones and those
that stay. -/
theorem calculateUnfinalizedEthToRequestId_drop {requests : List WithdrawalRequest} {count : ℕ}
    {request : WithdrawalRequest}
    (hstays : ∀ settled ∈ requests.take count, settled.id ≠ request.id) :
    calculateUnfinalizedEthToRequestId requests request =
      headAmount requests count +
        calculateUnfinalizedEthToRequestId (requests.drop count) request := by
  induction requests generalizing count with
  | nil => simp [headAmount]
  | cons entry rest ih =>
      cases count with
      | zero => simp [headAmount]
      | succ count =>
          rw [List.take_succ_cons, List.forall_mem_cons] at hstays
          have hhead : headAmount (entry :: rest) (count + 1) =
              entry.amountOfStETH + headAmount rest count := by
            simp [headAmount]
          rw [calculateUnfinalizedEthToRequestId, if_neg hstays.1, ih hstays.2, hhead,
            List.drop_succ_cons]
          push_cast
          ring

/-- A gauge that shows an amount shows what is left of it. -/
theorem exists_balanceGauge_sub {amount gauge : ℤ} {paid : ℕ} (hpaid : (paid : ℤ) ≤ amount)
    (h : balanceGauge amount = .ok gauge) : ∃ less, balanceGauge (amount - paid) = .ok less := by
  have hether : (0 : ℤ) < 10 ^ 18 := by positivity
  rw [balanceGauge, BigNumber.div_of_pos (by omega) hether, Outcome.ok_bind,
    BigNumber.toNumber_eq_ok] at h
  refine ⟨(amount - paid) / 10 ^ 18, ?_⟩
  rw [balanceGauge, BigNumber.div_of_pos (by omega) hether, Outcome.ok_bind,
    BigNumber.toNumber_eq_ok]
  have hnonneg : 0 ≤ (amount - paid) / 10 ^ 18 := Int.ediv_nonneg (by omega) hether.le
  have hle : (amount - paid) / 10 ^ 18 ≤ amount / 10 ^ 18 := Int.ediv_le_ediv hether (by omega)
  have hsafe := h.1.2
  refine ⟨⟨?_, hle.trans hsafe⟩, rfl⟩
  simp only [maxSafeInteger] at hsafe ⊢
  omega

namespace Readings

/-- The readings after the first requests have left the queue. -/
def finalizeHead (r : Readings) (count : ℕ) (nextUpdate : Date) : Readings :=
  { r with requests := r.requests.drop count, nextUpdate }

variable {r : Readings} {now : ℤ} {state : BlockState} {count : ℕ} {nextUpdate : Date}

/-! ## The estimates -/

/-- An estimate weighs what is asked for against the buffer: an amount that leaves
both leaves the estimate. -/
theorem calculateWithdrawalFrame_payOut (args : CalculateWaitingTimeV2Args) (amount : ℤ) :
    (r.finalizeHead count nextUpdate).calculateWithdrawalFrame now
        { args with unfinalized := args.unfinalized - amount, buffer := args.buffer - amount } =
      r.calculateWithdrawalFrame now args := by
  have hbuffer : args.unfinalized - amount < args.buffer - amount ↔
      args.unfinalized < args.buffer := by omega
  have hfullBuffer : args.unfinalized - amount < args.buffer - amount + args.vaultsBalance ↔
      args.unfinalized < args.buffer + args.vaultsBalance := by omega
  have hdeficit : args.unfinalized - amount - (args.buffer - amount + args.vaultsBalance) =
      args.unfinalized - (args.buffer + args.vaultsBalance) := by ring
  simp only [calculateWithdrawalFrame, hbuffer, hfullBuffer, hdeficit]
  rfl

/-- The estimate for a request that stays. -/
theorem calculateWithdrawalFrame_requestArgs_payOut {request : WithdrawalRequest}
    (hstays : ∀ settled ∈ r.requests.take count, settled.id ≠ request.id) (latestEpoch : ℤ) :
    (r.finalizeHead count nextUpdate).calculateWithdrawalFrame now
        ((r.finalizeHead count nextUpdate).requestArgs
          (state.payOut (headAmount r.requests count)) request latestEpoch) =
      r.calculateWithdrawalFrame now (r.requestArgs state request latestEpoch) := by
  have hargs : (r.finalizeHead count nextUpdate).requestArgs
      (state.payOut (headAmount r.requests count)) request latestEpoch =
      { r.requestArgs state request latestEpoch with
        unfinalized := (r.requestArgs state request latestEpoch).unfinalized -
          headAmount r.requests count
        buffer := (r.requestArgs state request latestEpoch).buffer -
          headAmount r.requests count } := by
    simp [requestArgs, finalizeHead, BlockState.payOut,
      calculateUnfinalizedEthToRequestId_drop hstays]
  rw [hargs, calculateWithdrawalFrame_payOut]

/-- The correction of an estimate in the past. -/
theorem checkInPastCase_finalizeHead {request : WithdrawalRequest}
    (hstays : ∀ settled ∈ r.requests.take count, settled.id ≠ request.id)
    (estimate : CalculateWaitingTimeV2Result) :
    (r.finalizeHead count nextUpdate).checkInPastCase now
        (state.payOut (headAmount r.requests count)) request estimate =
      r.checkInPastCase now state request estimate := by
  simp only [checkInPastCase, calculateWithdrawalFrame_requestArgs_payOut hstays]
  rfl

/-- The whole answer for a request that stays. -/
theorem estimateRequest_finalizeHead {request : WithdrawalRequest}
    (hstays : ∀ settled ∈ r.requests.take count, settled.id ≠ request.id) :
    (r.finalizeHead count nextUpdate).estimateRequest now
        (state.payOut (headAmount r.requests count)) request =
      (fun info => info.reannounced nextUpdate) <$> r.estimateRequest now state request := by
  simp only [estimateRequest, calculateWithdrawalFrame_requestArgs_payOut hstays,
    checkInPastCase_finalizeHead hstays, map_bind, map_pure]
  rfl

/-- The answer for an amount on top of the queue. -/
theorem getWaitingTimeInfo_payOut {paid : ℕ} (hbuffer : (paid : ℤ) ≤ state.buffer)
    (hunfinalized : (paid : ℤ) ≤ state.unfinalized) {amount : ℕ} {info : GetWaitingTimeInfoResult}
    (h : r.getWaitingTimeInfo now state amount = .ok info) :
    (r.finalizeHead count nextUpdate).getWaitingTimeInfo now (state.payOut paid) amount =
      .ok (info.reannounced nextUpdate) := by
  have hargs : (r.finalizeHead count nextUpdate).amountArgs now (state.payOut paid) amount =
      { r.amountArgs now state amount with
        unfinalized := (r.amountArgs now state amount).unfinalized - paid
        buffer := (r.amountArgs now state amount).buffer - paid } := by
    simp only [amountArgs, BlockState.payOut, CalculateWaitingTimeV2Args.mk.injEq, true_and]
    exact ⟨by ring, rfl⟩
  have hestimate : (r.finalizeHead count nextUpdate).calculateWithdrawalFrame now
      ((r.finalizeHead count nextUpdate).amountArgs now (state.payOut paid) amount) =
      r.calculateWithdrawalFrame now (r.amountArgs now state amount) := by
    rw [hargs, calculateWithdrawalFrame_payOut]
  simp only [getWaitingTimeInfo, Outcome.bind_eq_ok, Outcome.pure_eq_ok] at h
  obtain ⟨gaugeUnfinalized, hgaugeUnfinalized, gaugeBuffer, hgaugeBuffer, gaugeVaults,
    hgaugeVaults, result, hresult, finalizationAt, hat, rfl⟩ := h
  obtain ⟨lessUnfinalized, hlessUnfinalized⟩ :=
    exists_balanceGauge_sub hunfinalized hgaugeUnfinalized
  obtain ⟨lessBuffer, hlessBuffer⟩ := exists_balanceGauge_sub hbuffer hgaugeBuffer
  simp only [getWaitingTimeInfo, Outcome.bind_eq_ok, Outcome.pure_eq_ok]
  refine ⟨lessUnfinalized, hlessUnfinalized, lessBuffer, hlessBuffer, gaugeVaults, hgaugeVaults,
    result, hestimate.trans hresult, finalizationAt, hat, rfl⟩

/-! ## The queue -/

/-- What is left of a queue of consecutive ids is one. -/
theorem HoldsUnfinalized.finalizeHead {unfinalized : ℕ} (hqueue : r.HoldsUnfinalized unfinalized)
    (hcount : count ≤ unfinalized) (nextUpdate : Date) :
    (r.finalizeHead count nextUpdate).HoldsUnfinalized (unfinalized - count) where
  pos := hqueue.pos
  le := (Nat.sub_le _ _).trans hqueue.le
  ids := by
    have hle := hqueue.le
    change (r.requests.drop count).map WithdrawalRequest.id =
      List.range' (r.lastRequestId - (unfinalized - count) + 1) (unfinalized - count)
    rw [List.map_drop, hqueue.ids, List.drop_range']
    congr 1
    omega

/-- The ids that have left the queue. -/
theorem HoldsUnfinalized.mem_take {unfinalized : ℕ} (hqueue : r.HoldsUnfinalized unfinalized)
    (hcount : count ≤ unfinalized) {request : WithdrawalRequest}
    (hmem : request ∈ r.requests.take count) :
    r.lastRequestId - unfinalized < request.id ∧
      request.id ≤ r.lastRequestId - unfinalized + count := by
  have hid : request.id ∈ (r.requests.take count).map WithdrawalRequest.id :=
    List.mem_map_of_mem hmem
  rw [List.map_take, hqueue.ids, List.take_range'_of_length_ge hcount,
    List.mem_range'_1] at hid
  omega

/-- The lookup of a request that stays. -/
theorem find?_finalizeHead {requestId : ℕ}
    (hstays : ∀ settled ∈ r.requests.take count, settled.id ≠ requestId) :
    ((r.finalizeHead count nextUpdate).requests.find? fun item => decide (item.id = requestId)) =
      r.requests.find? fun item => decide (item.id = requestId) := by
  have hsettled :
      (r.requests.take count).find? (fun item => decide (item.id = requestId)) = none := by
    simpa [List.find?_eq_none] using hstays
  have hsplit := congrArg (List.find? fun item : WithdrawalRequest => decide (item.id = requestId))
    (List.take_append_drop count r.requests)
  rw [List.find?_append, hsettled, Option.none_or] at hsplit
  exact hsplit

/-! ## The answers -/

variable {unfinalized requestId : ℕ}

/-- An id is settled when the payment finalizes its request. -/
def SettledId (r : Readings) (unfinalized count requestId : ℕ) : Prop :=
  r.lastRequestId - unfinalized < requestId ∧ requestId ≤ r.lastRequestId - unfinalized + count

instance (r : Readings) (unfinalized count requestId : ℕ) :
    Decidable (r.SettledId unfinalized count requestId) :=
  inferInstanceAs (Decidable (_ ∧ _))

/-- An id that the payment does not settle precedes what is left of the queue
exactly when it precedes the queue. -/
theorem precedesQueue_finalizeHead_iff (hqueue : r.HoldsUnfinalized unfinalized)
    (hcount : count ≤ unfinalized) (hunsettled : ¬ r.SettledId unfinalized count requestId) :
    (r.finalizeHead count nextUpdate).PrecedesQueue requestId ↔ r.PrecedesQueue requestId := by
  have hleft := hqueue.finalizeHead hcount nextUpdate
  have hpos := hqueue.pos
  have hle := hqueue.le
  rw [hleft.precedesQueue_iff, hqueue.precedesQueue_iff, hleft.requests_eq_nil_iff,
    hqueue.requests_eq_nil_iff]
  simp only [SettledId] at hunsettled
  change (requestId ≤ r.lastRequestId - (unfinalized - count) ∧
    ¬ (unfinalized - count = 0 ∧ requestId = r.lastRequestId)) ↔ _
  omega

/-- An id that the payment does not settle gets the answer it got before. -/
theorem getWaitingTimeInfoById_finalizeHead (hqueue : r.HoldsUnfinalized unfinalized)
    (hcount : count ≤ unfinalized) (hunsettled : ¬ r.SettledId unfinalized count requestId)
    (hbuffer : (headAmount r.requests count : ℤ) ≤ state.buffer)
    (hunfinalized : (headAmount r.requests count : ℤ) ≤ state.unfinalized)
    {info : GetWaitingTimeInfoResult}
    (h : r.getWaitingTimeInfoById now state requestId = .ok info) :
    (r.finalizeHead count nextUpdate).getWaitingTimeInfoById now
        (state.payOut (headAmount r.requests count)) requestId =
      .ok (info.reannounced nextUpdate) := by
  have hiff : (r.finalizeHead count nextUpdate).PrecedesQueue requestId ↔
      r.PrecedesQueue requestId := precedesQueue_finalizeHead_iff hqueue hcount hunsettled
  have hstays (settled : WithdrawalRequest) (hmem : settled ∈ r.requests.take count) :
      settled.id ≠ requestId := by
    rintro rfl
    exact hunsettled (hqueue.mem_take hcount hmem)
  by_cases hprecedes : r.PrecedesQueue requestId
  · rw [getWaitingTimeInfoById_of_precedesQueue hprecedes] at h
    rw [getWaitingTimeInfoById_of_precedesQueue (hiff.mpr hprecedes), ← Except.ok.inj h]
    rfl
  · rw [getWaitingTimeInfoById_of_not_precedesQueue hprecedes] at h
    rw [getWaitingTimeInfoById_of_not_precedesQueue (mt hiff.mp hprecedes),
      find?_finalizeHead hstays]
    cases hfind : r.requests.find? fun item => decide (item.id = requestId) with
    | some request =>
        obtain rfl : request.id = requestId := by simpa using List.find?_some hfind
        simp only [hfind] at h
        simp only [estimateRequest_finalizeHead hstays, h]
        rfl
    | none =>
        simp only [hfind] at h
        change (if r.lastRequestId ≤ requestId then _ else _) = _
        split at h
        case isTrue hlast =>
          obtain ⟨lastRequestResult, hlastRequest, rfl⟩ := Outcome.map_eq_ok.mp h
          rw [if_pos hlast, getWaitingTimeInfo_payOut hbuffer hunfinalized hlastRequest]
          rfl
        case isFalse => cases h

/-- A settled id is reported as finalized, but for the last id of all. -/
theorem getWaitingTimeInfoById_of_settled (hqueue : r.HoldsUnfinalized unfinalized)
    (hcount : count ≤ unfinalized) (hsettled : r.SettledId unfinalized count requestId)
    (hlast : requestId ≠ r.lastRequestId) (after : BlockState) :
    (r.finalizeHead count nextUpdate).getWaitingTimeInfoById now after requestId =
      .ok (r.finalizedResult.reannounced nextUpdate) := by
  have hleft := hqueue.finalizeHead hcount nextUpdate
  have hprecedes : (r.finalizeHead count nextUpdate).PrecedesQueue requestId := by
    rw [hleft.precedesQueue_iff]
    refine ⟨?_, fun h => hlast h.2⟩
    have hle := hqueue.le
    change requestId ≤ r.lastRequestId - (unfinalized - count)
    simp only [SettledId] at hsettled
    omega
  rw [getWaitingTimeInfoById_of_precedesQueue hprecedes]
  rfl

/-- **Finalizing the head of the queue out of the buffer changes no other answer.**
The settled ids are reported as finalized, the last id of all excepted. -/
theorem answers_of_finalizedHead {stores after : Stores}
    (hinitialized : stores.isInitialized = true) (hafterInitialized : after.isInitialized = true)
    (hreadings : stores.readings = .ok r)
    (hafter : after.readings = .ok (r.finalizeHead count nextUpdate))
    (hqueue : r.HoldsUnfinalized unfinalized) (hcount : count ≤ unfinalized)
    (hbuffer : (headAmount r.requests count : ℤ) ≤ state.buffer)
    (hunfinalized : (headAmount r.requests count : ℤ) ≤ state.unfinalized) (now : ℤ) :
    (∀ requestId info, ¬ r.SettledId unfinalized count requestId →
      stores.getWaitingTimeInfoById now state requestId = .ok info →
      after.getWaitingTimeInfoById now (state.payOut (headAmount r.requests count)) requestId =
        .ok (info.reannounced nextUpdate)) ∧
    (∀ amount info, stores.getWaitingTimeInfo now state amount = .ok info →
      after.getWaitingTimeInfo now (state.payOut (headAmount r.requests count)) amount =
        .ok (info.reannounced nextUpdate)) ∧
    ∀ requestId, r.SettledId unfinalized count requestId → requestId ≠ r.lastRequestId →
      after.getWaitingTimeInfoById now (state.payOut (headAmount r.requests count)) requestId =
        .ok (r.finalizedResult.reannounced nextUpdate) := by
  refine ⟨?_, ?_, ?_⟩
  · intro requestId info hunsettled h
    rw [Stores.getWaitingTimeInfoById_of_readings hinitialized hreadings] at h
    rw [Stores.getWaitingTimeInfoById_of_readings hafterInitialized hafter]
    exact getWaitingTimeInfoById_finalizeHead hqueue hcount hunsettled hbuffer hunfinalized h
  · intro amount info h
    rw [Stores.getWaitingTimeInfo_of_readings hinitialized hreadings] at h
    rw [Stores.getWaitingTimeInfo_of_readings hafterInitialized hafter]
    exact getWaitingTimeInfo_payOut hbuffer hunfinalized h
  · intro requestId hsettled hlast
    rw [Stores.getWaitingTimeInfoById_of_readings hafterInitialized hafter]
    exact getWaitingTimeInfoById_of_settled hqueue hcount hsettled hlast _

/-- The older of two requests is paid out of a buffer of fifteen ether. -/
theorem answers_of_finalizedHead_twoRequests :
    ((twoRequests 8000).finalizeHead 1 ⟨3, by decide⟩).toStores.getWaitingTimeInfoById
        1744714823000 (BlockState.payOut ⟨2 * 10 ^ 19, 15 * 10 ^ 18, 0⟩ (10 ^ 19)) 7 =
      .ok ⟨some ⟨2251800000, 1746966623000, some 7, some 1743850823000, .exitValidators⟩,
        .calculated, some 3⟩ := by
  have hbefore : (twoRequests 8000).toStores.getWaitingTimeInfoById 1744714823000
      ⟨2 * 10 ^ 19, 15 * 10 ^ 18, 0⟩ 7 = .ok ⟨some ⟨2251800000, 1746966623000, some 7,
        some 1743850823000, .exitValidators⟩, .calculated, some 0⟩ := by
    rw [Stores.getWaitingTimeInfoById_of_readings
      ((twoRequests 8000).isInitialized_toStores (by decide))
      ((twoRequests 8000).readings_toStores (by decide) (by decide))]
    decide +kernel
  have hqueue : (twoRequests 8000).HoldsUnfinalized 2 := ⟨by decide, by decide, by decide⟩
  have hafter := ((twoRequests 8000).finalizeHead 1 ⟨3, by decide⟩).readings_toStores
    (by decide) (by decide)
  exact (answers_of_finalizedHead ((twoRequests 8000).isInitialized_toStores (by decide))
    (isInitialized_toStores _ (by decide))
    ((twoRequests 8000).readings_toStores (by decide) (by decide)) hafter hqueue
    (by decide) (by decide) (by decide) 1744714823000).1 7 _ (by decide) hbefore

end Readings

end WithdrawalsApi
