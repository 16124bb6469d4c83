/-
# The status of a request id

Three checks run one after another on an id: an empty queue, an id before the
queue, an id that is not in the queue yet. With a queue that holds the ids after
the last finalized one they tell finalized, queued and future ids apart. They
miss one id. When everything is finalized, the last id is compared strictly and
falls through to the third check.
-/

import WithdrawalsApi.WaitingTime.NextReport
import WithdrawalsApi.WaitingTime.Response

namespace WithdrawalsApi

open Js

namespace Readings

variable (r : Readings) (now : ℤ) (state : BlockState)

/-- The response for a finalized request. -/
def finalizedResult : GetWaitingTimeInfoResult where
  requestInfo := none
  status := .finalized
  nextCalculationAt := some r.nextUpdate.toISOString

/-- The id precedes the queue, as far as the first two checks can tell. -/
def PrecedesQueue (requestId : ℕ) : Prop :=
  (r.requests = [] ∧ requestId < r.lastRequestId) ∨
    ∃ first ∈ r.requests.head?, requestId < first.id

/-- The response for an id that is not in the queue yet. -/
def calculatingResult (requestId : ℕ) (lastRequestResult : GetWaitingTimeInfoResult) :
    GetWaitingTimeInfoResult :=
  { lastRequestResult with
    status := .calculating
    requestInfo := lastRequestResult.requestInfo.map fun info =>
      { info with requestId := some requestId } }

variable {r now state} {requestId : ℕ}

theorem getWaitingTimeInfoById_of_precedesQueue (h : r.PrecedesQueue requestId) :
    r.getWaitingTimeInfoById now state requestId = .ok r.finalizedResult := by
  rcases h with ⟨hempty, hlast⟩ | ⟨first, hfirst, hlt⟩
  · simp [getWaitingTimeInfoById, checkIsEmptyQueue, hempty, hlast, finalizedResult, pure,
      Except.pure]
  · have hne : r.requests ≠ [] := by
      rintro hempty
      simp [hempty] at hfirst
    rw [Option.mem_def] at hfirst
    simp [getWaitingTimeInfoById, checkIsEmptyQueue, checkIsFinalized, hne, hfirst, hlt,
      finalizedResult, pure, Except.pure]

/-- Past the first two checks the id is looked up in the queue. -/
theorem getWaitingTimeInfoById_of_not_precedesQueue (h : ¬ r.PrecedesQueue requestId) :
    r.getWaitingTimeInfoById now state requestId =
      match r.requests.find? fun item => decide (item.id = requestId) with
      | some request => r.estimateRequest now state request
      | none =>
          if r.lastRequestId ≤ requestId
          then calculatingResult requestId <$> r.getWaitingTimeInfo now state 0
          else .error .undefinedRead := by
  obtain ⟨hempty, hfirst⟩ := not_or.mp h
  have hnotEmpty : r.checkIsEmptyQueue requestId = none := by
    simpa [checkIsEmptyQueue] using hempty
  have hnotFinalized : r.checkIsFinalized requestId = none := by
    simpa [checkIsFinalized, Option.any_eq_false] using hfirst
  simp only [getWaitingTimeInfoById, hnotEmpty, hnotFinalized]
  cases hfind : r.requests.find? fun item => decide (item.id = requestId) with
  | some request => simp [checkIsNotInQueueYet, hfind]
  | none =>
      by_cases hlast : r.lastRequestId ≤ requestId
      · simp only [checkIsNotInQueueYet, hfind, hlast]
        cases r.getWaitingTimeInfo now state 0 <;> rfl
      · simp [checkIsNotInQueueYet, hfind, hlast]
        rfl

/-- The estimate for a queued request names the request. -/
theorem estimateRequest_names {request : WithdrawalRequest} {info : GetWaitingTimeInfoResult}
    (h : r.estimateRequest now state request = .ok info) :
    info.status = .calculated ∧
      ∃ requestInfo, info.requestInfo = some requestInfo ∧
        requestInfo.requestId = some request.id := by
  simp only [estimateRequest, Outcome.bind_eq_ok, Outcome.pure_eq_ok] at h
  obtain ⟨_, -, _, -, _, -, _, -, _, -, rfl⟩ := h
  exact ⟨rfl, _, rfl, rfl⟩

/-- Only a request of the queue gets the status `calculated`. -/
theorem exists_request_of_calculated {info : GetWaitingTimeInfoResult}
    (h : r.getWaitingTimeInfoById now state requestId = .ok info)
    (hcalculated : info.status = .calculated) :
    ∃ request ∈ r.requests, request.id = requestId ∧
      r.estimateRequest now state request = .ok info := by
  by_cases hprecedes : r.PrecedesQueue requestId
  · rw [getWaitingTimeInfoById_of_precedesQueue hprecedes] at h
    cases h
    cases hcalculated
  · rw [getWaitingTimeInfoById_of_not_precedesQueue hprecedes] at h
    cases hfind : r.requests.find? fun item => decide (item.id = requestId) with
    | some request =>
        rw [hfind] at h
        have hid : request.id = requestId := by simpa using List.find?_some hfind
        exact ⟨request, List.mem_of_find?_eq_some hfind, hid, h⟩
    | none =>
        simp only [hfind] at h
        split at h
        · obtain ⟨lastRequestResult, -, rfl⟩ := Outcome.map_eq_ok.mp h
          cases hcalculated
        · cases h

/-! ## Queues of consecutive ids -/

/-- The queue holds the ids after the last finalized one, up to the last id. -/
structure HoldsUnfinalized (r : Readings) (unfinalized : ℕ) : Prop where
  pos : 1 ≤ r.lastRequestId
  le : unfinalized ≤ r.lastRequestId
  ids : r.requests.map WithdrawalRequest.id =
    List.range' (r.lastRequestId - unfinalized + 1) unfinalized

namespace HoldsUnfinalized

variable {unfinalized : ℕ} (hqueue : r.HoldsUnfinalized unfinalized)

include hqueue

theorem exists_request_iff :
    (∃ request ∈ r.requests, request.id = requestId) ↔
      r.lastRequestId - unfinalized < requestId ∧ requestId ≤ r.lastRequestId := by
  have hle := hqueue.le
  rw [← List.mem_map, hqueue.ids, List.mem_range'_1]
  omega

theorem requests_eq_nil_iff : r.requests = [] ↔ unfinalized = 0 := by
  rw [← List.map_eq_nil_iff (f := WithdrawalRequest.id), hqueue.ids, List.range'_eq_nil_iff]

theorem precedesQueue_iff :
    r.PrecedesQueue requestId ↔ requestId ≤ r.lastRequestId - unfinalized ∧
      ¬ (r.requests = [] ∧ requestId = r.lastRequestId) := by
  have hle := hqueue.le
  have hhead : r.requests.head?.map WithdrawalRequest.id =
      (List.range' (r.lastRequestId - unfinalized + 1) unfinalized).head? := by
    rw [← hqueue.ids, List.head?_map]
  simp only [PrecedesQueue, hqueue.requests_eq_nil_iff]
  cases unfinalized with
  | zero =>
      have hnone : r.requests.head? = none := by simpa using hhead
      simp only [hnone, Option.mem_def, reduceCtorEq, false_and, exists_false, or_false,
        true_and, Nat.sub_zero]
      omega
  | succ count =>
      rw [List.range'_succ, List.head?_cons, Option.map_eq_some_iff] at hhead
      obtain ⟨first, hfirst, hid⟩ := hhead
      simp only [hfirst, Option.mem_def, Option.some.injEq, exists_eq_left', hid]
      omega

/-- Two requests of the queue with one id are one request. -/
theorem eq_of_id_eq {first second : WithdrawalRequest} (hfirst : first ∈ r.requests)
    (hsecond : second ∈ r.requests) (hid : first.id = second.id) : first = second := by
  have hnodup : (r.requests.map WithdrawalRequest.id).Nodup := by
    rw [hqueue.ids]
    exact List.nodup_range'
  exact List.inj_on_of_nodup_map hnodup hfirst hsecond hid

/-- An id that neither precedes the queue nor is in it is not before its end. -/
theorem lastRequestId_le (hprecedes : ¬ r.PrecedesQueue requestId)
    (hmem : ¬ ∃ request ∈ r.requests, request.id = requestId) : r.lastRequestId ≤ requestId := by
  rw [hqueue.exists_request_iff] at hmem
  rw [hqueue.precedesQueue_iff] at hprecedes
  by_contra hlt
  exact hprecedes ⟨by omega, fun h => by omega⟩

end HoldsUnfinalized

end Readings

end WithdrawalsApi
