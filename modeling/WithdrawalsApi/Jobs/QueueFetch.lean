/-
# Fetching what is missing

`getUpdatedRequests` keeps what it can of the stored list and fetches the rest,
page by page. The stored list may be anything: empty, unsorted, with gaps or
duplicates, older or newer than the queue. As long as each stored request has
the amount and the timestamp of its id, the result is the one of fetching all
unfinalized requests anew; only the ids that the contract is asked for differ.

The calls of `getWithdrawalStatus` are a parameter, and a fetch notes the pages
it has asked for. The queue job makes the same calls, one for each suspension.
-/

import WithdrawalsApi.Jobs.QueueRuns
import WithdrawalsApi.Math.Slices

namespace WithdrawalsApi

open Js Math

namespace QueueInfoService

/-- The requests a fetch has collected, and the pages it has asked for. -/
structure Fetched where
  requests : List WithdrawalRequest := []
  asked : List (List ℤ) := []
  deriving DecidableEq

section Fetch

variable (getWithdrawalStatus : List ℤ → Outcome (List WithdrawalStatus))

/-- A round of the loop. -/
def fetchPage (fetched : Fetched) (requestIdsPage : List ℤ) : Outcome Fetched := do
  let withdrawalStatuses ← getWithdrawalStatus requestIdsPage
  pure {
    requests :=
      fetched.requests ++ List.zipWith withdrawalRequest requestIdsPage withdrawalStatuses
    asked := fetched.asked ++ [requestIdsPage] }

def fetchRequestsByIds (requestIds : List ℤ) : Outcome Fetched :=
  (slices withdrawalStatusPageSize requestIds).foldlM (fetchPage getWithdrawalStatus) {}

/-- `getUpdatedRequests` with its calls; without missing ids there are none. -/
def fetchUpdatedRequests (cachedRequests : List WithdrawalRequest) (queue : QueueState) :
    Outcome Fetched := do
  let (cachedActiveRequests, newRequestIds) ← getUpdatedRequests cachedRequests queue
  let newRequests ← fetchRequestsByIds getWithdrawalStatus newRequestIds
  pure { newRequests with requests := cachedActiveRequests ++ newRequests.requests }

/-- All unfinalized requests, fetched anew. -/
def refetchRequests (queue : QueueState) : Outcome Fetched := do
  let requestIds ← getRequestIds queue.lastRequestId queue.unfinalizedRequests
  fetchRequestsByIds getWithdrawalStatus requestIds

end Fetch

/-! ## What the contract answers -/

/-- Ids of the queue are answered with one status for each, in order. -/
def AnswersInOrder (statusOf : ℕ → WithdrawalStatus) (lastRequestId : ℕ)
    (getWithdrawalStatus : List ℤ → Outcome (List WithdrawalStatus)) : Prop :=
  ∀ page : List ℤ, (∀ id ∈ page, 0 < id ∧ id ≤ lastRequestId) →
    getWithdrawalStatus page = .ok (page.map fun id => statusOf id.toNat)

/-- The request of an id, as the contract reports it. -/
def reportedRequest (statusOf : ℕ → WithdrawalStatus) (id : ℤ) : WithdrawalRequest :=
  withdrawalRequest id (statusOf id.toNat)

/-- A list with the data of its ids is determined by its ids. -/
theorem Reported.eq_map {statusOf : ℕ → WithdrawalStatus} {requests : List WithdrawalRequest}
    (h : Reported statusOf requests) :
    requests = (idsOf requests).map (reportedRequest statusOf) := by
  have hrequest : ∀ request ∈ requests,
      reportedRequest statusOf (request.id : ℤ) = request := by
    intro request hmem
    obtain ⟨hamount, htimestamp⟩ := h request hmem
    simp only [reportedRequest, withdrawalRequest, Int.toNat_natCast, ← hamount, ← htimestamp]
  rw [idsOf, List.map_map]
  exact (List.map_id _).symm.trans (List.map_congr_left fun request hmem =>
    (hrequest request hmem).symm)

theorem zipWith_reported (statusOf : ℕ → WithdrawalStatus) (page : List ℤ) :
    List.zipWith withdrawalRequest page (page.map fun id => statusOf id.toNat) =
      page.map (reportedRequest statusOf) := by
  rw [List.zipWith_map_right, List.zipWith_self]
  rfl

variable {statusOf : ℕ → WithdrawalStatus}
  {getWithdrawalStatus : List ℤ → Outcome (List WithdrawalStatus)}

/-- A fetch of ids of the queue collects their requests in order, and asks for
their slices. -/
theorem fetchRequestsByIds_eq_ok {lastRequestId : ℕ}
    (hcontract : AnswersInOrder statusOf lastRequestId getWithdrawalStatus) {requestIds : List ℤ}
    (hids : ∀ id ∈ requestIds, 0 < id ∧ id ≤ lastRequestId) :
    fetchRequestsByIds getWithdrawalStatus requestIds = .ok {
      requests := requestIds.map (reportedRequest statusOf)
      asked := slices withdrawalStatusPageSize requestIds } := by
  have hpages (pages : List (List ℤ)) (fetched : Fetched)
      (hpages : ∀ page ∈ pages, ∀ id ∈ page, 0 < id ∧ id ≤ lastRequestId) :
      pages.foldlM (fetchPage getWithdrawalStatus) fetched = .ok {
        requests := fetched.requests ++ pages.flatten.map (reportedRequest statusOf)
        asked := fetched.asked ++ pages } := by
    induction pages generalizing fetched with
    | nil => simp [pure, Except.pure]
    | cons page pages ih =>
        have hpage := hcontract page (hpages page List.mem_cons_self)
        have hrest := ih
          { requests := fetched.requests ++ page.map (reportedRequest statusOf)
            asked := fetched.asked ++ [page] }
          fun other hmem => hpages other (List.mem_cons_of_mem _ hmem)
        have hround : fetchPage getWithdrawalStatus fetched page = .ok {
            requests := fetched.requests ++ page.map (reportedRequest statusOf)
            asked := fetched.asked ++ [page] } := by
          rw [fetchPage, hpage, Outcome.ok_bind, zipWith_reported]
          rfl
        rw [List.foldlM_cons, hround, Outcome.ok_bind, hrest]
        simp only [List.flatten_cons, List.map_append, List.append_assoc, List.singleton_append]
  have hsize : 0 < withdrawalStatusPageSize := by decide
  have hflatten := slices_flatten hsize requestIds
  rw [fetchRequestsByIds, hpages]
  · simp [hflatten]
  · intro page hpage id hmem
    apply hids
    rw [← hflatten]
    exact List.mem_flatten_of_mem hpage hmem

/-! ## The result -/

theorem reportedRequest_id {id : ℤ} (hid : 0 < id) :
    ((reportedRequest statusOf id).id : ℤ) = id := Int.toNat_of_nonneg hid.le

/-- The ids of the unfinalized requests are ids of the queue. -/
theorem mem_unfinalizedIds {queue : QueueState}
    (hqueue : queue.unfinalizedRequests ≤ queue.lastRequestId) {id : ℤ}
    (hmem : id ∈ unfinalizedIds queue) : 0 < id ∧ id ≤ queue.lastRequestId := by
  have hrange := mem_idsFrom.mp hmem
  omega

theorem refetchRequests_eq {queue : QueueState}
    (hcontract : AnswersInOrder statusOf queue.lastRequestId getWithdrawalStatus)
    (hqueue : queue.unfinalizedRequests ≤ queue.lastRequestId) :
    refetchRequests getWithdrawalStatus queue =
      (fun requestIds => {
        requests := (unfinalizedIds queue).map (reportedRequest statusOf)
        asked := slices withdrawalStatusPageSize requestIds }) <$>
        getRequestIds queue.lastRequestId queue.unfinalizedRequests := by
  unfold refetchRequests
  cases hids : getRequestIds queue.lastRequestId queue.unfinalizedRequests with
  | error fault => rfl
  | ok requestIds =>
      obtain rfl := getRequestIds_eq_ok hids
      exact fetchRequestsByIds_eq_ok hcontract fun _ hmem => mem_unfinalizedIds hqueue hmem

/-- Whatever the stored list is, the requests are those of the unfinalized ids; the
pages are slices of the ids that have not been kept. -/
theorem fetchUpdatedRequests_eq {queue : QueueState}
    (hcontract : AnswersInOrder statusOf queue.lastRequestId getWithdrawalStatus)
    (hqueue : queue.unfinalizedRequests ≤ queue.lastRequestId)
    {cachedRequests : List WithdrawalRequest} (hcached : Reported statusOf cachedRequests) :
    fetchUpdatedRequests getWithdrawalStatus cachedRequests queue =
      (fun updated => {
        requests := (unfinalizedIds queue).map (reportedRequest statusOf)
        asked := slices withdrawalStatusPageSize updated.2 }) <$>
        getUpdatedRequests cachedRequests queue := by
  unfold fetchUpdatedRequests
  cases hupdated : getUpdatedRequests cachedRequests queue with
  | error fault => rfl
  | ok updated =>
      obtain ⟨kept, requestIds⟩ := updated
      obtain ⟨hall, hkept⟩ := getUpdatedRequests_eq_ok hupdated
      have hreported : Reported statusOf kept := fun request hmem =>
        hcached request (hkept request hmem)
      have hids : ∀ id ∈ requestIds, 0 < id ∧ id ≤ queue.lastRequestId := by
        intro id hmem
        apply mem_unfinalizedIds hqueue
        rw [← hall]
        exact List.mem_append_right _ hmem
      have hrequests : (unfinalizedIds queue).map (reportedRequest statusOf) =
          kept ++ requestIds.map (reportedRequest statusOf) := by
        rw [← hall, List.map_append, ← hreported.eq_map]
      rw [Outcome.ok_bind]
      simp only [fetchRequestsByIds_eq_ok hcontract hids, hrequests]
      rfl

theorem pairwise_lt_unfinalizedIds (queue : QueueState) :
    (unfinalizedIds queue).Pairwise (· < ·) := by
  rw [unfinalizedIds, idsFrom, List.pairwise_map]
  apply List.pairwise_lt_range.imp
  intro first second hlt
  omega

theorem idsOf_map_reportedRequest {ids : List ℤ} (hids : ∀ id ∈ ids, 0 < id) :
    idsOf (ids.map (reportedRequest statusOf)) = ids := by
  rw [idsOf, List.map_map]
  exact (List.map_congr_left fun id hmem => reportedRequest_id (hids id hmem)).trans
    (List.map_id ids)

theorem reported_map_reportedRequest (ids : List ℤ) :
    Reported statusOf (ids.map (reportedRequest statusOf)) := by
  intro request hmem
  obtain ⟨id, -, rfl⟩ := List.mem_map.mp hmem
  exact ⟨rfl, rfl⟩

/-- The ids that follow the kept ones are the ids that are not among them. -/
theorem drop_eq_filter_unfinalizedIds {active : List WithdrawalRequest} {queue : QueueState}
    (hrange : ∀ request ∈ active, request.id ≤ queue.lastRequestId)
    (hcontiguous : hasContiguousIds active
      (queue.lastRequestId - queue.unfinalizedRequests + 1) = true) :
    (unfinalizedIds queue).drop active.length =
      (unfinalizedIds queue).filter fun id => decide (id ∉ idsOf active) := by
  have hsplit := (unfinalizedIds_eq_append hrange hcontiguous).2
  have hdistinct : (unfinalizedIds queue).Nodup :=
    (pairwise_lt_unfinalizedIds queue).imp fun hlt => hlt.ne
  generalize (unfinalizedIds queue).drop active.length = rest at hsplit
  rw [hsplit] at hdistinct ⊢
  have hkept : (idsOf active).filter (fun id => decide (id ∉ idsOf active)) = [] := by
    rw [List.filter_eq_nil_iff]
    intro id hmem
    simpa using hmem
  have hmissing : rest.filter (fun id => decide (id ∉ idsOf active)) = rest := by
    rw [List.filter_eq_self]
    intro id hmem
    rw [decide_eq_true_eq]
    exact fun hactive => (List.nodup_append.mp hdistinct).2.2 id hactive id hmem rfl
  rw [List.filter_append, hkept, hmissing, List.nil_append]

/-- **An incremental fetch is a full one.** Whatever the stored list is, the result
has the ids of the queue in ascending order, each once, with their data; it is the
one of a full fetch, which throws exactly when an array cannot hold the ids. With
a contiguous head in store, only the ids beyond it are asked for. -/
theorem updatedRequests_eq_refetched {queue : QueueState}
    (hcontract : AnswersInOrder statusOf queue.lastRequestId getWithdrawalStatus)
    (hqueue : queue.unfinalizedRequests ≤ queue.lastRequestId)
    {cachedRequests : List WithdrawalRequest} (hcached : Reported statusOf cachedRequests) :
    Fetched.requests <$> fetchUpdatedRequests getWithdrawalStatus cachedRequests queue =
        Fetched.requests <$> refetchRequests getWithdrawalStatus queue ∧
      ((∃ fetched, fetchUpdatedRequests getWithdrawalStatus cachedRequests queue = .ok fetched) ↔
        queue.unfinalizedRequests ≤ maxArrayLength) ∧
      ∀ fetched, fetchUpdatedRequests getWithdrawalStatus cachedRequests queue = .ok fetched →
        idsOf fetched.requests = unfinalizedIds queue ∧
        (idsOf fetched.requests).Pairwise (· < ·) ∧
        Reported statusOf fetched.requests ∧
        (∀ page ∈ fetched.asked, 0 < page.length ∧ page.length ≤ withdrawalStatusPageSize) ∧
        (hasContiguousIds (cachedActiveRequests cachedRequests queue)
            (queue.lastRequestId - queue.unfinalizedRequests + 1) = true →
          fetched.asked.flatten = (unfinalizedIds queue).filter fun id =>
            decide (id ∉ idsOf (cachedActiveRequests cachedRequests queue))) := by
  have hpage : 0 < withdrawalStatusPageSize := by decide
  rw [fetchUpdatedRequests_eq hcontract hqueue hcached, refetchRequests_eq hcontract hqueue,
    getUpdatedRequests_eq]
  cases hids : getRequestIds queue.lastRequestId queue.unfinalizedRequests with
  | error fault =>
      refine ⟨rfl, iff_of_false (fun h => (by obtain ⟨_, h⟩ := h; cases h)) ?_,
        fun _ h => (by cases h)⟩
      intro hmax
      rw [getRequestIds_eq_ok_iff.mpr ⟨hmax, rfl⟩] at hids
      cases hids
  | ok requestIds =>
      obtain ⟨hmax, rfl⟩ := getRequestIds_eq_ok_iff.mp hids
      refine ⟨rfl, iff_of_true ⟨_, rfl⟩ hmax, ?_⟩
      rintro fetched ⟨⟩
      have hall : idsOf ((unfinalizedIds queue).map (reportedRequest statusOf)) =
          unfinalizedIds queue :=
        idsOf_map_reportedRequest fun id hmem => (mem_unfinalizedIds hqueue hmem).1
      refine ⟨hall, by rw [hall]; exact pairwise_lt_unfinalizedIds queue,
        reported_map_reportedRequest _, fun page hmem => length_of_mem_slices hpage hmem, ?_⟩
      intro hcontiguous
      have hrange : ∀ request ∈ cachedActiveRequests cachedRequests queue,
          request.id ≤ queue.lastRequestId := by
        intro request hmem
        exact (of_decide_eq_true (List.mem_filter.mp hmem).2).2
      simp only [if_pos hcontiguous, slices_flatten hpage]
      exact drop_eq_filter_unfinalizedIds hrange hcontiguous

/-- Each request carries its id as its amount and its timestamp. -/
def ownId (id : ℕ) : WithdrawalStatus := ⟨id, id⟩

def answerOwnIds (page : List ℤ) : Outcome (List WithdrawalStatus) :=
  .ok (page.map fun id => ownId id.toNat)

/-- Three requests are unfinalized, the twelfth to the fourteenth. -/
def threeUnfinalized : QueueState :=
  { sampleQueue with lastRequestId := 14, unfinalizedRequests := 3 }

/-- The stored list ends with the first of them. -/
def staleRequests : List WithdrawalRequest := [⟨10, 10, 10⟩, ⟨11, 11, 11⟩, ⟨12, 12, 12⟩]

theorem updatedRequests_staleRequests :
    Fetched.requests <$> fetchUpdatedRequests answerOwnIds staleRequests threeUnfinalized =
        Fetched.requests <$> refetchRequests answerOwnIds threeUnfinalized ∧
      ((∃ fetched, fetchUpdatedRequests answerOwnIds staleRequests threeUnfinalized =
        .ok fetched) ↔ threeUnfinalized.unfinalizedRequests ≤ maxArrayLength) ∧
      ∀ fetched, fetchUpdatedRequests answerOwnIds staleRequests threeUnfinalized =
          .ok fetched →
        idsOf fetched.requests = unfinalizedIds threeUnfinalized ∧
        (idsOf fetched.requests).Pairwise (· < ·) ∧
        Reported ownId fetched.requests ∧
        (∀ page ∈ fetched.asked, 0 < page.length ∧ page.length ≤ withdrawalStatusPageSize) ∧
        (hasContiguousIds (cachedActiveRequests staleRequests threeUnfinalized)
            (threeUnfinalized.lastRequestId - threeUnfinalized.unfinalizedRequests + 1) = true →
          fetched.asked.flatten = (unfinalizedIds threeUnfinalized).filter fun id =>
            decide (id ∉ idsOf (cachedActiveRequests staleRequests threeUnfinalized))) :=
  have hstored : Reported ownId staleRequests := by simp [Reported, staleRequests, ownId]
  updatedRequests_eq_refetched (fun _ _ => rfl) (by decide) hstored

/-- The first of the three is kept, and the other two are asked for. -/
example : fetchUpdatedRequests answerOwnIds staleRequests threeUnfinalized =
    .ok { requests := [⟨12, 12, 12⟩, ⟨13, 13, 13⟩, ⟨14, 14, 14⟩], asked := [[13, 14]] } := by
  decide

end QueueInfoService

end WithdrawalsApi
