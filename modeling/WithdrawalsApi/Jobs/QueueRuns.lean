/-
# The stored queue over a run

The list of requests is maintained incrementally: the head that has been
finalized meanwhile is dropped and the tail is fetched in pages. Whatever the
stored list looks like, what is kept of it and what is still to be fetched are
together the ids from the first unfinalized request to the last one, so an
update that reaches its end stores exactly these. An update that fails, at
whatever read, stores nothing.

Amounts and timestamps of a request never change on chain. They are given by a
function of the id, and a page answers with its values.
-/

import WithdrawalsApi.Jobs.System

namespace WithdrawalsApi

open Js Math

namespace QueueInfoService

/-! ## What is kept and what is fetched -/

/-- Consecutive ids. -/
def idsFrom (first : ℤ) (count : ℕ) : List ℤ := (List.range count).map fun i : ℕ => first + (i : ℤ)

/-- The ids of a list of requests. -/
def idsOf (requests : List WithdrawalRequest) : List ℤ :=
  requests.map fun request => (request.id : ℤ)

@[simp]
theorem idsOf_nil : idsOf [] = [] := rfl

@[simp]
theorem idsOf_cons (request : WithdrawalRequest) (requests : List WithdrawalRequest) :
    idsOf (request :: requests) = (request.id : ℤ) :: idsOf requests := rfl

@[simp]
theorem idsOf_append (first second : List WithdrawalRequest) :
    idsOf (first ++ second) = idsOf first ++ idsOf second := List.map_append

@[simp]
theorem length_idsOf (requests : List WithdrawalRequest) :
    (idsOf requests).length = requests.length := List.length_map _

/-- The ids from the first unfinalized request on. -/
def unfinalizedIds (queue : QueueState) : List ℤ :=
  idsFrom (queue.lastRequestId - queue.unfinalizedRequests + 1) queue.unfinalizedRequests

@[simp]
theorem idsFrom_zero (first : ℤ) : idsFrom first 0 = [] := rfl

theorem idsFrom_succ (first : ℤ) (count : ℕ) :
    idsFrom first (count + 1) = first :: idsFrom (first + 1) count := by
  simp only [idsFrom, List.range_succ_eq_map, List.map_cons, List.map_map, Nat.cast_zero,
    add_zero, List.cons.injEq, true_and]
  apply List.map_congr_left
  intro i _
  simp only [Function.comp_apply, Nat.cast_succ]
  omega

@[simp]
theorem length_idsFrom (first : ℤ) (count : ℕ) : (idsFrom first count).length = count := by
  simp [idsFrom]

theorem idsFrom_append (first : ℤ) (count more : ℕ) :
    idsFrom first (count + more) = idsFrom first count ++ idsFrom (first + count) more := by
  induction count generalizing first with
  | zero => simp
  | succ count ih =>
      rw [Nat.succ_add, idsFrom_succ, ih, idsFrom_succ, List.cons_append, Nat.cast_succ,
        add_assoc, add_comm (1 : ℤ)]

theorem mem_idsFrom {first id : ℤ} {count : ℕ} :
    id ∈ idsFrom first count ↔ first ≤ id ∧ id < first + count := by
  simp only [idsFrom, List.mem_map, List.mem_range]
  constructor
  · rintro ⟨i, hi, rfl⟩
    omega
  · rintro ⟨hfirst, hlast⟩
    exact ⟨(id - first).toNat, by omega, by omega⟩

@[simp]
theorem length_unfinalizedIds (queue : QueueState) :
    (unfinalizedIds queue).length = queue.unfinalizedRequests := length_idsFrom _ _

/-- The list starts with the first unfinalized id. -/
theorem head_of_unfinalizedIds_eq_cons {queue : QueueState} {first : ℤ} {rest : List ℤ}
    (h : unfinalizedIds queue = first :: rest) :
    first = queue.lastRequestId - queue.unfinalizedRequests + 1 := by
  have hcount : queue.unfinalizedRequests = rest.length + 1 := by
    rw [← length_unfinalizedIds, h, List.length_cons]
  rw [unfinalizedIds, hcount, idsFrom_succ] at h
  rw [hcount]
  exact (List.cons.inj h).1.symm

/-- The ids are listed unless there are more of them than an array holds. -/
theorem getRequestIds_eq_ok_iff {queue : QueueState} {requestIds : List ℤ} :
    getRequestIds queue.lastRequestId queue.unfinalizedRequests = .ok requestIds ↔
      queue.unfinalizedRequests ≤ maxArrayLength ∧ requestIds = unfinalizedIds queue := by
  unfold getRequestIds
  by_cases hzero : queue.unfinalizedRequests = 0
  · rw [if_pos hzero, Outcome.pure_eq_ok, unfinalizedIds, hzero, idsFrom_zero]
    exact ⟨fun h => ⟨Nat.zero_le _, h.symm⟩, fun h => h.2.symm⟩
  · rw [if_neg hzero, Outcome.bind_eq_ok]
    constructor
    · rintro ⟨_, -, h⟩
      split at h
      case isTrue => cases h
      case isFalse hlength => exact ⟨not_lt.mp hlength, (Outcome.pure_eq_ok.mp h).symm⟩
    · rintro ⟨hlength, rfl⟩
      have hsafe : IsSafeInteger queue.unfinalizedRequests := by
        simp only [maxArrayLength] at hlength
        simp only [IsSafeInteger, maxSafeInteger]
        omega
      refine ⟨_, BigNumber.toNumber_eq_ok.mpr ⟨hsafe, rfl⟩, ?_⟩
      rw [if_neg (not_lt.mpr hlength)]
      rfl

theorem getRequestIds_eq_ok {queue : QueueState} {requestIds : List ℤ}
    (h : getRequestIds queue.lastRequestId queue.unfinalizedRequests = .ok requestIds) :
    requestIds = unfinalizedIds queue := (getRequestIds_eq_ok_iff.mp h).2

/-- The check compares a list with the ids from the expected one on. -/
theorem hasContiguousIds_iff {requests : List WithdrawalRequest} {first : ℤ} :
    hasContiguousIds requests first = true ↔
      idsOf requests = idsFrom first requests.length := by
  have hshift (start : ℕ) : ((requests.zipIdx start).all fun entry =>
      decide ((entry.1.id : ℤ) = first + entry.2)) = true ↔
        idsOf requests = idsFrom (first + start) requests.length := by
    induction requests generalizing start with
    | nil => simp [idsOf]
    | cons request requests ih =>
        have hnext := ih (start + 1)
        rw [Nat.cast_succ, ← add_assoc] at hnext
        rw [List.zipIdx_cons, List.all_cons, Bool.and_eq_true, hnext, decide_eq_true_eq,
          List.length_cons, idsFrom_succ, idsOf_cons, List.cons.injEq]
  have hall := hshift 0
  rw [Nat.cast_zero, add_zero] at hall
  exact hall

/-- The id that follows a contiguous list. -/
theorem succ_id_of_getLast? {requests : List WithdrawalRequest} {first : ℤ}
    (h : idsOf requests = idsFrom first requests.length) {request : WithdrawalRequest}
    (hlast : requests.getLast? = some request) :
    (request.id : ℤ) + 1 = first + requests.length := by
  obtain ⟨before, rfl⟩ := List.getLast?_eq_some_iff.mp hlast
  rw [List.length_append, List.length_singleton, idsFrom_append, idsOf_append] at h
  have hsingle := (List.append_inj h (by simp)).2
  simp only [idsOf_cons, idsOf_nil, idsFrom_succ, idsFrom_zero, List.cons.injEq] at hsingle
  simp only [hsingle.1, List.length_append, List.length_singleton, Nat.cast_add, Nat.cast_one]
  omega

/-- The stored requests between the first unfinalized one and the last one. -/
def cachedActiveRequests (cachedRequests : List WithdrawalRequest) (queue : QueueState) :
    List WithdrawalRequest :=
  cachedRequests.filter fun request =>
    decide ((queue.lastRequestId : ℤ) - queue.unfinalizedRequests + 1 ≤ request.id ∧
      request.id ≤ queue.lastRequestId)

/-- A contiguous list that starts with the first unfinalized id and does not pass
the last one is a head of the unfinalized ids. -/
theorem unfinalizedIds_eq_append {active : List WithdrawalRequest} {queue : QueueState}
    (hrange : ∀ request ∈ active, request.id ≤ queue.lastRequestId)
    (hcontiguous : hasContiguousIds active
      (queue.lastRequestId - queue.unfinalizedRequests + 1) = true) :
    active.length ≤ queue.unfinalizedRequests ∧
      unfinalizedIds queue = idsOf active ++ (unfinalizedIds queue).drop active.length := by
  rw [hasContiguousIds_iff] at hcontiguous
  have hlength : active.length ≤ queue.unfinalizedRequests := by
    cases hlast : active.getLast? with
    | none =>
        rw [List.getLast?_eq_none_iff.mp hlast]
        exact Nat.zero_le _
    | some request =>
        have hnext := succ_id_of_getLast? hcontiguous hlast
        have hle := hrange request (List.mem_of_getLast? hlast)
        omega
  refine ⟨hlength, ?_⟩
  obtain ⟨more, hmore⟩ := Nat.exists_eq_add_of_le hlength
  have hsplit : unfinalizedIds queue = idsOf active ++
      idsFrom (queue.lastRequestId - queue.unfinalizedRequests + 1 + active.length) more := by
    rw [hcontiguous, ← idsFrom_append, ← hmore, unfinalizedIds]
  have hdrop : (unfinalizedIds queue).drop active.length =
      idsFrom (queue.lastRequestId - queue.unfinalizedRequests + 1 + active.length) more := by
    rw [hsplit, ← length_idsOf active, List.drop_left]
  rw [hdrop, hsplit]

theorem id_le_of_mem_cachedActiveRequests (cachedRequests : List WithdrawalRequest)
    (queue : QueueState) :
    ∀ request ∈ cachedActiveRequests cachedRequests queue, request.id ≤ queue.lastRequestId := by
  intro request hmem
  exact (of_decide_eq_true (List.mem_filter.mp hmem).2).2

/-- Without unfinalized requests nothing that is stored is active. -/
theorem cachedActiveRequests_eq_nil (cachedRequests : List WithdrawalRequest) {queue : QueueState}
    (h : queue.unfinalizedRequests = 0) : cachedActiveRequests cachedRequests queue = [] := by
  rw [cachedActiveRequests, List.filter_eq_nil_iff]
  intro request _
  rw [decide_eq_true_eq, h]
  omega

/-- **What is kept and what is fetched**: the stored requests between the first and
the last unfinalized one and the ids that follow them, or, when these are not
contiguous, nothing and all ids. -/
theorem getUpdatedRequests_eq (cachedRequests : List WithdrawalRequest) (queue : QueueState) :
    getUpdatedRequests cachedRequests queue =
      (fun requestIds =>
        if hasContiguousIds (cachedActiveRequests cachedRequests queue)
            (queue.lastRequestId - queue.unfinalizedRequests + 1) then
          (cachedActiveRequests cachedRequests queue,
            requestIds.drop (cachedActiveRequests cachedRequests queue).length)
        else ([], requestIds)) <$>
        getRequestIds queue.lastRequestId queue.unfinalizedRequests := by
  unfold getUpdatedRequests
  cases hids : getRequestIds queue.lastRequestId queue.unfinalizedRequests with
  | error fault => rfl
  | ok requestIds =>
      obtain ⟨hmax, hall⟩ := getRequestIds_eq_ok_iff.mp hids
      have hlast := id_le_of_mem_cachedActiveRequests cachedRequests queue
      cases requestIds with
      | nil =>
          have hcount : queue.unfinalizedRequests = 0 := by
            rw [← length_unfinalizedIds, ← hall, List.length_nil]
          rw [cachedActiveRequests_eq_nil cachedRequests hcount]
          rfl
      | cons first rest =>
          have hfirst := head_of_unfinalizedIds_eq_cons hall.symm
          have hactive : (cachedRequests.filter fun request => decide
              ((queue.lastRequestId : ℤ) - queue.unfinalizedRequests + 1 ≤ request.id ∧
                request.id ≤ queue.lastRequestId)) =
              cachedActiveRequests cachedRequests queue := rfl
          simp only [Outcome.ok_bind, hfirst, hactive]
          generalize cachedActiveRequests cachedRequests queue = active at hlast
          split
          case isFalse => rfl
          case isTrue hcontiguous =>
            have hlength := (unfinalizedIds_eq_append hlast hcontiguous).1
            have hsafe : IsSafeInteger active.length := by
              simp only [maxArrayLength] at hmax
              simp only [IsSafeInteger, maxSafeInteger]
              omega
            have hnumber : BigNumber.toNumber active.length = .ok _ :=
              BigNumber.toNumber_eq_ok.mpr ⟨hsafe, rfl⟩
            cases hget : active.getLast? with
            | none =>
                rw [List.getLast?_eq_none_iff.mp hget] at hnumber ⊢
                simp only [sub_self]
                rfl
            | some request =>
                have hnext := succ_id_of_getLast? (hasContiguousIds_iff.mp hcontiguous) hget
                simp only [hnext, add_sub_cancel_left, hnumber]
                rfl

theorem getUpdatedRequests_eq_ok {cachedRequests kept : List WithdrawalRequest}
    {queue : QueueState} {requestIds : List ℤ}
    (h : getUpdatedRequests cachedRequests queue = .ok (kept, requestIds)) :
    idsOf kept ++ requestIds = unfinalizedIds queue ∧
      ∀ request ∈ kept, request ∈ cachedRequests := by
  rw [getUpdatedRequests_eq] at h
  obtain ⟨ids, hids, h⟩ := Outcome.map_eq_ok.mp h
  rw [getRequestIds_eq_ok hids] at h
  split at h
  case isTrue hcontiguous =>
    obtain ⟨rfl, rfl⟩ := Prod.mk.inj h
    have hactive : ∀ request ∈ cachedActiveRequests cachedRequests queue,
        request ∈ cachedRequests ∧ request.id ≤ queue.lastRequestId := by
      intro request hmem
      obtain ⟨hcached, hrange⟩ := List.mem_filter.mp hmem
      exact ⟨hcached, (of_decide_eq_true hrange).2⟩
    exact ⟨(unfinalizedIds_eq_append (fun request hmem => (hactive request hmem).2)
      hcontiguous).2.symm, fun request hmem => (hactive request hmem).1⟩
  case isFalse =>
    obtain ⟨rfl, rfl⟩ := Prod.mk.inj h
    exact ⟨rfl, by simp⟩

/-! ## Pages -/

/-- A request with what the contract reports about it. -/
def withdrawalRequest (id : ℤ) (status : WithdrawalStatus) : WithdrawalRequest where
  id := id.toNat
  amountOfStETH := status.amountOfStETH
  timestamp := status.timestamp

/-- A page has an id for each status. -/
theorem idsOf_zipWith {page : List ℤ} {withdrawalStatuses : List WithdrawalStatus}
    (hpositive : ∀ id ∈ page, 0 < id) (hlength : withdrawalStatuses.length = page.length) :
    idsOf (List.zipWith withdrawalRequest page withdrawalStatuses) = page := by
  induction page generalizing withdrawalStatuses with
  | nil => rfl
  | cons id page ih =>
      cases withdrawalStatuses with
      | nil => cases hlength
      | cons status withdrawalStatuses =>
          have hid := hpositive id List.mem_cons_self
          have hrest := ih (fun other hmem => hpositive other (List.mem_cons_of_mem _ hmem))
            (Nat.succ.inj hlength)
          rw [List.zipWith_cons_cons, idsOf_cons, hrest, withdrawalRequest,
            Int.toNat_of_nonneg hid.le]

/-- The job ends its tick here and stores what it has collected. -/
def publishes : Suspension → CronClock × Answer → Memory → Bool
  | .fetchingQueue, ⟨_, .queue queue⟩, memory =>
      match getUpdatedRequests memory.stores.queueInfo.requests queue with
      | .ok (_, requestIds) => requestIds.isEmpty
      | .error _ => false
  | .fetchingPage _ _ requestIds, ⟨_, .page _⟩, _ =>
      (pageOf requestIds).all (fun id => decide (0 < id)) &&
        (requestIds.drop withdrawalStatusPageSize).isEmpty
  | _, _, _ => false

/-- The segments of the queue job. -/
inductive QueueSegment :
    Suspension → CronClock × Answer → Memory → Memory × Option Suspension → Prop
  | ended {suspension : Suspension} {answer : CronClock × Answer} {memory : Memory}
      (hfails : publishes suspension answer memory = false) :
      QueueSegment suspension answer memory (memory, none)
  | collected {queue : QueueState} {clock : CronClock} {memory : Memory}
      {kept : List WithdrawalRequest} {requestIds : List ℤ}
      (hkept : getUpdatedRequests memory.stores.queueInfo.requests queue = .ok (kept, requestIds))
      (hpublishes : publishes .fetchingQueue (clock, .queue queue) memory = requestIds.isEmpty) :
      QueueSegment .fetchingQueue (clock, .queue queue) memory
        (nextPage queue kept requestIds clock memory)
  | fetched {queue : QueueState} {clock : CronClock} {memory : Memory}
      {requests : List WithdrawalRequest} {requestIds : List ℤ}
      {withdrawalStatuses : List WithdrawalStatus} (hpositive : ∀ id ∈ pageOf requestIds, 0 < id)
      (hpublishes : publishes (.fetchingPage queue requests requestIds)
        (clock, .page withdrawalStatuses) memory =
          (requestIds.drop withdrawalStatusPageSize).isEmpty) :
      QueueSegment (.fetchingPage queue requests requestIds) (clock, .page withdrawalStatuses)
        memory
        (nextPage queue
          (requests ++ List.zipWith withdrawalRequest (pageOf requestIds) withdrawalStatuses)
          (requestIds.drop withdrawalStatusPageSize) clock memory)

/-- What follows an answer is one of the segments. -/
theorem queueSegment_resume (suspension : Suspension) (answer : CronClock × Answer)
    (memory : Memory) :
    QueueSegment suspension answer memory (resume suspension answer memory) := by
  unfold resume
  split
  next clock queue =>
    cases hkept : getUpdatedRequests memory.stores.queueInfo.requests queue with
    | ok result => exact .collected hkept (by simp only [publishes, hkept])
    | error fault => exact .ended (by simp only [publishes, hkept])
  next queue requests requestIds clock withdrawalStatuses =>
    split
    case isTrue hpositive =>
      refine .fetched (fun id hmem => ?_) (by simp only [publishes, hpositive, Bool.true_and])
      exact of_decide_eq_true (List.all_eq_true.mp hpositive id hmem)
    case isFalse hrejected =>
      rw [Bool.not_eq_true] at hrejected
      exact .ended (by simp only [publishes, hrejected, Bool.false_and])
  next => exact .ended (by simp [publishes])

/-- The loop goes on to the next page, or the tick ends with a completed update. -/
theorem nextPage_cases (queue : QueueState) (requests : List WithdrawalRequest)
    (requestIds : List ℤ) (clock : CronClock) (memory : Memory) :
    (requestIds.isEmpty = false ∧ nextPage queue requests requestIds clock memory =
        (memory, some (.fetchingPage queue requests requestIds))) ∨
      (requestIds = [] ∧ nextPage queue requests requestIds clock memory =
        (memory.setQueueInfo (published queue requests clock), none)) := by
  cases requestIds with
  | nil => exact Or.inr ⟨rfl, rfl⟩
  | cons id requestIds => exact Or.inl ⟨rfl, rfl⟩

/-! ## Immutable requests -/

/-- Amounts and timestamps are those the contract reports for the ids. -/
def Reported (statusOf : ℕ → WithdrawalStatus) (requests : List WithdrawalRequest) : Prop :=
  ∀ request ∈ requests, request.amountOfStETH = (statusOf request.id).amountOfStETH ∧
    request.timestamp = (statusOf request.id).timestamp

theorem Reported.append {statusOf : ℕ → WithdrawalStatus} {first second : List WithdrawalRequest}
    (hfirst : Reported statusOf first) (hsecond : Reported statusOf second) :
    Reported statusOf (first ++ second) := by
  intro request hmem
  exact (List.mem_append.mp hmem).elim (hfirst request) (hsecond request)

theorem reported_zipWith (statusOf : ℕ → WithdrawalStatus) (page : List ℤ) :
    Reported statusOf
      (List.zipWith withdrawalRequest page (page.map fun id => statusOf id.toNat)) := by
  intro request hmem
  rw [List.zipWith_map_right, List.zipWith_self, List.mem_map] at hmem
  obtain ⟨id, -, rfl⟩ := hmem
  exact ⟨rfl, rfl⟩

/-- The store holds a queue: its requests are the last ones of the queue, as many
as are unfinalized, in ascending order. -/
structure HoldsQueue (statusOf : ℕ → WithdrawalStatus) (store : QueueInfoStorageService)
    (last count : ℕ) : Prop where
  lastRequestId : store.lastRequestId = some last
  unfinalizedRequestsCount : store.unfinalizedRequestsCount = some count
  length : store.requests.length = count
  ids : store.requests.map WithdrawalRequest.id = List.range' (last + 1 - count) count
  reported : Reported statusOf store.requests

/-- The last ids of a queue, counted in natural numbers. -/
theorem map_id_eq_range' {queue : QueueState} {requests : List WithdrawalRequest}
    (hqueue : queue.unfinalizedRequests ≤ queue.lastRequestId)
    (h : idsOf requests = unfinalizedIds queue) :
    requests.map WithdrawalRequest.id =
      List.range' (queue.lastRequestId + 1 - queue.unfinalizedRequests)
        queue.unfinalizedRequests := by
  have hcast : (requests.map WithdrawalRequest.id).map (Nat.cast : ℕ → ℤ) =
      (List.range' (queue.lastRequestId + 1 - queue.unfinalizedRequests)
        queue.unfinalizedRequests).map Nat.cast := by
    rw [List.map_map, List.range'_eq_map_range, List.map_map]
    refine h.trans (List.map_congr_left fun i _ => ?_)
    simp only [Function.comp_apply]
    omega
  exact List.map_injective_iff.mpr Nat.cast_injective hcast

/-- What the queue contract may answer: a queue with at least as many requests as
are unfinalized, and the immutable data of the requests of a page. Every read may
fail. -/
def answersFrom (statusOf : ℕ → WithdrawalStatus) : Suspension → Answer → Prop
  | .fetchingQueue, .queue queue => queue.unfinalizedRequests ≤ queue.lastRequestId
  | .fetchingPage _ _ requestIds, .page withdrawalStatuses =>
      withdrawalStatuses = (pageOf requestIds).map fun id => statusOf id.toNat
  | _, _ => True

instance (statusOf : ℕ → WithdrawalStatus) :
    (suspension : Suspension) → (answer : Answer) →
      Decidable (answersFrom statusOf suspension answer)
  | .fetchingQueue, .queue queue =>
      inferInstanceAs (Decidable (queue.unfinalizedRequests ≤ queue.lastRequestId))
  | .fetchingPage _ _ _, .page withdrawalStatuses =>
      inferInstanceAs (Decidable (withdrawalStatuses = _))
  | .fetchingQueue, .page _ => .isTrue trivial
  | .fetchingQueue, .rejected => .isTrue trivial
  | .fetchingPage _ _ _, .queue _ => .isTrue trivial
  | .fetchingPage _ _ _, .rejected => .isTrue trivial

/-- What the job has collected where it is suspended. -/
def collecting (statusOf : ℕ → WithdrawalStatus) : Option Suspension → Prop
  | some (.fetchingPage queue requests requestIds) =>
      queue.unfinalizedRequests ≤ queue.lastRequestId ∧
        idsOf requests ++ requestIds = unfinalizedIds queue ∧ Reported statusOf requests
  | _ => True

/-- What a segment of a tick keeps: it leaves the store alone or stores a queue. -/
structure Collects (statusOf : ℕ → WithdrawalStatus) (publishes : Bool) (memory : Memory)
    (segment : Memory × Option Suspension) : Prop where
  collecting : collecting statusOf segment.2
  unchanged : publishes = false → segment.1 = memory
  stored : publishes = true → ∃ last count,
    HoldsQueue statusOf segment.1.stores.queueInfo last count

/-- A page moves its ids from those that are still to be fetched to the requests. -/
theorem idsOf_append_page {requests : List WithdrawalRequest} {requestIds : List ℤ}
    {withdrawalStatuses : List WithdrawalStatus} (hpositive : ∀ id ∈ pageOf requestIds, 0 < id)
    (hlength : withdrawalStatuses.length = (pageOf requestIds).length) :
    idsOf (requests ++ List.zipWith withdrawalRequest (pageOf requestIds) withdrawalStatuses) ++
        requestIds.drop withdrawalStatusPageSize = idsOf requests ++ requestIds := by
  rw [idsOf_append, idsOf_zipWith hpositive hlength, List.append_assoc, pageOf,
    List.take_append_drop]

/-- The loop over the pages keeps what has been collected. -/
theorem collects_nextPage {statusOf : ℕ → WithdrawalStatus} {queue : QueueState}
    {requests : List WithdrawalRequest} {requestIds : List ℤ}
    (hqueue : queue.unfinalizedRequests ≤ queue.lastRequestId)
    (hids : idsOf requests ++ requestIds = unfinalizedIds queue)
    (hreported : Reported statusOf requests) (clock : CronClock) (memory : Memory) :
    Collects statusOf requestIds.isEmpty memory
      (nextPage queue requests requestIds clock memory) := by
  rcases nextPage_cases queue requests requestIds clock memory with
    ⟨hopen, hnext⟩ | ⟨rfl, hnext⟩
  · rw [hnext, hopen]
    exact ⟨⟨hqueue, hids, hreported⟩, fun _ => rfl, fun h => by cases h⟩
  · rw [List.append_nil] at hids
    have hlength : requests.length = queue.unfinalizedRequests := by
      rw [← length_idsOf, hids, unfinalizedIds, length_idsFrom]
    rw [hnext]
    exact ⟨trivial, fun h => (by cases h), fun _ => ⟨queue.lastRequestId,
      queue.unfinalizedRequests, rfl, rfl, hlength, map_id_eq_range' hqueue hids, hreported⟩⟩

/-- One segment of a tick. -/
theorem collects_resume {statusOf : ℕ → WithdrawalStatus} {suspension : Suspension}
    {answer : CronClock × Answer} {memory : Memory}
    (hanswers : answersFrom statusOf suspension answer.2)
    (hcached : Reported statusOf memory.stores.queueInfo.requests)
    (hcollecting : collecting statusOf (some suspension)) :
    Collects statusOf (publishes suspension answer memory) memory
      (resume suspension answer memory) := by
  have hsegment := queueSegment_resume suspension answer memory
  generalize resume suspension answer memory = segment at hsegment ⊢
  cases hsegment with
  | ended hfails =>
      rw [hfails]
      exact ⟨trivial, fun _ => rfl, fun h => by cases h⟩
  | collected hkept hpublishes =>
      obtain ⟨hids, hsubset⟩ := getUpdatedRequests_eq_ok hkept
      rw [hpublishes]
      exact collects_nextPage hanswers hids
        (fun request hmem => hcached request (hsubset request hmem)) _ memory
  | @fetched queue clock _ requests requestIds withdrawalStatuses hpositive hpublishes =>
      obtain ⟨hqueue, hids, hreported⟩ := hcollecting
      have hstatuses : withdrawalStatuses = (pageOf requestIds).map fun id => statusOf id.toNat :=
        hanswers
      rw [hpublishes]
      refine collects_nextPage hqueue ?_ ?_ clock memory
      · rw [idsOf_append_page hpositive (by rw [hstatuses, List.length_map])]
        exact hids
      · rw [hstatuses]
        exact hreported.append (reported_zipWith statusOf _)

end QueueInfoService

namespace System

open QueueInfoService ValidatorsService

/-! ## The steps of a tick -/

/-- Where the queue job is suspended. -/
def updateQueueInfo (s : System) : Option QueueInfoService.Suspension :=
  s.suspended .updateQueueInfo

/-- What the queue contract answers the queue job. -/
def AnswersQueue (statusOf : ℕ → WithdrawalStatus) (s : System) : Event → Prop
  | .resume .updateQueueInfo answer =>
      match s.updateQueueInfo with
      | some suspension => answersFrom statusOf suspension (Prod.snd answer)
      | none => True
  | _ => True

instance decidableAnswersQueue (statusOf : ℕ → WithdrawalStatus) (s : System) :
    (event : Event) → Decidable (s.AnswersQueue statusOf event)
  | .start _ _ => .isTrue trivial
  | .resume .updateQueueInfo answer =>
      match h : s.updateQueueInfo with
      | some suspension => decidable_of_iff (answersFrom statusOf suspension (Prod.snd answer))
          (by simp only [AnswersQueue, h])
      | none => .isTrue (by simp only [AnswersQueue, h])
  | .resume .initializeFromCache _ => .isTrue trivial
  | .resume .updateValidators _ => .isTrue trivial
  | .resume .updateLidoWithdrawableValidators _ => .isTrue trivial
  | .resume .updateContractConfig _ => .isTrue trivial

/-- A tick of the queue job reaches its end here. -/
def queueTickSucceeds (s : System) : Event → Bool
  | .resume .updateQueueInfo answer =>
      match s.updateQueueInfo with
      | some suspension => publishes suspension answer s.shared
      | none => false
  | _ => false

/-- No tick of the queue job reaches its end here. -/
def NoTickSucceeds (s : System) (event : Event) : Prop := s.queueTickSucceeds event = false

instance (s : System) (event : Event) : Decidable (s.NoTickSucceeds event) :=
  inferInstanceAs (Decidable (_ = false))

/-- No other job writes the queue store. -/
theorem queueInfo_of_job_ne {s : System} {event : Event} {job : JobName}
    {segment : Memory × Option (jobs job).Suspension} (hruns : s.Runs event job segment)
    (hjob : job ≠ .updateQueueInfo) :
    segment.1.stores.queueInfo = s.shared.stores.queueInfo := by
  cases hruns with
  | @start job input hidle => cases job <;> rfl
  | @resume job answer suspension hsuspended =>
      cases job with
      | initializeFromCache =>
          obtain ⟨validators, hstored⟩ :=
            ValidatorsCacheService.resume_fst suspension answer s.shared
          exact congrArg (fun memory => memory.stores.queueInfo) hstored
      | updateValidators =>
          obtain ⟨validators, hstores⟩ :=
            (updateSegment_resume suspension answer s.shared).stores_eq
          have hqueue : (resumeUpdateValidators suspension answer s.shared).1.stores.queueInfo =
              s.shared.stores.queueInfo := by rw [hstores]
          exact hqueue
      | updateLidoWithdrawableValidators =>
          rcases refresh_fst suspension answer s.shared with ⟨-, hsame⟩ | ⟨-, tally, hstored⟩
          · exact congrArg (fun memory => memory.stores.queueInfo) hsame
          · exact congrArg (fun memory => memory.stores.queueInfo) hstored
      | updateQueueInfo => exact absurd rfl hjob
      | updateContractConfig =>
          rcases ContractConfigService.resume_fst suspension answer s.shared with
            hsame | ⟨wasSrv3KnownLastTick, reads, now, hstored⟩
          · exact congrArg (fun memory => memory.stores.queueInfo) hsame
          · exact congrArg (fun memory => memory.stores.queueInfo) hstored

/-! ## Every run -/

/-- What the queue job has collected where it is suspended. -/
def queueAsserts (statusOf : ℕ → WithdrawalStatus) :
    (job : JobName) → Option (jobs job).Suspension → Memory → Prop
  | .updateQueueInfo => fun suspended _ => collecting statusOf suspended
  | .initializeFromCache => fun _ _ => True
  | .updateValidators => fun _ _ => True
  | .updateLidoWithdrawableValidators => fun _ _ => True
  | .updateContractConfig => fun _ _ => True

variable {statusOf : ℕ → WithdrawalStatus}

theorem queue_segment {s : System} {event : Event} {job : JobName}
    {segment : Memory × Option (jobs job).Suspension} (hanswers : s.AnswersQueue statusOf event)
    (hruns : s.Runs event job segment)
    (hreported : Reported statusOf s.shared.stores.queueInfo.requests)
    (hasserts : queueAsserts statusOf job (s.suspended job) s.shared) :
    Reported statusOf segment.1.stores.queueInfo.requests ∧
      queueAsserts statusOf job segment.2 segment.1 := by
  by_cases hjob : job = .updateQueueInfo
  · subst hjob
    cases hruns with
    | start hidle => exact ⟨hreported, trivial⟩
    | @resume _ answer suspension hsuspended =>
        rw [hsuspended] at hasserts
        simp only [AnswersQueue, updateQueueInfo, hsuspended] at hanswers
        have hcollects := collects_resume hanswers hreported hasserts
        refine ⟨?_, hcollects.collecting⟩
        cases hpublishes : publishes suspension answer s.shared with
        | false =>
            change Reported statusOf (resume suspension answer s.shared).1.stores.queueInfo.requests
            rw [hcollects.unchanged hpublishes]
            exact hreported
        | true =>
            obtain ⟨last, count, hstored⟩ := hcollects.stored hpublishes
            exact hstored.reported
  · rw [queueInfo_of_job_ne hruns hjob]
    exact ⟨hreported, by cases job <;> first | exact absurd rfl hjob | trivial⟩

/-- The requests in the store and those a tick has collected are the contract's. -/
def queueOutline (statusOf : ℕ → WithdrawalStatus) : Job.Outline jobs (AnswersQueue statusOf) where
  invariant memory := Reported statusOf memory.stores.queueInfo.requests
  asserts := queueAsserts statusOf
  commits _ _ _ := True
  segment hanswers hruns hreported hasserts :=
    ⟨(queue_segment hanswers hruns hreported hasserts).1,
      (queue_segment hanswers hruns hreported hasserts).2, trivial⟩
  stable := by
    intro job other _ suspended before after hasserts _
    cases job <;> exact hasserts

/-- The store holds some queue. -/
def StoresQueue (statusOf : ℕ → WithdrawalStatus) (s : System) : Prop :=
  ∃ last count, HoldsQueue statusOf s.shared.stores.queueInfo last count

/-- Where no tick reaches its end, the queue store stays as it is. -/
theorem queueInfo_step {s : System} {event : Event} (hanswers : s.AnswersQueue statusOf event)
    (h : (queueOutline statusOf).Holds s) (hfails : s.NoTickSucceeds event) :
    (s.step event).shared.stores.queueInfo = s.shared.stores.queueInfo := by
  rcases s.step_cases event with hstep | ⟨job, segment, hruns⟩
  · rw [hstep]
  · rw [hruns.step_shared]
    by_cases hjob : job = .updateQueueInfo
    · subst hjob
      cases hruns with
      | start hidle => rfl
      | @resume _ answer suspension hsuspended =>
          have hcollecting := h.asserts .updateQueueInfo
          rw [hsuspended] at hcollecting
          simp only [AnswersQueue, NoTickSucceeds, queueTickSucceeds, updateQueueInfo,
            hsuspended] at hanswers hfails
          have hsame := (collects_resume hanswers h.invariant hcollecting).unchanged hfails
          exact congrArg (fun memory => memory.stores.queueInfo) hsame
    · exact queueInfo_of_job_ne hruns hjob

/-- Where a tick reaches its end, the store holds the queue the tick has read. -/
theorem storesQueue_step {s : System} {event : Event} (hanswers : s.AnswersQueue statusOf event)
    (h : (queueOutline statusOf).Holds s) (hsucceeds : s.queueTickSucceeds event = true) :
    StoresQueue statusOf (s.step event) := by
  cases event with
  | start job input => cases hsucceeds
  | resume job answer =>
      cases job with
      | updateQueueInfo =>
          cases hsuspended : s.suspended .updateQueueInfo with
          | none => simp [queueTickSucceeds, updateQueueInfo, hsuspended] at hsucceeds
          | some suspension =>
              have hcollecting := h.asserts .updateQueueInfo
              rw [hsuspended] at hcollecting
              simp only [AnswersQueue, queueTickSucceeds, updateQueueInfo,
                hsuspended] at hanswers hsucceeds
              have hstored := (collects_resume hanswers h.invariant hcollecting).stored hsucceeds
              have hruns : s.Runs (.resume .updateQueueInfo answer) .updateQueueInfo _ :=
                .resume hsuspended
              rw [StoresQueue, hruns.step_shared]
              exact hstored
      | _ => cases hsucceeds

/-- Over a run: without a success the store is as it was, and once a tick has
succeeded it holds a queue. The induction is on the run. -/
theorem queueInfo_run {s : System} {events : List Event}
    (hanswers : Job.State.Meets (AnswersQueue statusOf) s events)
    (h : (queueOutline statusOf).Holds s) :
    (Job.State.Meets NoTickSucceeds s events →
        (s.run events).shared.stores.queueInfo = s.shared.stores.queueInfo) ∧
      (¬ Job.State.Meets NoTickSucceeds s events ∨ StoresQueue statusOf s →
        StoresQueue statusOf (s.run events)) := by
  induction events generalizing s with
  | nil =>
      refine ⟨fun _ => rfl, ?_⟩
      rintro (hsucceeds | hstores)
      · exact absurd trivial hsucceeds
      · exact hstores
  | cons event events ih =>
      have hnext := (queueOutline statusOf).holds_step s event hanswers.1 h
      obtain ⟨hunchanged, hstored⟩ := ih hanswers.2 hnext
      constructor
      · rintro ⟨hfails, hrest⟩
        exact (hunchanged hrest).trans (queueInfo_step hanswers.1 h hfails)
      · intro hcase
        apply hstored
        by_cases hfails : s.NoTickSucceeds event
        · rcases hcase with hsucceeds | hstores
          · exact Or.inl fun hrest => hsucceeds ⟨hfails, hrest⟩
          · right
            obtain ⟨last, count, hholds⟩ := hstores
            exact ⟨last, count, queueInfo_step hanswers.1 h hfails ▸ hholds⟩
        · exact Or.inr (storesQueue_step hanswers.1 h (Bool.not_eq_false _ ▸ hfails))

theorem queueOutline_boot (genesisTime : ℤ) (cacheFile : Option (List Char)) :
    (queueOutline statusOf).Holds (boot genesisTime cacheFile) where
  invariant := by
    intro request hmem
    cases hmem
  asserts job := by cases job <;> trivial

/-- **The stored queue over a run.** For any part of a run from the start of the
service, with the other jobs in between: ticks that do not reach their end leave
every field of the store as it is, and as soon as one has reached its end the store
holds the unfinalized requests of a queue, in order, with the data of their ids. -/
theorem holdsQueue_run (genesisTime : ℤ) {cacheFile : Option (List Char)}
    {before events : List Event}
    (hanswers : Job.State.Meets (AnswersQueue statusOf) (boot genesisTime cacheFile)
      (before ++ events)) :
    (Job.State.Meets NoTickSucceeds ((boot genesisTime cacheFile).run before) events →
        ((boot genesisTime cacheFile).run (before ++ events)).shared.stores.queueInfo =
          ((boot genesisTime cacheFile).run before).shared.stores.queueInfo) ∧
      (¬ Job.State.Meets NoTickSucceeds ((boot genesisTime cacheFile).run before) events →
        ∃ last count, HoldsQueue statusOf
          ((boot genesisTime cacheFile).run (before ++ events)).shared.stores.queueInfo
          last count) := by
  obtain ⟨hbefore, hevents⟩ := Job.State.meets_append.mp hanswers
  have hholds := (queueOutline statusOf).holds_run hbefore
    (queueOutline_boot genesisTime cacheFile)
  obtain ⟨hunchanged, hstored⟩ := queueInfo_run hevents hholds
  rw [Job.State.run_append]
  exact ⟨hunchanged, fun hsucceeds => hstored (Or.inl hsucceeds)⟩

/-- The contract reports one ether for every request. -/
def oneEtherEach (id : ℕ) : WithdrawalStatus where
  amountOfStETH := 1000000000000000000
  timestamp := 9000 + id

/-- An answer to the call that the queue job awaits. -/
def answerQueue (answer : QueueInfoService.Answer) : Event :=
  .resume .updateQueueInfo ((sampleClock, answer) : CronClock × QueueInfoService.Answer)

/-- A tick that finds the fifth request, and one that fails at the page of the
sixth. -/
def twoTicks : List Event :=
  [.start .updateQueueInfo (), answerQueue (.queue sampleQueue),
    answerQueue (.page [oneEtherEach 5]), .start .updateQueueInfo (),
    answerQueue (.queue { sampleQueue with lastRequestId := 6, unfinalizedRequests := 2 }),
    answerQueue .rejected]

theorem holdsQueue_run_twoTicks : ∃ last count, HoldsQueue oneEtherEach
    ((boot 0 none).run ([] ++ twoTicks)).shared.stores.queueInfo last count := by
  have hanswers : Job.State.Meets (AnswersQueue oneEtherEach) (boot 0 none)
      ([] ++ twoTicks) := by decide +kernel
  apply (holdsQueue_run 0 hanswers).2
  decide +kernel

/-- Before a tick has succeeded the store does not even know a count. -/
theorem holdsQueue_not_after_every_tick :
    ¬ ∀ (genesisTime : ℤ) (cacheFile : Option (List Char)) (statusOf : ℕ → WithdrawalStatus)
      (before : List Event) (event : Event),
      Job.State.Meets (AnswersQueue statusOf) (boot genesisTime cacheFile) (before ++ [event]) →
      updateQueueInfo ((boot genesisTime cacheFile).run before) ≠ none →
      updateQueueInfo ((boot genesisTime cacheFile).run (before ++ [event])) = none →
      ∃ last count, HoldsQueue statusOf
        ((boot genesisTime cacheFile).run (before ++ [event])).shared.stores.queueInfo
        last count := by
  intro hevery
  obtain ⟨last, count, hholds⟩ := hevery 0 none oneEtherEach [.start .updateQueueInfo ()]
    (answerQueue .rejected) (by decide +kernel) (fun h => by cases h) rfl
  cases hholds.unfinalizedRequestsCount

end System

end WithdrawalsApi
