/-
# The two numbers a tick reads of a moving queue

A tick reads how many requests are unfinalized and the id of the last request,
and counts back from the one by the other. The reads carry no block tag: each is
served from the queue as it is at that moment, in either order, and requests are
made and finalized meanwhile.

The job is the queue job with the first suspension cut open. The node serves the
two reads one by one, and when the batch is complete the job goes on as before
with the numbers it has been served.
-/

import WithdrawalsApi.Jobs.QueueRuns
import WithdrawalsApi.WaitingTime.Classification

namespace WithdrawalsApi

open Js Math

/-- The withdrawal queue on chain. -/
structure WithdrawalQueue where
  lastRequestId : ℕ
  lastFinalizedRequestId : ℕ
  finalized_le : lastFinalizedRequestId ≤ lastRequestId
  deriving DecidableEq

namespace WithdrawalQueue

def unfinalizedRequestNumber (queue : WithdrawalQueue) : ℕ :=
  queue.lastRequestId - queue.lastFinalizedRequestId

/-- A request is made, or a number of requests is finalized. -/
inductive Transition
  | requested
  | finalized (count : ℕ)

def next : Transition → WithdrawalQueue → WithdrawalQueue
  | .requested, queue =>
      { lastRequestId := queue.lastRequestId + 1
        lastFinalizedRequestId := queue.lastFinalizedRequestId
        finalized_le := Nat.le_succ_of_le queue.finalized_le }
  | .finalized count, queue =>
      { lastRequestId := queue.lastRequestId
        lastFinalizedRequestId := min (queue.lastFinalizedRequestId + count) queue.lastRequestId
        finalized_le := Nat.min_le_right _ _ }

/-- A later state of the queue. -/
structure Precedes (earlier later : WithdrawalQueue) : Prop where
  lastRequestId_le : earlier.lastRequestId ≤ later.lastRequestId
  lastFinalizedRequestId_le : earlier.lastFinalizedRequestId ≤ later.lastFinalizedRequestId

theorem Precedes.refl (queue : WithdrawalQueue) : queue.Precedes queue := ⟨le_rfl, le_rfl⟩

theorem Precedes.trans {first second third : WithdrawalQueue} (h : first.Precedes second)
    (h' : second.Precedes third) : first.Precedes third :=
  ⟨h.1.trans h'.1, h.2.trans h'.2⟩

theorem precedes_next (transition : Transition) (queue : WithdrawalQueue) :
    queue.Precedes (next transition queue) := by
  have hfinalized := queue.finalized_le
  cases transition with
  | requested => exact ⟨Nat.le_succ _, le_rfl⟩
  | finalized count => exact ⟨le_rfl, le_min (Nat.le_add_right _ _) hfinalized⟩

end WithdrawalQueue

/-- The memory of the service, and the queue it reads from. -/
structure QueueWorld where
  memory : Memory
  queue : WithdrawalQueue

namespace QueueReads

/-- The two reads whose values belong together. -/
inductive Read
  | unfinalizedRequestNumber
  | getLastRequestId

/-- Each read is kept with the queue that has served it; so is the queue at the
start of the tick, which the job does not know. -/
inductive Suspension
  | reading (started : WithdrawalQueue) (countAt lastAt : Option WithdrawalQueue)
  | collecting (started countAt lastAt : WithdrawalQueue)
      (suspension : QueueInfoService.Suspension)

inductive Answer
  | served (read : Read)
  /-- The batch is complete, with these values of the other reads. -/
  | settled (clock : QueueInfoService.CronClock) (others : QueueInfoService.QueueState)
  | page (clock : QueueInfoService.CronClock)
      (withdrawalStatuses : List QueueInfoService.WithdrawalStatus)
  | rejected

/-- A step of the queue job, and what the numbers of its tick were read from. -/
structure Step where
  started : WithdrawalQueue
  countAt : WithdrawalQueue
  lastAt : WithdrawalQueue
  suspension : QueueInfoService.Suspension
  answer : QueueInfoService.CronClock × QueueInfoService.Answer

/-- The step of the queue job that an answer amounts to. -/
def step? : Suspension → Answer → Option Step
  | .reading started (some countAt) (some lastAt), .settled clock others => some {
      started
      countAt
      lastAt
      suspension := .fetchingQueue
      answer := (clock, .queue { others with
        lastRequestId := lastAt.lastRequestId
        unfinalizedRequests := countAt.unfinalizedRequestNumber }) }
  | .collecting started countAt lastAt suspension, .page clock withdrawalStatuses => some {
      started
      countAt
      lastAt
      suspension
      answer := (clock, .page withdrawalStatuses) }
  | _, _ => none

/-- A read that has been served keeps its value. -/
def serve (queue : WithdrawalQueue) : Read → Suspension → Suspension
  | .unfinalizedRequestNumber, .reading started none lastAt =>
      .reading started (some queue) lastAt
  | .getLastRequestId, .reading started countAt none => .reading started countAt (some queue)
  | _, suspension => suspension

def resume (suspension : Suspension) (answer : Answer) (world : QueueWorld) :
    QueueWorld × Option Suspension :=
  match step? suspension answer with
  | some step =>
      let segment := QueueInfoService.resume step.suspension step.answer world.memory
      ({ world with memory := segment.1 },
        segment.2.map (.collecting step.started step.countAt step.lastAt))
  | none =>
      match answer with
      | .served read => (world, some (serve world.queue read suspension))
      | .rejected => (world, none)
      | _ => (world, some suspension)

end QueueReads

inductive QueueActor
  | chain
  | updateQueueInfo
  deriving DecidableEq

/-- The queue moves, and the job reads it. -/
def queueActors : QueueActor → Job.{0, 0} QueueWorld
  | .chain => .atomic fun transition world =>
      { world with queue := WithdrawalQueue.next transition world.queue }
  | .updateQueueInfo => {
      Input := Unit
      Suspension := QueueReads.Suspension
      Answer := QueueReads.Answer
      start := fun _ world => (world, some (.reading world.queue none none))
      resume := QueueReads.resume }

namespace QueueReads

open QueueInfoService Job.State

/-! ## What a tick collects -/

/-- The requests a tick holds and the ids it still fetches are the ids it counted
back from the last one. -/
def CollectsFor (queue : QueueState) : QueueInfoService.Suspension → Prop
  | .fetchingQueue => False
  | .fetchingPage tickQueue requests requestIds =>
      tickQueue = queue ∧ idsOf requests ++ requestIds = unfinalizedIds queue

/-- A page has one status for each id. -/
def answersPage : Suspension → Answer → Bool
  | .collecting _ _ _ (.fetchingPage _ _ requestIds), .page _ withdrawalStatuses =>
      decide (withdrawalStatuses.length = (pageOf requestIds).length)
  | _, _ => true

/-- The end of a segment of the queue job that collects for a queue. -/
structure CollectsNext (queue : QueueState) (publishes : Bool)
    (segment : Memory × Option QueueInfoService.Suspension) : Prop where
  suspended : ∀ suspension ∈ segment.2, CollectsFor queue suspension
  stored : publishes = true →
    idsOf segment.1.stores.queueInfo.requests = unfinalizedIds queue

theorem collectsNext_nextPage {queue : QueueState} {requests : List WithdrawalRequest}
    {requestIds : List ℤ} (hids : idsOf requests ++ requestIds = unfinalizedIds queue)
    (clock : CronClock) (memory : Memory) :
    CollectsNext queue requestIds.isEmpty (nextPage queue requests requestIds clock memory) := by
  rcases nextPage_cases queue requests requestIds clock memory with
    ⟨hopen, hnext⟩ | ⟨rfl, hnext⟩
  · rw [hnext, hopen]
    refine ⟨?_, fun h => (by cases h)⟩
    rintro suspension ⟨⟩
    exact ⟨rfl, hids⟩
  · rw [List.append_nil] at hids
    rw [hnext]
    exact ⟨fun _ h => (by cases h), fun _ => hids⟩

theorem collectsNext_ended {queue : QueueState} (memory : Memory) :
    CollectsNext queue false (memory, none) :=
  ⟨fun _ h => (by cases h), fun h => (by cases h)⟩

/-- The first segment counts back from the last id. -/
theorem collectsNext_queue (queue : QueueState) (clock : CronClock) (memory : Memory) :
    CollectsNext queue (publishes .fetchingQueue (clock, .queue queue) memory)
      (QueueInfoService.resume .fetchingQueue (clock, .queue queue) memory) := by
  have hsegment := queueSegment_resume .fetchingQueue (clock, .queue queue) memory
  generalize QueueInfoService.resume _ _ memory = segment at hsegment ⊢
  cases hsegment with
  | ended hfails =>
      rw [hfails]
      exact collectsNext_ended memory
  | collected hkept hpublishes =>
      rw [hpublishes]
      exact collectsNext_nextPage (getUpdatedRequests_eq_ok hkept).1 clock memory

/-- A page goes on where the last one has ended. -/
theorem collectsNext_page {queue : QueueState} {suspension : QueueInfoService.Suspension}
    (hcollects : CollectsFor queue suspension) {started countAt lastAt : WithdrawalQueue}
    {clock : CronClock} {withdrawalStatuses : List WithdrawalStatus}
    (hpage : answersPage (.collecting started countAt lastAt suspension)
      (.page clock withdrawalStatuses) = true) (memory : Memory) :
    CollectsNext queue (publishes suspension (clock, .page withdrawalStatuses) memory)
      (QueueInfoService.resume suspension (clock, .page withdrawalStatuses) memory) := by
  have hsegment := queueSegment_resume suspension (clock, .page withdrawalStatuses) memory
  generalize QueueInfoService.resume _ _ memory = segment at hsegment ⊢
  cases hsegment with
  | ended hfails =>
      rw [hfails]
      exact collectsNext_ended memory
  | @fetched tickQueue _ _ requests requestIds _ hpositive hpublishes =>
      obtain ⟨rfl, hids⟩ := hcollects
      rw [hpublishes]
      refine collectsNext_nextPage ?_ clock memory
      rw [idsOf_append_page hpositive (of_decide_eq_true hpage)]
      exact hids

/-! ## Reads between the start of a tick and now -/

/-- A state of the queue since the start of the tick. -/
structure Since (started now read : WithdrawalQueue) : Prop where
  started : started.Precedes read
  now : read.Precedes now

theorem Since.later {started now later read : WithdrawalQueue} (h : Since started now read)
    (hlater : now.Precedes later) : Since started later read := ⟨h.started, h.now.trans hlater⟩

/-- What is known of the reads of a tick where it is suspended. -/
def readAsserts (now : WithdrawalQueue) : Suspension → Prop
  | .reading started countAt lastAt =>
      started.Precedes now ∧ (∀ queue ∈ countAt, Since started now queue) ∧
        ∀ queue ∈ lastAt, Since started now queue
  | .collecting started countAt lastAt suspension =>
      Since started now countAt ∧ Since started now lastAt ∧ ∃ queue,
        queue.lastRequestId = lastAt.lastRequestId ∧
        queue.unfinalizedRequests = countAt.unfinalizedRequestNumber ∧
        CollectsFor queue suspension

theorem readAsserts_later {now later : WithdrawalQueue} {suspension : Suspension}
    (h : readAsserts now suspension) (hlater : now.Precedes later) :
    readAsserts later suspension := by
  cases suspension with
  | reading started countAt lastAt =>
      obtain ⟨hstarted, hcount, hlast⟩ := h
      exact ⟨hstarted.trans hlater, fun queue hmem => (hcount queue hmem).later hlater,
        fun queue hmem => (hlast queue hmem).later hlater⟩
  | collecting started countAt lastAt suspension =>
      obtain ⟨hcount, hlast, hcollects⟩ := h
      exact ⟨hcount.later hlater, hlast.later hlater, hcollects⟩

theorem readAsserts_serve {now : WithdrawalQueue} {suspension : Suspension}
    (h : readAsserts now suspension) (read : Read) :
    readAsserts now (serve now read suspension) := by
  unfold serve
  split
  · obtain ⟨hstarted, -, hlast⟩ := h
    refine ⟨hstarted, ?_, hlast⟩
    rintro queue ⟨⟩
    exact ⟨hstarted, .refl now⟩
  · obtain ⟨hstarted, hcount, -⟩ := h
    refine ⟨hstarted, hcount, ?_⟩
    rintro queue ⟨⟩
    exact ⟨hstarted, .refl now⟩
  · exact h

/-- What an answer that is a step of the queue job leads to: the reads lie between
the start and now, and the ids are those counted back by them. -/
structure StepCollects (now : WithdrawalQueue) (memory : Memory) (step : Step) : Prop where
  countAt : Since step.started now step.countAt
  lastAt : Since step.started now step.lastAt
  next : ∃ queue, queue.lastRequestId = step.lastAt.lastRequestId ∧
    queue.unfinalizedRequests = step.countAt.unfinalizedRequestNumber ∧
    CollectsNext queue (publishes step.suspension step.answer memory)
      (QueueInfoService.resume step.suspension step.answer memory)

theorem stepCollects {now : WithdrawalQueue} {suspension : Suspension} {answer : Answer}
    {step : Step} (h : readAsserts now suspension) (hpage : answersPage suspension answer = true)
    (hstep : step? suspension answer = some step) (memory : Memory) :
    StepCollects now memory step := by
  unfold step? at hstep
  split at hstep
  next started countAt lastAt clock others =>
    obtain rfl := Option.some.inj hstep
    obtain ⟨-, hcount, hlast⟩ := h
    exact ⟨hcount countAt rfl, hlast lastAt rfl, _, rfl, rfl, collectsNext_queue _ clock memory⟩
  next started countAt lastAt inner clock withdrawalStatuses =>
    obtain rfl := Option.some.inj hstep
    obtain ⟨hcount, hlast, queue, hlastId, hnumber, hcollects⟩ := h
    exact ⟨hcount, hlast, queue, hlastId, hnumber, collectsNext_page hcollects hpage memory⟩
  next => cases hstep

/-- A step of the tick keeps what is known of its reads. -/
theorem readAsserts_resume {suspension : Suspension} {answer : Answer} {world : QueueWorld}
    (h : readAsserts world.queue suspension) (hpage : answersPage suspension answer = true) :
    (resume suspension answer world).1.queue = world.queue ∧
      ∀ next ∈ (resume suspension answer world).2, readAsserts world.queue next := by
  unfold resume
  cases hstep : step? suspension answer with
  | some step =>
      obtain ⟨hcount, hlast, queue, hlastId, hnumber, hnext⟩ :=
        stepCollects h hpage hstep world.memory
      refine ⟨rfl, fun next hmem => ?_⟩
      obtain ⟨inner, hinner, rfl⟩ := Option.mem_map.mp hmem
      exact ⟨hcount, hlast, queue, hlastId, hnumber, hnext.suspended inner hinner⟩
  | none =>
      cases answer with
      | served read =>
          refine ⟨rfl, ?_⟩
          rintro next ⟨⟩
          exact readAsserts_serve h read
      | rejected => exact ⟨rfl, fun next hmem => by cases hmem⟩
      | settled clock others =>
          refine ⟨rfl, ?_⟩
          rintro next ⟨⟩
          exact h
      | page clock withdrawalStatuses =>
          refine ⟨rfl, ?_⟩
          rintro next ⟨⟩
          exact h

/-! ## Every run -/

/-- Where the tick is suspended. -/
def updateQueueInfo (s : Job.State queueActors) : Option Suspension := s.suspended .updateQueueInfo

/-- The contract answers a page with one status for each id. -/
def AnswersPages (s : Job.State queueActors) : Job.Event queueActors → Prop
  | .resume .updateQueueInfo answer =>
      (updateQueueInfo s).all (fun suspension => answersPage suspension answer) = true
  | _ => True

instance decidableAnswersPages (s : Job.State queueActors) :
    (event : Job.Event queueActors) → Decidable (AnswersPages s event)
  | .start _ _ => .isTrue trivial
  | .resume .chain _ => .isTrue trivial
  | .resume .updateQueueInfo _ => inferInstanceAs (Decidable (_ = true))

def worldAsserts : (actor : QueueActor) → Option (queueActors actor).Suspension → QueueWorld → Prop
  | .chain => fun _ _ => True
  | .updateQueueInfo => fun suspended world =>
      ∀ suspension ∈ suspended, readAsserts world.queue suspension

theorem world_segment {s : Job.State queueActors} {event : Job.Event queueActors}
    {actor : QueueActor} {segment : QueueWorld × Option (queueActors actor).Suspension}
    (hpages : AnswersPages s event) (hruns : s.Runs event actor segment)
    (hasserts : worldAsserts actor (s.suspended actor) s.shared) :
    worldAsserts actor segment.2 segment.1 ∧ s.shared.queue.Precedes segment.1.queue := by
  cases hruns with
  | @start actor input hidle =>
      cases actor with
      | chain => exact ⟨trivial, WithdrawalQueue.precedes_next _ _⟩
      | updateQueueInfo =>
          refine ⟨?_, .refl _⟩
          rintro suspension ⟨⟩
          exact ⟨.refl _, fun _ h => (by cases h), fun _ h => (by cases h)⟩
  | @resume actor answer suspension hsuspended =>
      cases actor with
      | chain => cases suspension
      | updateQueueInfo =>
          simp only [AnswersPages, updateQueueInfo, hsuspended] at hpages
          obtain ⟨hqueue, hnext⟩ := readAsserts_resume (hasserts suspension hsuspended) hpages
          refine ⟨fun next hmem => ?_, ?_⟩
          · change readAsserts (resume suspension answer s.shared).1.queue next
            rw [hqueue]
            exact hnext next hmem
          · change s.shared.queue.Precedes (resume suspension answer s.shared).1.queue
            rw [hqueue]
            exact .refl _

/-- The reads of a tick lie between its start and now. -/
def readOutline : Job.Outline queueActors AnswersPages where
  invariant _ := True
  asserts := worldAsserts
  commits _ before after := before.queue.Precedes after.queue
  segment hpages hruns _ hasserts := ⟨trivial, world_segment hpages hruns hasserts⟩
  stable := by
    intro actor other _ suspended before after hasserts hprecedes
    cases actor with
    | chain => trivial
    | updateQueueInfo =>
        intro suspension hmem
        exact readAsserts_later (hasserts suspension hmem) hprecedes

/-! ## Listed requests -/

/-- A request that was in the queue at the start of the tick and still is. -/
def UnfinalizedThroughout (started now : WithdrawalQueue) (requestId : ℕ) : Prop :=
  now.lastFinalizedRequestId < requestId ∧ requestId ≤ started.lastRequestId

/-- No response over these requests calls a request finalized. -/
def NeverFinalized (requests : List WithdrawalRequest) (requestId : ℕ) : Prop :=
  ∀ (r : Readings) (now : ℤ) (state : BlockState) (info : GetWaitingTimeInfoResult),
    r.requests = requests → r.getWaitingTimeInfoById now state requestId = .ok info →
      info.status ≠ .finalized

theorem neverFinalized_of_mem {requests : List WithdrawalRequest} {first : ℤ} {count requestId : ℕ}
    (hids : idsOf requests = idsFrom first count)
    (hmem : requestId ∈ requests.map WithdrawalRequest.id) :
    NeverFinalized requests requestId := by
  rintro r now state info rfl hinfo
  obtain ⟨request, hrequest, rfl⟩ := List.mem_map.mp hmem
  have hlisted : (request.id : ℤ) ∈ idsFrom first count := by
    rw [← hids]
    exact List.mem_map.mpr ⟨request, hrequest, rfl⟩
  have hnot : ¬ r.PrecedesQueue request.id := by
    rintro (⟨hempty, -⟩ | ⟨head, hhead, hlt⟩)
    · rw [hempty] at hrequest
      cases hrequest
    · obtain ⟨rest, hrest⟩ := List.head?_eq_some_iff.mp hhead
      cases count with
      | zero => simp at hlisted
      | succ count =>
          rw [hrest, idsOf_cons, idsFrom_succ, List.cons.injEq] at hids
          rw [mem_idsFrom] at hlisted
          omega
  rw [Readings.getWaitingTimeInfoById_of_not_precedesQueue hnot] at hinfo
  cases hfind : r.requests.find? fun item => decide (item.id = request.id) with
  | none => simpa using List.find?_eq_none.mp hfind request hrequest
  | some found =>
      rw [hfind] at hinfo
      rw [(Readings.estimateRequest_names hinfo).1]
      exact nofun

theorem mem_map_id_iff {requests : List WithdrawalRequest} {requestId : ℕ} :
    requestId ∈ requests.map WithdrawalRequest.id ↔ (requestId : ℤ) ∈ idsOf requests := by
  simp [idsOf]

/-- With this answer the tick stores what it has collected. -/
def TickStores (s : Job.State queueActors) (answer : Answer) (step : Step) : Prop :=
  ∃ suspension, updateQueueInfo s = some suspension ∧ step? suspension answer = some step ∧
    publishes step.suspension step.answer s.shared.memory = true

/-- Between the count and the id of the last request no more requests were made than
have been finalized since the count; or of the requests at the start of the tick
none is left. -/
def KeepsHead (step : Step) (now : WithdrawalQueue) : Prop :=
  step.lastAt.lastRequestId - step.countAt.lastRequestId ≤
      now.lastFinalizedRequestId - step.countAt.lastFinalizedRequestId ∨
    step.started.lastRequestId ≤ now.lastFinalizedRequestId

theorem readOutline_idle (world : QueueWorld) :
    readOutline.Holds (.idle queueActors world) where
  invariant := trivial
  asserts actor := by
    cases actor with
    | chain => trivial
    | updateQueueInfo => exact fun _ hmem => (by cases hmem)

/-- The ids that a tick stores are counted back from the last id, as many as its count
says; both numbers have been read since its start. -/
theorem stored_of_tickStores {world : QueueWorld} {events : List (Job.Event queueActors)}
    {answer : Answer} {step : Step}
    (hpages : Job.State.Meets AnswersPages (.idle queueActors world)
      (events ++ [.resume .updateQueueInfo answer]))
    (hstores : TickStores ((Job.State.idle queueActors world).run events) answer step) :
    let s := (Job.State.idle queueActors world).run events
    let after := s.step (.resume .updateQueueInfo answer)
    Since step.started s.shared.queue step.countAt ∧
      Since step.started s.shared.queue step.lastAt ∧
      ∃ queue, queue.lastRequestId = step.lastAt.lastRequestId ∧
        queue.unfinalizedRequests = step.countAt.unfinalizedRequestNumber ∧
        idsOf after.shared.memory.stores.queueInfo.requests = unfinalizedIds queue := by
  intro s after
  obtain ⟨hpages, hpage, -⟩ := Job.State.meets_append.mp hpages
  obtain ⟨suspension, hsuspended, hstep, hpublishes⟩ := hstores
  have hasserts := (readOutline.holds_run hpages (readOutline_idle world)).asserts .updateQueueInfo
  simp only [AnswersPages, hsuspended, Option.all_some] at hpage
  obtain ⟨hcount, hlast, queue, hlastId, hnumber, hnext⟩ :=
    stepCollects (hasserts suspension hsuspended) hpage hstep s.shared.memory
  refine ⟨hcount, hlast, queue, hlastId, hnumber, ?_⟩
  have hruns : s.Runs (.resume .updateQueueInfo answer) .updateQueueInfo _ :=
    .resume hsuspended
  have hmemory : after.shared.memory =
      (QueueInfoService.resume step.suspension step.answer s.shared.memory).1 := by
    rw [hruns.step_shared]
    change (resume suspension answer s.shared).1.memory = _
    simp only [resume, hstep]
  rw [← hnext.stored hpublishes, ← hmemory]

/-- **A tick lists every request that is unfinalized throughout exactly when** its
numbers keep the head of the queue. What it lists is never called finalized. -/
theorem listed_iff {world : QueueWorld} {events : List (Job.Event queueActors)} {answer : Answer}
    {step : Step}
    (hpages : Job.State.Meets AnswersPages (.idle queueActors world)
      (events ++ [.resume .updateQueueInfo answer]))
    (hstores : TickStores ((Job.State.idle queueActors world).run events) answer step) :
    let s := (Job.State.idle queueActors world).run events
    let after := s.step (.resume .updateQueueInfo answer)
    let requests := after.shared.memory.stores.queueInfo.requests
    (∀ requestId, UnfinalizedThroughout step.started s.shared.queue requestId →
        requestId ∈ requests.map WithdrawalRequest.id ∧ NeverFinalized requests requestId) ↔
      KeepsHead step s.shared.queue := by
  intro s after requests
  obtain ⟨hcount, hlast, queue, hlastId, hnumber, hids⟩ := stored_of_tickStores hpages hstores
  have hlisted (requestId : ℕ) : requestId ∈ requests.map WithdrawalRequest.id ↔
      (step.lastAt.lastRequestId : ℤ) - step.countAt.unfinalizedRequestNumber + 1 ≤ requestId ∧
        requestId ≤ step.lastAt.lastRequestId := by
    rw [mem_map_id_iff, hids, unfinalizedIds, mem_idsFrom, hlastId, hnumber]
    omega
  have hfinalized := step.countAt.finalized_le
  have hstarted := hlast.started.lastRequestId_le
  have hlater : step.countAt.lastFinalizedRequestId ≤ s.shared.queue.lastFinalizedRequestId :=
    hcount.now.lastFinalizedRequestId_le
  simp only [WithdrawalQueue.unfinalizedRequestNumber] at hlisted
  constructor
  · intro hall
    by_contra hdrops
    simp only [KeepsHead, not_or, not_le] at hdrops
    have hthroughout : UnfinalizedThroughout step.started s.shared.queue
        (s.shared.queue.lastFinalizedRequestId + 1) := ⟨Nat.lt_succ_self _, hdrops.2⟩
    have hfirst := ((hlisted _).mp (hall _ hthroughout).1).1
    omega
  · rintro hkeeps requestId ⟨hopen, hold⟩
    have hmem : requestId ∈ requests.map WithdrawalRequest.id := by
      rw [hlisted]
      rcases hkeeps with hkeeps | hnone <;> omega
    exact ⟨hmem, neverFinalized_of_mem hids hmem⟩

/-- A queue in which the third request is the only unfinalized one. -/
def thirdRequest : QueueWorld where
  memory := { stores := { genesisTime := 0 } }
  queue := { lastRequestId := 3, lastFinalizedRequestId := 2, finalized_le := by decide }

/-- A tick up to its page; the queue moves between its two reads. -/
def movingTick (between : List WithdrawalQueue.Transition) : List (Job.Event queueActors) :=
  [.start .updateQueueInfo (),
      .resume .updateQueueInfo (Answer.served .unfinalizedRequestNumber)] ++
    between.map (Job.Event.start QueueActor.chain) ++
    [.resume .updateQueueInfo (Answer.served .getLastRequestId),
      .resume .updateQueueInfo (Answer.settled sampleClock sampleQueue)]

/-- The page of the fourth request. -/
def fourthPage : Answer := .page sampleClock [⟨1000000000000000000, 9500⟩]

/-- What the page finds: the count of the third request, and the id of the last one
after the moves. -/
def movedStep (lastAt : WithdrawalQueue) : Step where
  started := thirdRequest.queue
  countAt := thirdRequest.queue
  lastAt
  suspension := .fetchingPage
    { sampleQueue with lastRequestId := lastAt.lastRequestId, unfinalizedRequests := 1 } [] [4]
  answer := (sampleClock, .page [⟨1000000000000000000, 9500⟩])

/-- A fourth request is made and the third one is finalized between the reads. -/
theorem listed_iff_movingTick :
    let s := (Job.State.idle queueActors thirdRequest).run
      (movingTick [.requested, .finalized 1])
    let after := s.step (.resume .updateQueueInfo fourthPage)
    let requests := after.shared.memory.stores.queueInfo.requests
    (∀ requestId, UnfinalizedThroughout thirdRequest.queue s.shared.queue requestId →
        requestId ∈ requests.map WithdrawalRequest.id ∧ NeverFinalized requests requestId) ↔
      KeepsHead (movedStep ⟨4, 3, by decide⟩) s.shared.queue :=
  have hpages : Job.State.Meets AnswersPages (.idle queueActors thirdRequest)
      (movingTick [.requested, .finalized 1] ++ [.resume .updateQueueInfo fourthPage]) := by
    decide +kernel
  listed_iff hpages ⟨_, rfl, rfl, rfl⟩

/-- A fourth request is made between the reads: counted back from it, one request is
the fourth, and the third is missing. -/
theorem unfinalized_not_always_listed :
    ¬ ∀ (world : QueueWorld) (events : List (Job.Event queueActors)) (answer : Answer)
      (step : Step),
      Job.State.Meets AnswersPages (.idle queueActors world)
        (events ++ [.resume .updateQueueInfo answer]) →
      TickStores ((Job.State.idle queueActors world).run events) answer step →
      let s := (Job.State.idle queueActors world).run events
      let after := s.step (.resume .updateQueueInfo answer)
      ∀ requestId, UnfinalizedThroughout step.started s.shared.queue requestId →
        requestId ∈ after.shared.memory.stores.queueInfo.requests.map WithdrawalRequest.id := by
  intro hlisted
  have := hlisted thirdRequest (movingTick [.requested]) fourthPage (movedStep ⟨4, 2, by decide⟩)
    (by decide +kernel) ⟨_, rfl, rfl, rfl⟩ 3 ⟨by decide +kernel, by decide +kernel⟩
  revert this
  decide +kernel

end QueueReads

end WithdrawalsApi
