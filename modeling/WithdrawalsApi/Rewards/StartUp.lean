/-
# The start-up of the rewards

Two modules start at once, and nobody waits for either: the rewards service, which
updates the rewards and then subscribes to `TokenRebased`, and the configuration
job, which stores the length of a frame among other things. The first update
divides by that length. Neither `updateRewards` nor the call of it at the start
catches anything: when the update throws, the service never subscribes.

A query for logs is one awaited call here, which answers with the logs it has
collected. The queries of a report are made one after the other, those of
different reports side by side. Later updates are brought by the events, any
number of them at a time; the memory keeps what has answered the updates whose
rewards have been stored.
-/

import WithdrawalsApi.Jobs.ContractConfig
import WithdrawalsApi.Rewards.Projection

namespace WithdrawalsApi

open Js Math

namespace RewardsService

/-! ## The reports -/

/-- How far the queries of a report have come. -/
inductive ReportQueries
  | fetchingEthDistributed
  | fetchingElRewards (ethDistributed : List EthDistributedLog)
  | fetchingWithdrawals (ethDistributed : List EthDistributedLog) (elRewardsReceived : List ℕ)
  | answered (logs : ReportLogs)

inductive QueryAnswer
  | ethDistributed (logs : List EthDistributedLog)
  | elRewardsReceived (logs : List ℕ)
  | withdrawalsReceived (logs : List ℕ)

namespace ReportQueries

def answer : ReportQueries → QueryAnswer → ReportQueries
  | .fetchingEthDistributed, .ethDistributed logs => .fetchingElRewards logs
  | .fetchingElRewards ethDistributed, .elRewardsReceived logs =>
      .fetchingWithdrawals ethDistributed logs
  | .fetchingWithdrawals ethDistributed elRewardsReceived, .withdrawalsReceived logs =>
      .answered { ethDistributed, elRewardsReceived, withdrawalsReceived := logs }
  | queries, _ => queries

def logs? : ReportQueries → Option ReportLogs
  | .answered logs => some logs
  | _ => none

end ReportQueries

/-- A report whose queries are under way. -/
structure ReportTask where
  report : Report
  queries : ReportQueries

/-- A report whose queries have been answered. -/
structure AnsweredReport where
  report : Report
  logs : ReportLogs

namespace ReportTask

def begin (report : Report) : ReportTask where
  report
  queries := .fetchingEthDistributed

def answer (answer : QueryAnswer) (task : ReportTask) : ReportTask :=
  { task with queries := task.queries.answer answer }

def answered? (task : ReportTask) : Option AnsweredReport :=
  task.queries.logs?.map fun logs => { report := task.report, logs }

end ReportTask

/-- The reports that span a frame, or none when there were no logs. -/
def tasksOf (framesFromLastReports : Option (List Report)) : List ReportTask :=
  ((framesFromLastReports.getD []).filter fun report => report.frames ≠ 0).map ReportTask.begin

/-- A query of this report is in flight. -/
def inFlight (tasks : List ReportTask) (index : ℕ) : Bool :=
  tasks[index]?.any fun task => task.answered?.isNone

/-! ## An update -/

/-- An update of the rewards: the logs, the length of a frame that was stored when they
arrived, and what the queries of the reports have answered. -/
structure Update where
  logs : List TokenRebasedLog
  epochsPerFrame : Option ℕ+
  reports : List AnsweredReport

namespace UpdateRewards

inductive Suspension
  | fetchingBlockNumber
  | fetchingTokenRebased (fromBlock : ℕ)
  | fetchingRewards (logs : List TokenRebasedLog) (epochsPerFrame : Option ℕ+)
      (tasks : List ReportTask)

inductive Answer
  | blockNumber (currentBlock : ℕ)
  | tokenRebased (logs : List TokenRebasedLog)
  | report (index : ℕ) (answer : QueryAnswer)
  | reportRejected (index : ℕ)
  | settled
  | rejected

/-- What a segment of an update leads to. -/
inductive Progress
  | suspended (suspension : Suspension)
  | finished (update : Update) (total : TotalRewards)
  | thrown

/-- The logs have arrived. -/
def beginReports (logs : List TokenRebasedLog) (epochsPerFrame : Option ℕ+) : Progress :=
  match getFramesFromLastReports epochsPerFrame logs with
  | .ok framesFromLastReports =>
      .suspended (.fetchingRewards logs epochsPerFrame (tasksOf framesFromLastReports))
  | .error _ => .thrown

/-- All reports have been answered. -/
def finish (update : Update) : Progress :=
  match update.reports.mapM fun answered =>
      getRewardsByBlockNumber answered.report.frames answered.logs with
  | .ok rewards => .finished update (minTotalRewards rewards)
  | .error _ => .thrown

/-- A segment of an update, which reads the length of a frame. -/
def resume (epochsPerFrame : Option ℕ+) : Suspension → Answer → Progress
  | .fetchingBlockNumber, .blockNumber currentBlock =>
      .suspended (.fetchingTokenRebased (getHoursAgoBlock oneWeekHours currentBlock))
  | .fetchingBlockNumber, .rejected => .thrown
  | .fetchingTokenRebased _, .tokenRebased logs => beginReports logs epochsPerFrame
  | .fetchingTokenRebased _, .rejected => .thrown
  | .fetchingRewards logs epochsPerFrame tasks, .report index answer =>
      .suspended (.fetchingRewards logs epochsPerFrame (tasks.modify index (.answer answer)))
  | .fetchingRewards logs epochsPerFrame tasks, .reportRejected index =>
      if inFlight tasks index then .thrown
      else .suspended (.fetchingRewards logs epochsPerFrame tasks)
  | .fetchingRewards logs epochsPerFrame tasks, .settled =>
      match tasks.mapM ReportTask.answered? with
      | some reports => finish { logs, epochsPerFrame, reports }
      | none => .suspended (.fetchingRewards logs epochsPerFrame tasks)
  | suspension, _ => .suspended suspension

/-- The logs that the query for `TokenRebased` has answered, when it has. -/
def logs? : Suspension → Answer → Option (List TokenRebasedLog)
  | .fetchingTokenRebased _, .tokenRebased logs => some logs
  | .fetchingRewards logs _ _, _ => some logs
  | _, _ => none

end UpdateRewards

/-! ## The service -/

structure World where
  memory : Memory
  /-- The subscription to `TokenRebased`. -/
  subscribed : Bool := false
  /-- What has answered the first query for `TokenRebased`. -/
  firstLogs : Option (List TokenRebasedLog) := none
  /-- The updates whose rewards have been stored, the latest first. -/
  updates : List Update := []

namespace World

/-- The length of a frame in the store of the configuration. -/
def epochsPerFrame (world : World) : Option ℕ+ := world.memory.stores.contractConfig.epochsPerFrame

/-- The rewards in the store. -/
def totalRewards (world : World) : TotalRewards where
  clRewards := world.memory.stores.rewards.clRewardsPerFrame
  elRewards := world.memory.stores.rewards.elRewardsPerFrame
  allRewards := world.memory.stores.rewards.rewardsPerFrame

/-- The assignments of `updateRewards`. -/
def store (update : Update) (total : TotalRewards) (world : World) : World :=
  { world with
    memory := world.memory.setRewards {
      rewardsPerFrame := total.allRewards
      clRewardsPerFrame := total.clRewards
      elRewardsPerFrame := total.elRewards }
    updates := update :: world.updates }

end World

namespace Initialization

/-- Where `initialize` waits. -/
inductive Suspension
  | updating (suspension : UpdateRewards.Suspension)
  | updated

/-- What the first update throws, nobody catches. -/
def proceed (world : World) : UpdateRewards.Progress → World × Option Suspension
  | .suspended next => (world, some (.updating next))
  | .finished update total => (world.store update total, some .updated)
  | .thrown => (world, none)

def resume : Suspension → UpdateRewards.Answer → World → World × Option Suspension
  | .updating suspension, answer, world =>
      proceed { world with firstLogs := UpdateRewards.logs? suspension answer }
        (UpdateRewards.resume world.epochsPerFrame suspension answer)
  | .updated, .settled, world => ({ world with subscribed := true }, none)
  | .updated, _, world => (world, some .updated)

end Initialization

namespace Handler

/-- What the update of an event throws is caught. -/
def proceed (world : World) : UpdateRewards.Progress → World × Option UpdateRewards.Suspension
  | .suspended next => (world, some next)
  | .finished update total => (world.store update total, none)
  | .thrown => (world, none)

def start (_ : Unit) (world : World) : World × Option UpdateRewards.Suspension :=
  (world, if world.subscribed then some .fetchingBlockNumber else none)

def resume (suspension : UpdateRewards.Suspension) (answer : UpdateRewards.Answer)
    (world : World) : World × Option UpdateRewards.Suspension :=
  proceed world (UpdateRewards.resume world.epochsPerFrame suspension answer)

end Handler

end RewardsService

inductive RewardsActor
  | initialization
  | tokenRebased (event : ℕ)
  | updateContractConfig
  deriving DecidableEq

/-- `initialize` has been called once; an event is handled if it is subscribed to; the
configuration job runs at any time. -/
def rewardsActors : RewardsActor → Job.{0, 0} RewardsService.World
  | .initialization => {
      Input := Empty
      Suspension := RewardsService.Initialization.Suspension
      Answer := RewardsService.UpdateRewards.Answer
      start := nofun
      resume := RewardsService.Initialization.resume }
  | .tokenRebased _ => {
      Input := Unit
      Suspension := RewardsService.UpdateRewards.Suspension
      Answer := RewardsService.UpdateRewards.Answer
      start := RewardsService.Handler.start
      resume := RewardsService.Handler.resume }
  | .updateContractConfig =>
      updateContractConfigJob.within RewardsService.World.memory fun memory world =>
        { world with memory }

namespace RewardsService

open Job.State

/-! ## What an update stores -/

/-- The reports of the logs that span a frame. -/
def SpanningReports (logs : List TokenRebasedLog) (epochsPerFrame : Option ℕ+)
    (reports : List Report) : Prop :=
  (logs = [] ∧ reports = []) ∨ ∃ epochs, epochsPerFrame = some epochs ∧
    reports = (logs.map (quotientReport epochs)).filter fun report => report.frames ≠ 0

theorem SpanningReports.frames_ne_zero {logs : List TokenRebasedLog} {epochsPerFrame : Option ℕ+}
    {reports : List Report} (h : SpanningReports logs epochsPerFrame reports) :
    ∀ report ∈ reports, report.frames ≠ 0 := by
  intro report hmem
  rcases h with ⟨-, rfl⟩ | ⟨epochs, -, rfl⟩
  · cases hmem
  · exact of_decide_eq_true (List.mem_filter.mp hmem).2

/-- The total is computed from the logs of an update: from the rewards of the reports
that span a frame. -/
structure Update.Gives (update : Update) (total : TotalRewards) : Prop where
  reports : SpanningReports update.logs update.epochsPerFrame
    (update.reports.map AnsweredReport.report)
  total : IsMinTotal
    (update.reports.map fun answered => quotientRewards answered.report.frames answered.logs) total

namespace UpdateRewards

/-- An update in flight is about the reports of its logs. -/
def Suspension.Right : Suspension → Prop
  | .fetchingRewards logs epochsPerFrame tasks =>
      SpanningReports logs epochsPerFrame (tasks.map ReportTask.report)
  | _ => True

/-- An update goes on with its reports, or it has computed the total of its logs. -/
def Progress.Right (logs : Option (List TokenRebasedLog)) : Progress → Prop
  | .suspended next => next.Right
  | .finished update total => update.Gives total ∧ logs = some update.logs
  | .thrown => True

/-- The answers on which an update throws: a call it awaits rejects, or there are logs
and no length of a frame. -/
def Throws (epochsPerFrame : Option ℕ+) : Answer → Suspension → Prop
  | .rejected, .fetchingBlockNumber => True
  | .rejected, .fetchingTokenRebased _ => True
  | .tokenRebased logs, .fetchingTokenRebased _ => logs ≠ [] ∧ ¬ DividesReports epochsPerFrame
  | .reportRejected index, .fetchingRewards _ _ tasks => inFlight tasks index = true
  | _, _ => False

theorem map_report_tasksOf (framesFromLastReports : Option (List Report)) :
    (tasksOf framesFromLastReports).map ReportTask.report =
      (framesFromLastReports.getD []).filter fun report => report.frames ≠ 0 := by
  rw [tasksOf, List.map_map]
  exact List.map_id _

/-- An answer leaves the reports as they are. -/
theorem map_report_modify (tasks : List ReportTask) (index : ℕ) (answer : QueryAnswer) :
    (tasks.modify index (.answer answer)).map ReportTask.report =
      tasks.map ReportTask.report := by
  induction tasks generalizing index with
  | nil => cases index <;> rfl
  | cons task tasks ih =>
      cases index with
      | zero => rfl
      | succ index =>
          rw [List.modify_succ_cons, List.map_cons, List.map_cons, ih]

theorem map_report_of_mapM {tasks : List ReportTask} {reports : List AnsweredReport}
    (h : tasks.mapM ReportTask.answered? = some reports) :
    reports.map AnsweredReport.report = tasks.map ReportTask.report := by
  induction tasks generalizing reports with
  | nil =>
      obtain rfl : [] = reports := Option.some.inj h
      rfl
  | cons task tasks ih =>
      rw [List.mapM_cons] at h
      simp only [Option.bind_eq_bind, Option.bind_eq_some_iff] at h
      obtain ⟨answered, hanswered, rest, hrest, heq⟩ := h
      obtain rfl := Option.some.inj heq
      rw [ReportTask.answered?, Option.map_eq_some_iff] at hanswered
      obtain ⟨logs, -, rfl⟩ := hanswered
      rw [List.map_cons, List.map_cons, ih hrest]

/-- An update whose reports span a frame finishes. -/
theorem finish_of_spanning {update : Update}
    (h : SpanningReports update.logs update.epochsPerFrame
      (update.reports.map AnsweredReport.report)) :
    ∃ total, finish update = .finished update total ∧ update.Gives total := by
  have hrewards : ∀ answered ∈ update.reports,
      getRewardsByBlockNumber answered.report.frames answered.logs =
        .ok (quotientRewards answered.report.frames answered.logs) := by
    intro answered hmem
    apply getRewardsByBlockNumber_of_ne_zero
    exact h.frames_ne_zero answered.report (List.mem_map_of_mem hmem)
  refine ⟨_, ?_, h, isMinTotal_minTotalRewards _⟩
  rw [finish, Outcome.mapM_eq_ok_map hrewards]

/-- The logs begin with their reports, unless there is no length of a frame. -/
theorem beginReports_cases (logs : List TokenRebasedLog) (epochsPerFrame : Option ℕ+) :
    (∃ tasks, beginReports logs epochsPerFrame =
        .suspended (.fetchingRewards logs epochsPerFrame tasks) ∧
        SpanningReports logs epochsPerFrame (tasks.map ReportTask.report) ∧
        ¬ (logs ≠ [] ∧ ¬ DividesReports epochsPerFrame)) ∨
      (beginReports logs epochsPerFrame = .thrown ∧
        logs ≠ [] ∧ ¬ DividesReports epochsPerFrame) := by
  by_cases hlogs : logs = []
  · left
    subst hlogs
    exact ⟨[], rfl, Or.inl ⟨rfl, rfl⟩, fun h => h.1 rfl⟩
  by_cases hdivides : DividesReports epochsPerFrame
  · left
    obtain ⟨epochs, hepochs, hlt⟩ := hdivides
    obtain rfl : epochsPerFrame = some epochs := hepochs
    refine ⟨tasksOf (some (logs.map (quotientReport epochs))), ?_, Or.inr ⟨epochs, rfl, ?_⟩,
      fun h => h.2 ⟨epochs, rfl, hlt⟩⟩
    · rw [beginReports, getFramesFromLastReports_of_divides hlt hlogs]
    · exact map_report_tasksOf _
  · right
    obtain ⟨fault, hfault⟩ := getFramesFromLastReports_of_not_divides hdivides hlogs
    refine ⟨?_, hlogs, hdivides⟩
    rw [beginReports, hfault]

/-- When the reports have settled, the update waits on or finishes with the total of its
logs. -/
theorem resume_settled {logs : List TokenRebasedLog} {epochsAtLogs : Option ℕ+}
    {tasks : List ReportTask} (h : (Suspension.fetchingRewards logs epochsAtLogs tasks).Right)
    (epochsPerFrame : Option ℕ+) :
    resume epochsPerFrame (.fetchingRewards logs epochsAtLogs tasks) .settled =
        .suspended (.fetchingRewards logs epochsAtLogs tasks) ∨
      ∃ update total, resume epochsPerFrame (.fetchingRewards logs epochsAtLogs tasks) .settled =
        .finished update total ∧ update.Gives total ∧ some logs = some update.logs := by
  cases hreports : tasks.mapM ReportTask.answered? with
  | none =>
      left
      simp only [resume, hreports]
  | some reports =>
      right
      let update : Update := { logs, epochsPerFrame := epochsAtLogs, reports }
      have hspanning : SpanningReports update.logs update.epochsPerFrame
          (update.reports.map AnsweredReport.report) := by
        rw [map_report_of_mapM hreports]
        exact h
      obtain ⟨total, hfinish, hgives⟩ := finish_of_spanning hspanning
      refine ⟨update, total, ?_, hgives, rfl⟩
      simp only [resume, hreports]
      exact hfinish

theorem resume_of_throws {epochsPerFrame : Option ℕ+} {suspension : Suspension} {answer : Answer}
    (h : Throws epochsPerFrame answer suspension) :
    resume epochsPerFrame suspension answer = .thrown := by
  unfold Throws at h
  split at h
  · rfl
  · rfl
  · rename_i logs fromBlock
    rcases beginReports_cases logs epochsPerFrame with ⟨tasks, -, -, hdivides⟩ | ⟨hbegin, -⟩
    · exact absurd h hdivides
    · exact hbegin
  · exact if_pos h
  · exact h.elim

/-- A segment of an update goes on, finishes or throws. -/
theorem resume_right {suspension : Suspension} (h : suspension.Right)
    (epochsPerFrame : Option ℕ+) (answer : Answer) :
    (resume epochsPerFrame suspension answer).Right (logs? suspension answer) := by
  cases suspension with
  | fetchingBlockNumber => cases answer <;> trivial
  | fetchingTokenRebased fromBlock =>
      cases answer with
      | tokenRebased logs =>
          simp only [resume]
          rcases beginReports_cases logs epochsPerFrame with
            ⟨tasks, hbegin, hspanning, -⟩ | ⟨hbegin, -⟩
          · rw [hbegin]
            exact hspanning
          · rw [hbegin]
            trivial
      | _ => trivial
  | fetchingRewards logs epochsAtLogs tasks =>
      cases answer with
      | report index answer =>
          show SpanningReports logs epochsAtLogs _
          rw [map_report_modify]
          exact h
      | reportRejected index =>
          simp only [resume]
          split_ifs
          · trivial
          · exact h
      | settled =>
          rcases resume_settled h epochsPerFrame with
            hwaits | ⟨update, total, hfinish, hgives, hlogs⟩
          · rw [hwaits]
            exact h
          · rw [hfinish]
            exact ⟨hgives, hlogs⟩
      | _ => exact h

/-- Nothing else throws. -/
theorem throws_of_resume {suspension : Suspension} (h : suspension.Right)
    {epochsPerFrame : Option ℕ+} {answer : Answer}
    (hthrown : resume epochsPerFrame suspension answer = .thrown) :
    Throws epochsPerFrame answer suspension := by
  cases suspension with
  | fetchingBlockNumber =>
      cases answer with
      | rejected => trivial
      | _ => cases hthrown
  | fetchingTokenRebased fromBlock =>
      cases answer with
      | tokenRebased logs =>
          simp only [resume] at hthrown
          rcases beginReports_cases logs epochsPerFrame with ⟨tasks, hbegin, -, -⟩ | ⟨-, hthrows⟩
          · rw [hbegin] at hthrown
            cases hthrown
          · exact hthrows
      | rejected => trivial
      | _ => cases hthrown
  | fetchingRewards logs epochsAtLogs tasks =>
      cases answer with
      | reportRejected index =>
          simp only [resume] at hthrown
          split_ifs at hthrown with hflight
          exact hflight
      | settled =>
          rcases resume_settled h epochsPerFrame with hwaits | ⟨update, total, hfinish, -⟩
          · rw [hwaits] at hthrown
            cases hthrown
          · rw [hfinish] at hthrown
            cases hthrown
      | _ => cases hthrown

end UpdateRewards

/-! ## Every run -/

/-- Where `initialize` waits, until it has ended. -/
def initialization (s : Job.State rewardsActors) : Option Initialization.Suspension :=
  s.suspended .initialization

/-- `initialize` has been called; nothing has been stored yet. -/
def boot (memory : Memory) : Job.State rewardsActors where
  shared := { memory }
  suspended
    | .initialization => some (.updating .fetchingBlockNumber)
    | .tokenRebased _ => none
    | .updateContractConfig => none

/-- The first update throws at no step. -/
def FirstUpdateSucceeds (s : Job.State rewardsActors) : Job.Event rewardsActors → Prop
  | .resume .initialization answer =>
      ∀ suspension, initialization s = some (.updating suspension) →
        ¬ UpdateRewards.Throws s.shared.epochsPerFrame answer suspension
  | _ => True

/-- The rewards have been computed from these logs by the first update, or from later ones
by an update that an event has brought. -/
def RewardsFrom (world : World) (logs : List TokenRebasedLog) : Prop :=
  ∃ first later, world.updates = later ++ [first] ∧ first.logs = logs ∧
    ∀ update ∈ world.updates.head?, update.Gives world.totalRewards

/-- What the other actors may do to the world of `initialize`. -/
structure Extends (before after : World) : Prop where
  subscribed : after.subscribed = before.subscribed
  firstLogs : after.firstLogs = before.firstLogs
  updates : after.updates = before.updates ∨
    (before.subscribed = true ∧ ∃ update, after.updates = update :: before.updates)

/-- The first update has been stored, with the first logs. -/
def StoredFirst (world : World) : Prop :=
  ∃ first later, world.updates = later ++ [first] ∧ world.firstLogs = some first.logs

theorem StoredFirst.extend {before after : World} (h : StoredFirst before)
    (hextends : Extends before after) : StoredFirst after := by
  obtain ⟨first, later, hupdates, hlogs⟩ := h
  have hafter : after.firstLogs = some first.logs := hextends.firstLogs.trans hlogs
  rcases hextends.updates with hsame | ⟨-, update, hmore⟩
  · exact ⟨first, later, hsame.trans hupdates, hafter⟩
  · refine ⟨first, update :: later, ?_, hafter⟩
    rw [hmore, hupdates, List.cons_append]

/-- What is known where `initialize` waits, and when it has ended. -/
def InitializationRight (world : World) : Option Initialization.Suspension → Prop
  | some (.updating suspension) =>
      suspension.Right ∧ world.subscribed = false ∧ world.updates = []
  | some .updated => world.subscribed = false ∧ StoredFirst world
  | none => world.subscribed = true ∧ StoredFirst world

/-- An event is handled only after the subscription. -/
def HandlerRight (world : World) (suspended : Option UpdateRewards.Suspension) : Prop :=
  ∀ suspension ∈ suspended, suspension.Right ∧ world.subscribed = true

theorem InitializationRight.extend {before after : World}
    {suspended : Option Initialization.Suspension} (h : InitializationRight before suspended)
    (hextends : Extends before after) : InitializationRight after suspended := by
  match suspended with
  | some (.updating suspension) =>
      obtain ⟨hright, hsubscribed, hupdates⟩ := h
      refine ⟨hright, hextends.subscribed.trans hsubscribed, ?_⟩
      rcases hextends.updates with hsame | ⟨htrue, -⟩
      · exact hsame.trans hupdates
      · rw [hsubscribed] at htrue
        cases htrue
  | some .updated => exact ⟨hextends.subscribed.trans h.1, h.2.extend hextends⟩
  | none => exact ⟨hextends.subscribed.trans h.1, h.2.extend hextends⟩

/-- The rewards in the store are those of the latest update. -/
def LatestGives (world : World) : Prop :=
  ∀ update ∈ world.updates.head?, update.Gives world.totalRewards

theorem LatestGives.setMemory {world : World} (h : LatestGives world) {memory : Memory}
    (hrewards : memory.stores.rewards = world.memory.stores.rewards) :
    LatestGives { world with memory } := by
  have htotal : World.totalRewards { world with memory } = world.totalRewards := by
    simp only [World.totalRewards, hrewards]
  intro update hmem
  rw [htotal]
  exact h update hmem

theorem latestGives_store {update : Update} {total : TotalRewards} (h : update.Gives total)
    (world : World) : LatestGives (world.store update total) := by
  intro latest hmem
  rw [← Option.some.inj hmem]
  exact h

/-- A segment of `initialize` in which the first update does not throw. -/
theorem initialization_resume {world : World} {suspension : Initialization.Suspension}
    {answer : UpdateRewards.Answer} (hlatest : LatestGives world)
    (h : InitializationRight world (some suspension))
    (hsucceeds : ∀ updating, suspension = .updating updating →
      ¬ UpdateRewards.Throws world.epochsPerFrame answer updating) :
    LatestGives (Initialization.resume suspension answer world).1 ∧
      InitializationRight (Initialization.resume suspension answer world).1
        (Initialization.resume suspension answer world).2 := by
  cases suspension with
  | updating suspension =>
      obtain ⟨hright, hsubscribed, hupdates⟩ := h
      have hnext := UpdateRewards.resume_right hright world.epochsPerFrame answer
      simp only [Initialization.resume]
      cases hprogress : UpdateRewards.resume world.epochsPerFrame suspension answer with
      | suspended next =>
          rw [hprogress] at hnext
          exact ⟨hlatest, hnext, hsubscribed, hupdates⟩
      | finished update total =>
          rw [hprogress] at hnext
          obtain ⟨hgives, hlogs⟩ := hnext
          refine ⟨latestGives_store hgives _, hsubscribed, update, [], ?_, hlogs⟩
          show update :: world.updates = [update]
          rw [hupdates]
      | thrown => exact absurd (UpdateRewards.throws_of_resume hright hprogress) (hsucceeds _ rfl)
  | updated =>
      cases answer with
      | settled => exact ⟨hlatest, rfl, h.2⟩
      | _ => exact ⟨hlatest, h⟩

theorem handler_start {world : World} :
    HandlerRight world (Handler.start () world).2 := by
  intro suspension hmem
  simp only [Handler.start] at hmem
  split_ifs at hmem with hsubscribed
  · rw [← Option.some.inj hmem]
    exact ⟨trivial, hsubscribed⟩
  · cases hmem

/-- A segment of a handler. -/
theorem handler_resume {world : World} {suspension : UpdateRewards.Suspension}
    (hlatest : LatestGives world) (h : HandlerRight world (some suspension))
    (answer : UpdateRewards.Answer) :
    LatestGives (Handler.resume suspension answer world).1 ∧
      HandlerRight (Handler.resume suspension answer world).1
        (Handler.resume suspension answer world).2 ∧
      Extends world (Handler.resume suspension answer world).1 := by
  obtain ⟨hright, hsubscribed⟩ := h suspension rfl
  have hnext := UpdateRewards.resume_right hright world.epochsPerFrame answer
  have hended (other : World) : HandlerRight other none := fun _ hmem => (by cases hmem)
  simp only [Handler.resume]
  cases hprogress : UpdateRewards.resume world.epochsPerFrame suspension answer with
  | suspended next =>
      rw [hprogress] at hnext
      refine ⟨hlatest, ?_, rfl, rfl, Or.inl rfl⟩
      intro suspension hmem
      rw [← Option.some.inj hmem]
      exact ⟨hnext, hsubscribed⟩
  | finished update total =>
      rw [hprogress] at hnext
      exact ⟨latestGives_store hnext.1 _, hended _, rfl, rfl, Or.inr ⟨hsubscribed, update, rfl⟩⟩
  | thrown => exact ⟨hlatest, hended _, rfl, rfl, Or.inl rfl⟩

def rewardsAsserts :
    (actor : RewardsActor) → Option (rewardsActors actor).Suspension → World → Prop
  | .initialization => fun suspended world => InitializationRight world suspended
  | .tokenRebased _ => fun suspended world => HandlerRight world suspended
  | .updateContractConfig => fun _ _ => True

/-- The other actors extend what `initialize` has done, which never unsubscribes. -/
def rewardsCommits : RewardsActor → World → World → Prop
  | .initialization, before, after => before.subscribed = true → after.subscribed = true
  | _, before, after => Extends before after

theorem HandlerRight.mono {before after : World} {suspended : Option UpdateRewards.Suspension}
    (h : HandlerRight before suspended)
    (hsubscribed : before.subscribed = true → after.subscribed = true) :
    HandlerRight after suspended := by
  intro suspension hmem
  obtain ⟨hright, hbefore⟩ := h suspension hmem
  exact ⟨hright, hsubscribed hbefore⟩

/-- The configuration job stores no rewards. -/
theorem config_resume (suspension : ContractConfigService.Suspension)
    (answer : ℤ × ContractConfigService.Answer) (memory : Memory) :
    (ContractConfigService.resume suspension answer memory).1.stores.rewards =
      memory.stores.rewards := by
  rcases ContractConfigService.resume_fst suspension answer memory with
    hsame | ⟨wasSrv3KnownLastTick, reads, now, hassigned⟩
  · rw [hsame]
  · rw [hassigned]
    rfl

@[simp]
theorem subscribed_proceed (world : World) (progress : UpdateRewards.Progress) :
    (Initialization.proceed world progress).1.subscribed = world.subscribed := by
  cases progress <;> rfl

theorem subscribed_resume (suspension : Initialization.Suspension) (answer : UpdateRewards.Answer)
    {world : World} (h : world.subscribed = true) :
    (Initialization.resume suspension answer world).1.subscribed = true := by
  cases suspension with
  | updating suspension =>
      rw [Initialization.resume, subscribed_proceed]
      exact h
  | updated =>
      cases answer with
      | settled => rfl
      | _ => exact h

/-- While the first update throws at no step, every actor keeps what is known. -/
theorem rewards_segment {s : Job.State rewardsActors} {event : Job.Event rewardsActors}
    {actor : RewardsActor} {segment : World × Option (rewardsActors actor).Suspension}
    (hsucceeds : FirstUpdateSucceeds s event) (hruns : s.Runs event actor segment)
    (hlatest : LatestGives s.shared) (h : rewardsAsserts actor (s.suspended actor) s.shared) :
    LatestGives segment.1 ∧ rewardsAsserts actor segment.2 segment.1 ∧
      rewardsCommits actor s.shared segment.1 := by
  cases hruns with
  | @start actor input hidle =>
      cases actor with
      | initialization => cases input
      | tokenRebased event =>
          exact ⟨hlatest, handler_start, rfl, rfl, Or.inl rfl⟩
      | updateContractConfig => exact ⟨hlatest, trivial, rfl, rfl, Or.inl rfl⟩
  | @resume actor answer suspension hsuspended =>
      rw [hsuspended] at h
      cases actor with
      | initialization =>
          have hthrows : ∀ updating, suspension = .updating updating →
              ¬ UpdateRewards.Throws s.shared.epochsPerFrame answer updating := by
            intro updating heq
            apply hsucceeds updating
            rw [← heq]
            exact hsuspended
          obtain ⟨hlatest, hright⟩ := initialization_resume hlatest h hthrows
          exact ⟨hlatest, hright, subscribed_resume suspension answer⟩
      | tokenRebased event => exact handler_resume hlatest h answer
      | updateContractConfig =>
          have hrewards := config_resume suspension answer s.shared.memory
          exact ⟨hlatest.setMemory hrewards, trivial, rfl, rfl, Or.inl rfl⟩

/-- The first update, the subscription and the later updates, while nothing throws. -/
def rewardsOutline : Job.Outline rewardsActors FirstUpdateSucceeds where
  invariant := LatestGives
  asserts := rewardsAsserts
  commits := rewardsCommits
  segment := rewards_segment
  stable := by
    intro actor other hne suspended before after hasserts hcommits
    cases actor with
    | initialization =>
        have hextends : Extends before after := by
          cases other with
          | initialization => exact absurd rfl hne
          | tokenRebased event => exact hcommits
          | updateContractConfig => exact hcommits
        exact InitializationRight.extend hasserts hextends
    | tokenRebased event =>
        have hsubscribed : before.subscribed = true → after.subscribed = true := by
          cases other with
          | initialization => exact hcommits
          | tokenRebased other => exact hcommits.subscribed.trans
          | updateContractConfig => exact hcommits.subscribed.trans
        exact HandlerRight.mono hasserts hsubscribed
    | updateContractConfig => trivial

theorem holds_boot (memory : Memory) : rewardsOutline.Holds (boot memory) where
  invariant := fun _ hmem => (by cases hmem)
  asserts actor := by
    cases actor with
    | initialization => exact ⟨trivial, rfl, rfl⟩
    | tokenRebased event => exact fun _ hmem => (by cases hmem)
    | updateContractConfig => trivial

theorem subscribed_handler (suspension : UpdateRewards.Suspension) (answer : UpdateRewards.Answer)
    (world : World) : (Handler.resume suspension answer world).1.subscribed = world.subscribed := by
  rw [Handler.resume]
  cases UpdateRewards.resume world.epochsPerFrame suspension answer <;> rfl

/-- Only `initialize` subscribes. -/
theorem subscribed_of_ne {s : Job.State rewardsActors} {event : Job.Event rewardsActors}
    {actor : RewardsActor} {segment : World × Option (rewardsActors actor).Suspension}
    (hruns : s.Runs event actor segment) (hactor : actor ≠ .initialization) :
    segment.1.subscribed = s.shared.subscribed := by
  cases hruns with
  | @start actor input hidle =>
      cases actor with
      | initialization => exact absurd rfl hactor
      | tokenRebased event => rfl
      | updateContractConfig => rfl
  | @resume actor answer suspension hsuspended =>
      cases actor with
      | initialization => exact absurd rfl hactor
      | tokenRebased event =>
          exact subscribed_handler suspension answer s.shared
      | updateContractConfig => rfl

/-- What the segments of `initialize` preserve of the subscription, every step
preserves. -/
theorem step_preserves {property : Bool → Option Initialization.Suspension → Prop}
    (hresume : ∀ suspension answer world, property world.subscribed (some suspension) →
      property (Initialization.resume suspension answer world).1.subscribed
        (Initialization.resume suspension answer world).2)
    (s : Job.State rewardsActors) (event : Job.Event rewardsActors)
    (h : property s.shared.subscribed (initialization s)) :
    property (s.step event).shared.subscribed (initialization (s.step event)) := by
  refine step_preserves_of_job s event .initialization
    (fun world suspended => property world.subscribed suspended) ?_ ?_ h
  · intro segment hruns
    cases hruns with
    | start => contradiction
    | @resume _ answer suspension hsuspended =>
        rw [initialization, hsuspended] at h
        exact hresume suspension answer s.shared h
  · intro actor segment hactor hruns
    rw [subscribed_of_ne hruns hactor]
    exact h

/-- `initialize` subscribes at its very end. -/
def SubscribesLast (subscribed : Bool) (suspended : Option Initialization.Suspension) : Prop :=
  suspended ≠ none → subscribed = false

/-- `initialize` has ended without a subscription. -/
def NeverSubscribes (subscribed : Bool) (suspended : Option Initialization.Suspension) : Prop :=
  suspended = none ∧ subscribed = false

theorem subscribesLast_step (s : Job.State rewardsActors) (event : Job.Event rewardsActors)
    (h : SubscribesLast s.shared.subscribed (initialization s)) :
    SubscribesLast (s.step event).shared.subscribed (initialization (s.step event)) := by
  refine step_preserves (fun suspension answer world hlast => ?_) s event h
  intro hsuspended
  have hsubscribed := hlast (Option.some_ne_none suspension)
  cases suspension with
  | updating suspension =>
      rw [Initialization.resume, subscribed_proceed]
      exact hsubscribed
  | updated =>
      cases answer with
      | settled => exact absurd rfl hsuspended
      | _ => exact hsubscribed

theorem neverSubscribes_step (s : Job.State rewardsActors) (event : Job.Event rewardsActors)
    (h : NeverSubscribes s.shared.subscribed (initialization s)) :
    NeverSubscribes (s.step event).shared.subscribed (initialization (s.step event)) := by
  refine step_preserves (fun suspension answer world hnever => ?_) s event h
  cases hnever.1

/-- An update that throws ends `initialize`. -/
theorem neverSubscribes_of_throws {s : Job.State rewardsActors} {event : Job.Event rewardsActors}
    (hlast : SubscribesLast s.shared.subscribed (initialization s))
    (h : ¬ FirstUpdateSucceeds s event) :
    NeverSubscribes (s.step event).shared.subscribed (initialization (s.step event)) := by
  match event with
  | .start actor input => exact absurd trivial h
  | .resume (.tokenRebased event) answer => exact absurd trivial h
  | .resume .updateContractConfig answer => exact absurd trivial h
  | .resume .initialization answer =>
      simp only [FirstUpdateSucceeds, not_forall, not_not] at h
      obtain ⟨suspension, hsuspended, hthrows⟩ := h
      have hruns : s.Runs (.resume .initialization answer) .initialization _ :=
        .resume hsuspended
      have hsubscribed : s.shared.subscribed = false := by
        apply hlast
        rw [hsuspended]
        exact Option.some_ne_none _
      have hthrown := UpdateRewards.resume_of_throws hthrows
      rw [initialization, hruns.step_shared, hruns.step_suspended]
      show NeverSubscribes
        (Initialization.proceed _ (UpdateRewards.resume _ suspension answer)).1.subscribed
        (Initialization.proceed _ (UpdateRewards.resume _ suspension answer)).2
      rw [hthrown]
      exact ⟨rfl, hsubscribed⟩

/-- A run in which the first update throws never subscribes. -/
theorem neverSubscribes_run {memory : Memory} {events : List (Job.Event rewardsActors)}
    (hthrows : ¬ Job.State.Meets FirstUpdateSucceeds (boot memory) events) :
    ((boot memory).run events).shared.subscribed = false := by
  have hboot : SubscribesLast (boot memory).shared.subscribed (initialization (boot memory)) :=
    fun _ => rfl
  have hlast := (meets_true (boot memory) events).invariant
    (fun s event _ => subscribesLast_step s event) hboot
  have hnever := run_of_not_meets (fun _ _ hlast => neverSubscribes_of_throws hlast)
    (fun s event _ => neverSubscribes_step s event) hlast hthrows
  exact hnever.2

/-- **The start-up subscribes and stores the rewards of its logs exactly when** its first
update does not throw: no call that it awaits rejects, and when there are logs the
length of a frame has been stored before they arrive. -/
theorem subscribed_iff {memory : Memory} {events : List (Job.Event rewardsActors)}
    (hended : initialization ((boot memory).run events) = none) :
    let s := (boot memory).run events
    (s.shared.subscribed = true ∧ ∀ logs ∈ s.shared.firstLogs, RewardsFrom s.shared logs) ↔
      Job.State.Meets FirstUpdateSucceeds (boot memory) events := by
  intro s
  constructor
  · intro hinstalled
    by_contra hthrows
    have hsubscribed := hinstalled.1
    rw [neverSubscribes_run hthrows] at hsubscribed
    cases hsubscribed
  · intro hsucceeds
    have hholds : rewardsOutline.Holds s :=
      rewardsOutline.holds_run hsucceeds (holds_boot memory)
    have hright : InitializationRight s.shared (initialization s) :=
      hholds.asserts .initialization
    rw [hended] at hright
    obtain ⟨hsubscribed, first, later, hupdates, hfirst⟩ := hright
    refine ⟨hsubscribed, fun logs hlogs => ⟨first, later, hupdates, ?_, hholds.invariant⟩⟩
    rw [hfirst] at hlogs
    exact Option.some.inj hlogs

/-- Frames of 45 epochs, as the configuration job reads them. -/
def contractReads : ContractConfigService.ContractReads where
  requestTimestampMargin := ⟨7200, Nat.le_of_ble_eq_true rfl⟩
  maxBalanceExitRequestedPerReportInEth := ⟨19200, Nat.le_of_ble_eq_true rfl⟩
  lidoSupportsDepositsReserve := false
  depositsReserveTarget := 0
  frameConfig := { initialEpoch := 201600, epochsPerFrame := 45 }
  veboFrameConfig := { initialEpoch := 201600, epochsPerFrame := 45 }

/-- A configuration job from its start to its end. -/
def configRun : List (Job.Event rewardsActors) :=
  [.start .updateContractConfig (),
    .resume .updateContractConfig
      ((1744714823000, .blockNumber) : ℤ × ContractConfigService.Answer),
    .resume .updateContractConfig
      ((1744714823000, .reads contractReads) : ℤ × ContractConfigService.Answer)]

def answerStartUp (answer : UpdateRewards.Answer) : Job.Event rewardsActors :=
  .resume .initialization answer

/-- The start of the rewards service, up to the logs: one report, of one frame. -/
def logsArrive : List (Job.Event rewardsActors) :=
  [answerStartUp (.blockNumber 22000000),
    answerStartUp (.tokenRebased [{ blockNumber := 21995000, timeElapsed := 17280 }])]

/-- The rest of it: the queries of the report, and the two awaits at the end. -/
def reportAnswered : List (Job.Event rewardsActors) :=
  [answerStartUp (.report 0 (.ethDistributed [{ preCLBalance := 1000, postCLBalance := 900 }])),
    answerStartUp (.report 0 (.elRewardsReceived [40])),
    answerStartUp (.report 0 (.withdrawalsReceived [130])),
    answerStartUp .settled, answerStartUp .settled]

/-- The configuration is stored before the logs arrive. -/
theorem subscribed_iff_configFirst :
    let s := (boot { stores := { genesisTime := 1606824023 } }).run
      (configRun ++ logsArrive ++ reportAnswered)
    ((s.shared.subscribed = true ∧ ∀ logs ∈ s.shared.firstLogs, RewardsFrom s.shared logs) ↔
      Job.State.Meets FirstUpdateSucceeds (boot { stores := { genesisTime := 1606824023 } })
        (configRun ++ logsArrive ++ reportAnswered)) ∧
      s.shared.subscribed = true ∧ s.shared.totalRewards.allRewards = 70 :=
  ⟨subscribed_iff rfl, by decide +kernel⟩

/-- The logs arrive before the configuration is stored, and the rewards are never updated
again. -/
theorem startUp_may_never_subscribe :
    ¬ ∀ (memory : Memory) (events : List (Job.Event rewardsActors)),
      let s := (boot memory).run events
      initialization s = none → s.shared.memory.stores.contractConfig.lastUpdate ≠ none →
        s.shared.subscribed = true ∧
          ∀ logs ∈ s.shared.firstLogs, RewardsFrom s.shared logs := by
  intro hinstalled
  have hsubscribed := (hinstalled { stores := { genesisTime := 1606824023 } }
    (logsArrive ++ configRun) rfl (by decide +kernel)).1
  cases hsubscribed

end RewardsService

end WithdrawalsApi
