/-
# Updates of the rewards that overtake one another

Nothing keeps the updates that events bring apart. An update that has read its logs may
wait for the queries of its reports while a later one reads newer logs and stores what
follows from them; when it then stores its own rewards, they are older than those it
replaces.

How far that sets the store back is bounded by the moments at which no update in flight
has read its logs. Whatever is stored after such a moment comes from logs answered after
it, so on a chain that grows it is never older than anything stored before.
-/

import WithdrawalsApi.Rewards.StartUp

namespace WithdrawalsApi

open Js Math

namespace RewardsService

namespace UpdateRewards

/-- The logs that an update in flight has read. -/
def Suspension.readLogs? : Suspension → Option (List TokenRebasedLog)
  | .fetchingRewards logs _ _ => some logs
  | _ => none

def Answer.tokenRebased? : Answer → Option (List TokenRebasedLog)
  | .tokenRebased logs => some logs
  | _ => none

variable {known : List (List TokenRebasedLog)}

/-- An update in flight is about the reports of its logs, which are known. -/
structure Suspension.Reads (known : List (List TokenRebasedLog)) (suspension : Suspension) :
    Prop where
  right : suspension.Right
  known : ∀ logs ∈ suspension.readLogs?, logs ∈ known

/-- An update goes on with known logs, or it has computed the total of known logs. -/
def Progress.Reads (known : List (List TokenRebasedLog)) : Progress → Prop
  | .suspended next => next.Reads known
  | .finished update total => update.Gives total ∧ update.logs ∈ known
  | .thrown => True

/-- The logs that are at hand in a segment are known. -/
theorem logs_mem_known {suspension : Suspension} (h : suspension.Reads known) {answer : Answer}
    (hanswer : ∀ logs ∈ answer.tokenRebased?, logs ∈ known) {logs : List TokenRebasedLog}
    (hlogs : logs? suspension answer = some logs) : logs ∈ known := by
  unfold logs? at hlogs
  split at hlogs
  · exact hanswer logs hlogs
  · exact h.known logs hlogs
  · cases hlogs

/-- An update that goes on has read no other logs than those at hand. -/
theorem readLogs_of_resume {epochsPerFrame : Option ℕ+} {suspension next : Suspension}
    {answer : Answer} (h : resume epochsPerFrame suspension answer = .suspended next)
    {logs : List TokenRebasedLog} (hread : next.readLogs? = some logs) :
    logs? suspension answer = some logs := by
  cases suspension with
  | fetchingBlockNumber =>
      cases answer with
      | rejected => cases h
      | _ =>
          cases h
          cases hread
  | fetchingTokenRebased fromBlock =>
      cases answer with
      | tokenRebased answered =>
          rcases beginReports_cases answered epochsPerFrame with ⟨tasks, hbegin, -⟩ | ⟨hbegin, -⟩
          · rw [resume, hbegin] at h
            cases h
            exact hread
          · rw [resume, hbegin] at h
            cases h
      | rejected => cases h
      | _ =>
          cases h
          cases hread
  | fetchingRewards readBefore epochsAtLogs tasks =>
      have hsame : next.readLogs? = some readBefore := by
        cases answer with
        | reportRejected index =>
            simp only [resume] at h
            split_ifs at h
            cases h
            rfl
        | settled =>
            simp only [resume] at h
            split at h
            · rw [finish] at h
              split at h <;> cases h
            · cases h
              rfl
        | _ =>
            cases h
            rfl
      rw [hsame] at hread
      cases answer <;> exact hread

/-- A segment of an update whose logs, and whose answer, are known. -/
theorem resume_reads {suspension : Suspension} (h : suspension.Reads known) {answer : Answer}
    (hanswer : ∀ logs ∈ answer.tokenRebased?, logs ∈ known) (epochsPerFrame : Option ℕ+) :
    (resume epochsPerFrame suspension answer).Reads known := by
  have hright := resume_right h.right epochsPerFrame answer
  cases hprogress : resume epochsPerFrame suspension answer with
  | suspended next =>
      rw [hprogress] at hright
      refine ⟨hright, fun logs hread => ?_⟩
      exact logs_mem_known h hanswer (readLogs_of_resume hprogress hread)
  | finished update total =>
      rw [hprogress] at hright
      exact ⟨hright.1, logs_mem_known h hanswer hright.2⟩
  | thrown => trivial

end UpdateRewards

/-! ## Every run -/

/-- The update that an actor has in flight. -/
def updateInFlight :
    (actor : RewardsActor) → Option (rewardsActors actor).Suspension →
      Option UpdateRewards.Suspension
  | .initialization => fun suspended =>
      match suspended with
      | some (.updating suspension) => some suspension
      | _ => none
  | .tokenRebased _ => fun suspended => suspended
  | .updateContractConfig => fun _ => none

/-- No update in flight has read its logs. -/
def NoLogsRead (s : Job.State rewardsActors) : Prop :=
  ∀ actor, ∀ suspension ∈ updateInFlight actor (s.suspended actor), suspension.readLogs? = none

/-- The logs that a query for `TokenRebased` is answered with. -/
def answeredLogs? : Job.Event rewardsActors → Option (List TokenRebasedLog)
  | .resume .initialization answer => UpdateRewards.Answer.tokenRebased? answer
  | .resume (.tokenRebased _) answer => UpdateRewards.Answer.tokenRebased? answer
  | _ => none

/-- Whatever has been stored on top of the earlier updates comes from known logs, and the
store holds the latest. -/
structure StoredSince (known : List (List TokenRebasedLog)) (earlier : List Update)
    (world : World) : Prop where
  latest : LatestGives world
  since : ∃ later, world.updates = later ++ earlier ∧ ∀ update ∈ later, update.logs ∈ known

variable {known : List (List TokenRebasedLog)} {earlier : List Update} {world : World}

theorem StoredSince.store (h : StoredSince known earlier world) {update : Update}
    {total : TotalRewards} (hgives : update.Gives total) (hknown : update.logs ∈ known) :
    StoredSince known earlier (world.store update total) where
  latest := latestGives_store hgives world
  since := by
    obtain ⟨later, hupdates, hlater⟩ := h.since
    refine ⟨update :: later, congrArg (update :: ·) hupdates, ?_⟩
    intro stored hmem
    rcases List.mem_cons.mp hmem with rfl | hmem
    · exact hknown
    · exact hlater stored hmem

/-- Every update of an actor that is in flight has read known logs. -/
def ReadsKnown (known : List (List TokenRebasedLog)) (actor : RewardsActor)
    (suspended : Option (rewardsActors actor).Suspension) : Prop :=
  ∀ suspension ∈ updateInFlight actor suspended, suspension.Reads known

theorem storedSince_initialization (h : StoredSince known earlier world)
    {suspension : Initialization.Suspension}
    (hreads : ReadsKnown known .initialization (some suspension)) {answer : UpdateRewards.Answer}
    (hanswer : ∀ logs ∈ answer.tokenRebased?, logs ∈ known) :
    StoredSince known earlier (Initialization.resume suspension answer world).1 ∧
      ReadsKnown known .initialization (Initialization.resume suspension answer world).2 := by
  cases suspension with
  | updating suspension =>
      have hprogress :=
        UpdateRewards.resume_reads (hreads suspension rfl) hanswer world.epochsPerFrame
      have hfirst : StoredSince known earlier
          { world with firstLogs := UpdateRewards.logs? suspension answer } := ⟨h.latest, h.since⟩
      simp only [Initialization.resume]
      cases hnext : UpdateRewards.resume world.epochsPerFrame suspension answer with
      | suspended next =>
          rw [hnext] at hprogress
          refine ⟨hfirst, fun suspension hmem => ?_⟩
          rw [← Option.some.inj hmem]
          exact hprogress
      | finished update total =>
          rw [hnext] at hprogress
          exact ⟨hfirst.store hprogress.1 hprogress.2, fun _ hmem => (by cases hmem)⟩
      | thrown => exact ⟨hfirst, fun _ hmem => (by cases hmem)⟩
  | updated =>
      cases answer with
      | settled => exact ⟨⟨h.latest, h.since⟩, fun _ hmem => (by cases hmem)⟩
      | _ => exact ⟨h, fun _ hmem => (by cases hmem)⟩

theorem storedSince_handler (h : StoredSince known earlier world) {event : ℕ}
    {suspension : UpdateRewards.Suspension}
    (hreads : ReadsKnown known (.tokenRebased event) (some suspension))
    {answer : UpdateRewards.Answer} (hanswer : ∀ logs ∈ answer.tokenRebased?, logs ∈ known) :
    StoredSince known earlier (Handler.resume suspension answer world).1 ∧
      ReadsKnown known (.tokenRebased event) (Handler.resume suspension answer world).2 := by
  have hprogress :=
    UpdateRewards.resume_reads (hreads suspension rfl) hanswer world.epochsPerFrame
  simp only [Handler.resume]
  cases hnext : UpdateRewards.resume world.epochsPerFrame suspension answer with
  | suspended next =>
      rw [hnext] at hprogress
      refine ⟨h, fun suspension hmem => ?_⟩
      rw [← Option.some.inj hmem]
      exact hprogress
  | finished update total =>
      rw [hnext] at hprogress
      exact ⟨h.store hprogress.1 hprogress.2, fun _ hmem => (by cases hmem)⟩
  | thrown => exact ⟨h, fun _ hmem => (by cases hmem)⟩

/-- The answers of a run are known. -/
def AnswersKnown (known : List (List TokenRebasedLog)) (event : Job.Event rewardsActors) : Prop :=
  ∀ logs ∈ answeredLogs? event, logs ∈ known

theorem storedSince_segment {s : Job.State rewardsActors} {event : Job.Event rewardsActors}
    {actor : RewardsActor} {segment : World × Option (rewardsActors actor).Suspension}
    (hanswers : AnswersKnown known event) (hruns : s.Runs event actor segment)
    (h : StoredSince known earlier s.shared) (hreads : ReadsKnown known actor (s.suspended actor)) :
    StoredSince known earlier segment.1 ∧ ReadsKnown known actor segment.2 := by
  cases hruns with
  | @start actor input hidle =>
      cases actor with
      | initialization => cases input
      | tokenRebased event =>
          refine ⟨h, fun suspension hmem => ?_⟩
          have hfetching : suspension = .fetchingBlockNumber := by
            change suspension ∈ (Handler.start () s.shared).2 at hmem
            simp only [Handler.start] at hmem
            split_ifs at hmem
            · exact (Option.some.inj hmem).symm
            · cases hmem
          subst hfetching
          exact ⟨trivial, fun _ hread => (by cases hread)⟩
      | updateContractConfig => exact ⟨h, fun _ hmem => (by cases hmem)⟩
  | @resume actor answer suspension hsuspended =>
      rw [hsuspended] at hreads
      cases actor with
      | initialization => exact storedSince_initialization h hreads hanswers
      | tokenRebased event => exact storedSince_handler h hreads hanswers
      | updateContractConfig =>
          have hrewards := config_resume suspension answer s.shared.memory
          exact ⟨⟨h.latest.setMemory hrewards, h.since⟩, fun _ hmem => (by cases hmem)⟩

/-- From a state whose updates in flight have read known logs, a run stores rewards of
known logs only. -/
def knownLogsOutline (known : List (List TokenRebasedLog)) (earlier : List Update) :
    Job.Outline rewardsActors fun _ event => AnswersKnown known event where
  invariant := StoredSince known earlier
  asserts actor suspended _ := ReadsKnown known actor suspended
  commits _ _ _ := True
  segment hanswers hruns h hreads := by
    obtain ⟨hstored, hnext⟩ := storedSince_segment hanswers hruns h hreads
    exact ⟨hstored, hnext, trivial⟩
  stable _ _ _ _ hreads _ := hreads

/-- Where no update in flight has read its logs, whatever a run stores comes from the logs
that it answers. -/
theorem storedSince_run (s : Job.State rewardsActors) (events : List (Job.Event rewardsActors))
    (hlatest : LatestGives s.shared)
    (hright : ∀ actor, ∀ suspension ∈ updateInFlight actor (s.suspended actor), suspension.Right)
    (hread : NoLogsRead s) :
    (knownLogsOutline (events.filterMap answeredLogs?) s.shared.updates).Holds (s.run events) := by
  refine Job.Outline.holds_run _ (Job.State.meets_of_forall fun event hmem => ?_) ⟨?_, ?_⟩
  · intro logs hlogs
    exact List.mem_filterMap.mpr ⟨event, hmem, hlogs⟩
  · exact ⟨hlatest, [], rfl, fun _ hmem => (by cases hmem)⟩
  · intro actor suspension hmem
    refine ⟨hright actor suspension hmem, fun logs hlogs => ?_⟩
    rw [hread actor suspension hmem] at hlogs
    cases hlogs

theorem updateInFlight_boot (memory : Memory) (actor : RewardsActor) :
    ∀ suspension ∈ updateInFlight actor ((boot memory).suspended actor),
      suspension = .fetchingBlockNumber := by
  intro suspension hmem
  cases actor with
  | initialization => exact (Option.some.inj hmem).symm
  | tokenRebased event => cases hmem
  | updateContractConfig => cases hmem

/-- The block of the newest report of some logs. -/
def newestReport (logs : List TokenRebasedLog) : ℕ :=
  (logs.map TokenRebasedLog.blockNumber).foldr max 0

/-- A query for `TokenRebased` that is answered later knows at least the newest report. -/
def ChainGrows (events : List (Job.Event rewardsActors)) : Prop :=
  (events.filterMap answeredLogs?).Pairwise fun earlier later =>
    newestReport earlier ≤ newestReport later

instance (events : List (Job.Event rewardsActors)) : Decidable (ChainGrows events) :=
  inferInstanceAs (Decidable (List.Pairwise _ _))

/-- **Rewards never fall back behind a moment at which no update in flight has read its
logs**: whatever is stored after it is at least as new as everything that was stored before
it, whichever updates have overtaken one another, and the store holds the latest. -/
theorem rewards_since_noLogsRead {memory : Memory} {before after : List (Job.Event rewardsActors)}
    (hgrows : ChainGrows (before ++ after)) (hread : NoLogsRead ((boot memory).run before)) :
    let moment := ((boot memory).run before).shared
    let world := ((boot memory).run (before ++ after)).shared
    ∃ later, world.updates = later ++ moment.updates ∧
      (∀ update ∈ later, ∀ earlier ∈ moment.updates,
        newestReport earlier.logs ≤ newestReport update.logs) ∧
      ∀ update ∈ world.updates.head?, update.Gives world.totalRewards := by
  intro moment world
  have hboot := storedSince_run (boot memory) before (fun _ hmem => (by cases hmem))
    (fun actor suspension hmem => updateInFlight_boot memory actor suspension hmem ▸ trivial)
    (fun actor suspension hmem => updateInFlight_boot memory actor suspension hmem ▸ rfl)
  have hmoment := storedSince_run _ after hboot.invariant.latest
    (fun actor suspension hmem => (hboot.asserts actor suspension hmem).right) hread
  rw [← Job.State.run_append] at hmoment
  obtain ⟨stored, hstored, hstoredLogs⟩ := hboot.invariant.since
  obtain ⟨later, hlater, hlaterLogs⟩ := hmoment.invariant.since
  refine ⟨later, hlater, fun update hupdate earlier hearlier => ?_, hmoment.invariant.latest⟩
  rw [ChainGrows, List.filterMap_append, List.pairwise_append] at hgrows
  have hstoredEarlier : earlier ∈ stored := by
    have hall : moment.updates = stored ++ [] := hstored
    rwa [hall, List.append_nil] at hearlier
  exact hgrows.2.2 _ (hstoredLogs earlier hstoredEarlier) _ (hlaterLogs update hupdate)

def answerEvent (event : ℕ) (answer : UpdateRewards.Answer) : Job.Event rewardsActors :=
  .resume (.tokenRebased event) answer

/-- Logs of one report, which spans no frame. -/
def oneReport (blockNumber : ℕ) : List TokenRebasedLog := [{ blockNumber, timeElapsed := 0 }]

/-- The start of the service, and two events whose updates are in flight together: the
first to read its logs is the last to store its rewards. -/
def overtaken : List (Job.Event rewardsActors) :=
  configRun ++
    [answerStartUp (.blockNumber 22000000), answerStartUp (.tokenRebased (oneReport 21995000)),
      answerStartUp .settled, answerStartUp .settled,
      .start (.tokenRebased 0) (), .start (.tokenRebased 1) (),
      answerEvent 0 (.blockNumber 22002400), answerEvent 1 (.blockNumber 22009600),
      answerEvent 0 (.tokenRebased (oneReport 22002200)),
      answerEvent 1 (.tokenRebased (oneReport 22009400)),
      answerEvent 1 .settled, answerEvent 0 .settled]

/-- A third event. -/
def thirdEvent : List (Job.Event rewardsActors) :=
  [.start (.tokenRebased 2) (), answerEvent 2 (.blockNumber 22016800),
    answerEvent 2 (.tokenRebased (oneReport 22016600)), answerEvent 2 .settled]

/-- The store has been set back by the overtaking, and is ahead again after the third
event. -/
theorem rewards_since_noLogsRead_overtaken :
    let moment := ((boot { stores := { genesisTime := 1606824023 } }).run overtaken).shared
    let world :=
      ((boot { stores := { genesisTime := 1606824023 } }).run (overtaken ++ thirdEvent)).shared
    (∃ later, world.updates = later ++ moment.updates ∧
      (∀ update ∈ later, ∀ earlier ∈ moment.updates,
        newestReport earlier.logs ≤ newestReport update.logs) ∧
      ∀ update ∈ world.updates.head?, update.Gives world.totalRewards) ∧
      world.updates.map (fun update => newestReport update.logs) =
        [22016600, 22002200, 22009400, 21995000] := by
  refine ⟨rewards_since_noLogsRead (by decide +kernel) ?_, by decide +kernel⟩
  intro actor suspension hmem
  cases actor with
  | initialization => cases hmem
  | tokenRebased event =>
      match event with
      | 0 => cases hmem
      | 1 => cases hmem
      | event + 2 => cases hmem
  | updateContractConfig => cases hmem

end RewardsService

end WithdrawalsApi
