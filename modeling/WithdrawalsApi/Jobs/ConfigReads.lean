/-
# Frame configurations that change while they are read

Both consensus contracts announce a new frame configuration, and the service
answers an announcement by running the configuration job. A job that is running
already drops the call, relying on itself to read the configuration anew.

The job is the configuration job with its batch of reads cut open: the node
serves the reads one by one, each from the chain as it is at that moment, and
when the batch is complete the job makes its assignments. The probe for the
buffer reserve belongs to the batch. It remembers a success for good, and it does
so even when the run that has asked for it has failed in the meantime.
-/

import WithdrawalsApi.Jobs.ContractConfig

namespace WithdrawalsApi

open Js Math ContractConfigService

/-- The consensus contracts of the two oracles. -/
inductive HashConsensus
  | accounting
  | vebo
  deriving DecidableEq, Repr

deriving instance DecidableEq for FrameConfig

/-- The memory of the service, the reader of the buffer reserve, and the frame
configurations on chain. -/
structure ConfigWorld where
  memory : Memory
  supportedLatched : Bool := false
  frameConfig : HashConsensus → FrameConfig

namespace ConfigWorld

/-- The store the job writes. -/
def store (world : ConfigWorld) : ContractConfigStorageService := world.memory.stores.contractConfig

end ConfigWorld

namespace ConfigReads

/-- What calls the job. -/
inductive Trigger
  | startUp
  | cron
  | frameConfigSet (source : HashConsensus)

/-- `getDepositsReserveTargetAt`, which takes a failed read for a target of zero. -/
def getDepositsReserveTargetAt (answer : Option ℕ) : ℕ := answer.getD 0

/-- What a batch of reads has been served. -/
structure Batch where
  wasSrv3KnownLastTick : Bool
  frameConfig : HashConsensus → Option FrameConfig := fun _ => none
  lidoSupportsDepositsReserve : Option Bool
  /-- How the read of the target has been answered, when it has been. -/
  targetAnswer : Option (Option ℕ) := none

namespace Batch

/-- The reads are made at once; a latched reader does not ask the node again. -/
def begin (wasSrv3KnownLastTick supportedLatched : Bool) : Batch where
  wasSrv3KnownLastTick
  lidoSupportsDepositsReserve := if supportedLatched then some true else none

/-- The target, which is read only if the reserve was known to be supported. -/
def depositsReserveTarget (batch : Batch) : Option ℕ :=
  if batch.wasSrv3KnownLastTick then batch.targetAnswer.map getDepositsReserveTargetAt else some 0

/-- A read that has been served keeps its value. -/
def serveFrameConfig (batch : Batch) (source : HashConsensus) (config : FrameConfig) : Batch :=
  match batch.frameConfig source with
  | none => { batch with frameConfig := Function.update batch.frameConfig source (some config) }
  | some _ => batch

def serveTarget (batch : Batch) (answer : Option ℕ) : Batch :=
  match batch.targetAnswer with
  | none => { batch with targetAnswer := some answer }
  | some _ => batch

/-- The values of a complete batch. -/
def reads? (batch : Batch) (requestTimestampMargin : RequestTimestampMargin)
    (maxBalanceExitRequestedPerReportInEth : ExitRequestCap) : Option ContractReads := do
  let lidoSupportsDepositsReserve ← batch.lidoSupportsDepositsReserve
  let depositsReserveTarget ← batch.depositsReserveTarget
  let frameConfig ← batch.frameConfig .accounting
  let veboFrameConfig ← batch.frameConfig .vebo
  some {
    requestTimestampMargin
    maxBalanceExitRequestedPerReportInEth
    lidoSupportsDepositsReserve
    depositsReserveTarget
    frameConfig
    veboFrameConfig }

end Batch

inductive Suspension
  | fetchingBlockNumber (wasSrv3KnownLastTick : Bool)
  | reading (batch : Batch)

inductive Answer
  | blockNumber
  | frameConfig (source : HashConsensus)
  /-- The probing call has succeeded, or it has been refused. -/
  | probe (answered : Bool)
  | depositsReserveTarget (answer : Option ℕ)
  /-- The batch is complete, with these limits. -/
  | settled (now : ℤ) (requestTimestampMargin : RequestTimestampMargin)
      (maxBalanceExitRequestedPerReportInEth : ExitRequestCap)
  | rejected

/-- A probe that succeeds latches. -/
def latch (answered : Bool) (world : ConfigWorld) : ConfigWorld :=
  { world with supportedLatched := world.supportedLatched || answered }

def resume : Suspension → Answer → ConfigWorld → ConfigWorld × Option Suspension
  | .fetchingBlockNumber wasSrv3KnownLastTick, .blockNumber, world =>
      (world, some (.reading (.begin wasSrv3KnownLastTick world.supportedLatched)))
  | .reading batch, .frameConfig source, world =>
      (world, some (.reading (batch.serveFrameConfig source (world.frameConfig source))))
  | .reading batch, .probe answered, world =>
      match batch.lidoSupportsDepositsReserve with
      | none =>
          (latch answered world,
            some (.reading { batch with lidoSupportsDepositsReserve := some answered }))
      | some _ => (world, some (.reading batch))
  | .reading batch, .depositsReserveTarget answer, world =>
      (world, some (.reading (batch.serveTarget answer)))
  | .reading batch, .settled now margin cap, world =>
      match batch.reads? margin cap with
      | some reads =>
          ({ world with memory := (ContractConfigService.resume
              (.fetchingReads batch.wasSrv3KnownLastTick) (now, .reads reads) world.memory).1 },
            none)
      | none => (world, some (.reading batch))
  | _, .rejected, world => (world, none)
  | suspension, _, world => (world, some suspension)

/-- The world after the assignments of an update. -/
def storeReads (wasSrv3KnownLastTick : Bool) (reads : ContractReads) (now : ℤ)
    (world : ConfigWorld) : ConfigWorld :=
  { world with
    memory := world.memory.setContractConfig
      (assign wasSrv3KnownLastTick reads now world.store) }

/-- What a segment of the job does. -/
inductive Segment (world : ConfigWorld) :
    Suspension → Answer → ConfigWorld × Option Suspension → Prop
  | begins (wasSrv3KnownLastTick : Bool) :
      Segment world (.fetchingBlockNumber wasSrv3KnownLastTick) .blockNumber
        (world, some (.reading (.begin wasSrv3KnownLastTick world.supportedLatched)))
  | servesFrameConfig (batch : Batch) (source : HashConsensus) :
      Segment world (.reading batch) (.frameConfig source)
        (world, some (.reading (batch.serveFrameConfig source (world.frameConfig source))))
  | servesProbe {batch : Batch} (answered : Bool)
      (hpending : batch.lidoSupportsDepositsReserve = none) :
      Segment world (.reading batch) (.probe answered)
        (latch answered world,
          some (.reading { batch with lidoSupportsDepositsReserve := some answered }))
  | servesTarget (batch : Batch) (answer : Option ℕ) :
      Segment world (.reading batch) (.depositsReserveTarget answer)
        (world, some (.reading (batch.serveTarget answer)))
  | stores {batch : Batch} {now : ℤ} {margin : RequestTimestampMargin} {cap : ExitRequestCap}
      {reads : ContractReads} (hreads : batch.reads? margin cap = some reads) :
      Segment world (.reading batch) (.settled now margin cap)
        (storeReads batch.wasSrv3KnownLastTick reads now world, none)
  | fails (suspension : Suspension) : Segment world suspension .rejected (world, none)
  | waits (suspension : Suspension) (answer : Answer) :
      Segment world suspension answer (world, some suspension)

theorem segment_resume (suspension : Suspension) (answer : Answer) (world : ConfigWorld) :
    Segment world suspension answer (resume suspension answer world) := by
  cases suspension with
  | fetchingBlockNumber wasSrv3KnownLastTick =>
      cases answer with
      | blockNumber => exact .begins wasSrv3KnownLastTick
      | rejected => exact .fails _
      | _ => exact .waits _ _
  | reading batch =>
      cases answer with
      | blockNumber => exact .waits _ _
      | frameConfig source => exact .servesFrameConfig batch source
      | probe answered =>
          cases hpending : batch.lidoSupportsDepositsReserve with
          | none =>
              simp only [resume, hpending]
              exact .servesProbe answered hpending
          | some supported =>
              simp only [resume, hpending]
              exact .waits _ _
      | depositsReserveTarget answer => exact .servesTarget batch answer
      | settled now margin cap =>
          cases hreads : batch.reads? margin cap with
          | none =>
              simp only [resume, hreads]
              exact .waits _ _
          | some reads =>
              simp only [resume, hreads]
              exact .stores hreads
      | rejected => exact .fails _

end ConfigReads

inductive ConfigActor
  | chain
  | orphanedProbe
  | updateContractConfig
  deriving DecidableEq

/-- A frame configuration is set on chain; a probe answers whose run has ended
already; the job runs. -/
def configActors : ConfigActor → Job.{0, 0} ConfigWorld
  | .chain => .atomic fun (change : HashConsensus × FrameConfig) world =>
      { world with frameConfig := Function.update world.frameConfig change.1 change.2 }
  | .orphanedProbe => .atomic ConfigReads.latch
  | .updateContractConfig => {
      Input := ConfigReads.Trigger
      Suspension := ConfigReads.Suspension
      Answer := ConfigReads.Answer
      start := fun _ world =>
        (world, some (.fetchingBlockNumber world.store.lidoSupportsDepositsReserve))
      resume := ConfigReads.resume }

namespace ConfigReads

open Job.State

/-! ## The reads of a batch -/

/-- What a complete batch is assigned from. -/
theorem reads?_eq_some {batch : Batch} {margin : RequestTimestampMargin} {cap : ExitRequestCap}
    {reads : ContractReads} (h : batch.reads? margin cap = some reads) :
    batch.lidoSupportsDepositsReserve = some reads.lidoSupportsDepositsReserve ∧
      batch.depositsReserveTarget = some reads.depositsReserveTarget ∧
      batch.frameConfig .accounting = some reads.frameConfig ∧
      batch.frameConfig .vebo = some reads.veboFrameConfig := by
  simp only [Batch.reads?, Option.bind_eq_bind, Option.bind_eq_some_iff] at h
  obtain ⟨supported, hsupported, target, htarget, config, hconfig, veboConfig, hvebo, heq⟩ := h
  obtain rfl := Option.some.inj heq
  exact ⟨hsupported, htarget, hconfig, hvebo⟩

theorem serveFrameConfig_cases {batch : Batch} {source read : HashConsensus}
    {current config : FrameConfig}
    (h : (batch.serveFrameConfig source current).frameConfig read = some config) :
    batch.frameConfig read = some config ∨ (read = source ∧ config = current) := by
  unfold Batch.serveFrameConfig at h
  split at h
  · by_cases hread : read = source
    · subst hread
      simp only [Function.update_self, Option.some.injEq] at h
      exact Or.inr ⟨rfl, h.symm⟩
    · simp only [Function.update_of_ne hread] at h
      exact Or.inl h
  · exact Or.inl h

@[simp]
theorem frameConfig_serveTarget (batch : Batch) (answer : Option ℕ) :
    (batch.serveTarget answer).frameConfig = batch.frameConfig := by
  unfold Batch.serveTarget
  split <;> rfl

/-! ## Announcements -/

/-- Where the job is suspended. -/
def updateContractConfig (s : Job.State configActors) : Option Suspension :=
  s.suspended .updateContractConfig

/-- The announcements under way: one for every change, less those that have
arrived, whether or not the job has been run for them. -/
def announce : Job.Event configActors → (HashConsensus → ℕ) → HashConsensus → ℕ
  | .start .chain change, underway =>
      Function.update underway change.1 (underway change.1 + 1)
  | .start .updateContractConfig (.frameConfigSet source), underway =>
      Function.update underway source (underway source - 1)
  | _, underway => underway

/-- The announcements under way after a run. -/
def announced (events : List (Job.Event configActors)) : HashConsensus → ℕ :=
  observe announce events fun _ => 0

/-- The numbers of a batch are safe integers. -/
def readsNumbers (reads : ContractReads) : Bool :=
  isNumber reads.frameConfig.initialEpoch && isNumber reads.veboFrameConfig.epochsPerFrame &&
    isNumber reads.frameConfig.epochsPerFrame

/-- The job does not fail with this answer. -/
def succeeds : Suspension → Answer → Bool
  | .reading batch, .settled _ margin cap => (batch.reads? margin cap).all readsNumbers
  | _, .rejected => false
  | _, _ => true

/-- Every run of the job succeeds. -/
def RunsSucceed (s : Job.State configActors) : Job.Event configActors → Prop
  | .resume .updateContractConfig answer =>
      (updateContractConfig s).all (fun suspension => succeeds suspension answer) = true
  | _ => True

/-- A run that drops an announcement has not yet been served the configuration
announced, or it has been served the one on chain now. -/
def current (source : HashConsensus) (chain : FrameConfig) : Suspension → Bool
  | .reading batch => (batch.frameConfig source).all fun config => decide (config = chain)
  | .fetchingBlockNumber _ => true

/-- An announcement is dropped only by a run that is current. -/
def HeardInTime (s : Job.State configActors) : Job.Event configActors → Prop
  | .start .updateContractConfig (.frameConfigSet source) =>
      (updateContractConfig s).all (current source (s.shared.frameConfig source)) = true
  | _ => True

/-- The store has the frame configuration of a contract, as far as it keeps it. -/
def StoresFrameConfig : HashConsensus → ContractConfigStorageService → FrameConfig → Prop
  | .accounting, store, config =>
      store.initialEpoch = some config.initialEpoch ∧
        store.epochsPerFrame = some config.epochsPerFrame
  | .vebo, store, config => store.epochsPerFrameVEBO = some config.epochsPerFrame

/-! ## Every run -/

/-- What the service knows of the configuration on chain: a run has been served it
or will be, and after a run it is stored. -/
def KnowsConfig (source : HashConsensus) (world : ConfigWorld) : Option Suspension → Prop
  | some (.reading batch) =>
      ∀ config ∈ batch.frameConfig source, config = world.frameConfig source
  | some (.fetchingBlockNumber _) => True
  | none => world.store.lastUpdate ≠ none →
      StoresFrameConfig source world.store (world.frameConfig source)

theorem KnowsConfig.congr {source : HashConsensus} {world other : ConfigWorld}
    {suspended : Option Suspension} (h : KnowsConfig source world suspended)
    (hstore : other.store = world.store)
    (hconfig : other.frameConfig source = world.frameConfig source) :
    KnowsConfig source other suspended := by
  unfold KnowsConfig at h ⊢
  rw [hstore, hconfig]
  exact h

/-- What the service does not know is being announced to it. -/
def UpToDate (s : Job.State configActors) (underway : HashConsensus → ℕ) : Prop :=
  ∀ source, 0 < underway source ∨ KnowsConfig source s.shared (updateContractConfig s)

/-- Assignments that do not throw store the configurations read. -/
theorem storesFrameConfig_assign {reads : ContractReads} (hnumbers : readsNumbers reads = true)
    (wasSrv3KnownLastTick : Bool) (now : ℤ) (store : ContractConfigStorageService) :
    StoresFrameConfig .accounting (assign wasSrv3KnownLastTick reads now store)
        reads.frameConfig ∧
      StoresFrameConfig .vebo (assign wasSrv3KnownLastTick reads now store)
        reads.veboFrameConfig := by
  simp only [readsNumbers, Bool.and_eq_true] at hnumbers
  simp [assign, hnumbers.1.1, hnumbers.1.2, hnumbers.2, StoresFrameConfig]

theorem knowsConfig_segment {world : ConfigWorld} {suspension : Suspension} {answer : Answer}
    {segment : ConfigWorld × Option Suspension} (hsegment : Segment world suspension answer segment)
    (hsucceeds : succeeds suspension answer = true) {source : HashConsensus}
    (h : KnowsConfig source world (some suspension)) :
    KnowsConfig source segment.1 segment.2 := by
  cases hsegment with
  | begins wasSrv3KnownLastTick => exact fun config hconfig => by cases hconfig
  | servesFrameConfig batch served =>
      intro config hconfig
      rcases serveFrameConfig_cases hconfig with hkept | ⟨rfl, rfl⟩
      · exact h config hkept
      · rfl
  | servesProbe answered hpending => exact h
  | servesTarget batch answer =>
      intro config hconfig
      rw [frameConfig_serveTarget] at hconfig
      exact h config hconfig
  | @stores batch now margin cap reads hreads =>
      intro _
      obtain ⟨-, -, hconfig, hvebo⟩ := reads?_eq_some hreads
      simp only [succeeds, hreads, Option.all_some] at hsucceeds
      obtain ⟨haccounting, hvebos⟩ :=
        storesFrameConfig_assign hsucceeds batch.wasSrv3KnownLastTick now world.store
      cases source with
      | accounting =>
          have hchain := h reads.frameConfig hconfig
          rw [hchain] at haccounting
          exact haccounting
      | vebo =>
          have hchain := h reads.veboFrameConfig hvebo
          rw [hchain] at hvebos
          exact hvebos
  | fails suspension => cases suspension <;> cases hsucceeds
  | waits suspension answer => exact h

/-- A change on chain is under way; of the other contract nothing changes. -/
theorem upToDate_change {s : Job.State configActors} {underway : HashConsensus → ℕ}
    (h : UpToDate s underway) (change : HashConsensus × FrameConfig) :
    UpToDate (s.step (.start .chain change)) (announce (.start .chain change) underway) := by
  have hruns : s.Runs (.start .chain change) .chain _ :=
    .start (s.suspended_of_isEmpty (inferInstanceAs (IsEmpty PEmpty)))
  have hsuspended : updateContractConfig (s.step (.start .chain change)) =
      updateContractConfig s := hruns.step_suspended_of_ne (by decide)
  intro source
  by_cases hsource : source = change.1
  · subst hsource
    exact Or.inl (by simp [announce])
  · rw [hsuspended, hruns.step_shared]
    simp only [announce, Function.update_of_ne hsource]
    refine (h source).imp_right fun hknows => ?_
    exact hknows.congr rfl (Function.update_of_ne hsource _ _)

/-- A probe tells nothing about frame configurations. -/
theorem upToDate_orphanedProbe {s : Job.State configActors} {underway : HashConsensus → ℕ}
    (h : UpToDate s underway) (answered : Bool) :
    UpToDate (s.step (.start .orphanedProbe answered)) underway := by
  have hruns : s.Runs (.start .orphanedProbe answered) .orphanedProbe _ :=
    .start (s.suspended_of_isEmpty (inferInstanceAs (IsEmpty PEmpty)))
  have hsuspended : updateContractConfig (s.step (.start .orphanedProbe answered)) =
      updateContractConfig s := hruns.step_suspended_of_ne (by decide)
  intro source
  rw [hsuspended, hruns.step_shared]
  exact h source

/-- A call that is not dropped reads what there is; one that is dropped relies on the
run in flight. -/
theorem upToDate_call {s : Job.State configActors} {underway : HashConsensus → ℕ}
    (h : UpToDate s underway) {trigger : Trigger}
    (hheard : HeardInTime s (.start .updateContractConfig trigger)) :
    UpToDate (s.step (.start .updateContractConfig trigger))
      (announce (.start .updateContractConfig trigger) underway) := by
  intro source
  cases hs : updateContractConfig s with
  | none =>
      have hruns : s.Runs (.start .updateContractConfig trigger) .updateContractConfig _ :=
        .start hs
      right
      rw [updateContractConfig, hruns.step_suspended]
      trivial
  | some suspension =>
      have hdropped : s.step (.start .updateContractConfig trigger) = s :=
        step_start_of_suspended hs trigger
      rw [hdropped]
      cases trigger with
      | startUp => exact h source
      | cron => exact h source
      | frameConfigSet heard =>
          by_cases hsource : source = heard
          · subst hsource
            right
            simp only [HeardInTime, hs, Option.all_some] at hheard
            rw [hs]
            cases suspension with
            | fetchingBlockNumber wasSrv3KnownLastTick => trivial
            | reading batch =>
                intro config hconfig
                simp only [current, Option.mem_def.mp hconfig, Option.all_some] at hheard
                exact of_decide_eq_true hheard
          · simp only [announce, Function.update_of_ne hsource]
            exact h source

theorem upToDate_resume {s : Job.State configActors} {underway : HashConsensus → ℕ}
    (h : UpToDate s underway) {answer : Answer}
    (hsucceeds : RunsSucceed s (.resume .updateContractConfig answer)) :
    UpToDate (s.step (.resume .updateContractConfig answer)) underway := by
  cases hs : updateContractConfig s with
  | none =>
      have hlost : s.step (.resume .updateContractConfig answer) = s :=
        step_resume_of_idle hs answer
      rw [hlost]
      exact h
  | some suspension =>
      have hruns : s.Runs (.resume .updateContractConfig answer) .updateContractConfig _ :=
        .resume hs
      simp only [RunsSucceed, hs, Option.all_some] at hsucceeds
      intro source
      refine (h source).imp_right fun hknows => ?_
      rw [hs] at hknows
      rw [updateContractConfig, hruns.step_suspended, hruns.step_shared]
      exact knowsConfig_segment (segment_resume suspension answer s.shared) hsucceeds hknows

theorem upToDate_step (s : Job.State configActors) (event : Job.Event configActors)
    (underway : HashConsensus → ℕ) (hmeets : RunsSucceed s event ∧ HeardInTime s event)
    (h : UpToDate s underway) : UpToDate (s.step event) (announce event underway) := by
  obtain ⟨hsucceeds, hheard⟩ := hmeets
  cases event with
  | start actor input =>
      cases actor with
      | chain => exact upToDate_change h input
      | orphanedProbe => exact upToDate_orphanedProbe h input
      | updateContractConfig => exact upToDate_call h hheard
  | resume actor answer =>
      cases actor with
      | chain => cases answer
      | orphanedProbe => cases answer
      | updateContractConfig => exact upToDate_resume h hsucceeds

/-- A service that has stored nothing yet knows nothing it ought not to. -/
theorem upToDate_idle {world : ConfigWorld} (hboot : world.store.lastUpdate = none)
    (underway : HashConsensus → ℕ) : UpToDate (.idle configActors world) underway :=
  fun _ => Or.inr fun hupdated => absurd hboot hupdated

/-- **No change of a frame configuration is lost**, in a run in which the job
succeeds and drops an announcement only while it is current: when every
announcement has arrived and no run is in flight, the store has what is on
chain. -/
theorem storesFrameConfig_run {world : ConfigWorld} {events : List (Job.Event configActors)}
    (hboot : world.store.lastUpdate = none)
    (hmeets : Job.State.Meets (fun s event => RunsSucceed s event ∧ HeardInTime s event)
      (.idle configActors world) events) :
    let s := (Job.State.idle configActors world).run events
    updateContractConfig s = none → s.shared.store.lastUpdate ≠ none →
      (∀ source, announced events source = 0) →
        ∀ source, StoresFrameConfig source s.shared.store (s.shared.frameConfig source) := by
  intro s hidle hupdated harrived source
  have hup : UpToDate s (announced events) :=
    run_preserves_observed upToDate_step hmeets (upToDate_idle hboot _)
  rcases hup source with hunderway | hknows
  · rw [harrived source] at hunderway
    exact absurd hunderway (lt_irrefl 0)
  · rw [hidle] at hknows
    exact hknows hupdated

/-- Frames of 210 epochs on both contracts, before the first run. -/
def unconfigured : ConfigWorld where
  memory := { stores := { genesisTime := 0 } }
  frameConfig := fun _ => { initialEpoch := 1000, epochsPerFrame := 210 }

/-- The accounting contract changes to frames of 420 epochs. -/
def accountingChange : Job.Event configActors :=
  .start .chain (HashConsensus.accounting, { initialEpoch := 1000, epochsPerFrame := 420 })

def callJob (trigger : Trigger) : Job.Event configActors :=
  .start .updateContractConfig trigger

def answerJob (answer : Answer) : Job.Event configActors :=
  .resume .updateContractConfig answer

/-- A batch is complete. -/
def batchSettled : Job.Event configActors :=
  answerJob (.settled 1744714823000 ⟨7200, by decide⟩ ⟨600, by decide⟩)

/-- The start-up run; the accounting configuration changes before or after it is
served, and the announcement arrives while the run is still in flight. -/
def startUpRun (beforeRead afterRead : List (Job.Event configActors)) :
    List (Job.Event configActors) :=
  [callJob .startUp, answerJob .blockNumber] ++ beforeRead ++
    [answerJob (.frameConfig .accounting)] ++ afterRead ++
    [answerJob (.probe true), answerJob (.frameConfig .vebo), batchSettled]

instance decidableRunsSucceed (s : Job.State configActors) :
    (event : Job.Event configActors) → Decidable (RunsSucceed s event)
  | .start _ _ => .isTrue trivial
  | .resume .chain _ => .isTrue trivial
  | .resume .orphanedProbe _ => .isTrue trivial
  | .resume .updateContractConfig _ => inferInstanceAs (Decidable (_ = true))

instance decidableHeardInTime (s : Job.State configActors) :
    (event : Job.Event configActors) → Decidable (HeardInTime s event)
  | .start .chain _ => .isTrue trivial
  | .start .orphanedProbe _ => .isTrue trivial
  | .start .updateContractConfig .startUp => .isTrue trivial
  | .start .updateContractConfig .cron => .isTrue trivial
  | .start .updateContractConfig (.frameConfigSet _) => inferInstanceAs (Decidable (_ = true))
  | .resume _ _ => .isTrue trivial

/-- The change comes before the read: dropping its announcement does no harm. -/
theorem storesFrameConfig_run_changedBefore :
    let s := (Job.State.idle configActors unconfigured).run
      (startUpRun [accountingChange, callJob (.frameConfigSet .accounting)] [])
    ∀ source, StoresFrameConfig source s.shared.store (s.shared.frameConfig source) :=
  have hmeets : Job.State.Meets (fun s event => RunsSucceed s event ∧ HeardInTime s event)
      (.idle configActors unconfigured)
      (startUpRun [accountingChange, callJob (.frameConfigSet .accounting)] []) := by
    decide +kernel
  storesFrameConfig_run rfl hmeets rfl (by decide +kernel)
    (fun source => by cases source <;> rfl)

/-- The change comes after the read: its announcement is dropped by a run that
stores the frames of 210 epochs. -/
theorem change_may_be_lost :
    ¬ ∀ (world : ConfigWorld) (events : List (Job.Event configActors)),
      world.store.lastUpdate = none →
      Job.State.Meets RunsSucceed (.idle configActors world) events →
      let s := (Job.State.idle configActors world).run events
      updateContractConfig s = none → s.shared.store.lastUpdate ≠ none →
        (∀ source, announced events source = 0) →
          ∀ source, StoresFrameConfig source s.shared.store (s.shared.frameConfig source) := by
  intro hstores
  have hlost := (hstores unconfigured
    (startUpRun [] [accountingChange, callJob (.frameConfigSet .accounting)]) rfl
    (by decide +kernel) rfl (by decide +kernel) (fun source => by cases source <;> rfl)
    .accounting).2
  revert hlost
  decide +kernel

end ConfigReads

end WithdrawalsApi
