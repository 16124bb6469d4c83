/-
# The buffer reserve over many ticks

The flag that says whether the reserve is supported goes from the reader to the
store once a tick, and the target is read only in a tick that has found the flag
in the store. Any read may fail in any tick. A failed probe means "not supported"
until the reader has latched; a failed read of the target means a target of zero
at any time; a failed read of anything else ends the tick without a write.

The reader is latched whenever the store has the flag, so a tick that finds the
flag never probes again, and the flag stays. The target has no such memory.
-/

import WithdrawalsApi.Jobs.ConfigReads

namespace WithdrawalsApi.ConfigReads

open Math Job.State ContractConfigService

/-! ## What a tick stores -/

@[simp]
theorem assign_lidoSupportsDepositsReserve (wasSrv3KnownLastTick : Bool) (reads : ContractReads)
    (now : ℤ) (store : ContractConfigStorageService) :
    (assign wasSrv3KnownLastTick reads now store).lidoSupportsDepositsReserve =
      reads.lidoSupportsDepositsReserve := by
  unfold assign
  split_ifs <;> rfl

@[simp]
theorem assign_depositsReserveTarget (wasSrv3KnownLastTick : Bool) (reads : ContractReads)
    (now : ℤ) (store : ContractConfigStorageService) :
    (assign wasSrv3KnownLastTick reads now store).depositsReserveTarget =
      if wasSrv3KnownLastTick then reads.depositsReserveTarget else 0 := by
  unfold assign
  split_ifs <;> rfl

/-- What a complete batch stores as the target: what its own read has answered, if
it has made one. -/
theorem target_of_reads? {batch : Batch} {margin : RequestTimestampMargin} {cap : ExitRequestCap}
    {reads : ContractReads} (hreads : batch.reads? margin cap = some reads)
    (hknown : batch.wasSrv3KnownLastTick = true) :
    ∃ answer, batch.targetAnswer = some answer ∧
      reads.depositsReserveTarget = getDepositsReserveTargetAt answer := by
  obtain ⟨-, htarget, -, -⟩ := reads?_eq_some hreads
  simp only [Batch.depositsReserveTarget, hknown, if_true, Option.map_eq_some_iff] at htarget
  obtain ⟨answer, hanswer, heq⟩ := htarget
  exact ⟨answer, hanswer, heq.symm⟩

/-! ## What is known of the reserve -/

/-- A flag in the store comes from a latched reader, a target in the store from a
tick that has found the flag. -/
structure ReserveKnown (world : ConfigWorld) : Prop where
  latched_of_flag : world.store.lidoSupportsDepositsReserve = true → world.supportedLatched = true
  flag_of_target : world.store.depositsReserveTarget ≠ 0 →
    world.store.lidoSupportsDepositsReserve = true

/-- A batch remembers the flag of the store; it does not wait for a probe when the
flag is there, and a probe that has succeeded has latched. -/
structure BatchKnows (target : ℕ) (world : ConfigWorld) (batch : Batch) : Prop where
  was_eq : batch.wasSrv3KnownLastTick = world.store.lidoSupportsDepositsReserve
  probed_of_flag : world.store.lidoSupportsDepositsReserve = true →
    batch.lidoSupportsDepositsReserve = some true
  latched_of_probed : batch.lidoSupportsDepositsReserve = some true →
    world.supportedLatched = true
  target_eq : ∀ answer, batch.targetAnswer = some (some answer) → answer = target

def reserveAsserts (target : ℕ) :
    (actor : ConfigActor) → Option (configActors actor).Suspension → ConfigWorld → Prop
  | .chain => fun _ _ => True
  | .orphanedProbe => fun _ _ => True
  | .updateContractConfig => fun suspended world =>
      match suspended with
      | none => True
      | some (.fetchingBlockNumber wasSrv3KnownLastTick) =>
          wasSrv3KnownLastTick = world.store.lidoSupportsDepositsReserve
      | some (.reading batch) => BatchKnows target world batch

/-- Whoever is not the job leaves the store as it is and unlatches nothing. -/
def reserveCommits : ConfigActor → ConfigWorld → ConfigWorld → Prop
  | .updateContractConfig, _, _ => True
  | _, before, after => after.store = before.store ∧
      (before.supportedLatched = true → after.supportedLatched = true)

/-- A successful read of the target answers the target on chain. -/
def AnswersTarget (target : ℕ) (_ : Job.State configActors) : Job.Event configActors → Prop
  | .resume .updateContractConfig (.depositsReserveTarget answer) =>
      ∀ value ∈ answer, value = target
  | _ => True

theorem BatchKnows.mono {target : ℕ} {before after : ConfigWorld} {batch : Batch}
    (h : BatchKnows target before batch) (hstore : after.store = before.store)
    (hlatched : before.supportedLatched = true → after.supportedLatched = true) :
    BatchKnows target after batch where
  was_eq := by rw [hstore]; exact h.was_eq
  probed_of_flag := by rw [hstore]; exact h.probed_of_flag
  latched_of_probed hprobed := hlatched (h.latched_of_probed hprobed)
  target_eq := h.target_eq

theorem BatchKnows.serveFrameConfig {target : ℕ} {world : ConfigWorld} {batch : Batch}
    (h : BatchKnows target world batch) (source : HashConsensus) (config : FrameConfig) :
    BatchKnows target world (batch.serveFrameConfig source config) := by
  unfold Batch.serveFrameConfig
  split
  · exact ⟨h.was_eq, h.probed_of_flag, h.latched_of_probed, h.target_eq⟩
  · exact h

theorem BatchKnows.serveTarget {target : ℕ} {world : ConfigWorld} {batch : Batch}
    (h : BatchKnows target world batch) {answer : Option ℕ}
    (hanswer : ∀ value, answer = some value → value = target) :
    BatchKnows target world (batch.serveTarget answer) := by
  unfold Batch.serveTarget
  split
  · refine ⟨h.was_eq, h.probed_of_flag, h.latched_of_probed, fun value hvalue => ?_⟩
    exact hanswer value (Option.some.inj hvalue)
  · exact h

/-- A probe is awaited only while the store lacks the flag. -/
theorem BatchKnows.serveProbe {target : ℕ} {world : ConfigWorld} {batch : Batch}
    (h : BatchKnows target world batch) (hpending : batch.lidoSupportsDepositsReserve = none)
    (answered : Bool) :
    BatchKnows target (latch answered world)
      { batch with lidoSupportsDepositsReserve := some answered } where
  was_eq := h.was_eq
  probed_of_flag := by
    intro hflag
    have hprobed := h.probed_of_flag hflag
    rw [hpending] at hprobed
    cases hprobed
  latched_of_probed := by
    intro hprobed
    simp [latch, Option.some.inj hprobed]
  target_eq := h.target_eq

theorem ReserveKnown.mono {before after : ConfigWorld} (h : ReserveKnown before)
    (hstore : after.store = before.store)
    (hlatched : before.supportedLatched = true → after.supportedLatched = true) :
    ReserveKnown after where
  latched_of_flag := by
    intro hflag
    rw [hstore] at hflag
    exact hlatched (h.latched_of_flag hflag)
  flag_of_target := by rw [hstore]; exact h.flag_of_target

theorem latched_latch {world : ConfigWorld} (answered : Bool)
    (h : world.supportedLatched = true) : (latch answered world).supportedLatched = true := by
  simp [latch, h]

/-- The assignments of a complete batch keep what is known of the reserve. -/
theorem reserveKnown_storeReads {target : ℕ} {world : ConfigWorld} {batch : Batch}
    (h : BatchKnows target world batch) {margin : RequestTimestampMargin} {cap : ExitRequestCap}
    {reads : ContractReads} (hreads : batch.reads? margin cap = some reads) (now : ℤ) :
    ReserveKnown (storeReads batch.wasSrv3KnownLastTick reads now world) := by
  obtain ⟨hprobed, -, -, -⟩ := reads?_eq_some hreads
  constructor
  · intro hflag
    change (assign _ reads now world.store).lidoSupportsDepositsReserve = true at hflag
    rw [assign_lidoSupportsDepositsReserve] at hflag
    apply h.latched_of_probed
    rw [hprobed, hflag]
  · intro htarget
    change (assign _ reads now world.store).depositsReserveTarget ≠ 0 at htarget
    change (assign _ reads now world.store).lidoSupportsDepositsReserve = true
    rw [assign_depositsReserveTarget] at htarget
    rw [assign_lidoSupportsDepositsReserve]
    have hwas : batch.wasSrv3KnownLastTick = true := by
      by_contra hwas
      simp [hwas] at htarget
    have hflag := h.probed_of_flag (h.was_eq.symm.trans hwas)
    rw [hprobed] at hflag
    exact Option.some.inj hflag

/-- A segment of the job keeps what it knows. -/
theorem reserve_resume {target : ℕ} {world : ConfigWorld} {suspension : Suspension}
    {answer : Answer} {segment : ConfigWorld × Option Suspension}
    (hsegment : Segment world suspension answer segment)
    (hanswers : ∀ value, answer = .depositsReserveTarget (some value) → value = target)
    (hknown : ReserveKnown world)
    (h : reserveAsserts target .updateContractConfig (some suspension) world) :
    ReserveKnown segment.1 ∧
      reserveAsserts target .updateContractConfig segment.2 segment.1 := by
  cases hsegment with
  | begins wasSrv3KnownLastTick =>
      refine ⟨hknown, h, ?_, ?_, fun answer hanswer => by cases hanswer⟩
      · intro hflag
        simp [Batch.begin, hknown.latched_of_flag hflag]
      · intro hprobed
        by_contra hlatched
        simp [Batch.begin, hlatched] at hprobed
  | servesFrameConfig batch source => exact ⟨hknown, h.serveFrameConfig source _⟩
  | servesProbe answered hpending =>
      exact ⟨hknown.mono rfl (latched_latch answered), h.serveProbe hpending answered⟩
  | servesTarget batch answer =>
      refine ⟨hknown, h.serveTarget fun value hvalue => ?_⟩
      exact hanswers value (congrArg Answer.depositsReserveTarget hvalue)
  | stores hreads => exact ⟨reserveKnown_storeReads h hreads _, trivial⟩
  | fails suspension => exact ⟨hknown, trivial⟩
  | waits suspension answer => exact ⟨hknown, h⟩

theorem reserve_segment {target : ℕ} {s : Job.State configActors}
    {event : Job.Event configActors} {actor : ConfigActor}
    {segment : ConfigWorld × Option (configActors actor).Suspension}
    (hanswers : AnswersTarget target s event) (hruns : s.Runs event actor segment)
    (hknown : ReserveKnown s.shared)
    (hasserts : reserveAsserts target actor (s.suspended actor) s.shared) :
    ReserveKnown segment.1 ∧ reserveAsserts target actor segment.2 segment.1 ∧
      reserveCommits actor s.shared segment.1 := by
  cases hruns with
  | @start actor input hidle =>
      cases actor with
      | chain => exact ⟨hknown.mono rfl id, trivial, rfl, id⟩
      | orphanedProbe =>
          exact ⟨hknown.mono rfl (latched_latch input), trivial, rfl, latched_latch input⟩
      | updateContractConfig => exact ⟨hknown, rfl, trivial⟩
  | @resume actor answer suspension hsuspended =>
      cases actor with
      | chain => cases suspension
      | orphanedProbe => cases suspension
      | updateContractConfig =>
          rw [hsuspended] at hasserts
          have hnext := reserve_resume (segment_resume suspension answer s.shared)
            (fun value hvalue => by subst hvalue; exact hanswers value rfl) hknown hasserts
          exact ⟨hnext.1, hnext.2, trivial⟩

/-- The reserve in the store, the reader and the tick in flight agree. -/
def reserveOutline (target : ℕ) : Job.Outline configActors (AnswersTarget target) where
  invariant := ReserveKnown
  asserts := reserveAsserts target
  commits := reserveCommits
  segment := reserve_segment
  stable := by
    intro actor other hne suspended before after hasserts hcommits
    cases actor with
    | chain => trivial
    | orphanedProbe => trivial
    | updateContractConfig =>
        obtain ⟨hstore, hlatched⟩ : after.store = before.store ∧
            (before.supportedLatched = true → after.supportedLatched = true) := by
          cases other with
          | chain => exact hcommits
          | orphanedProbe => exact hcommits
          | updateContractConfig => exact absurd rfl hne
        match suspended with
        | none => trivial
        | some (.fetchingBlockNumber wasSrv3KnownLastTick) =>
            show wasSrv3KnownLastTick = after.store.lidoSupportsDepositsReserve
            rw [hstore]
            exact hasserts
        | some (.reading batch) => exact hasserts.mono hstore hlatched

/-! ## Every run -/

/-- A step leaves the store as it is, or it makes the assignments of a complete
batch. -/
theorem store_step (s : Job.State configActors) (event : Job.Event configActors) :
    (s.step event).shared.store = s.shared.store ∨
      ∃ batch margin cap reads now, updateContractConfig s = some (.reading batch) ∧
        batch.reads? margin cap = some reads ∧
        (s.step event).shared.store =
          assign batch.wasSrv3KnownLastTick reads now s.shared.store := by
  rcases s.step_cases event with hsame | ⟨actor, segment, hruns⟩
  · exact Or.inl (by rw [hsame])
  · rw [hruns.step_shared]
    cases hruns with
    | @start actor input hidle => exact Or.inl (by cases actor <;> rfl)
    | @resume actor answer suspension hsuspended =>
        cases actor with
        | chain => cases suspension
        | orphanedProbe => cases suspension
        | updateContractConfig =>
            have hsegment : Segment s.shared suspension answer
                ((configActors .updateContractConfig).resume suspension answer s.shared) :=
              segment_resume suspension answer s.shared
            generalize (configActors .updateContractConfig).resume suspension answer s.shared =
              segment at hsegment ⊢
            cases hsegment with
            | stores hreads => exact Or.inr ⟨_, _, _, _, _, hsuspended, hreads, rfl⟩
            | _ => exact Or.inl rfl

/-- A flag in the store stays there. -/
theorem flag_step {target : ℕ} {s : Job.State configActors}
    (hholds : (reserveOutline target).Holds s)
    (hflag : s.shared.store.lidoSupportsDepositsReserve = true) (event : Job.Event configActors) :
    (s.step event).shared.store.lidoSupportsDepositsReserve = true := by
  rcases store_step s event with hsame | ⟨batch, margin, cap, reads, now, hs, hreads, hstore⟩
  · rw [hsame]
    exact hflag
  · have hbatch := hholds.asserts .updateContractConfig
    rw [show s.suspended .updateContractConfig = _ from hs] at hbatch
    obtain ⟨hprobed, -, -, -⟩ := reads?_eq_some hreads
    have hsupported := hbatch.probed_of_flag hflag
    rw [hprobed] at hsupported
    rw [hstore, assign_lidoSupportsDepositsReserve]
    exact Option.some.inj hsupported

theorem flag_run {target : ℕ} {s : Job.State configActors} {events : List (Job.Event configActors)}
    (hholds : (reserveOutline target).Holds s)
    (hmeets : Job.State.Meets (AnswersTarget target) s events)
    (hflag : s.shared.store.lidoSupportsDepositsReserve = true) :
    (s.run events).shared.store.lidoSupportsDepositsReserve = true := by
  have hstep (s : Job.State configActors) (event : Job.Event configActors)
      (hanswers : AnswersTarget target s event)
      (h : (reserveOutline target).Holds s ∧
        s.shared.store.lidoSupportsDepositsReserve = true) :
      (reserveOutline target).Holds (s.step event) ∧
        (s.step event).shared.store.lidoSupportsDepositsReserve = true :=
    ⟨(reserveOutline target).holds_step s event hanswers h.1, flag_step h.1 h.2 event⟩
  have hboth := run_preserves hstep hmeets ⟨hholds, hflag⟩
  exact hboth.2

/-- The tick in flight has read the target, successfully or not, and stores what its
own read has answered. -/
def StoresOwnRead (target : ℕ) (s after : Job.State configActors) : Prop :=
  ∃ batch answer, updateContractConfig s = some (.reading batch) ∧
    batch.targetAnswer = some answer ∧ (answer = some target ∨ answer = none) ∧
    after.shared.store.depositsReserveTarget = getDepositsReserveTargetAt answer

/-- While the flag is stored, a tick stores the target it has read. -/
theorem storesOwnRead_step {target : ℕ} {s : Job.State configActors}
    (hholds : (reserveOutline target).Holds s)
    (hflag : s.shared.store.lidoSupportsDepositsReserve = true) (event : Job.Event configActors) :
    (s.step event).shared.store = s.shared.store ∨ StoresOwnRead target s (s.step event) := by
  rcases store_step s event with hsame | ⟨batch, margin, cap, reads, now, hs, hreads, hstore⟩
  · exact Or.inl hsame
  · right
    have hbatch := hholds.asserts .updateContractConfig
    rw [show s.suspended .updateContractConfig = _ from hs] at hbatch
    have hwas : batch.wasSrv3KnownLastTick = true := hbatch.was_eq.trans hflag
    obtain ⟨answer, hanswer, htarget⟩ := target_of_reads? hreads hwas
    refine ⟨batch, answer, hs, hanswer, ?_, ?_⟩
    · cases answer with
      | none => exact Or.inr rfl
      | some value => exact Or.inl (congrArg some (hbatch.target_eq value hanswer))
    · rw [hstore, assign_depositsReserveTarget, hwas, if_pos rfl, htarget]

/-- Nothing is known of the reserve before the first tick. -/
def BeforeFirstTick (world : ConfigWorld) : Prop :=
  world.store.lidoSupportsDepositsReserve = false ∧ world.store.depositsReserveTarget = 0

theorem holds_beforeFirstTick (target : ℕ) {world : ConfigWorld} (h : BeforeFirstTick world) :
    (reserveOutline target).Holds (.idle configActors world) where
  invariant := by
    constructor
    · intro hflag
      have hfalse := hflag.symm.trans h.1
      cases hfalse
    · intro htarget
      exact absurd h.2 htarget
  asserts actor := by cases actor <;> trivial

/-- **The flag survives, and so does the target but for a failed read of it.** Once
stored, the flag is never taken back; once the target is stored, every later tick
that stores anything stores what its own read of the target answers, which is the
target, or zero when that read has failed. -/
theorem reserveTarget_run {target : ℕ} {world : ConfigWorld}
    {earlier later : List (Job.Event configActors)} (htarget : 0 < target)
    (hboot : BeforeFirstTick world)
    (hmeets : Job.State.Meets (AnswersTarget target) (.idle configActors world)
      (earlier ++ later)) :
    let before := (Job.State.idle configActors world).run earlier
    let s := before.run later
    (before.shared.store.lidoSupportsDepositsReserve = true →
        s.shared.store.lidoSupportsDepositsReserve = true) ∧
      (before.shared.store.depositsReserveTarget = target → ∀ event,
        (s.step event).shared.store = s.shared.store ∨ StoresOwnRead target s (s.step event)) := by
  intro before s
  obtain ⟨hearlier, hlater⟩ := meets_append.mp hmeets
  have hbefore : (reserveOutline target).Holds before :=
    (reserveOutline target).holds_run hearlier (holds_beforeFirstTick target hboot)
  have hholds : (reserveOutline target).Holds s :=
    (reserveOutline target).holds_run hlater hbefore
  refine ⟨flag_run hbefore hlater, fun hstored event => ?_⟩
  have hflag : before.shared.store.lidoSupportsDepositsReserve = true :=
    hbefore.invariant.flag_of_target (by rw [hstored]; exact htarget.ne')
  exact storesOwnRead_step hholds (flag_run hbefore hlater hflag) event

instance decidableAnswersTarget (target : ℕ) (s : Job.State configActors) :
    (event : Job.Event configActors) → Decidable (AnswersTarget target s event)
  | .start _ _ => .isTrue trivial
  | .resume .chain _ => .isTrue trivial
  | .resume .orphanedProbe _ => .isTrue trivial
  | .resume .updateContractConfig (.depositsReserveTarget answer) =>
      inferInstanceAs (Decidable (∀ value ∈ answer, value = target))
  | .resume .updateContractConfig .blockNumber => .isTrue trivial
  | .resume .updateContractConfig (.frameConfig _) => .isTrue trivial
  | .resume .updateContractConfig (.probe _) => .isTrue trivial
  | .resume .updateContractConfig (.settled _ _ _) => .isTrue trivial
  | .resume .updateContractConfig .rejected => .isTrue trivial

/-- One tick up to the end of its batch, with this answer of the probe or the target. -/
def tickReading (answer : Answer) : List (Job.Event configActors) :=
  [callJob .cron, answerJob .blockNumber, answerJob answer, answerJob (.frameConfig .accounting),
    answerJob (.frameConfig .vebo)]

/-- The reserve is detected in the first tick and its target is read in the second. -/
def targetStored : List (Job.Event configActors) :=
  tickReading (.probe true) ++ [batchSettled] ++ tickReading (.depositsReserveTarget (some 5)) ++
    [batchSettled]

/-- In the third tick the read of the target fails. -/
theorem reserveTarget_run_thirdTick :
    let before := (Job.State.idle configActors unconfigured).run targetStored
    let s := before.run (tickReading (.depositsReserveTarget none))
    (before.shared.store.lidoSupportsDepositsReserve = true →
        s.shared.store.lidoSupportsDepositsReserve = true) ∧
      (before.shared.store.depositsReserveTarget = 5 → ∀ event,
        (s.step event).shared.store = s.shared.store ∨ StoresOwnRead 5 s (s.step event)) :=
  have hmeets : Job.State.Meets (AnswersTarget 5) (.idle configActors unconfigured)
      (targetStored ++ tickReading (.depositsReserveTarget none)) := by
    decide +kernel
  reserveTarget_run (by decide) ⟨rfl, rfl⟩ hmeets

/-- After the third tick the stored target is zero. -/
theorem target_may_be_lost :
    ¬ ∀ (target : ℕ) (world : ConfigWorld) (earlier later : List (Job.Event configActors)),
      0 < target → BeforeFirstTick world →
      Job.State.Meets (AnswersTarget target) (.idle configActors world) (earlier ++ later) →
      let before := (Job.State.idle configActors world).run earlier
      let s := before.run later
      (before.shared.store.lidoSupportsDepositsReserve = true →
          s.shared.store.lidoSupportsDepositsReserve = true) ∧
        (before.shared.store.depositsReserveTarget = target →
          target ≤ s.shared.store.depositsReserveTarget) := by
  intro hkept
  have hle := (hkept 5 unconfigured targetStored
    (tickReading (.depositsReserveTarget none) ++ [batchSettled]) (by decide) ⟨rfl, rfl⟩
    (by decide +kernel)).2 (by decide +kernel)
  revert hle
  decide +kernel

end WithdrawalsApi.ConfigReads
