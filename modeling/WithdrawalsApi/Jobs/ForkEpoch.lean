/-
# The Glamsterdam fork and the execution payloads

The execution block of a slot stands in the beacon block before the Glamsterdam fork and
in an envelope of its own from the fork on. Which of the two is read depends on the
epoch of the fork, which the consensus node announces in its spec: it is loaded at the
start and every midnight, an announcement of the far future or of nothing is skipped,
and a failed call is logged.

Any number of slots may be looked up at a time, each anywhere between its awaited calls,
while the epoch of the fork is loaded. A lookup that finds no payload in a block fails.
That happens with a block past the fork that is looked up before the fork is known, and
nowhere else.
-/

import WithdrawalsApi.Consensus
import WithdrawalsApi.GenesisTime
import WithdrawalsApi.Js.Arithmetic
import WithdrawalsApi.Math.Jobs

namespace WithdrawalsApi

open Js Math

/-- The part of an execution payload that is read. -/
structure ExecutionPayload where
  /-- Decimal text. -/
  blockNumber : List Char
  deriving DecidableEq

/-- The part of a beacon block that is read. -/
structure ResponseBlockV2 where
  /-- Decimal text. -/
  slot : List Char
  /-- The payload in the body, where there is one. -/
  executionPayload : Option ExecutionPayload

/-- What the service knows of the fork, and for the statements about runs what the
lookups of slots have come to. -/
structure ForkWorld where
  glamsterdamForkEpoch : Option JsNumber := none
  /-- The slots with the block numbers that were returned for them. -/
  returned : List (ℕ × JsNumber) := []
  /-- The slots without an execution payload in their block. -/
  failed : List ℕ := []

/-! ## The spec service -/

namespace SpecService

inductive Suspension
  | fetchingSpec

inductive Answer
  | spec (gloasForkEpoch : Option (List Char))
  | rejected

/-- An announced epoch is stored; that of the far future is not an announcement. -/
def load (gloasForkEpoch : Option (List Char)) (world : ForkWorld) : ForkWorld :=
  match gloasForkEpoch with
  | none | some [] => world
  | some text =>
      if text = integerText farFutureEpoch then world
      -- an equal epoch is stored again, which changes nothing
      else { world with glamsterdamForkEpoch := some (JsNumber.ofText text) }

def refreshGlamsterdamForkEpoch : Job.{0, 0} ForkWorld where
  Input := Unit
  Suspension := Suspension
  Answer := Answer
  start _ world := (world, some .fetchingSpec)
  resume
    | .fetchingSpec, .spec gloasForkEpoch, world => (load gloasForkEpoch world, none)
    | .fetchingSpec, .rejected, world => (world, none)

def isGlamsterdamReleasedAtSlot (glamsterdamForkEpoch : Option JsNumber) (slot : JsNumber) : Bool :=
  match glamsterdamForkEpoch with
  | none => false
  | some glamsterdamForkEpoch => (slot.divInteger slotsPerEpoch).floor.ge glamsterdamForkEpoch

end SpecService

/-! ## The lookup of a slot -/

namespace ConsensusExecutionPayloadService

/-- Where the lookup of a slot waits. -/
inductive Suspension
  | fetchingBlock (slot : ℕ)
  | fetchingEnvelope (slot : ℕ)
  deriving DecidableEq

inductive Answer
  | block (clBlock : ResponseBlockV2)
  | envelope (payload : ExecutionPayload)
  | rejected

/-- The end of `getBlockBySlot`. -/
def returnBlockNumber (slot : ℕ) (payload : ExecutionPayload) (world : ForkWorld) : ForkWorld :=
  { world with returned := (slot, JsNumber.ofText payload.blockNumber) :: world.returned }

/-- The payload in the block, without which the call throws. -/
def getLegacyExecutionPayload (slot : ℕ) (clBlock : ResponseBlockV2) (world : ForkWorld) :
    ForkWorld × Option Suspension :=
  match clBlock.executionPayload with
  | some payload => (returnBlockNumber slot payload world, none)
  | none => ({ world with failed := slot :: world.failed }, none)

/-- `getExecutionPayload` with the block that was asked for. -/
def withBlock (slot : ℕ) (clBlock : ResponseBlockV2) (world : ForkWorld) :
    ForkWorld × Option Suspension :=
  if SpecService.isGlamsterdamReleasedAtSlot world.glamsterdamForkEpoch
      (JsNumber.ofText clBlock.slot) then
    (world, some (.fetchingEnvelope slot))
  else getLegacyExecutionPayload slot clBlock world

def resume : Suspension → Answer → ForkWorld → ForkWorld × Option Suspension
  | .fetchingBlock slot, .block clBlock, world => withBlock slot clBlock world
  | .fetchingEnvelope slot, .envelope payload, world => (returnBlockNumber slot payload world, none)
  | _, _, world => (world, none)

/-- `getBlockBySlot`. -/
def getBlockBySlot : Job.{0, 0} ForkWorld where
  Input := ℕ
  Suspension := Suspension
  Answer := Answer
  start slot world := (world, some (.fetchingBlock slot))
  resume := resume

end ConsensusExecutionPayloadService

/-! ## Runs -/

/-- The load at the start, the load at midnight, which is not started a second time
while it is running, and any number of lookups. -/
inductive ForkActor
  | onModuleInit
  | cronJob
  | getBlockBySlot (call : ℕ)
  deriving DecidableEq

def forkActors : ForkActor → Job.{0, 0} ForkWorld
  | .onModuleInit => SpecService.refreshGlamsterdamForkEpoch
  | .cronJob => SpecService.refreshGlamsterdamForkEpoch
  | .getBlockBySlot _ => ConsensusExecutionPayloadService.getBlockBySlot

/-- A chain with the Glamsterdam fork at an epoch, and the number of the execution block
of each slot it has reached. Its slots and its block numbers have at most 53 bits. -/
structure ForkedChain where
  glamsterdamForkEpoch : ℕ
  lastSlot : ℕ
  lastSlot_le : lastSlot ≤ 2 ^ 53
  blockNumberAt : ℕ → ℕ
  blockNumberAt_le : ∀ slot ≤ lastSlot, blockNumberAt slot ≤ 2 ^ 53

namespace ForkedChain

variable (chain : ForkedChain)

/-- The payload of a slot. -/
def payloadAt (slot : ℕ) : ExecutionPayload where
  blockNumber := Nat.toDigits 10 (chain.blockNumberAt slot)

/-- The beacon block of a slot. -/
def blockAt (slot : ℕ) : ResponseBlockV2 where
  slot := Nat.toDigits 10 slot
  executionPayload :=
    if slot / 32 < chain.glamsterdamForkEpoch then some (chain.payloadAt slot) else none

/-- The spec announces the fork of the chain, or it does not announce a fork yet. -/
def Announces : SpecService.Answer → Prop
  | .spec (some text) => text = [] ∨ text = integerText farFutureEpoch ∨
      JsNumber.ofText text = .finite chain.glamsterdamForkEpoch
  | _ => True

/-- The block or the envelope is the one of the slot that is asked for, and the chain has
reached this slot. -/
def Serves : ConsensusExecutionPayloadService.Suspension →
    ConsensusExecutionPayloadService.Answer → Prop
  | .fetchingBlock slot, .block clBlock =>
      slot ≤ chain.lastSlot ∧ clBlock = chain.blockAt slot
  | .fetchingEnvelope slot, .envelope payload =>
      slot ≤ chain.lastSlot ∧ payload = chain.payloadAt slot
  | _, _ => True

/-- Where a lookup is suspended. -/
def lookup (s : Job.State forkActors) (call : ℕ) :
    Option ConsensusExecutionPayloadService.Suspension :=
  s.suspended (.getBlockBySlot call)

/-- Whatever is answered is true of the chain; every call may fail. -/
def Answers (s : Job.State forkActors) : Job.Event forkActors → Prop
  | .resume .onModuleInit answer => chain.Announces answer
  | .resume .cronJob answer => chain.Announces answer
  | .resume (.getBlockBySlot call) answer => ∀ suspension ∈ lookup s call,
      chain.Serves suspension answer
  | .start _ _ => True

/-- The service knows nothing of the fork that is not true, and has looked nothing up
that is not true. -/
structure Sound (world : ForkWorld) : Prop where
  glamsterdamForkEpoch : ∀ epoch ∈ world.glamsterdamForkEpoch,
    epoch = .finite chain.glamsterdamForkEpoch
  returned : ∀ entry ∈ world.returned, entry.2 = .finite (chain.blockNumberAt entry.1)
  failed : ∀ slot ∈ world.failed, chain.glamsterdamForkEpoch ≤ slot / 32

/-- What a segment does to a sound world: it stays sound, and when the fork is known it
stays known and no lookup fails. -/
structure Keeps (before after : ForkWorld) : Prop where
  sound : chain.Sound after
  known : before.glamsterdamForkEpoch.isSome → after.glamsterdamForkEpoch.isSome
  failed : before.glamsterdamForkEpoch.isSome → after.failed = before.failed

variable {chain} {world : ForkWorld}

theorem Keeps.refl (h : chain.Sound world) : chain.Keeps world world := ⟨h, id, fun _ => rfl⟩

/-- The fork is found released at exactly the slots from its epoch on. -/
theorem isGlamsterdamReleasedAtSlot_iff {slot : ℕ} (hslot : slot ≤ chain.lastSlot) :
    SpecService.isGlamsterdamReleasedAtSlot (some (.finite chain.glamsterdamForkEpoch))
      (JsNumber.ofText (Nat.toDigits 10 slot)) = true ↔
        chain.glamsterdamForkEpoch ≤ slot / 32 := by
  have hepoch := JsNumber.floor_divInteger_natCast slot 32
  have hread := JsNumber.ofText_toDigits_of_le (hslot.trans chain.lastSlot_le)
  simp only [SpecService.isGlamsterdamReleasedAtSlot, hread, slotsPerEpoch]
  rw [show ((32 : ℤ)) = ((32 : ℕ) : ℤ) from rfl, hepoch]
  simp only [JsNumber.ge, Int.cast_natCast, Nat.cast_le, decide_eq_true_eq]

theorem keeps_load (h : chain.Sound world) {gloasForkEpoch : Option (List Char)}
    (hannounces : chain.Announces (.spec gloasForkEpoch)) :
    chain.Keeps world (SpecService.load gloasForkEpoch world) := by
  unfold SpecService.load
  split
  · exact .refl h
  · exact .refl h
  next text hempty =>
    split
    next => exact .refl h
    next hfar =>
      have hepoch : JsNumber.ofText text = .finite chain.glamsterdamForkEpoch :=
        (hannounces.resolve_left fun hnil => hempty hnil).resolve_left hfar
      refine ⟨{ h with glamsterdamForkEpoch := fun epoch hmem => ?_ }, fun _ => rfl, fun _ => rfl⟩
      rw [← Option.some.inj hmem]
      exact hepoch

theorem keeps_returnBlockNumber (h : chain.Sound world) {slot : ℕ}
    (hslot : slot ≤ chain.lastSlot) :
    chain.Keeps world (ConsensusExecutionPayloadService.returnBlockNumber slot
      (chain.payloadAt slot) world) := by
  refine ⟨{ h with returned := fun entry hmem => ?_ }, id, fun _ => rfl⟩
  rcases List.mem_cons.mp hmem with rfl | hmem
  · exact JsNumber.ofText_toDigits_of_le (chain.blockNumberAt_le slot hslot)
  · exact h.returned entry hmem

/-- A block without a payload is past the fork, and is not looked into when the fork is
known. -/
theorem keeps_withBlock (h : chain.Sound world) {slot : ℕ} (hslot : slot ≤ chain.lastSlot) :
    chain.Keeps world
      (ConsensusExecutionPayloadService.withBlock slot (chain.blockAt slot) world).1 := by
  unfold ConsensusExecutionPayloadService.withBlock
  split
  next => exact .refl h
  next hlegacy =>
    unfold ConsensusExecutionPayloadService.getLegacyExecutionPayload
    by_cases hfork : slot / 32 < chain.glamsterdamForkEpoch
    · have hpayload : (chain.blockAt slot).executionPayload = some (chain.payloadAt slot) :=
        if_pos hfork
      rw [hpayload]
      exact keeps_returnBlockNumber h hslot
    · have hpayload : (chain.blockAt slot).executionPayload = none := if_neg hfork
      have hunknown : world.glamsterdamForkEpoch = none := by
        cases hepoch : world.glamsterdamForkEpoch with
        | none => rfl
        | some epoch =>
            rw [hepoch, h.glamsterdamForkEpoch epoch hepoch] at hlegacy
            have hreleased := (isGlamsterdamReleasedAtSlot_iff hslot).mpr (not_lt.mp hfork)
            exact absurd hreleased hlegacy
      rw [hpayload]
      refine ⟨{ h with failed := fun other hmem => ?_ }, id, fun hknown => ?_⟩
      · rcases List.mem_cons.mp hmem with rfl | hmem
        · exact not_lt.mp hfork
        · exact h.failed other hmem
      · rw [hunknown] at hknown
        cases hknown

theorem keeps_lookup (h : chain.Sound world)
    {suspension : ConsensusExecutionPayloadService.Suspension}
    {answer : ConsensusExecutionPayloadService.Answer} (hserves : chain.Serves suspension answer) :
    chain.Keeps world (ConsensusExecutionPayloadService.resume suspension answer world).1 := by
  unfold ConsensusExecutionPayloadService.resume
  split
  next slot clBlock =>
    obtain ⟨hslot, rfl⟩ : slot ≤ chain.lastSlot ∧ clBlock = chain.blockAt slot := hserves
    exact keeps_withBlock h hslot
  next slot payload =>
    obtain ⟨hslot, rfl⟩ : slot ≤ chain.lastSlot ∧ payload = chain.payloadAt slot := hserves
    exact keeps_returnBlockNumber h hslot
  next => exact .refl h

theorem keeps_refresh (h : chain.Sound world) (suspension : SpecService.Suspension)
    {answer : SpecService.Answer} (hannounces : chain.Announces answer) :
    chain.Keeps world
      (SpecService.refreshGlamsterdamForkEpoch.resume suspension answer world).1 := by
  cases answer with
  | spec gloasForkEpoch => exact keeps_load h hannounces
  | rejected => exact .refl h

theorem keeps_segment {s : Job.State forkActors} {event : Job.Event forkActors}
    {actor : ForkActor} {segment : ForkWorld × Option (forkActors actor).Suspension}
    (hanswers : chain.Answers s event) (hruns : s.Runs event actor segment)
    (h : chain.Sound s.shared) : chain.Keeps s.shared segment.1 := by
  cases hruns with
  | @start actor input hidle =>
      cases actor with
      | onModuleInit => exact .refl h
      | cronJob => exact .refl h
      | getBlockBySlot call => exact .refl h
  | @resume actor answer suspension hsuspended =>
      cases actor with
      | onModuleInit => exact keeps_refresh h suspension hanswers
      | cronJob => exact keeps_refresh h suspension hanswers
      | getBlockBySlot call => exact keeps_lookup h (hanswers suspension hsuspended)

theorem keeps_step (s : Job.State forkActors) (event : Job.Event forkActors)
    (hanswers : chain.Answers s event) (h : chain.Sound s.shared) :
    chain.Keeps s.shared (s.step event).shared := by
  rcases s.step_cases event with hsame | ⟨actor, segment, hruns⟩
  · rw [hsame]
    exact .refl h
  · rw [hruns.step_shared]
    exact keeps_segment hanswers hruns h

theorem keeps_run {s : Job.State forkActors} {events : List (Job.Event forkActors)}
    (hanswers : Job.State.Meets chain.Answers s events) (h : chain.Sound s.shared) :
    chain.Keeps s.shared (s.run events).shared := by
  induction events generalizing s with
  | nil => exact .refl h
  | cons event events ih =>
      have hstep := keeps_step s event hanswers.1 h
      have hrest := ih hanswers.2 hstep.sound
      exact {
        sound := hrest.sound
        known := fun hknown => hrest.known (hstep.known hknown)
        failed := fun hknown => (hrest.failed (hstep.known hknown)).trans (hstep.failed hknown) }

/-- Nothing is known at the start. -/
theorem sound_start : chain.Sound {} where
  glamsterdamForkEpoch _ hmem := by cases hmem
  returned _ hmem := by cases hmem
  failed _ hmem := by cases hmem

/-- **The fork is read off right.** In every interleaving of the loads and of any number
of lookups, with calls that fail at will: every block number that is returned for a slot
is the one of the chain, on both sides of the fork; a lookup finds no payload only at a
slot past the fork; and once the fork is known it stays known, and no lookup fails for
want of a payload any more. -/
theorem lookups_across_the_fork (chain : ForkedChain) {first second : List (Job.Event forkActors)}
    (hanswers : Job.State.Meets chain.Answers (.idle forkActors {}) (first ++ second)) :
    let before := ((Job.State.idle forkActors {}).run first).shared
    let after := ((Job.State.idle forkActors {}).run (first ++ second)).shared
    (∀ entry ∈ after.returned, entry.2 = .finite (chain.blockNumberAt entry.1)) ∧
      (∀ slot ∈ after.failed, chain.glamsterdamForkEpoch ≤ slot / 32) ∧
      (before.glamsterdamForkEpoch.isSome →
        after.glamsterdamForkEpoch = some (.finite chain.glamsterdamForkEpoch) ∧
          after.failed = before.failed) := by
  intro before after
  obtain ⟨hfirst, hsecond⟩ := Job.State.meets_append.mp hanswers
  have hbefore := keeps_run hfirst sound_start
  have hafter := keeps_run hsecond hbefore.sound
  rw [← Job.State.run_append] at hafter
  refine ⟨hafter.sound.returned, hafter.sound.failed, fun hknown => ⟨?_, hafter.failed hknown⟩⟩
  obtain ⟨epoch, hepoch⟩ := Option.isSome_iff_exists.mp (hafter.known hknown)
  rw [← hafter.sound.glamsterdamForkEpoch epoch hepoch]
  exact hepoch

/-- A chain that forks at its second epoch. -/
def sampleForkedChain : ForkedChain where
  glamsterdamForkEpoch := 1
  lastSlot := 40
  lastSlot_le := by norm_num
  blockNumberAt slot := slot + 100
  blockNumberAt_le slot hslot := by
    have hsmall : (140 : ℕ) ≤ 2 ^ 53 := by norm_num
    omega

/-- The fork is not announced at the start. The slots 31 and 32 are looked up, and at the
second one the lookup fails; at midnight the fork is announced. -/
def sampleBeforeMidnight : List (Job.Event forkActors) :=
  let lookupOf (call slot : ℕ) : List (Job.Event forkActors) :=
    [.start (.getBlockBySlot call) slot,
      .resume (.getBlockBySlot call)
        (ConsensusExecutionPayloadService.Answer.block (sampleForkedChain.blockAt slot))]
  [.start .onModuleInit (), .resume .onModuleInit
      (SpecService.Answer.spec (some (integerText farFutureEpoch)))] ++
    lookupOf 0 31 ++ lookupOf 1 32 ++
    [.start .cronJob (), .resume .cronJob (SpecService.Answer.spec (some ['1']))]

/-- The slot 32 is looked up once more, and the next midnight fails. -/
def sampleAfterMidnight : List (Job.Event forkActors) :=
  [.start (.getBlockBySlot 2) (32 : ℕ),
    .resume (.getBlockBySlot 2)
      (ConsensusExecutionPayloadService.Answer.block (sampleForkedChain.blockAt 32)),
    .start .cronJob (), .resume .cronJob SpecService.Answer.rejected,
    .resume (.getBlockBySlot 2)
      (ConsensusExecutionPayloadService.Answer.envelope (sampleForkedChain.payloadAt 32))]

/-- Two slots on either side of the fork. -/
theorem lookups_across_the_fork_twoSlots :
    let before := ((Job.State.idle forkActors {}).run sampleBeforeMidnight).shared
    let after := ((Job.State.idle forkActors {}).run
      (sampleBeforeMidnight ++ sampleAfterMidnight)).shared
    (∀ entry ∈ after.returned,
        entry.2 = .finite (sampleForkedChain.blockNumberAt entry.1)) ∧
      (∀ slot ∈ after.failed, sampleForkedChain.glamsterdamForkEpoch ≤ slot / 32) ∧
      after.glamsterdamForkEpoch = some (.finite sampleForkedChain.glamsterdamForkEpoch) ∧
      after.failed = before.failed := by
  intro before after
  have hanswers : Job.State.Meets sampleForkedChain.Answers (.idle forkActors {})
      (sampleBeforeMidnight ++ sampleAfterMidnight) := by
    have hepoch : JsNumber.ofText ['1'] = .finite (1 : ℕ) :=
      JsNumber.ofText_toDigits_of_le (n := 1) (by norm_num)
    have hserves {s : Job.State forkActors} {call slot : ℕ} {payload : ExecutionPayload}
        (hlookup : lookup s call = some (.fetchingEnvelope slot))
        (hslot : slot ≤ sampleForkedChain.lastSlot)
        (hpayload : payload = sampleForkedChain.payloadAt slot) :
        sampleForkedChain.Answers s (.resume (.getBlockBySlot call)
          (ConsensusExecutionPayloadService.Answer.envelope payload)) := by
      intro suspension hsuspended
      rw [hlookup] at hsuspended
      obtain rfl := Option.some.inj hsuspended
      exact ⟨hslot, hpayload⟩
    refine ⟨trivial, Or.inr (Or.inl rfl), trivial, ?_, trivial, ?_, trivial,
      Or.inr (Or.inr hepoch), trivial, ?_, trivial, trivial, ?_, trivial⟩
    case refine_4 => exact hserves (by decide +kernel) (by decide) rfl
    all_goals
      intro suspension hsuspended
      obtain rfl := Option.some.inj hsuspended
      exact ⟨by decide, rfl⟩
  obtain ⟨hreturned, hfailed, hknown⟩ := lookups_across_the_fork sampleForkedChain hanswers
  exact ⟨hreturned, hfailed, hknown rfl⟩

end ForkedChain

end WithdrawalsApi
