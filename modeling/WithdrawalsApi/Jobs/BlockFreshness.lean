/-
# How old the block of a state may be

The block number that `getBlockState` computes with is kept for one slot. It is kept as of
the start of the call that has resolved it, however long the resolution took, and calls
that overlap may finish in any order: a call that began earlier may set the number back
that a later one has just stored. The age of the number is set back with it. Whatever is
served from the cache was therefore resolved by a call that began less than one slot
before, and is not older than the head of the chain was then, unless it is the block of the
reference slot that the oracle was working on.
-/

import WithdrawalsApi.Jobs.BlockStateCache

namespace WithdrawalsApi

open Js Math

namespace BlockStateCacheService

/-- What a resolution that begins at some time may come to: a block that is not older than
the head at that time, or the block of a reference slot. -/
def Resolves (head : ℤ → ℕ) (refSlotBlock : ℤ → ℕ → Prop) (now : ℤ) (blockNumber : ℕ) : Prop :=
  head now ≤ blockNumber ∨ refSlotBlock now blockNumber

variable {chain : ℕ → BlockReads} {head : ℤ → ℕ} {refSlotBlock : ℤ → ℕ → Prop}

/-- The number has been resolved by a call that began after some time. -/
def ResolvedAfter (head : ℤ → ℕ) (refSlotBlock : ℤ → ℕ → Prop) (since : ℤ) (blockNumber : ℕ) :
    Prop :=
  ∃ now, since < now ∧ Resolves head refSlotBlock now blockNumber

/-- A block number that is answered is not older than the head at the start of the call, and
the block of a reference slot is that of the time of the call. -/
def AnswersHead (head : ℤ → ℕ) (refSlotBlock : ℤ → ℕ → Prop) : Suspension → Answer → Prop
  | .fetchingBlockNumber now, .blockNumber blockNumber => head now ≤ blockNumber
  | .fetchingRefSlotBlock now _, .refSlotBlock processingRefBlockNumber =>
      ∀ blockNumber ∈ processingRefBlockNumber, refSlotBlock now blockNumber
  | _, _ => True

/-- The number that a call has been answered is not older than the head at its start. -/
def AtHead (head : ℤ → ℕ) : Suspension → Prop
  | .fetchingProcessingState now blockNumber => head now ≤ blockNumber
  | .fetchingRefSlotBlock now blockNumber => head now ≤ blockNumber
  | _ => True

/-- The call has begun after some time, or works with a number that has been resolved
since. -/
def BeganAfter (head : ℤ → ℕ) (refSlotBlock : ℤ → ℕ → Prop) (since : ℤ) : Suspension → Prop
  | .fetchingBlockNumber now => since < now
  | .fetchingProcessingState now _ => since < now
  | .fetchingRefSlotBlock now _ => since < now
  | .resolved blockNumber => ResolvedAfter head refSlotBlock since blockNumber
  | .reading batch => ResolvedAfter head refSlotBlock since batch.blockNumber

/-- The cached number has been resolved by a call that began when it says. -/
def CachedResolved (head : ℤ → ℕ) (refSlotBlock : ℤ → ℕ → Prop) (world : World) : Prop :=
  ∀ blockNumber ∈ world.cachedBlockNumber, ∀ cachedAt ∈ world.blockNumberCachedAt,
    Resolves head refSlotBlock cachedAt blockNumber

/-! ## One segment -/

/-- What a segment leaves behind, when the call began after some times. -/
structure StaysFresh (head : ℤ → ℕ) (refSlotBlock : ℤ → ℕ → Prop) (times : Set ℤ)
    (segment : World × Option Suspension) : Prop where
  cached : CachedResolved head refSlotBlock segment.1
  atHead : ∀ suspension ∈ segment.2, AtHead head suspension
  began : ∀ suspension ∈ segment.2, ∀ since ∈ times,
    BeganAfter head refSlotBlock since suspension

variable {world : World} {times : Set ℤ}

theorem staysFresh_ended (h : CachedResolved head refSlotBlock world) :
    StaysFresh head refSlotBlock times (world, none) where
  cached := h
  atHead _ hmem := by cases hmem
  began _ hmem := by cases hmem

theorem staysFresh_suspended (h : CachedResolved head refSlotBlock world) {suspension : Suspension}
    (hhead : AtHead head suspension)
    (hbegan : ∀ since ∈ times, BeganAfter head refSlotBlock since suspension) :
    StaysFresh head refSlotBlock times (world, some suspension) where
  cached := h
  atHead other hmem := by
    rw [← Option.some.inj hmem]
    exact hhead
  began other hmem := by
    rw [← Option.some.inj hmem]
    exact hbegan

/-- A call that begins either takes a number that is younger than one slot or resolves its
own. -/
theorem staysFresh_start (h : CachedResolved head refSlotBlock world) (now : ℤ) :
    StaysFresh head refSlotBlock {now - blockNumberTtlMs} (start now world) := by
  have hresolves : StaysFresh head refSlotBlock {now - blockNumberTtlMs}
      (world, some (.fetchingBlockNumber now)) := by
    refine staysFresh_suspended h trivial fun since hsince => ?_
    rw [Set.mem_singleton_iff.mp hsince]
    exact Int.sub_lt_self now (by decide)
  unfold start
  split
  · next blockNumber cachedAt hnumber hcachedAt =>
    split_ifs with hyoung
    · refine staysFresh_suspended h trivial fun since hsince => ?_
      rw [Set.mem_singleton_iff.mp hsince]
      exact ⟨cachedAt, by omega, h blockNumber hnumber cachedAt hcachedAt⟩
    · exact hresolves
  · exact hresolves

theorem staysFresh_resolve {now : ℤ} {blockNumber : ℕ}
    (hresolves : Resolves head refSlotBlock now blockNumber) (hbegan : ∀ since ∈ times, since < now)
    (world : World) : StaysFresh head refSlotBlock times (resolve now blockNumber world) := by
  refine staysFresh_suspended ?_ trivial fun since hsince => ⟨now, hbegan since hsince, hresolves⟩
  intro number hnumber cachedAt hcachedAt
  rw [← Option.some.inj hnumber, ← Option.some.inj hcachedAt]
  exact hresolves

theorem staysFresh_settle (h : CachedResolved head refSlotBlock world) {batch : Batch}
    (hbegan : ∀ since ∈ times, ResolvedAfter head refSlotBlock since batch.blockNumber) :
    StaysFresh head refSlotBlock times (settle batch world) := by
  unfold settle
  split
  · exact staysFresh_ended h
  · exact staysFresh_suspended h trivial hbegan

theorem staysFresh_withBlockNumber (h : CachedResolved head refSlotBlock world) {blockNumber : ℕ}
    (hbegan : ∀ since ∈ times, ResolvedAfter head refSlotBlock since blockNumber) :
    StaysFresh head refSlotBlock times (withBlockNumber blockNumber world) := by
  unfold withBlockNumber
  split
  · split_ifs
    · exact staysFresh_ended h
    · exact staysFresh_suspended h trivial hbegan
  · exact staysFresh_suspended h trivial hbegan

@[simp]
theorem blockNumber_serve (batch : Batch) (block : BlockReads) (rewards : RewardsStorageService)
    (read : Read) : (batch.serve block rewards read).blockNumber = batch.blockNumber := by
  cases read <;> rfl

theorem staysFresh_resume (chain : ℕ → BlockReads) (h : CachedResolved head refSlotBlock world)
    {suspension : Suspension} (hhead : AtHead head suspension)
    (hbegan : ∀ since ∈ times, BeganAfter head refSlotBlock since suspension) {answer : Answer}
    (hanswers : AnswersHead head refSlotBlock suspension answer) :
    StaysFresh head refSlotBlock times (resume chain suspension answer world) := by
  cases suspension with
  | fetchingBlockNumber now =>
      cases answer with
      | blockNumber blockNumber => exact staysFresh_suspended h hanswers hbegan
      | rejected => exact staysFresh_ended h
      | _ => exact staysFresh_suspended h hhead hbegan
  | fetchingProcessingState now blockNumber =>
      cases answer with
      | processingState dataSubmitted =>
          simp only [resume]
          split_ifs
          · exact staysFresh_resolve (Or.inl hhead) hbegan world
          · exact staysFresh_suspended h hhead hbegan
      | rejected => exact staysFresh_ended h
      | _ => exact staysFresh_suspended h hhead hbegan
  | fetchingRefSlotBlock now blockNumber =>
      cases answer with
      | refSlotBlock processingRefBlockNumber =>
          refine staysFresh_resolve ?_ hbegan world
          -- a failed lookup falls back to the number at the head
          cases processingRefBlockNumber with
          | none => exact Or.inl hhead
          | some refBlock => exact Or.inr (hanswers refBlock rfl)
      | _ => exact staysFresh_suspended h hhead hbegan
  | resolved blockNumber =>
      cases answer with
      | settled => exact staysFresh_withBlockNumber h hbegan
      | _ => exact staysFresh_suspended h trivial hbegan
  | reading batch =>
      cases answer with
      | served read =>
          simp only [resume]
          split_ifs
          · refine staysFresh_settle h ?_
            rw [blockNumber_serve]
            exact hbegan
          · exact staysFresh_suspended h trivial hbegan
      | refused read =>
          simp only [resume]
          split_ifs
          · cases read with
            | getDepositsReserveAt => exact staysFresh_settle h hbegan
            | _ => exact staysFresh_ended h
          · exact staysFresh_suspended h trivial hbegan
      | _ => exact staysFresh_suspended h trivial hbegan

/-- The state that is returned, if one is, is that of a block. -/
def ReturnsAt (blockNumber : ℕ) (before after : World) : Prop :=
  ∀ computed, after.returned = computed :: before.returned → computed.blockNumber = blockNumber

theorem returnsAt_of_same {blockNumber : ℕ} {before after : World}
    (h : after.returned = before.returned) : ReturnsAt blockNumber before after := by
  intro computed hreturned
  rw [h] at hreturned
  exact absurd hreturned.symm (List.cons_ne_self _ _)

theorem returnsAt_settle (batch : Batch) (world : World) :
    ReturnsAt batch.blockNumber world (settle batch world).1 := by
  unfold settle
  cases hcomputed : batch.computed? with
  | none => exact returnsAt_of_same rfl
  | some state =>
      intro computed hreturned
      rw [← (List.cons.inj hreturned).1]
      simp only [Batch.computed?, Option.bind_eq_bind, Option.bind_eq_some_iff] at hcomputed
      obtain ⟨_, -, _, -, _, -, _, -, heq⟩ := hcomputed
      rw [← Option.some.inj heq]

theorem returnsAt_withBlockNumber (blockNumber : ℕ) (world : World) :
    ReturnsAt blockNumber world (withBlockNumber blockNumber world).1 := by
  unfold withBlockNumber
  split
  · split_ifs with hsame
    · intro computed hreturned
      rw [← (List.cons.inj hreturned).1, hsame]
    · exact returnsAt_of_same rfl
  · exact returnsAt_of_same rfl

/-- A call returns a state of the block that it works with. -/
theorem resolvedAfter_of_returned {suspension : Suspension} {answer : Answer} {computed : Computed}
    (h : (resume chain suspension answer world).1.returned = computed :: world.returned) {since : ℤ}
    (hbegan : BeganAfter head refSlotBlock since suspension) :
    ResolvedAfter head refSlotBlock since computed.blockNumber := by
  have hsame {blockNumber : ℕ} (hreturns : ReturnsAt blockNumber world
      (resume chain suspension answer world).1)
      (hresolved : ResolvedAfter head refSlotBlock since blockNumber) :
      ResolvedAfter head refSlotBlock since computed.blockNumber := by
    rw [hreturns computed h]
    exact hresolved
  have hnothing (hkept : (resume chain suspension answer world).1.returned = world.returned) :
      ResolvedAfter head refSlotBlock since computed.blockNumber :=
    absurd (hkept.symm.trans h).symm (List.cons_ne_self _ _)
  cases suspension with
  | fetchingBlockNumber now => cases answer <;> exact hnothing rfl
  | fetchingProcessingState now blockNumber =>
      cases answer with
      | processingState dataSubmitted => cases dataSubmitted <;> exact hnothing rfl
      | _ => exact hnothing rfl
  | fetchingRefSlotBlock now blockNumber => cases answer <;> exact hnothing rfl
  | resolved blockNumber =>
      cases answer with
      | settled => exact hsame (returnsAt_withBlockNumber blockNumber world) hbegan
      | _ => exact hnothing rfl
  | reading batch =>
      refine hsame ?_ hbegan
      cases answer with
      | served read =>
          simp only [resume]
          split_ifs
          · have hsettles := returnsAt_settle
              (batch.serve (chain batch.blockNumber) world.rewards read) world
            rw [blockNumber_serve] at hsettles
            exact hsettles
          · exact returnsAt_of_same rfl
      | refused read =>
          simp only [resume]
          split_ifs
          · cases read with
            | getDepositsReserveAt => exact returnsAt_settle _ world
            | _ => exact returnsAt_of_same rfl
          · exact returnsAt_of_same rfl
      | _ => exact returnsAt_of_same rfl

/-! ## Every run -/

/-- The answers to the calls of a run. -/
def RunAnswersHead (head : ℤ → ℕ) (refSlotBlock : ℤ → ℕ → Prop)
    (s : Job.State (blockStateActors chain)) : Job.Event (blockStateActors chain) → Prop
  | .resume (.getBlockState call) answer =>
      ∀ suspension ∈ getBlockState s call, AnswersHead head refSlotBlock suspension answer
  | _ => True

/-- A call that is watched is not begun again. -/
def BeginsUnwatched (watched : ℕ → Set ℤ) : Job.Event (blockStateActors chain) → Prop
  | .start (.getBlockState call) _ => watched call = ∅
  | _ => True

def freshAsserts (head : ℤ → ℕ) (refSlotBlock : ℤ → ℕ → Prop) (watched : ℕ → Set ℤ) :
    (actor : BlockStateActor) → Option (blockStateActors chain actor).Suspension → Prop
  | .getBlockState call => fun suspended =>
      (∀ suspension ∈ suspended, AtHead head suspension) ∧
        ∀ suspension ∈ suspended, ∀ since ∈ watched call,
          BeganAfter head refSlotBlock since suspension
  | .updateRewards => fun _ => True

/-- The calls that are watched have begun after their times. -/
def freshOutline (chain : ℕ → BlockReads) (head : ℤ → ℕ) (refSlotBlock : ℤ → ℕ → Prop)
    (watched : ℕ → Set ℤ) :
    Job.Outline (blockStateActors chain) fun s event =>
      RunAnswersHead head refSlotBlock s event ∧ BeginsUnwatched watched event where
  invariant := CachedResolved head refSlotBlock
  asserts actor suspended _ := freshAsserts head refSlotBlock watched actor suspended
  commits _ _ _ := True
  segment := by
    intro s event actor segment hmeets hruns hcached hasserts
    cases hruns with
    | @start actor input hidle =>
        cases actor with
        | getBlockState call =>
            have hfresh := staysFresh_start hcached input
            have hunwatched : watched call = ∅ := hmeets.2
            refine ⟨hfresh.cached, ⟨hfresh.atHead, ?_⟩, trivial⟩
            intro suspension hmem since hsince
            rw [hunwatched] at hsince
            exact hsince.elim
        | updateRewards => exact ⟨hcached, trivial, trivial⟩
    | @resume actor answer suspension hsuspended =>
        cases actor with
        | getBlockState call =>
            rw [hsuspended] at hasserts
            have hfresh := staysFresh_resume chain hcached (hasserts.1 suspension rfl)
              (hasserts.2 suspension rfl) (hmeets.1 suspension hsuspended)
            exact ⟨hfresh.cached, ⟨hfresh.atHead, hfresh.began⟩, trivial⟩
        | updateRewards => cases suspension
  stable := by
    intro actor other hne suspended before after hasserts hcommits
    exact hasserts

theorem holds_empty {world : World} (hempty : world.cachedBlockNumber = none) :
    (freshOutline chain head refSlotBlock fun _ => ∅).Holds (.idle (blockStateActors chain) world)
    where
  invariant := by
    intro blockNumber hnumber
    have hcached : world.cachedBlockNumber = some blockNumber := hnumber
    rw [hempty] at hcached
    cases hcached
  asserts actor := by
    cases actor with
    | getBlockState call => exact ⟨fun _ hmem => (by cases hmem), fun _ hmem => (by cases hmem)⟩
    | updateRewards => trivial

/-- The times of one call. -/
def watchOnly (call : ℕ) (since : ℤ) (other : ℕ) : Set ℤ := { time | other = call ∧ time = since }

theorem watchOnly_self (call : ℕ) (since : ℤ) : watchOnly call since call = {since} := by
  ext time
  simp [watchOnly]

theorem watchOnly_of_ne {call other : ℕ} (h : other ≠ call) (since : ℤ) :
    watchOnly call since other = ∅ := by
  ext time
  simp [watchOnly, h]

/-- A call that begins is watched from then on. -/
theorem holds_begun {s : Job.State (blockStateActors chain)}
    (h : (freshOutline chain head refSlotBlock fun _ => ∅).Holds s) {call : ℕ}
    (hidle : getBlockState s call = none) (now : ℤ) :
    (freshOutline chain head refSlotBlock (watchOnly call (now - blockNumberTtlMs))).Holds
      (s.step (.start (.getBlockState call) now)) := by
  have hruns : s.Runs (.start (.getBlockState call) now) (.getBlockState call) _ := .start hidle
  have hfresh := staysFresh_start h.invariant now
  constructor
  case invariant =>
    rw [hruns.step_shared]
    exact hfresh.cached
  case asserts =>
    intro actor
    cases actor with
    | updateRewards => trivial
    | getBlockState other =>
        by_cases hother : other = call
        · subst hother
          rw [hruns.step_suspended]
          refine ⟨hfresh.atHead, ?_⟩
          rw [watchOnly_self]
          exact hfresh.began
        · have hne : BlockStateActor.getBlockState other ≠ .getBlockState call :=
            fun heq => hother (BlockStateActor.getBlockState.inj heq)
          rw [hruns.step_suspended_of_ne hne]
          refine ⟨(h.asserts (.getBlockState other)).1, ?_⟩
          rw [watchOnly_of_ne hother]
          exact fun _ _ _ hmem => hmem.elim

/-- **No state is older than one slot and its report**: whatever calls interleave, and in
whatever order they finish, the state that a call returns is that of a block which is not
older than the head one slot before the call began, or of the reference slot that a call
less than one slot before was told of. -/
theorem blockState_fresh {world : World} (hempty : world.cachedBlockNumber = none)
    (hhead : ∀ earlier later, earlier ≤ later → head earlier ≤ head later)
    {before after : List (Job.Event (blockStateActors chain))} {call : ℕ} {now : ℤ}
    (hanswers : Job.State.Meets (RunAnswersHead head refSlotBlock)
      (.idle (blockStateActors chain) world)
      (before ++ .start (.getBlockState call) now :: after))
    (hidle : getBlockState ((Job.State.idle (blockStateActors chain) world).run before) call = none)
    (hsame : ∀ event ∈ after, ∀ later, event ≠ .start (.getBlockState call) later)
    {s : Job.State (blockStateActors chain)}
    (hs : s = (Job.State.idle (blockStateActors chain) world).run
      (before ++ .start (.getBlockState call) now :: after))
    {answer : Answer} {computed : Computed}
    (hreturns : (s.step (.resume (.getBlockState call) answer)).shared.returned =
      computed :: s.shared.returned) :
    head (now - blockNumberTtlMs) ≤ computed.blockNumber ∨
      ∃ asked, now - blockNumberTtlMs < asked ∧ refSlotBlock asked computed.blockNumber := by
  obtain ⟨hbefore, -, hafter⟩ := Job.State.meets_append.mp hanswers
  have hunwatched (event : Job.Event (blockStateActors chain)) (_ : event ∈ before) :
      BeginsUnwatched (fun _ => ∅) event := by
    match event with
    | .start (.getBlockState _) _ => rfl
    | .start .updateRewards _ => trivial
    | .resume (.getBlockState _) _ => trivial
    | .resume .updateRewards answer => trivial
  have hbegins : ∀ event ∈ after,
      BeginsUnwatched (watchOnly call (now - blockNumberTtlMs)) event := by
    intro event hmem
    match event with
    | .start (.getBlockState other) later =>
        refine watchOnly_of_ne (fun heq => hsame _ hmem later ?_) _
        rw [heq]
    | .start .updateRewards _ => trivial
    | .resume (.getBlockState _) _ => trivial
    | .resume .updateRewards answer => trivial
  have hfirst := (freshOutline chain head refSlotBlock fun _ => ∅).holds_run
    (hbefore.and (Job.State.meets_of_forall hunwatched)) (holds_empty hempty)
  have hlast := (freshOutline chain head refSlotBlock _).holds_run
    (hafter.and (Job.State.meets_of_forall hbegins)) (holds_begun hfirst hidle now)
  rw [← Job.State.run_cons, ← Job.State.run_append, ← hs] at hlast
  cases hsuspended : s.suspended (.getBlockState call) with
  | none =>
      have hlost : s.step (.resume (.getBlockState call) answer) = s :=
        Job.State.step_resume_of_idle hsuspended _
      rw [hlost] at hreturns
      exact absurd hreturns.symm (List.cons_ne_self _ _)
  | some suspension =>
      have hruns : s.Runs (.resume (.getBlockState call) answer) (.getBlockState call) _ :=
        .resume hsuspended
      rw [hruns.step_shared] at hreturns
      have hbegan := (hlast.asserts (.getBlockState call)).2 suspension hsuspended
        (now - blockNumberTtlMs) (by rw [watchOnly_self]; rfl)
      obtain ⟨asked, hlater, hresolves⟩ := resolvedAfter_of_returned hreturns hbegan
      rcases hresolves with hnumber | hslot
      · exact Or.inl ((hhead _ _ hlater.le).trans hnumber)
      · exact Or.inr ⟨asked, hlater, hslot⟩

/-- A head that rises every five seconds. -/
def risingHead (now : ℤ) : ℕ := 100 + (now / 5000).toNat

theorem risingHead_le (earlier later : ℤ) (hle : earlier ≤ later) :
    risingHead earlier ≤ risingHead later :=
  Nat.add_le_add_left (Int.toNat_le_toNat (Int.ediv_le_ediv (by decide) hle)) 100

/-- The first call is answered late: the second one begins after it, stores its newer number,
and the first one sets it back. -/
def setBack : List (Job.Event (blockStateActors reservedBuffer)) :=
  blockStateCall 0 0 [] ++ blockStateCall 1 5000 [.blockNumber 101, .processingState true] ++
    [.resume (.getBlockState 0) (.blockNumber 100),
      .resume (.getBlockState 0) (.processingState true)]

/-- What the third call is answered, but for its last read. -/
def servedFromCache : List (Job.Event (blockStateActors reservedBuffer)) :=
  [Answer.settled, .served .unfinalizedStETH, .served .getBufferedEther,
    .served .getVaultsBalance].map fun answer => .resume (.getBlockState 2) answer

/-- A third call, eleven seconds after the first, is served the number of the first one. -/
theorem blockState_fresh_setBack :
    risingHead (11000 - blockNumberTtlMs) ≤ 100 ∨
      ∃ asked, 11000 - blockNumberTtlMs < asked ∧ False :=
  have hanswers : Job.State.Meets (RunAnswersHead risingHead fun _ _ => False)
      (.idle (blockStateActors reservedBuffer) (booted {}))
      (setBack ++ .start (.getBlockState 2) (11000 : ℤ) :: servedFromCache) := by
    refine ⟨trivial, trivial, ?_, ?_, ?_, ?_, trivial, ?_, ?_, ?_, ?_, trivial⟩
    case refine_1 | refine_3 =>
      intro suspension hsuspended
      rw [← Option.some.inj hsuspended]
      show risingHead _ ≤ _
      decide
    all_goals
      intro suspension hsuspended
      rw [← Option.some.inj hsuspended]
      trivial
  have hresumes : ∀ event ∈ servedFromCache,
      ∀ later, event ≠ .start (.getBlockState 2) later := by
    intro event hmem later heq
    obtain ⟨answer, -, hanswer⟩ := List.mem_map.mp hmem
    cases hanswer.trans heq
  have hreturns : (((Job.State.idle (blockStateActors reservedBuffer) (booted {})).run
      (setBack ++ .start (.getBlockState 2) (11000 : ℤ) :: servedFromCache)).step
        (.resume (.getBlockState 2) (.served .getDepositsReserveAt))).shared.returned =
      [{ blockNumber := 100
         state := { unfinalized := 300, buffer := 800, vaultsBalance := 90 } }] := rfl
  blockState_fresh rfl risingHead_le hanswers rfl hresumes rfl hreturns

end BlockStateCacheService

end WithdrawalsApi
