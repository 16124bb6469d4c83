/-
# The block state cache

`getBlockState` resolves a block number, which is kept for one slot, and reads
four amounts at that block, which are kept for as long as the block is the same.
Any number of calls may be in flight, each anywhere between two awaited calls,
and they share the three cache fields.

An amount at a block is the same whenever it is read. What a read may do instead
is fail: the read of the deposits reserve then counts as a reserve of zero, and
any other failed read fails the call. What is returned or cached for a block is
therefore right but for a reserve of zero, and this only where a read of the
reserve at that block has failed.
-/

import WithdrawalsApi.Math.Jobs
import WithdrawalsApi.WaitingTime.Response

namespace WithdrawalsApi

open Js Math

/-- What the contracts answer at a block. -/
structure BlockReads where
  unfinalizedStETH : ℕ
  bufferedEther : ℕ
  depositsReserve : ℕ
  withdrawalVaultBalance : ℕ
  elRewardsVaultBalance : ℕ

/-- `getVaultsBalance`: what the vaults hold beyond the rewards of a frame. -/
def RewardsStorageService.getVaultsBalance (rewards : RewardsStorageService)
    (block : BlockReads) : ℤ :=
  let diffCl := block.withdrawalVaultBalance - rewards.clRewardsPerFrame
  let diffEl := block.elRewardsVaultBalance - rewards.elRewardsPerFrame
  (if 0 < diffEl then diffEl else 0) + (if 0 < diffCl then diffCl else 0)

/-- The vaults never count as a debt, whatever the rewards of a frame are. -/
theorem RewardsStorageService.getVaultsBalance_nonneg (rewards : RewardsStorageService)
    (block : BlockReads) : 0 ≤ rewards.getVaultsBalance block := by
  simp only [getVaultsBalance]
  apply add_nonneg
  · split <;> omega
  · split <;> omega

namespace BlockStateCacheService

/-- `BLOCK_NUMBER_TTL_MS`. -/
def blockNumberTtlMs : ℤ := secondsPerSlot * 1000

/-- `getDepositsReserveAt`, which takes a failed read for a reserve of zero. -/
def getDepositsReserveAt (answer : Option ℕ) : ℕ := answer.getD 0

/-- The state of a block, as it has been computed. -/
structure Computed where
  blockNumber : ℕ
  state : BlockState

/-- The cache fields, the store of the rewards, and the states that calls have
returned, the latest first. -/
structure World where
  cachedBlockNumber : Option ℕ := none
  blockNumberCachedAt : Option ℤ := none
  stateCache : Option Computed := none
  lidoSupportsDepositsReserve : Bool
  rewards : RewardsStorageService := {}
  returned : List Computed := []

inductive Read
  | unfinalizedStETH
  | getBufferedEther
  | getVaultsBalance
  | getDepositsReserveAt
  deriving DecidableEq, Repr

/-- What the four reads of a call have answered so far. -/
structure Batch where
  blockNumber : ℕ
  unfinalized : Option ℕ := none
  totalBuffer : Option ℕ := none
  vaultsBalance : Option ℤ := none
  depositsReserve : Option ℕ

namespace Batch

/-- The reserve is read only if it is supported. -/
def begin (blockNumber : ℕ) (lidoSupportsDepositsReserve : Bool) : Batch where
  blockNumber
  depositsReserve := if lidoSupportsDepositsReserve then none else some 0

def pending (batch : Batch) : Read → Bool
  | .unfinalizedStETH => batch.unfinalized.isNone
  | .getBufferedEther => batch.totalBuffer.isNone
  | .getVaultsBalance => batch.vaultsBalance.isNone
  | .getDepositsReserveAt => batch.depositsReserve.isNone

/-- A read that is answered at the block. The balance of the vaults is answered when both
vaults have been read, with the rewards of that moment. -/
def serve (batch : Batch) (block : BlockReads) (rewards : RewardsStorageService) : Read → Batch
  | .unfinalizedStETH => { batch with unfinalized := some block.unfinalizedStETH }
  | .getBufferedEther => { batch with totalBuffer := some block.bufferedEther }
  | .getVaultsBalance => { batch with vaultsBalance := some (rewards.getVaultsBalance block) }
  | .getDepositsReserveAt => { batch with
      depositsReserve := some (BlockStateCacheService.getDepositsReserveAt
        (some block.depositsReserve)) }

/-- The state of a complete batch; the buffer saturates at zero. -/
def computed? (batch : Batch) : Option Computed := do
  let unfinalized ← batch.unfinalized
  let totalBuffer ← batch.totalBuffer
  let vaultsBalance ← batch.vaultsBalance
  let depositsReserve ← batch.depositsReserve
  let buffer : ℤ :=
    if depositsReserve < totalBuffer then (totalBuffer : ℤ) - depositsReserve else 0
  some {
    blockNumber := batch.blockNumber
    state := { unfinalized, buffer, vaultsBalance } }

end Batch

/-- Where a call of `getBlockState` waits. -/
inductive Suspension
  | fetchingBlockNumber (now : ℤ)
  | fetchingProcessingState (now : ℤ) (blockNumber : ℕ)
  | fetchingRefSlotBlock (now : ℤ) (blockNumber : ℕ)
  | resolved (blockNumber : ℕ)
  | reading (batch : Batch)

inductive Answer
  | blockNumber (blockNumber : ℕ)
  | processingState (dataSubmitted : Bool)
  /-- The block of the reference slot; `none` is a failed call. -/
  | refSlotBlock (blockNumber : Option ℕ)
  | settled
  | served (read : Read)
  | refused (read : Read)
  | rejected

/-- The call returns a state. -/
def World.respond (world : World) (computed : Computed) : World :=
  { world with returned := computed :: world.returned }

/-- The end of `getOrFetchBlockNumber`: the number is cached as of the start of the
call. -/
def resolve (now : ℤ) (blockNumber : ℕ) (world : World) : World × Option Suspension :=
  ({ world with cachedBlockNumber := some blockNumber, blockNumberCachedAt := some now },
    some (.resolved blockNumber))

/-- The reads go on, or the state is cached and returned. -/
def settle (batch : Batch) (world : World) : World × Option Suspension :=
  match batch.computed? with
  | some computed => ({ world with stateCache := some computed }.respond computed, none)
  | none => (world, some (.reading batch))

/-- With the block number, the cached state is returned or the reads begin. -/
def withBlockNumber (blockNumber : ℕ) (world : World) : World × Option Suspension :=
  match world.stateCache with
  | some computed =>
      if computed.blockNumber = blockNumber then (world.respond computed, none)
      else (world, some (.reading (.begin blockNumber world.lidoSupportsDepositsReserve)))
  | none => (world, some (.reading (.begin blockNumber world.lidoSupportsDepositsReserve)))

/-- A read that fails: without a reserve the batch goes on, without another amount the
call is rejected. -/
def refuse (batch : Batch) (world : World) : Read → World × Option Suspension
  | .getDepositsReserveAt =>
      settle { batch with depositsReserve := some (getDepositsReserveAt none) } world
  | _ => (world, none)

/-- `getBlockState` up to its first await. -/
def start (now : ℤ) (world : World) : World × Option Suspension :=
  match world.cachedBlockNumber, world.blockNumberCachedAt with
  | some blockNumber, some cachedAt =>
      if now - cachedAt < blockNumberTtlMs then (world, some (.resolved blockNumber))
      else (world, some (.fetchingBlockNumber now))
  | _, _ => (world, some (.fetchingBlockNumber now))

def resume (chain : ℕ → BlockReads) : Suspension → Answer → World → World × Option Suspension
  | .fetchingBlockNumber now, .blockNumber blockNumber, world =>
      (world, some (.fetchingProcessingState now blockNumber))
  | .fetchingProcessingState now blockNumber, .processingState dataSubmitted, world =>
      if dataSubmitted then resolve now blockNumber world
      else (world, some (.fetchingRefSlotBlock now blockNumber))
  | .fetchingRefSlotBlock now blockNumber, .refSlotBlock processingRefBlockNumber, world =>
      resolve now (processingRefBlockNumber.getD blockNumber) world
  | .resolved blockNumber, .settled, world => withBlockNumber blockNumber world
  | .reading batch, .served read, world =>
      if batch.pending read then
        settle (batch.serve (chain batch.blockNumber) world.rewards read) world
      else (world, some (.reading batch))
  | .reading batch, .refused read, world =>
      if batch.pending read then refuse batch world read else (world, some (.reading batch))
  | .fetchingBlockNumber _, .rejected, world => (world, none)
  | .fetchingProcessingState _ _, .rejected, world => (world, none)
  | suspension, _, world => (world, some suspension)

end BlockStateCacheService

inductive BlockStateActor
  | getBlockState (call : ℕ)
  | updateRewards
  deriving DecidableEq

/-- Any number of calls, and updates of the rewards, which are of no importance to what
is read. -/
def blockStateActors (chain : ℕ → BlockReads) :
    BlockStateActor → Job.{0, 0} BlockStateCacheService.World
  | .getBlockState _ => {
      Input := ℤ
      Suspension := BlockStateCacheService.Suspension
      Answer := BlockStateCacheService.Answer
      start := BlockStateCacheService.start
      resume := BlockStateCacheService.resume chain }
  | .updateRewards => .atomic fun (rewards : RewardsStorageService) world => { world with rewards }

namespace BlockStateCacheService

open Job.State

variable {chain : ℕ → BlockReads} {failed : ℕ → Prop}

/-! ## Right states -/

/-- The reserve that is used for a block is the one there, or zero where a read of it has
failed. -/
def ReserveRight (chain : ℕ → BlockReads) (failed : ℕ → Prop) (blockNumber reserve : ℕ) :
    Prop :=
  reserve = (chain blockNumber).depositsReserve ∨ (failed blockNumber ∧ reserve = 0)

/-- A computed state has the amounts at its block. -/
structure RightAt (chain : ℕ → BlockReads) (failed : ℕ → Prop) (computed : Computed) :
    Prop where
  unfinalized : computed.state.unfinalized = (chain computed.blockNumber).unfinalizedStETH
  buffer : ∃ reserve, ReserveRight chain failed computed.blockNumber reserve ∧
    computed.state.buffer = max 0 ((chain computed.blockNumber).bufferedEther - (reserve : ℤ))
  vaultsBalance : ∃ rewards : RewardsStorageService,
    computed.state.vaultsBalance = rewards.getVaultsBalance (chain computed.blockNumber)

/-- What a batch has been answered are the amounts at its block. -/
structure ReadsRight (chain : ℕ → BlockReads) (failed : ℕ → Prop) (batch : Batch) : Prop where
  unfinalized : ∀ amount ∈ batch.unfinalized, amount = (chain batch.blockNumber).unfinalizedStETH
  totalBuffer : ∀ amount ∈ batch.totalBuffer, amount = (chain batch.blockNumber).bufferedEther
  vaultsBalance : ∀ amount ∈ batch.vaultsBalance, ∃ rewards : RewardsStorageService,
    amount = rewards.getVaultsBalance (chain batch.blockNumber)
  depositsReserve : ∀ reserve ∈ batch.depositsReserve,
    ReserveRight chain failed batch.blockNumber reserve

theorem readsRight_begin (blockNumber : ℕ) :
    ReadsRight chain failed (.begin blockNumber true) := by
  constructor <;> exact fun _ h => (by cases h)

theorem ReadsRight.serve {batch : Batch} (h : ReadsRight chain failed batch)
    (rewards : RewardsStorageService) (read : Read) :
    ReadsRight chain failed (batch.serve (chain batch.blockNumber) rewards read) := by
  cases read with
  | unfinalizedStETH => exact { h with unfinalized := fun _ hmem => (Option.some.inj hmem).symm }
  | getBufferedEther => exact { h with totalBuffer := fun _ hmem => (Option.some.inj hmem).symm }
  | getVaultsBalance =>
      exact { h with vaultsBalance := fun _ hmem => ⟨rewards, (Option.some.inj hmem).symm⟩ }
  | getDepositsReserveAt =>
      exact { h with depositsReserve := fun _ hmem => Or.inl (Option.some.inj hmem).symm }

theorem ReadsRight.refuseReserve {batch : Batch} (h : ReadsRight chain failed batch)
    (hfailed : failed batch.blockNumber) :
    ReadsRight chain failed
      { batch with depositsReserve := some (getDepositsReserveAt none) } :=
  { h with depositsReserve := fun _ hmem => Or.inr ⟨hfailed, (Option.some.inj hmem).symm⟩ }

/-- The difference of two amounts, saturated at zero. -/
theorem ite_sub_eq_max (total reserve : ℕ) :
    (if reserve < total then (total : ℤ) - reserve else 0) = max 0 ((total : ℤ) - reserve) := by
  split_ifs <;> omega

theorem ReadsRight.rightAt {batch : Batch} (h : ReadsRight chain failed batch)
    {computed : Computed} (hcomputed : batch.computed? = some computed) :
    RightAt chain failed computed := by
  simp only [Batch.computed?, Option.bind_eq_bind, Option.bind_eq_some_iff] at hcomputed
  obtain ⟨unfinalized, hunfinalized, totalBuffer, hbuffer, vaultsBalance, hvaults, reserve,
    hreserve, heq⟩ := hcomputed
  obtain rfl := Option.some.inj heq
  constructor
  case unfinalized => exact congrArg Nat.cast (h.unfinalized unfinalized hunfinalized)
  case buffer =>
    refine ⟨reserve, h.depositsReserve reserve hreserve, ?_⟩
    rw [← h.totalBuffer totalBuffer hbuffer]
    exact ite_sub_eq_max totalBuffer reserve
  case vaultsBalance => exact h.vaultsBalance vaultsBalance hvaults

/-! ## Every run -/

/-- The reserve is supported, and what is cached or has been returned is right. -/
structure CacheRight (chain : ℕ → BlockReads) (failed : ℕ → Prop) (world : World) : Prop where
  supported : world.lidoSupportsDepositsReserve = true
  stateCache : ∀ computed ∈ world.stateCache, RightAt chain failed computed
  returned : ∀ computed ∈ world.returned, RightAt chain failed computed

/-- A call in flight has been answered right. -/
def CallRight (chain : ℕ → BlockReads) (failed : ℕ → Prop) : Option Suspension → Prop
  | some (.reading batch) => ReadsRight chain failed batch
  | _ => True

/-- The end of a segment keeps the cache and the call right. -/
def KeepsRight (chain : ℕ → BlockReads) (failed : ℕ → Prop)
    (segment : World × Option Suspension) : Prop :=
  CacheRight chain failed segment.1 ∧ CallRight chain failed segment.2

/-- A read of the reserve fails only at these blocks. -/
def FailsOnlyAt (failed : ℕ → Prop) : Answer → Suspension → Prop
  | .refused .getDepositsReserveAt, .reading batch => failed batch.blockNumber
  | _, _ => True

theorem CacheRight.respond {world : World} (h : CacheRight chain failed world)
    {computed : Computed} (hright : RightAt chain failed computed) :
    CacheRight chain failed (world.respond computed) := by
  refine { h with returned := ?_ }
  intro other hmem
  rcases List.mem_cons.mp hmem with rfl | hmem
  · exact hright
  · exact h.returned other hmem

theorem keepsRight_settle {batch : Batch} {world : World} (hworld : CacheRight chain failed world)
    (hbatch : ReadsRight chain failed batch) :
    KeepsRight chain failed (settle batch world) := by
  unfold settle
  cases hcomputed : batch.computed? with
  | none => exact ⟨hworld, hbatch⟩
  | some computed =>
      have hright := hbatch.rightAt hcomputed
      have hcached : CacheRight chain failed { world with stateCache := some computed } := by
        refine { hworld with stateCache := ?_ }
        intro other hmem
        rw [← Option.some.inj hmem]
        exact hright
      exact ⟨hcached.respond hright, trivial⟩

theorem keepsRight_withBlockNumber {world : World} (hworld : CacheRight chain failed world)
    (blockNumber : ℕ) : KeepsRight chain failed (withBlockNumber blockNumber world) := by
  have hbegins : KeepsRight chain failed
      (world, some (.reading (.begin blockNumber world.lidoSupportsDepositsReserve))) := by
    refine ⟨hworld, ?_⟩
    rw [hworld.supported]
    exact readsRight_begin blockNumber
  unfold withBlockNumber
  cases hcache : world.stateCache with
  | none => exact hbegins
  | some computed =>
      show KeepsRight chain failed (if _ then _ else _)
      split_ifs
      · exact ⟨hworld.respond (hworld.stateCache computed hcache), trivial⟩
      · exact hbegins

theorem keepsRight_refuse {batch : Batch} {world : World} (hworld : CacheRight chain failed world)
    (hbatch : ReadsRight chain failed batch) {read : Read}
    (hfails : FailsOnlyAt failed (.refused read) (.reading batch)) :
    KeepsRight chain failed (refuse batch world read) := by
  cases read with
  | getDepositsReserveAt => exact keepsRight_settle hworld (hbatch.refuseReserve hfails)
  | _ => exact ⟨hworld, trivial⟩

theorem keepsRight_start {world : World} (hworld : CacheRight chain failed world) (now : ℤ) :
    KeepsRight chain failed (start now world) := by
  unfold start
  split
  · split_ifs <;> exact ⟨hworld, trivial⟩
  · exact ⟨hworld, trivial⟩

theorem keepsRight_resume {world : World} (hworld : CacheRight chain failed world)
    {suspension : Suspension} (hcall : CallRight chain failed (some suspension)) {answer : Answer}
    (hfails : FailsOnlyAt failed answer suspension) :
    KeepsRight chain failed (resume chain suspension answer world) := by
  unfold resume
  split
  · exact ⟨hworld, trivial⟩
  · split_ifs <;> exact ⟨{ hworld with }, trivial⟩
  · exact ⟨{ hworld with }, trivial⟩
  · exact keepsRight_withBlockNumber hworld _
  · split_ifs
    · exact keepsRight_settle hworld (ReadsRight.serve hcall _ _)
    · exact ⟨hworld, hcall⟩
  · split_ifs
    · exact keepsRight_refuse hworld hcall hfails
    · exact ⟨hworld, hcall⟩
  · exact ⟨hworld, trivial⟩
  · exact ⟨hworld, trivial⟩
  · exact ⟨hworld, hcall⟩

/-- Where a call of `getBlockState` is suspended. -/
def getBlockState (s : Job.State (blockStateActors chain)) (call : ℕ) : Option Suspension :=
  s.suspended (.getBlockState call)

/-- A run in which a read of the reserve fails only at these blocks. -/
def ReserveReadsFailOnlyAt (failed : ℕ → Prop) (s : Job.State (blockStateActors chain)) :
    Job.Event (blockStateActors chain) → Prop
  | .resume (.getBlockState call) answer =>
      ∀ suspension ∈ getBlockState s call, FailsOnlyAt failed answer suspension
  | _ => True

def callAsserts (chain : ℕ → BlockReads) (failed : ℕ → Prop) :
    (actor : BlockStateActor) → Option (blockStateActors chain actor).Suspension → Prop
  | .getBlockState _ => CallRight chain failed
  | .updateRewards => fun _ => True

/-- The calls share nothing but the cache: what a call has been answered is its own. -/
def blockStateOutline (chain : ℕ → BlockReads) (failed : ℕ → Prop) :
    Job.Outline (blockStateActors chain) (ReserveReadsFailOnlyAt failed) where
  invariant := CacheRight chain failed
  asserts actor suspended _ := callAsserts chain failed actor suspended
  commits _ _ _ := True
  segment := by
    intro s event actor segment hmeets hruns hcache hasserts
    cases hruns with
    | @start actor input hidle =>
        cases actor with
        | getBlockState call =>
            have hkept := keepsRight_start hcache input
            exact ⟨hkept.1, hkept.2, trivial⟩
        | updateRewards => exact ⟨{ hcache with }, trivial, trivial⟩
    | @resume actor answer suspension hsuspended =>
        cases actor with
        | getBlockState call =>
            rw [hsuspended] at hasserts
            have hkept := keepsRight_resume hcache hasserts (hmeets suspension hsuspended)
            exact ⟨hkept.1, hkept.2, trivial⟩
        | updateRewards => cases suspension
  stable := by
    intro actor other hne suspended before after hasserts hcommits
    exact hasserts

/-- The caches of a service that has just started, on a Lido that has a reserve. -/
def booted (rewards : RewardsStorageService) : World where
  lidoSupportsDepositsReserve := true
  rewards

theorem holds_booted (rewards : RewardsStorageService) :
    (blockStateOutline chain failed).Holds (.idle (blockStateActors chain) (booted rewards)) where
  invariant := by
    constructor
    case supported => rfl
    case stateCache => exact fun _ hmem => (by cases hmem)
    case returned => exact fun _ hmem => (by cases hmem)
  asserts actor := by cases actor <;> trivial

/-- The buffer that is drainable to withdrawals, or the whole buffer of a block at which a
read of the reserve has failed. -/
theorem RightAt.buffer_cases {computed : Computed} (h : RightAt chain failed computed) :
    computed.state.buffer = max 0 (((chain computed.blockNumber).bufferedEther : ℤ) -
        (chain computed.blockNumber).depositsReserve) ∨
      (failed computed.blockNumber ∧
        computed.state.buffer = (chain computed.blockNumber).bufferedEther) := by
  obtain ⟨reserve, hreserve, hbuffer⟩ := h.buffer
  rcases hreserve with hright | ⟨hfailed, hzero⟩
  · left
    rw [hbuffer, hright]
  · right
    refine ⟨hfailed, ?_⟩
    rw [hbuffer, hzero]
    simp

/-- An answer that fails the call: the block number or the processing state cannot be
read, or one of the amounts other than the reserve. -/
def Fails : Suspension → Answer → Prop
  | .fetchingBlockNumber _, .rejected => True
  | .fetchingProcessingState _ _, .rejected => True
  | .reading batch, .refused read => batch.pending read = true ∧ read ≠ .getDepositsReserveAt
  | _, _ => False

/-- A call that fails rejects, and leaves the caches as they are. -/
theorem resume_of_fails {suspension : Suspension} {answer : Answer}
    (h : Fails suspension answer) (world : World) :
    resume chain suspension answer world = (world, none) := by
  unfold Fails at h
  split at h
  · rfl
  · rfl
  · rename_i batch read
    show (if batch.pending read then refuse batch world read else _) = _
    rw [if_pos h.1]
    cases read with
    | getDepositsReserveAt => exact absurd rfl h.2
    | _ => rfl
  · exact h.elim

/-- **Block state is right, but for a reserve that could not be read.** Whatever calls
interleave, each state that is returned or cached has the unfinalized amount of its
block, and the buffer that is drainable there; only at a block at which a read of the
reserve has failed may it have the whole buffer instead. A call of which any other
read fails rejects and caches nothing. -/
theorem blockState_run {rewards : RewardsStorageService}
    {events : List (Job.Event (blockStateActors chain))}
    (hmeets : Job.State.Meets (ReserveReadsFailOnlyAt failed)
      (.idle (blockStateActors chain) (booted rewards)) events) :
    let s := (Job.State.idle (blockStateActors chain) (booted rewards)).run events
    (∀ computed, computed ∈ s.shared.returned ∨ computed ∈ s.shared.stateCache →
      computed.state.unfinalized = (chain computed.blockNumber).unfinalizedStETH ∧
        (computed.state.buffer = max 0 (((chain computed.blockNumber).bufferedEther : ℤ) -
            (chain computed.blockNumber).depositsReserve) ∨
          (failed computed.blockNumber ∧
            computed.state.buffer = (chain computed.blockNumber).bufferedEther))) ∧
      ∀ call answer, (∃ suspension ∈ getBlockState s call, Fails suspension answer) →
        (s.step (.resume (.getBlockState call) answer)).shared = s.shared ∧
          getBlockState (s.step (.resume (.getBlockState call) answer)) call = none := by
  intro s
  have hholds : (blockStateOutline chain failed).Holds s :=
    (blockStateOutline chain failed).holds_run hmeets (holds_booted rewards)
  constructor
  · intro computed hcomputed
    have hright : RightAt chain failed computed := by
      rcases hcomputed with hreturned | hcached
      · exact hholds.invariant.returned computed hreturned
      · exact hholds.invariant.stateCache computed hcached
    exact ⟨hright.unfinalized, hright.buffer_cases⟩
  · rintro call answer ⟨suspension, hsuspended, hfails⟩
    have hruns : s.Runs (.resume (.getBlockState call) answer) (.getBlockState call) _ :=
      .resume hsuspended
    have hsegment : (blockStateActors chain (.getBlockState call)).resume suspension answer
        s.shared = (s.shared, none) := resume_of_fails hfails s.shared
    rw [getBlockState, hruns.step_shared, hruns.step_suspended, hsegment]
    exact ⟨rfl, rfl⟩

/-- A buffer of a thousand, of which two hundred are reserved for deposits. -/
def reservedBuffer (_ : ℕ) : BlockReads where
  unfinalizedStETH := 300
  bufferedEther := 1000
  depositsReserve := 200
  withdrawalVaultBalance := 50
  elRewardsVaultBalance := 40

/-- A call at some time, and its awaited calls answer. -/
def blockStateCall (call : ℕ) (now : ℤ) (answers : List Answer) :
    List (Job.Event (blockStateActors reservedBuffer)) :=
  .start (.getBlockState call) now :: answers.map fun answer => .resume (.getBlockState call) answer

/-- The first call, whose read of the reserve is refused, and a second one within the
slot, which is served from the cache. -/
def reserveRefused : List (Job.Event (blockStateActors reservedBuffer)) :=
  blockStateCall 0 0
      [.blockNumber 100, .processingState true, .settled, .served .unfinalizedStETH,
        .refused .getDepositsReserveAt, .served .getBufferedEther, .served .getVaultsBalance] ++
    blockStateCall 1 6000 [.settled]

/-- The reserve fails to be read at block 100. -/
theorem blockState_run_reserveRefused :
    let s := (Job.State.idle (blockStateActors reservedBuffer) (booted {})).run reserveRefused
    (∀ computed, computed ∈ s.shared.returned ∨ computed ∈ s.shared.stateCache →
      computed.state.unfinalized = (reservedBuffer computed.blockNumber).unfinalizedStETH ∧
        (computed.state.buffer = max 0 (((reservedBuffer computed.blockNumber).bufferedEther : ℤ) -
            (reservedBuffer computed.blockNumber).depositsReserve) ∨
          (computed.blockNumber = 100 ∧
            computed.state.buffer = (reservedBuffer computed.blockNumber).bufferedEther))) ∧
      ∀ call answer, (∃ suspension ∈ getBlockState s call, Fails suspension answer) →
        (s.step (.resume (.getBlockState call) answer)).shared = s.shared ∧
          getBlockState (s.step (.resume (.getBlockState call) answer)) call = none :=
  have hmeets : Job.State.Meets (ReserveReadsFailOnlyAt fun blockNumber => blockNumber = 100)
      (.idle (blockStateActors reservedBuffer) (booted {})) reserveRefused := by
    refine ⟨trivial, ?_, ?_, ?_, ?_, ?_, ?_, ?_, trivial, ?_, trivial⟩
    case refine_5 =>
      intro suspension hsuspended
      rw [← Option.some.inj hsuspended]
      rfl
    all_goals exact fun _ _ => trivial
  blockState_run hmeets

/-- Both calls return the whole buffer, the second from the cache. -/
theorem reserve_may_be_ignored :
    ¬ ∀ (chain : ℕ → BlockReads) (rewards : RewardsStorageService)
        (events : List (Job.Event (blockStateActors chain))),
      let s := (Job.State.idle (blockStateActors chain) (booted rewards)).run events
      ∀ computed ∈ s.shared.returned,
        computed.state.unfinalized = (chain computed.blockNumber).unfinalizedStETH ∧
          computed.state.buffer = max 0 (((chain computed.blockNumber).bufferedEther : ℤ) -
            (chain computed.blockNumber).depositsReserve) := by
  intro hright
  have hreturned := hright reservedBuffer {} reserveRefused
    { blockNumber := 100, state := { unfinalized := 300, buffer := 1000, vaultsBalance := 90 } }
    List.mem_cons_self
  have hbuffer : (1000 : ℤ) = max 0 (1000 - 200) := hreturned.2
  revert hbuffer
  decide

end BlockStateCacheService

end WithdrawalsApi
