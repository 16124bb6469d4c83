/-
# The vaults less the rewards of a frame

What the vaults hold counts towards the next report, less the rewards of a frame,
which is called pessimistic. Each difference is cut off at zero, so that rewards
that exceed a vault do no harm; rewards that are negative are not cut off, and
raise the balance above what the vaults hold.

Rewards on the execution layer are amounts that have been received. Those on the
consensus layer are a difference of balances, and the least of a week is negative
as soon as one report has lost more than it has received, by at least a wei for
each frame it spans.
-/

import WithdrawalsApi.Jobs.BlockStateCache
import WithdrawalsApi.Rewards.StartUp

namespace WithdrawalsApi

open Js Math

/-- The balance of the vaults is what they hold less the rewards of a frame, each
difference and the rewards themselves not below zero. -/
structure RewardsStorageService.NotOverstated (rewards : RewardsStorageService)
    (block : BlockReads) : Prop where
  nonneg : 0 ≤ rewards.getVaultsBalance block
  le_vaults :
    rewards.getVaultsBalance block ≤ block.withdrawalVaultBalance + block.elRewardsVaultBalance
  eq_rewards : rewards.getVaultsBalance block =
    max 0 (block.withdrawalVaultBalance - max 0 rewards.clRewardsPerFrame) +
      max 0 (block.elRewardsVaultBalance - max 0 rewards.elRewardsPerFrame)

/-- Negative rewards on the consensus layer are added to the vaults. -/
theorem RewardsStorageService.notOverstated_iff_nonneg {rewards : RewardsStorageService}
    (hel : 0 ≤ rewards.elRewardsPerFrame) (block : BlockReads) :
    rewards.NotOverstated block ↔ 0 ≤ rewards.clRewardsPerFrame := by
  have hbalance : rewards.getVaultsBalance block =
      max 0 (block.withdrawalVaultBalance - rewards.clRewardsPerFrame) +
        max 0 (block.elRewardsVaultBalance - rewards.elRewardsPerFrame) := by
    simp only [getVaultsBalance]
    split_ifs <;> omega
  constructor
  · intro h
    have hexact := h.eq_rewards
    rw [hbalance] at hexact
    omega
  · intro hcl
    constructor <;> rw [hbalance] <;> omega

namespace RewardsService

/-! ## The signs of the stored rewards -/

section Signs

variable {update : Update} {total : TotalRewards}

theorem Update.Gives.frames_pos (h : update.Gives total) :
    ∀ answered ∈ update.reports, 0 < answered.report.frames := by
  intro answered hmem
  have hreport := List.mem_map_of_mem (f := AnsweredReport.report) hmem
  have hne := h.reports.frames_ne_zero answered.report hreport
  rcases h.reports with ⟨-, hnil⟩ | ⟨epochs, -, hspanning⟩
  · rw [hnil] at hreport
    cases hreport
  · rw [hspanning] at hreport
    obtain ⟨log, -, hlog⟩ := List.mem_map.mp (List.mem_filter.mp hreport).1
    have hnonneg : 0 ≤ answered.report.frames := by
      rw [← hlog]
      exact Int.ediv_nonneg (Int.natCast_nonneg _) (frameSeconds_pos epochs).le
    omega

/-- A quotient that is rounded towards zero is negative when a whole divisor is
missing. -/
theorem tdiv_nonneg_iff {amount frames : ℤ} (h : 0 < frames) :
    0 ≤ amount.tdiv frames ↔ -frames < amount := by
  rcases le_or_gt 0 amount with hamount | hamount
  · exact iff_of_true (Int.tdiv_nonneg hamount h.le) (by omega)
  · have hquotient : amount.tdiv frames = -(-amount / frames) := by
      rw [← Int.tdiv_eq_ediv_of_nonneg (by omega), Int.neg_tdiv, neg_neg]
    have hzero : -amount / frames ≤ 0 ↔ -amount < frames := by
      have := Int.ediv_lt_iff_lt_mul h (a := -amount) (b := 1)
      omega
    rw [hquotient]
    omega

/-- No report lowers the rewards on the execution layer below zero. -/
theorem Update.Gives.elRewards_nonneg (h : update.Gives total) : 0 ≤ total.elRewards := by
  by_cases hrewards : (update.reports.map fun answered =>
      quotientRewards answered.report.frames answered.logs) = []
  · exact (h.total.none hrewards).2.ge
  · obtain ⟨reward, hmem, hleast⟩ := (h.total.el hrewards).1
    obtain ⟨answered, hanswered, rfl⟩ := List.mem_map.mp hmem
    rw [← hleast]
    exact Int.tdiv_nonneg (Int.natCast_nonneg _) (h.frames_pos answered hanswered).le

/-- The rewards on the consensus layer are negative exactly when a report has lost a
wei for each of its frames. -/
theorem Update.Gives.clRewards_nonneg_iff (h : update.Gives total) :
    0 ≤ total.clRewards ↔
      ∀ answered ∈ update.reports, -answered.report.frames < clGrowth answered.logs := by
  have hreport : ∀ answered ∈ update.reports,
      (0 ≤ (quotientRewards answered.report.frames answered.logs).clRewards ↔
        -answered.report.frames < clGrowth answered.logs) :=
    fun answered hmem => tdiv_nonneg_iff (h.frames_pos answered hmem)
  by_cases hrewards : (update.reports.map fun answered =>
      quotientRewards answered.report.frames answered.logs) = []
  · rw [(h.total.none hrewards).1, List.map_eq_nil_iff.mp hrewards]
    simp
  · obtain ⟨⟨reward, hmem, hleast⟩, hlower⟩ := h.total.cl hrewards
    constructor
    · intro hnonneg answered hanswered
      rw [← hreport answered hanswered]
      exact hnonneg.trans (hlower ⟨_, List.mem_map_of_mem hanswered, rfl⟩)
    · intro hgrowth
      obtain ⟨answered, hanswered, rfl⟩ := List.mem_map.mp hmem
      rw [← hleast, hreport answered hanswered]
      exact hgrowth answered hanswered

end Signs

/-! ## Every run -/

/-- The store holds the rewards of the latest update, or none. -/
structure StoresLatest (world : World) : Prop where
  none : world.updates = [] →
    world.totalRewards = { clRewards := 0, elRewards := 0, allRewards := 0 }
  latest : LatestGives world

theorem StoresLatest.setMemory {world : World} (h : StoresLatest world) {memory : Memory}
    (hrewards : memory.stores.rewards = world.memory.stores.rewards) :
    StoresLatest { world with memory } where
  none := by
    have htotal : World.totalRewards { world with memory } = world.totalRewards := by
      simp only [World.totalRewards, hrewards]
    rw [htotal]
    exact h.none
  latest := h.latest.setMemory hrewards

theorem storesLatest_store {update : Update} {total : TotalRewards} (h : update.Gives total)
    (world : World) : StoresLatest (world.store update total) where
  none := fun hnil => (by cases hnil)
  latest := latestGives_store h world

/-- An update in flight is about the reports of its logs, whatever has been thrown
before. -/
def balanceAsserts :
    (actor : RewardsActor) → Option (rewardsActors actor).Suspension → World → Prop
  | .initialization => fun suspended _ =>
      ∀ suspension, suspended = some (.updating suspension) → suspension.Right
  | .tokenRebased _ => fun suspended _ => ∀ suspension ∈ suspended, suspension.Right
  | .updateContractConfig => fun _ _ => True

/-- Whatever an update of `initialize` leads to, the store holds the latest rewards. -/
theorem storesLatest_initialization {world : World} {progress : UpdateRewards.Progress}
    {logs : Option (List TokenRebasedLog)} (h : StoresLatest world) (hright : progress.Right logs) :
    StoresLatest (Initialization.proceed world progress).1 ∧
      balanceAsserts .initialization (Initialization.proceed world progress).2
        (Initialization.proceed world progress).1 := by
  cases progress with
  | suspended next =>
      refine ⟨h, ?_⟩
      rintro suspension heq
      cases heq
      exact hright
  | finished update total =>
      exact ⟨storesLatest_store hright.1 world, fun _ heq => (by cases heq)⟩
  | thrown => exact ⟨h, fun _ heq => (by cases heq)⟩

theorem storesLatest_handler {world : World} {progress : UpdateRewards.Progress}
    {logs : Option (List TokenRebasedLog)} (h : StoresLatest world) (hright : progress.Right logs)
    (event : ℕ) :
    StoresLatest (Handler.proceed world progress).1 ∧
      balanceAsserts (.tokenRebased event) (Handler.proceed world progress).2
        (Handler.proceed world progress).1 := by
  cases progress with
  | suspended next =>
      refine ⟨h, ?_⟩
      rintro suspension heq
      cases heq
      exact hright
  | finished update total =>
      exact ⟨storesLatest_store hright.1 world, fun _ heq => (by cases heq)⟩
  | thrown => exact ⟨h, fun _ heq => (by cases heq)⟩

/-- The first logs are noted beside the store. -/
theorem StoresLatest.setFirstLogs {world : World} (h : StoresLatest world)
    (firstLogs : Option (List TokenRebasedLog)) : StoresLatest { world with firstLogs } :=
  ⟨h.none, h.latest⟩

theorem balance_segment {s : Job.State rewardsActors} {event : Job.Event rewardsActors}
    {actor : RewardsActor} {segment : World × Option (rewardsActors actor).Suspension}
    (hruns : s.Runs event actor segment) (hlatest : StoresLatest s.shared)
    (h : balanceAsserts actor (s.suspended actor) s.shared) :
    StoresLatest segment.1 ∧ balanceAsserts actor segment.2 segment.1 := by
  cases hruns with
  | @start actor input hidle =>
      cases actor with
      | initialization => cases input
      | tokenRebased event =>
          exact ⟨hlatest, fun suspension hmem => (handler_start suspension hmem).1⟩
      | updateContractConfig => exact ⟨hlatest, trivial⟩
  | @resume actor answer suspension hsuspended =>
      rw [hsuspended] at h
      cases actor with
      | initialization =>
          cases suspension with
          | updating suspension =>
              have hright := UpdateRewards.resume_right (h suspension rfl)
                s.shared.epochsPerFrame answer
              exact storesLatest_initialization (hlatest.setFirstLogs _) hright
          | updated =>
              have hupdated : ∀ suspension,
                  some Initialization.Suspension.updated = some (.updating suspension) →
                    suspension.Right := nofun
              cases answer with
              | settled => exact ⟨⟨hlatest.none, hlatest.latest⟩, nofun⟩
              | _ => exact ⟨hlatest, hupdated⟩
      | tokenRebased event =>
          have hright := UpdateRewards.resume_right (h suspension rfl)
            s.shared.epochsPerFrame answer
          exact storesLatest_handler hlatest hright event
      | updateContractConfig =>
          exact ⟨hlatest.setMemory (config_resume suspension answer s.shared.memory), trivial⟩

/-- The rewards in the store, whatever throws. -/
def balanceOutline : Job.Outline rewardsActors fun _ _ => True where
  invariant := StoresLatest
  asserts := balanceAsserts
  commits _ _ _ := True
  segment _ hruns hlatest h :=
    let ⟨hafter, hasserts⟩ := balance_segment hruns hlatest h
    ⟨hafter, hasserts, trivial⟩
  stable := by
    intro actor other hne suspended before after hasserts _
    cases actor with
    | initialization => exact hasserts
    | tokenRebased event => exact hasserts
    | updateContractConfig => trivial

theorem storesLatest_run {memory : Memory} (hrewards : memory.stores.rewards = {})
    (events : List (Job.Event rewardsActors)) :
    StoresLatest ((boot memory).run events).shared := by
  have hboot : balanceOutline.Holds (boot memory) := {
    invariant := {
      none := fun _ => by simp only [boot, World.totalRewards, hrewards]
      latest := fun _ hmem => (by cases hmem) }
    asserts := fun actor => by
      cases actor with
      | initialization =>
          rintro suspension heq
          cases heq
          trivial
      | tokenRebased event => exact fun _ hmem => (by cases hmem)
      | updateContractConfig => trivial }
  exact (balanceOutline.holds_run (Job.State.meets_true _ events) hboot).invariant

/-- **The balance of the vaults is never overstated, exactly when** no report behind the
stored rewards has lost a wei for each of its frames. -/
theorem vaultsBalance_notOverstated_iff {memory : Memory} (hrewards : memory.stores.rewards = {})
    (events : List (Job.Event rewardsActors)) (block : BlockReads) :
    let world := ((boot memory).run events).shared
    world.memory.stores.rewards.NotOverstated block ↔
      ∀ update ∈ world.updates.head?, ∀ answered ∈ update.reports,
        -answered.report.frames < clGrowth answered.logs := by
  intro world
  have hstored : StoresLatest world := storesLatest_run hrewards events
  cases hupdates : world.updates with
  | nil =>
      have htotal := hstored.none hupdates
      have hcl : world.memory.stores.rewards.clRewardsPerFrame = 0 :=
        congrArg TotalRewards.clRewards htotal
      have hel : world.memory.stores.rewards.elRewardsPerFrame = 0 :=
        congrArg TotalRewards.elRewards htotal
      rw [RewardsStorageService.notOverstated_iff_nonneg hel.ge]
      exact iff_of_true hcl.ge (fun _ hmem => (by cases hmem))
  | cons update updates =>
      have hgives : update.Gives world.totalRewards := by
        apply hstored.latest
        rw [hupdates]
        rfl
      rw [RewardsStorageService.notOverstated_iff_nonneg hgives.elRewards_nonneg]
      have hiff := hgives.clRewards_nonneg_iff
      simpa [World.totalRewards] using hiff

/-- The queries of a report of one frame, on which the validators have lost 100 and
paid out so much. -/
def lossAnswered (withdrawalsReceived : ℕ) : List (Job.Event rewardsActors) :=
  [answerStartUp (.report 0 (.ethDistributed [{ preCLBalance := 1000, postCLBalance := 900 }])),
    answerStartUp (.report 0 (.elRewardsReceived [40])),
    answerStartUp (.report 0 (.withdrawalsReceived [withdrawalsReceived])),
    answerStartUp .settled]

/-- A block at which the vaults hold 100 and nothing. -/
def vaultsBlock : BlockReads where
  unfinalizedStETH := 0
  bufferedEther := 0
  depositsReserve := 0
  withdrawalVaultBalance := 100
  elRewardsVaultBalance := 0

/-- The validators have paid out more than they have lost. -/
theorem vaultsBalance_notOverstated_iff_paidOut :
    let world := ((boot { stores := { genesisTime := 1606824023 } }).run
      (configRun ++ logsArrive ++ lossAnswered 130)).shared
    (world.memory.stores.rewards.NotOverstated vaultsBlock ↔
      ∀ update ∈ world.updates.head?, ∀ answered ∈ update.reports,
        -answered.report.frames < clGrowth answered.logs) ∧
      world.memory.stores.rewards.getVaultsBalance vaultsBlock = 70 :=
  ⟨vaultsBalance_notOverstated_iff rfl _ vaultsBlock, by decide +kernel⟩

/-- The validators have lost 50 more than they have paid out, and the vaults count for 150
while they hold 100. -/
theorem vaultsBalance_overstated :
    ¬ ∀ (memory : Memory) (events : List (Job.Event rewardsActors)) (block : BlockReads),
      memory.stores.rewards = {} →
        ((boot memory).run events).shared.memory.stores.rewards.NotOverstated block := by
  intro h
  have hbounded := (h { stores := { genesisTime := 1606824023 } }
    (configRun ++ logsArrive ++ lossAnswered 50) vaultsBlock rfl).le_vaults
  revert hbounded
  decide +kernel

end RewardsService

end WithdrawalsApi
