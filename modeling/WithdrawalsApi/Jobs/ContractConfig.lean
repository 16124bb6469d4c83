/-
# The contract configuration job

`updateContractConfig` reads the block number and then, in one batch, the limits,
the frame configurations and the buffer reserve, and assigns the fields of the
store in one segment. A frame configuration that is no safe integer throws in the
middle of it: the fields assigned so far stay and the update time does not
change.

The cron jobs that are rescheduled at the end of an update start the validators
job, which may be started at any time here.
-/

import WithdrawalsApi.Jobs.Memory
import WithdrawalsApi.Math.Jobs

namespace WithdrawalsApi

open Js Math

namespace ContractConfigService

/-- A frame configuration; the consensus contract refuses a frame of no epochs. -/
structure FrameConfig where
  initialEpoch : ℕ
  epochsPerFrame : ℕ+

/-- What the batch of reads answers. The limits are in range: the reader of the
limits rejects any others. -/
structure ContractReads where
  requestTimestampMargin : RequestTimestampMargin
  maxBalanceExitRequestedPerReportInEth : ExitRequestCap
  lidoSupportsDepositsReserve : Bool
  /-- The reserve target at the block, which is read only if the previous update
  has seen that it is supported. -/
  depositsReserveTarget : ℕ
  frameConfig : FrameConfig
  veboFrameConfig : FrameConfig

inductive Suspension
  | fetchingBlockNumber (wasSrv3KnownLastTick : Bool)
  | fetchingReads (wasSrv3KnownLastTick : Bool)

inductive Answer
  | blockNumber
  | reads (reads : ContractReads)
  | rejected

/-- `toNumber` of a configured number of epochs. -/
def isNumber (value : ℕ) : Bool := decide (IsSafeInteger value)

/-- The assignments of one update, up to the first that throws. -/
def assign (wasSrv3KnownLastTick : Bool) (reads : ContractReads) (now : ℤ)
    (store : ContractConfigStorageService) : ContractConfigStorageService :=
  let store := { store with
    requestTimestampMargin := some reads.requestTimestampMargin
    maxBalanceExitRequestedPerReportInEth := some reads.maxBalanceExitRequestedPerReportInEth
    lidoSupportsDepositsReserve := reads.lidoSupportsDepositsReserve
    depositsReserveTarget := if wasSrv3KnownLastTick then reads.depositsReserveTarget else 0 }
  if isNumber reads.frameConfig.initialEpoch then
    let store := { store with initialEpoch := some reads.frameConfig.initialEpoch }
    if isNumber reads.veboFrameConfig.epochsPerFrame then
      let store := { store with epochsPerFrameVEBO := some reads.veboFrameConfig.epochsPerFrame }
      if isNumber reads.frameConfig.epochsPerFrame then
        { store with
          epochsPerFrame := some reads.frameConfig.epochsPerFrame
          lastUpdate := some (now / 1000) }
      else store
    else store
  else store

def resume : Suspension → ℤ × Answer → Memory → Memory × Option Suspension
  | .fetchingBlockNumber wasSrv3KnownLastTick, ⟨_, .blockNumber⟩, memory =>
      (memory, some (.fetchingReads wasSrv3KnownLastTick))
  | .fetchingReads wasSrv3KnownLastTick, ⟨now, .reads reads⟩, memory =>
      (memory.setContractConfig
        (assign wasSrv3KnownLastTick reads now memory.stores.contractConfig), none)
  | _, _, memory => (memory, none)

/-- One segment of the configuration job makes the assignments of an update or
writes nothing. -/
theorem resume_fst (suspension : Suspension) (answer : ℤ × Answer) (memory : Memory) :
    (resume suspension answer memory).1 = memory ∨
      ∃ wasSrv3KnownLastTick reads now, (resume suspension answer memory).1 =
        memory.setContractConfig
          (assign wasSrv3KnownLastTick reads now memory.stores.contractConfig) := by
  unfold resume
  split
  · exact Or.inl rfl
  · exact Or.inr ⟨_, _, _, rfl⟩
  · exact Or.inl rfl

end ContractConfigService

/-- The job reads at its start whether the reserve was known to be supported. -/
def updateContractConfigJob : Job.{0, 0} Memory where
  Input := Unit
  Suspension := ContractConfigService.Suspension
  Answer := ℤ × ContractConfigService.Answer
  start _ memory :=
    (memory, some (.fetchingBlockNumber memory.stores.contractConfig.lidoSupportsDepositsReserve))
  resume := ContractConfigService.resume

end WithdrawalsApi
