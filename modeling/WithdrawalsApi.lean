import WithdrawalsApi.Consensus
import WithdrawalsApi.ConsensusRetry
import WithdrawalsApi.ExecutionProvider
import WithdrawalsApi.ExecutionProvider.Completeness
import WithdrawalsApi.ExecutionProvider.Termination
import WithdrawalsApi.GenesisTime
import WithdrawalsApi.GenesisTime.Quotients
import WithdrawalsApi.Jobs.AnsweredCalls
import WithdrawalsApi.Jobs.BlockFreshness
import WithdrawalsApi.Jobs.BlockStateCache
import WithdrawalsApi.Jobs.ConfigReads
import WithdrawalsApi.Jobs.ContractConfig
import WithdrawalsApi.Jobs.CronJobs
import WithdrawalsApi.Jobs.CronTimes
import WithdrawalsApi.Jobs.ForkEpoch
import WithdrawalsApi.Jobs.FrameTable
import WithdrawalsApi.Jobs.FramesAhead
import WithdrawalsApi.Jobs.GateOpens
import WithdrawalsApi.Jobs.Lives
import WithdrawalsApi.Jobs.Memory
import WithdrawalsApi.Jobs.OpenGate
import WithdrawalsApi.Jobs.OracleLimits
import WithdrawalsApi.Jobs.Progress
import WithdrawalsApi.Jobs.QueueFetch
import WithdrawalsApi.Jobs.QueueInfo
import WithdrawalsApi.Jobs.QueueReads
import WithdrawalsApi.Jobs.QueueRuns
import WithdrawalsApi.Jobs.Readiness
import WithdrawalsApi.Jobs.Refresh
import WithdrawalsApi.Jobs.RefreshAgrees
import WithdrawalsApi.Jobs.ReserveTarget
import WithdrawalsApi.Jobs.Restart
import WithdrawalsApi.Jobs.Snapshot
import WithdrawalsApi.Jobs.System
import WithdrawalsApi.Jobs.Validators
import WithdrawalsApi.Jobs.WaitingTimeCalls
import WithdrawalsApi.Js.Arithmetic
import WithdrawalsApi.Js.Double
import WithdrawalsApi.Js.Json
import WithdrawalsApi.Js.Number
import WithdrawalsApi.Js.Outcome
import WithdrawalsApi.Js.Record
import WithdrawalsApi.Js.Rows
import WithdrawalsApi.Js.Text
import WithdrawalsApi.Js.TextOrder
import WithdrawalsApi.Math.Batches
import WithdrawalsApi.Math.Coverage
import WithdrawalsApi.Math.Histories
import WithdrawalsApi.Math.Iteration
import WithdrawalsApi.Math.Jobs
import WithdrawalsApi.Math.Lives
import WithdrawalsApi.Math.Progress
import WithdrawalsApi.Math.Readers
import WithdrawalsApi.Math.Rotation
import WithdrawalsApi.Math.Rounding
import WithdrawalsApi.Math.Schedule
import WithdrawalsApi.Math.Slices
import WithdrawalsApi.Math.Timers
import WithdrawalsApi.Rewards.Attribution
import WithdrawalsApi.Rewards.Overtaking
import WithdrawalsApi.Rewards.Projection
import WithdrawalsApi.Rewards.StartUp
import WithdrawalsApi.Rewards.Vaults
import WithdrawalsApi.SecretsRotation
import WithdrawalsApi.Storage
import WithdrawalsApi.Storage.CacheLoading
import WithdrawalsApi.Storage.CacheWrites
import WithdrawalsApi.Storage.ValidatorsCache
import WithdrawalsApi.Sweep
import WithdrawalsApi.Sweep.Cycle
import WithdrawalsApi.Sweep.ExcessBalance
import WithdrawalsApi.Sweep.PartialWithdrawals
import WithdrawalsApi.Sweep.PendingWithdrawals
import WithdrawalsApi.Sweep.Timestamp
import WithdrawalsApi.WaitingTime.Amount
import WithdrawalsApi.WaitingTime.Availability
import WithdrawalsApi.WaitingTime.Cases
import WithdrawalsApi.WaitingTime.Classification
import WithdrawalsApi.WaitingTime.ExitChurn
import WithdrawalsApi.WaitingTime.FasterInflow
import WithdrawalsApi.WaitingTime.Fifo
import WithdrawalsApi.WaitingTime.FinalizedHead
import WithdrawalsApi.WaitingTime.Frame
import WithdrawalsApi.WaitingTime.Inflow
import WithdrawalsApi.WaitingTime.LaterClock
import WithdrawalsApi.WaitingTime.Margin
import WithdrawalsApi.WaitingTime.NearestReport
import WithdrawalsApi.WaitingTime.Newcomers
import WithdrawalsApi.WaitingTime.NextReport
import WithdrawalsApi.WaitingTime.RequestTime
import WithdrawalsApi.WaitingTime.Response
import WithdrawalsApi.WaitingTime.Settlement
import WithdrawalsApi.WaitingTime.Specification
import WithdrawalsApi.WaitingTime.Statuses
import WithdrawalsApi.WaitingTime.Totality
