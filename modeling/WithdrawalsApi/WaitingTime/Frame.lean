/-
# The frame in which a request is expected to be finalized

`calculateWithdrawalFrame` and the three projections it chooses from, as the
service computes them from the readings and one clock value. Amounts are in wei.

A request that the buffer and the vaults cover goes to the next report, or to
the one after it when the next report is too close. For any other request the
earliest of three projections wins: rewards alone, known withdrawals of
validators together with rewards, and new exits together with rewards.
-/

import WithdrawalsApi.Consensus
import WithdrawalsApi.Js.Rows
import WithdrawalsApi.Storage

namespace WithdrawalsApi

open Js

/-- `GAP_AFTER_REPORT`: 30 minutes. -/
def gapAfterReport : ℤ := 30 * 60 * 1000

/-- `WITHDRAWAL_BUNKER_DELAY_FRAMES`. -/
def withdrawalBunkerDelayFrames : ℤ := 14

inductive WaitingTimeCalculationType
  | buffer
  | bunker
  | vaultsBalance
  | rewardsOnly
  | validatorBalances
  | requestTimestampMargin
  | exitValidators
  deriving DecidableEq, Repr

structure CalculateWaitingTimeV2Args where
  /-- Including the withdrawal itself. -/
  unfinalized : ℤ
  buffer : ℤ
  vaultsBalance : ℤ
  requestTimestamp : ℤ
  latestEpoch : ℤ

structure CalculateWaitingTimeV2Result where
  frame : ℤ
  type : WaitingTimeCalculationType
  deriving DecidableEq, Repr

/-- `BigNumber.from(frame)` of a property name, as a number to compute with. The jobs name
the frames by integers and, when the frame configuration was missing, `NaN`. -/
def frameOfKey (key : PropertyKey) : Outcome ℤ :=
  match key.number? with
  | some frame => .ok frame
  | none => .error .invalidNumber

/-- The loop of `calculateFrameByValidatorBalances`; the amount and the frame
are the loop's variables `unfinalizedAmount` and `lastFrame`. -/
def validatorBalancesLoop (rewardsAvailableForWithdrawals : ℤ) :
    List (PropertyKey × ℤ) → ℤ → ℤ → Outcome (Option ℤ)
  | [], _, _ => .ok none
  | (key, balance) :: frames, unfinalizedAmount, lastFrame => do
      let frame ← frameOfKey key
      let framesBetween := frame - lastFrame
      -- consider rewards only for future frames
      let (reduced, lastFrame) :=
        if 0 ≤ framesBetween then
          (unfinalizedAmount - balance - framesBetween * rewardsAvailableForWithdrawals, frame)
        else (unfinalizedAmount - balance, lastFrame)
      if reduced ≤ 0 then some <$> BigNumber.toNumber frame
      else validatorBalancesLoop rewardsAvailableForWithdrawals frames reduced lastFrame

def calculateFrameByValidatorBalances (unfinilized : ℤ) (frameBalances : Record ℤ)
    (currentFrame rewardsAvailableForWithdrawals : ℤ) : Outcome (Option ℤ) :=
  validatorBalancesLoop rewardsAvailableForWithdrawals frameBalances.objectEntries
    unfinilized currentFrame

/-- `reduce` without an initial value, keeping the strictly smaller frame and
otherwise the later entry. -/
def reduceMinFrame :
    List CalculateWaitingTimeV2Result → Outcome CalculateWaitingTimeV2Result
  | [] => .error .emptyReduce
  | first :: rest =>
      .ok (rest.foldl (fun prev curr => if prev.frame < curr.frame then prev else curr) first)

/-- `if (value) { … }` on a frame that may be `null`: frame zero counts as
`null`. -/
def truthyFrame (value : Option ℤ) : Option ℤ := value.filter fun frame => decide (frame ≠ 0)

/-- The cases that apply, in the order in which they are reduced. The case of
exits is compared with `null`, the others are tested for truth. -/
def applicableCases (frameValidatorsBalances frameByOnlyRewards frameByExitValidatorsWithVEBO :
    Option ℤ) : List CalculateWaitingTimeV2Result :=
  [(truthyFrame frameValidatorsBalances).map fun frame => ⟨frame, .validatorBalances⟩,
    (truthyFrame frameByOnlyRewards).map fun frame => ⟨frame, .rewardsOnly⟩,
    frameByExitValidatorsWithVEBO.map fun frame => ⟨frame, .exitValidators⟩].filterMap id

namespace Readings

variable (r : Readings) (now : ℤ)

/-- The frame of the current epoch. -/
def currentFrame : ℤ := r.time.getFrameOfEpoch (r.time.getCurrentEpoch now)

def getFrameIsBunker : Option ℤ :=
  if r.bunkerModeActive then some (r.currentFrame now + withdrawalBunkerDelayFrames) else none

/-- The variable `currentFrame` after the gap check: the report of the current
frame may still be on its way. -/
def gapAdjustedFrame : ℤ :=
  if r.time.getFrameByTimestamp (now - gapAfterReport) ≠ r.currentFrame now
  then r.currentFrame now - 1 else r.currentFrame now

def isRequestShouldBePostponed (requestTimestamp : ℤ) : Bool :=
  decide (r.time.timeToWithdrawalFrame (r.gapAdjustedFrame now + 1) requestTimestamp <
    r.requestTimestampMargin.toMs)

/-- Rewards per frame, less what refills the deposits reserve. -/
def rewardsAvailableForWithdrawals : ℤ :=
  let reservedRefillPerFrame :=
    if r.rewardsPerFrame < r.depositsReserveTarget then r.rewardsPerFrame
    else r.depositsReserveTarget
  r.rewardsPerFrame - reservedRefillPerFrame

def calculateFrameByRewardsOnly (unfinalized rewardsAvailable : ℤ) : Outcome (Option ℤ) :=
  if rewardsAvailable = 0 then .ok none
  else do
    let rewardsPerEpoch ← BigNumber.div rewardsAvailable r.time.epochsPerFrame
    let onlyRewardPotentialEpoch ← BigNumber.div unfinalized rewardsPerEpoch
    let epochs ← BigNumber.toNumber onlyRewardPotentialEpoch
    pure (some (r.time.getFrameOfEpoch (r.time.getCurrentEpoch now + epochs) + 1))

/-- The ether that exits may release in one VEBO frame. -/
def effectiveExitEthPerVEBOFrame : ℤ :=
  let exitChurnEthPerEpoch := minActivationBalance * r.churnLimit
  let exitChurnEthPerVEBOFrame := exitChurnEthPerEpoch * r.epochsPerFrameVEBO
  let maxExitEthPerVEBOFrame : ℤ := r.maxBalanceExitRequestedPerReportInEth.eth * 10 ^ 18
  if exitChurnEthPerVEBOFrame < maxExitEthPerVEBOFrame then exitChurnEthPerVEBOFrame
  else maxExitEthPerVEBOFrame

def calculateFrameExitValidatorsCaseWithVEBO (unfinalizedETH latestEpoch rewardsAvailable : ℤ) :
    Outcome (Option ℤ) := do
  let rewardsPerEpoch ← BigNumber.div rewardsAvailable r.time.epochsPerFrame
  let rewardsEthPerVEBOFrame := rewardsPerEpoch * r.epochsPerFrameVEBO
  let totalEthPerVEBOFrame := r.effectiveExitEthPerVEBOFrame + rewardsEthPerVEBOFrame
  if totalEthPerVEBOFrame = 0 then pure none
  else do
    let fullVEBOFrames ← BigNumber.div unfinalizedETH totalEthPerVEBOFrame
    -- adding 1 because of the division rounding down
    let VEBOEpochs := (fullVEBOFrames + 1) * r.epochsPerFrameVEBO
    let potentialExitEpoch ← BigNumber.toNumber (latestEpoch + VEBOEpochs + r.sweepMeanEpochs)
    pure (some (r.time.getFrameOfEpoch potentialExitEpoch + 1))

/-- The part of `calculateWithdrawalFrame` for what the buffer and the vaults do
not cover: the least of the cases that apply. -/
def projectWithdrawalFrame (deficit latestEpoch : ℤ) : Outcome CalculateWaitingTimeV2Result := do
  let rewardsAvailable := r.rewardsAvailableForWithdrawals
  let frameByOnlyRewards ← r.calculateFrameByRewardsOnly now deficit rewardsAvailable
  let frameValidatorsBalances ← calculateFrameByValidatorBalances deficit r.frameBalances
    (r.gapAdjustedFrame now) rewardsAvailable
  let frameByExitValidatorsWithVEBO ←
    r.calculateFrameExitValidatorsCaseWithVEBO deficit latestEpoch rewardsAvailable
  reduceMinFrame
    (applicableCases frameValidatorsBalances frameByOnlyRewards frameByExitValidatorsWithVEBO)

def calculateWithdrawalFrame (args : CalculateWaitingTimeV2Args) :
    Outcome CalculateWaitingTimeV2Result :=
  let fullBuffer := args.buffer + args.vaultsBalance
  match truthyFrame (r.getFrameIsBunker now) with
  | some frame => .ok ⟨frame, .bunker⟩
  | none =>
      let currentFrame := r.gapAdjustedFrame now
      let postponed := r.isRequestShouldBePostponed now args.requestTimestamp
      -- enough buffer ether
      if args.unfinalized < args.buffer then
        .ok (if postponed then ⟨currentFrame + 2, .requestTimestampMargin⟩
          else ⟨currentFrame + 1, .buffer⟩)
      -- enough buffer and vaults balance
      else if args.unfinalized < fullBuffer then
        .ok (if postponed then ⟨currentFrame + 2, .requestTimestampMargin⟩
          else ⟨currentFrame + 1, .vaultsBalance⟩)
      else r.projectWithdrawalFrame now (args.unfinalized - fullBuffer) args.latestEpoch

end Readings

end WithdrawalsApi
