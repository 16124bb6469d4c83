/-
# The scan of logs by block steps

The logs of a range of blocks are read in steps, and a step is read again while it
has given no logs and attempts are left. An attempt that fails counts as one that
has found nothing. What is returned are the logs of all the steps.

Both loops count with doubles. Their number of attempts and the length of a step
come from the environment, whose validation lets any finite number through.

The method is a machine: its awaited calls and the two loop heads are its states.
Two counters that the code does not have number the ranges and the calls for a
range; they identify a call, so that a provider may answer the same query in
another way when it is asked again.
-/

import WithdrawalsApi.Js.Double
import WithdrawalsApi.Math.Iteration

namespace WithdrawalsApi

open Js Math.Iteration

/-! ## The environment -/

/-- The variables of the scan, as the environment has them. -/
structure ScanEnvironment where
  elRetryCount : Option (List Char) := none
  elBlockStep : Option (List Char) := none

/-- The default of `EL_RETRY_COUNT`. -/
def defaultRetryCount : Double := .ofInt 2 (by norm_num)

/-- The default of `EL_BLOCK_STEP`. -/
def defaultBlockStep : Double := .ofInt 500 (by norm_num)

/-- The validated variables of the scan. -/
structure EnvironmentVariables where
  elRetryCount : Double := defaultRetryCount
  elBlockStep : Double := defaultBlockStep

/-- `@IsOptional() @Transform(({ value }) => Number(value)) @IsNumber()`: a missing
variable keeps its default. -/
def validateNumber (default : Double) : Option (List Char) → Option Double
  | none => some default
  | some value => (JsNumber.ofText value).double?

/-- The service does not start with variables that are not accepted. -/
def validate (config : ScanEnvironment) : Option EnvironmentVariables := do
  let elRetryCount ← validateNumber defaultRetryCount config.elRetryCount
  let elBlockStep ← validateNumber defaultBlockStep config.elBlockStep
  some { elRetryCount, elBlockStep }

namespace ExecutionProvider

/-! ## The provider -/

inductive BlockTag
  | number (number : Double)
  | tag (name : List Char)

/-- The blocks of a filter; its address and topics are passed on as they are. -/
structure Filter where
  fromBlock : BlockTag
  toBlock : BlockTag

/-- A call of `getLogs`, by its range, and the calls for the range before it. -/
structure Call where
  range : ℕ
  tries : ℕ
  fromBlock : ExtendedDouble
  toBlock : ExtendedDouble

/-- What the awaited calls answer; they may reject. -/
structure Provider (Log : Type) where
  getBlock : List Char → Except (List Char) Double
  getLogs : Call → Except (List Char) (List Log)

variable {Log : Type}

def resolveBlock (provider : Provider Log) : BlockTag → Except (List Char) Double
  | .number number => .ok number
  | .tag name => provider.getBlock name

/-! ## `getLogsByBlockStepsWithRetry` -/

/-- The variables of the outer loop. -/
structure Scan (Log : Type) where
  toBlock : Double
  startBlock : ExtendedDouble
  logs : List Log
  range : ℕ

/-- The variables of the inner loop. -/
structure Attempts (Log : Type) where
  endBlock : ExtendedDouble
  attempt : ExtendedDouble
  blockLogs : List Log
  tries : ℕ

inductive State (Log : Type)
  | resolveToBlock
  | resolveFromBlock (toBlock : Double)
  | outer (scan : Scan Log)
  | inner (scan : Scan Log) (attempts : Attempts Log)
  | returned (logs : List Log)
  | rejected (reason : List Char)

/-- The last block of a step. -/
def endBlock (startBlock : ExtendedDouble) (blockStep toBlock : Double) : ExtendedDouble :=
  min ((startBlock.add blockStep).add Double.negOne) toBlock

/-- A query for a range. -/
def call (scan : Scan Log) (endBlock : ExtendedDouble) (tries : ℕ) : Call where
  range := scan.range
  tries := tries
  fromBlock := scan.startBlock
  toBlock := endBlock

/-- The logs after an answer; an error is logged, and leaves the logs as they are. -/
def logsAfter (blockLogs : List Log) : Except (List Char) (List Log) → List Log
  | .ok found => found
  | .error _ => blockLogs

/-- An attempt. -/
def attemptOnce (provider : Provider Log) (scan : Scan Log) (attempts : Attempts Log) :
    Attempts Log :=
  { attempts with
    blockLogs := logsAfter attempts.blockLogs
      (provider.getLogs (call scan attempts.endBlock attempts.tries))
    attempt := attempts.attempt.add 1
    tries := attempts.tries + 1 }

/-- The inner loop goes on. -/
def Retries (retryCount : Double) (attempts : Attempts Log) : Prop :=
  attempts.blockLogs.length = 0 ∧ attempts.attempt < retryCount

instance (retryCount : Double) (attempts : Attempts Log) :
    Decidable (Retries retryCount attempts) := inferInstanceAs (Decidable (_ ∧ _))

/-- The inner loop before its first attempt. -/
def firstAttempt (blockStep : Double) (scan : Scan Log) : Attempts Log where
  endBlock := endBlock scan.startBlock blockStep scan.toBlock
  attempt := (0 : Double)
  blockLogs := []
  tries := 0

/-- The outer loop with the logs of a step. -/
def nextScan (blockStep : Double) (scan : Scan Log) (blockLogs : List Log) : Scan Log :=
  { scan with
    logs := scan.logs ++ blockLogs
    startBlock := scan.startBlock.add blockStep
    range := scan.range + 1 }

/-- A step of the machine. -/
def step (provider : Provider Log) (filter : Filter) (retryCount blockStep : Double) :
    State Log → State Log
  | .resolveToBlock =>
      match resolveBlock provider filter.toBlock with
      | .ok toBlock => .resolveFromBlock toBlock
      | .error reason => .rejected reason
  | .resolveFromBlock toBlock =>
      match resolveBlock provider filter.fromBlock with
      | .ok fromBlock => .outer { toBlock, startBlock := fromBlock, logs := [], range := 0 }
      | .error reason => .rejected reason
  | .outer scan =>
      if scan.startBlock ≤ scan.toBlock then .inner scan (firstAttempt blockStep scan)
      else .returned scan.logs
  | .inner scan attempts =>
      if Retries retryCount attempts then .inner scan (attemptOnce provider scan attempts)
      else .outer (nextScan blockStep scan attempts.blockLogs)
  | .returned logs => .returned logs
  | .rejected reason => .rejected reason

/-- The next step calls `getLogs`. -/
def CallsGetLogs (retryCount : Double) : State Log → Prop
  | .inner _ attempts => Retries retryCount attempts
  | _ => False

section Runs

variable (provider : Provider Log) (filter : Filter) (retryCount blockStep : Double)

/-- The states of a call of the method. -/
def run (n : ℕ) : State Log := (step provider filter retryCount blockStep)^[n] .resolveToBlock

def Returns (logs : List Log) : Prop :=
  Reaches (step provider filter retryCount blockStep) .resolveToBlock (.returned logs)

def Rejects : Prop :=
  ∃ reason, Reaches (step provider filter retryCount blockStep) .resolveToBlock (.rejected reason)

/-- The method calls `getLogs` finitely often. -/
def FinitelyManyCalls : Prop :=
  {n | CallsGetLogs retryCount (run provider filter retryCount blockStep n)}.Finite

end Runs

/-! ## Steps and runs -/

variable {provider : Provider Log} {filter : Filter} {retryCount blockStep : Double}

/-- The blocks of a filter. -/
structure Resolves (provider : Provider Log) (filter : Filter) (fromBlock toBlock : Double) :
    Prop where
  from_eq : resolveBlock provider filter.fromBlock = .ok fromBlock
  to_eq : resolveBlock provider filter.toBlock = .ok toBlock

/-- The scan from which the outer loop starts. -/
def firstScan (fromBlock toBlock : Double) : Scan Log where
  toBlock := toBlock
  startBlock := fromBlock
  logs := []
  range := 0

/-- After a call that finds nothing there are no logs. -/
theorem logsAfter_nil {answer : Except (List Char) (List Log)}
    (h : ∀ found, answer = .ok found → found = []) : logsAfter [] answer = [] := by
  cases answer with
  | ok found => exact h found rfl
  | error reason => rfl

theorem step_outer {scan : Scan Log} (h : scan.startBlock ≤ scan.toBlock) :
    step provider filter retryCount blockStep (.outer scan) =
      .inner scan (firstAttempt blockStep scan) := if_pos h

theorem step_outer_end {scan : Scan Log} (h : ¬ scan.startBlock ≤ scan.toBlock) :
    step provider filter retryCount blockStep (.outer scan) = .returned scan.logs := if_neg h

theorem step_inner {scan : Scan Log} {attempts : Attempts Log} (h : Retries retryCount attempts) :
    step provider filter retryCount blockStep (.inner scan attempts) =
      .inner scan (attemptOnce provider scan attempts) := if_pos h

theorem step_inner_end {scan : Scan Log} {attempts : Attempts Log}
    (h : ¬ Retries retryCount attempts) :
    step provider filter retryCount blockStep (.inner scan attempts) =
      .outer (nextScan blockStep scan attempts.blockLogs) := if_neg h

/-- The method begins with the blocks of its filter. -/
theorem reaches_firstScan {fromBlock toBlock : Double}
    (h : Resolves provider filter fromBlock toBlock) :
    Reaches (step provider filter retryCount blockStep) .resolveToBlock
      (.outer (firstScan fromBlock toBlock)) := by
  have hto : step provider filter retryCount blockStep .resolveToBlock =
      .resolveFromBlock toBlock := by rw [step, h.to_eq]
  have hfrom : step provider filter retryCount blockStep (.resolveFromBlock toBlock) =
      .outer (firstScan fromBlock toBlock) := by
    rw [step, h.from_eq]
    rfl
  exact (Reaches.of_step hto).trans (Reaches.of_step hfrom)

end ExecutionProvider

end WithdrawalsApi
