/-
# Whether the scan of logs ends

The outer loop ends if adding the step moves every block number of the range up, and
the inner one if its attempts can be counted up to their number. A step of zero, a
negative one, or one that is lost when it is added to a block number leaves the outer
loop where it is; and past `2 ^ 53` attempts cannot be counted. The validation of the
environment lets all of these through, an empty text as zero.
-/

import WithdrawalsApi.ExecutionProvider

namespace WithdrawalsApi.ExecutionProvider

open Js Math.Iteration
open Js.Double (lastCount)

variable {Log : Type} {provider : Provider Log} {filter : Filter}
variable {retryCount blockStep fromBlock toBlock : Double}

/-- Adding the step moves up every double from one block to another. -/
def Advances (fromBlock toBlock blockStep : Double) : Prop :=
  ∀ number : Double, fromBlock ≤ number → number ≤ toBlock →
    (number : ExtendedDouble) < (number : ExtendedDouble).add blockStep

/-- A whole step is enough for block numbers. -/
theorem advances_of_one_le (hfrom : 0 ≤ fromBlock.value) (hto : toBlock.value < 2 ^ 53)
    (hstep : 1 ≤ blockStep.value) : Advances fromBlock toBlock blockStep :=
  fun _ hlower hupper =>
    ExtendedDouble.lt_add (hfrom.trans hlower) (lt_of_le_of_lt hupper hto) hstep

/-- Only a positive step advances. -/
theorem Advances.pos (h : Advances fromBlock toBlock blockStep) (hle : fromBlock ≤ toBlock) :
    0 < blockStep.value := by
  by_contra hnot
  have hback : (fromBlock : ExtendedDouble).add blockStep ≤ fromBlock := by
    rw [ExtendedDouble.add_coe, ← ExtendedDouble.ofRat_value fromBlock]
    exact ExtendedDouble.ofRat_mono (by linarith)
  exact (h fromBlock le_rfl hle).not_ge hback

/-! ## The loops end -/

/-- The inner loop ends when its counter passes the number of attempts, if not before. -/
theorem inner_ends (n : ℕ) (scan : Scan Log) (attempts : Attempts Log)
    (h : ¬ (fun attempt : ExtendedDouble => attempt.add 1)^[n] attempts.attempt < retryCount) :
    ∃ blockLogs, Reaches (step provider filter retryCount blockStep) (.inner scan attempts)
      (.outer (nextScan blockStep scan blockLogs)) := by
  induction n generalizing attempts with
  | zero =>
      have hstop : ¬ Retries retryCount attempts := fun hretries => h hretries.2
      exact ⟨_, Reaches.of_step (step_inner_end hstop)⟩
  | succ n ih =>
      by_cases hretries : Retries retryCount attempts
      · obtain ⟨blockLogs, hrest⟩ := ih (attemptOnce provider scan attempts) h
        exact ⟨blockLogs, (Reaches.of_step (step_inner hretries)).trans hrest⟩
      · exact ⟨_, Reaches.of_step (step_inner_end hretries)⟩

/-- The counter of the attempts after a number of them. -/
def counted (tries : ℕ) : ExtendedDouble :=
  (fun attempt : ExtendedDouble => attempt.add 1)^[tries] (0 : Double)

/-- Up to `2 ^ 53` attempts can be counted. -/
theorem attempts_end (h : retryCount ≤ lastCount) : ∃ tries, ¬ counted tries < retryCount := by
  have hfinite : {attempt : ExtendedDouble |
      ((0 : Double) : ExtendedDouble) ≤ attempt ∧ attempt < retryCount}.Finite :=
    (ExtendedDouble.finite_Icc 0 retryCount).subset fun _ hmem => ⟨hmem.1, hmem.2.le⟩
  refine exists_iterate_not hfinite ?_
  intro attempt hlower hupper
  obtain ⟨finite, rfl⟩ := ExtendedDouble.exists_eq_coe hlower hupper.le
  have hnonneg : (0 : Double) ≤ finite := ExtendedDouble.coe_le_coe.mp hlower
  have hlt : finite < retryCount := ExtendedDouble.coe_lt_coe.mp hupper
  have hsmall : finite.value < 2 ^ 53 := by
    rw [← Double.value_lastCount]
    exact Double.lt_iff.mp (hlt.trans_le h)
  rw [Double.le_iff, Double.value_zero] at hnonneg
  exact ExtendedDouble.lt_add hnonneg hsmall Double.value_one.ge

/-- The outer loop ends when its counter passes the last block. -/
theorem outer_ends (hretry : retryCount ≤ lastCount) (n : ℕ) (scan : Scan Log)
    (h : ¬ (fun number : ExtendedDouble => number.add blockStep)^[n] scan.startBlock ≤
      scan.toBlock) :
    ∃ logs, Reaches (step provider filter retryCount blockStep) (.outer scan)
      (.returned logs) := by
  induction n generalizing scan with
  | zero => exact ⟨_, Reaches.of_step (step_outer_end h)⟩
  | succ n ih =>
      by_cases hgoes : scan.startBlock ≤ scan.toBlock
      · obtain ⟨m, hm⟩ := attempts_end hretry
        have hinner : ∃ blockLogs, Reaches (step provider filter retryCount blockStep)
            (.inner scan (firstAttempt blockStep scan))
            (.outer (nextScan blockStep scan blockLogs)) := inner_ends m scan _ hm
        obtain ⟨blockLogs, hinner⟩ := hinner
        obtain ⟨logs, hrest⟩ := ih (nextScan blockStep scan blockLogs) h
        exact ⟨logs, ((Reaches.of_step (step_outer hgoes)).trans hinner).trans hrest⟩
      · exact ⟨_, Reaches.of_step (step_outer_end hgoes)⟩

/-- A counter that advances passes the last block. -/
theorem outer_passes (hadvances : Advances fromBlock toBlock blockStep) :
    ∃ n, ¬ (fun number : ExtendedDouble => number.add blockStep)^[n] fromBlock ≤ toBlock := by
  refine exists_iterate_not (ExtendedDouble.finite_Icc fromBlock toBlock) ?_
  intro number hlower hupper
  obtain ⟨finite, rfl⟩ := ExtendedDouble.exists_eq_coe hlower hupper
  exact hadvances finite (ExtendedDouble.coe_le_coe.mp hlower)
    (ExtendedDouble.coe_le_coe.mp hupper)

/-- The method returns, whatever the provider answers. -/
theorem exists_returns (hresolves : Resolves provider filter fromBlock toBlock)
    (hadvances : Advances fromBlock toBlock blockStep) (hretry : retryCount ≤ lastCount) :
    ∃ logs, Returns provider filter retryCount blockStep logs := by
  obtain ⟨n, hn⟩ := outer_passes hadvances
  obtain ⟨logs, hends⟩ := outer_ends hretry n (firstScan fromBlock toBlock) hn
  exact ⟨logs, (reaches_firstScan hresolves).trans hends⟩

theorem finitelyManyCalls_of_returns {logs : List Log}
    (h : Returns provider filter retryCount blockStep logs) :
    FinitelyManyCalls provider filter retryCount blockStep :=
  finite_of_reaches h rfl id

/-! ## The loops go on -/

/-- The outer loop at or below a block. -/
def AtOrBelow (number toBlock : Double) : State Log → Prop
  | .outer scan => scan.startBlock ≤ number ∧ scan.toBlock = toBlock
  | .inner scan _ => scan.startBlock ≤ number ∧ scan.toBlock = toBlock
  | _ => False

/-- A block that the step does not move up is never passed. -/
theorem atOrBelow_step {number : Double} (hle : number ≤ toBlock)
    (hstuck : (number : ExtendedDouble).add blockStep ≤ number) (state : State Log)
    (h : AtOrBelow number toBlock state) :
    AtOrBelow number toBlock (step provider filter retryCount blockStep state) := by
  match state with
  | .outer scan =>
      have hgoes : scan.startBlock ≤ scan.toBlock := by
        rw [h.2]
        exact h.1.trans (ExtendedDouble.coe_le_coe.mpr hle)
      rw [step_outer hgoes]
      exact h
  | .inner scan attempts =>
      by_cases hretries : Retries retryCount attempts
      · rw [step_inner hretries]
        exact h
      · rw [step_inner_end hretries]
        exact ⟨(ExtendedDouble.add_mono blockStep h.1).trans hstuck, h.2⟩

/-- Before the first attempt at a range there is one. -/
theorem retries_firstAttempt (hpos : 0 < retryCount) (scan : Scan Log) :
    Retries retryCount (firstAttempt blockStep scan) :=
  ⟨rfl, ExtendedDouble.coe_lt_coe.mpr hpos⟩

theorem atOrBelow_calls {number : Double} (hle : number ≤ toBlock) (hpos : 0 < retryCount)
    (hstuck : (number : ExtendedDouble).add blockStep ≤ number) (state : State Log)
    (h : AtOrBelow number toBlock state) :
    ∃ n, CallsGetLogs retryCount ((step provider filter retryCount blockStep)^[n] state) := by
  have hnext {scan : Scan Log} (hscan : AtOrBelow number toBlock (.outer scan)) :
      CallsGetLogs retryCount (step provider filter retryCount blockStep (.outer scan)) := by
    have hgoes : scan.startBlock ≤ scan.toBlock := by
      rw [hscan.2]
      exact hscan.1.trans (ExtendedDouble.coe_le_coe.mpr hle)
    rw [step_outer hgoes]
    exact retries_firstAttempt hpos scan
  match state with
  | .outer scan => exact ⟨1, hnext h⟩
  | .inner scan attempts =>
      by_cases hretries : Retries retryCount attempts
      · exact ⟨0, hretries⟩
      · have hafter : AtOrBelow number toBlock
            (step provider filter retryCount blockStep (.inner scan attempts)) :=
          atOrBelow_step hle hstuck _ h
        refine ⟨2, ?_⟩
        rw [Function.iterate_succ_apply, Function.iterate_one]
        rw [step_inner_end hretries] at hafter ⊢
        exact hnext hafter

/-- Where the step is lost, calls recur forever, whatever the provider answers. -/
theorem not_finitelyManyCalls_of_not_advances
    (hresolves : Resolves provider filter fromBlock toBlock) (hpos : 0 < retryCount)
    (h : ¬ Advances fromBlock toBlock blockStep) :
    ¬ FinitelyManyCalls provider filter retryCount blockStep := by
  have hstuck : ∃ number : Double, fromBlock ≤ number ∧ number ≤ toBlock ∧
      (number : ExtendedDouble).add blockStep ≤ number := by
    simpa only [Advances, not_forall, exists_prop, not_lt] using h
  obtain ⟨number, hlower, hupper, hstuck⟩ := hstuck
  have hfirst : AtOrBelow number toBlock (.outer (firstScan fromBlock toBlock) : State Log) :=
    ⟨ExtendedDouble.coe_le_coe.mpr hlower, rfl⟩
  exact infinite_of_closed (atOrBelow_step hupper hstuck) (atOrBelow_calls hupper hpos hstuck)
    (reaches_firstScan hresolves) hfirst

/-- The calls for a range find nothing, or fail. -/
def FindsNothing (provider : Provider Log) (scan : Scan Log) (endBlock : ExtendedDouble) : Prop :=
  ∀ tries blockLogs, provider.getLogs (call scan endBlock tries) = .ok blockLogs → blockLogs = []

/-- Attempts at a range that have found nothing, and have not been counted past `2 ^ 53`. -/
def InVain (scan : Scan Log) (endBlock : ExtendedDouble) : State Log → Prop
  | .inner current attempts => current = scan ∧ attempts.endBlock = endBlock ∧
      attempts.blockLogs = [] ∧ attempts.attempt ≤ lastCount
  | _ => False

theorem inVain_calls {scan : Scan Log} {endBlock : ExtendedDouble}
    (hretry : lastCount < retryCount) (state : State Log) (h : InVain scan endBlock state) :
    CallsGetLogs retryCount state := by
  match state with
  | .inner current attempts =>
      obtain ⟨-, -, hempty, hattempt⟩ := h
      refine ⟨by rw [hempty]; rfl, ?_⟩
      exact hattempt.trans_lt (ExtendedDouble.coe_lt_coe.mpr hretry)

/-- Attempts in vain stay in vain. -/
theorem inVain_step {scan : Scan Log} {endBlock : ExtendedDouble}
    (hretry : lastCount < retryCount) (hnothing : FindsNothing provider scan endBlock)
    (state : State Log) (h : InVain scan endBlock state) :
    InVain scan endBlock (step provider filter retryCount blockStep state) := by
  have hretries := inVain_calls hretry state h
  match state with
  | .inner current attempts =>
      obtain ⟨rfl, rfl, hempty, hattempt⟩ := h
      rw [step_inner hretries]
      refine ⟨rfl, rfl, ?_, (ExtendedDouble.add_mono 1 hattempt).trans
        ExtendedDouble.add_one_lastCount.le⟩
      rw [attemptOnce, hempty]
      exact logsAfter_nil (hnothing attempts.tries)

theorem inVain_firstAttempt (scan : Scan Log) :
    InVain scan (endBlock scan.startBlock blockStep scan.toBlock)
      (.inner scan (firstAttempt blockStep scan)) :=
  ⟨rfl, rfl, rfl, ExtendedDouble.coe_le_coe.mpr Double.zero_le_lastCount⟩

/-- A provider that rejects every query. -/
def rejecting (Log : Type) : Provider Log where
  getBlock _ := .error "SERVER_ERROR".toList
  getLogs _ := .error "SERVER_ERROR".toList

/-- The range of two blocks. -/
def numberFilter (fromBlock toBlock : Double) : Filter where
  fromBlock := .number fromBlock
  toBlock := .number toBlock

theorem resolves_numberFilter (provider : Provider Log) (fromBlock toBlock : Double) :
    Resolves provider (numberFilter fromBlock toBlock) fromBlock toBlock := ⟨rfl, rfl⟩

/-- Attempts that cannot be counted are made forever, when all of them fail. -/
theorem not_finitelyManyCalls_of_lastCount_lt (hle : fromBlock ≤ toBlock)
    (hretry : lastCount < retryCount) :
    ¬ FinitelyManyCalls (rejecting Log) (numberFilter fromBlock toBlock) retryCount blockStep := by
  let scan : Scan Log := firstScan fromBlock toBlock
  have hstart : scan.startBlock ≤ scan.toBlock := ExtendedDouble.coe_le_coe.mpr hle
  have hnothing : FindsNothing (rejecting Log) scan
      (endBlock scan.startBlock blockStep scan.toBlock) := fun _ _ h => nomatch h
  exact infinite_of_closed (inVain_step hretry hnothing)
    (fun state h => ⟨0, inVain_calls hretry state h⟩)
    ((reaches_firstScan (resolves_numberFilter _ _ _)).trans (Reaches.of_step (step_outer hstart)))
    (inVain_firstAttempt scan)

/-- No attempt is left. -/
def NoAttempt (retryCount : Double) : State Log → Prop
  | .inner _ attempts => (retryCount : ExtendedDouble) ≤ attempts.attempt
  | _ => True

theorem noAttempt_step (hretry : retryCount ≤ 0) (state : State Log)
    (h : NoAttempt retryCount state) :
    NoAttempt retryCount (step provider filter retryCount blockStep state) := by
  match state with
  | .resolveToBlock =>
      rw [step]
      split <;> trivial
  | .resolveFromBlock _ =>
      rw [step]
      split <;> trivial
  | .outer scan =>
      by_cases hgoes : scan.startBlock ≤ scan.toBlock
      · rw [step_outer hgoes]
        exact ExtendedDouble.coe_le_coe.mpr hretry
      · rw [step_outer_end hgoes]
        trivial
  | .inner scan attempts =>
      have hstop : ¬ Retries retryCount attempts := fun hretries => hretries.2.not_ge h
      rw [step_inner_end hstop]
      trivial
  | .returned _ | .rejected _ => trivial

/-- Without attempts there are no calls. -/
theorem finitelyManyCalls_of_nonpos (hretry : retryCount ≤ 0) :
    FinitelyManyCalls provider filter retryCount blockStep := by
  refine Set.finite_empty.subset fun n hcalls => ?_
  have hno : NoAttempt retryCount (run provider filter retryCount blockStep n) :=
    Reaches.mem_of_closed (noAttempt_step hretry) ⟨n, rfl⟩ trivial
  have hcalls : CallsGetLogs retryCount (run provider filter retryCount blockStep n) := hcalls
  match hstate : run provider filter retryCount blockStep n with
  | .inner scan attempts =>
      rw [hstate] at hno hcalls
      exact hcalls.2.not_ge hno
  | .resolveToBlock | .resolveFromBlock _ | .outer _ | .returned _ | .rejected _ =>
      rw [hstate] at hcalls
      exact hcalls.elim

/-! ## The variables of the environment -/

/-- **A scan makes finitely many calls**, whatever the provider answers, exactly when it
makes no attempts, or its step moves up every block number of the range and its attempts
can be counted. -/
theorem finitelyManyCalls_iff (settings : EnvironmentVariables) (hle : fromBlock ≤ toBlock) :
    (∀ (provider : Provider Log) (filter : Filter), Resolves provider filter fromBlock toBlock →
      FinitelyManyCalls provider filter settings.elRetryCount settings.elBlockStep) ↔
    settings.elRetryCount ≤ 0 ∨
      Advances fromBlock toBlock settings.elBlockStep ∧ settings.elRetryCount ≤ lastCount := by
  constructor
  · intro hfinite
    by_contra hnot
    rw [not_or, not_and_or, not_le, not_le] at hnot
    obtain ⟨hpos, hstuck | hmany⟩ := hnot
    · have hresolves := resolves_numberFilter (rejecting Log) fromBlock toBlock
      exact not_finitelyManyCalls_of_not_advances hresolves hpos hstuck (hfinite _ _ hresolves)
    · exact not_finitelyManyCalls_of_lastCount_lt hle hmany
        (hfinite _ _ (resolves_numberFilter _ _ _))
  · rintro (hnone | ⟨hadvances, hcount⟩) provider filter hresolves
    · exact finitelyManyCalls_of_nonpos hnone
    · obtain ⟨logs, hreturns⟩ := exists_returns hresolves hadvances hcount
      exact finitelyManyCalls_of_returns hreturns

/-- The first of the blocks 20000000 to 20050400. -/
def firstOfWeek : Double := .ofInt 20000000 (by norm_num)

/-- The last of the blocks 20000000 to 20050400. -/
def lastOfWeek : Double := .ofInt 20050400 (by norm_num)

theorem firstOfWeek_le_lastOfWeek : firstOfWeek ≤ lastOfWeek := by
  simp only [Double.le_iff, firstOfWeek, lastOfWeek, Double.value_ofInt]
  norm_num

theorem defaultRetryCount_le : defaultRetryCount ≤ lastCount := by
  rw [Double.le_iff, Double.value_lastCount, defaultRetryCount, Double.value_ofInt]
  norm_num

/-- With the defaults the blocks of a week are scanned in finitely many calls. -/
theorem finitelyManyCalls_iff_defaults :
    FinitelyManyCalls (rejecting Unit) (numberFilter firstOfWeek lastOfWeek)
      defaultRetryCount defaultBlockStep := by
  have hadvances : Advances firstOfWeek lastOfWeek defaultBlockStep := by
    apply advances_of_one_le <;>
      simp only [firstOfWeek, lastOfWeek, defaultBlockStep, Double.value_ofInt] <;> norm_num
  exact (finitelyManyCalls_iff {} firstOfWeek_le_lastOfWeek).mpr
    (Or.inr ⟨hadvances, defaultRetryCount_le⟩) _ _ (resolves_numberFilter _ _ _)

/-- An empty text is accepted as a step of zero. -/
theorem validate_emptyBlockStep :
    validate { elBlockStep := some [] } = some { elBlockStep := 0 } := by
  have hempty : (JsNumber.ofText []).double? = some 0 := by
    have hzero : JsNumber.ofText [] = .finite (0 : Double).value := by
      rw [JsNumber.ofText_nil, Nat.cast_zero, Double.value_zero]
    rw [hzero, JsNumber.double?_value]
  simp only [validate, validateNumber, hempty, Option.bind_eq_bind, Option.bind_some]

/-- With an empty `EL_BLOCK_STEP` the first range is read forever. -/
theorem not_finitelyManyCalls_emptyBlockStep :
    ¬ ∀ (config : ScanEnvironment) (settings : EnvironmentVariables),
      validate config = some settings →
        ∀ (fromBlock toBlock : Double), fromBlock ≤ toBlock →
          ∀ (provider : Provider Unit) (filter : Filter),
            Resolves provider filter fromBlock toBlock →
              FinitelyManyCalls provider filter settings.elRetryCount settings.elBlockStep := by
  intro h
  have hresolves := resolves_numberFilter (rejecting Unit) firstOfWeek lastOfWeek
  have hpos : 0 < defaultRetryCount := by
    rw [Double.lt_iff, Double.value_zero, defaultRetryCount, Double.value_ofInt]
    norm_num
  have hstuck : ¬ Advances firstOfWeek lastOfWeek 0 := by
    intro hadvances
    have hmoves := hadvances firstOfWeek le_rfl firstOfWeek_le_lastOfWeek
    have hsame : (firstOfWeek : ExtendedDouble).add 0 = firstOfWeek :=
      ExtendedDouble.add_eq_of_value (by rw [Double.value_zero, add_zero])
    exact hmoves.ne' hsame
  exact not_finitelyManyCalls_of_not_advances hresolves hpos hstuck
    (h _ _ validate_emptyBlockStep _ _ firstOfWeek_le_lastOfWeek _ _ hresolves)

end WithdrawalsApi.ExecutionProvider
