/-
# Whether a scan of logs is complete

A range that has been read gives the matching logs of its blocks. The ranges of a
scan do not overlap, and with a whole step they leave no block out; a fraction of
a step may leave blocks out between two ranges.

An attempt that fails is taken for one that finds nothing, and the call never
rejects once the blocks of its filter are known. It therefore returns all logs
exactly when every range is read by one of its attempts, and every block with logs
is in a range; and it does not return if a range without logs is tried more often
than attempts can be counted.
-/

import WithdrawalsApi.ExecutionProvider.Termination
import WithdrawalsApi.Js.Outcome
import Mathlib.Data.List.Sort
import Mathlib.Order.Iterate

namespace WithdrawalsApi.ExecutionProvider

open Js Math.Iteration
open Js.Double (lastCount)

variable {Log : Type}

/-! ## Blocks and their logs -/

/-- The number of a block, which is a safe integer. -/
structure BlockNumber where
  number : ℕ
  safe : (number : ℤ) ≤ maxSafeInteger

theorem BlockNumber.abs_le (block : BlockNumber) : |(block.number : ℤ)| ≤ 2 ^ 53 := by
  have hsafe := block.safe
  rw [maxSafeInteger] at hsafe
  rw [abs_of_nonneg (by omega)]
  omega

def BlockNumber.toDouble (block : BlockNumber) : Double :=
  .ofInt block.number block.abs_le

/-- The blocks of a range in ascending order. -/
def blocksBetween : ExtendedDouble → ExtendedDouble → List ℕ
  | some (some fromBlock), some (some toBlock) =>
      (List.range (⌊toBlock.value⌋₊ + 1)).filter fun block =>
        fromBlock.value ≤ block ∧ block ≤ toBlock.value
  | _, _ => []

/-- The matching logs of a range, where `matching` has those of each block. -/
def matchingLogs (matching : ℕ → List Log) (fromBlock toBlock : ExtendedDouble) : List Log :=
  (blocksBetween fromBlock toBlock).flatMap matching

/-- A query that succeeds gives exactly the matching logs of its range. -/
def ReadsExactly (provider : Provider Log) (matching : ℕ → List Log) : Prop :=
  ∀ call logs, provider.getLogs call = .ok logs →
    logs = matchingLogs matching call.fromBlock call.toBlock

/-! ## The ranges of a scan -/

/-- The first block of the range with an index. -/
def rangeStart (fromBlock blockStep : Double) (range : ℕ) : ExtendedDouble :=
  (fun number : ExtendedDouble => number.add blockStep)^[range] fromBlock

/-- The last block of the range with an index. -/
def rangeEnd (fromBlock toBlock blockStep : Double) (range : ℕ) : ExtendedDouble :=
  endBlock (rangeStart fromBlock blockStep range) blockStep toBlock

/-- The blocks of the range with an index. -/
def rangeBlocks (fromBlock toBlock blockStep : Double) (range : ℕ) : List ℕ :=
  blocksBetween (rangeStart fromBlock blockStep range) (rangeEnd fromBlock toBlock blockStep range)

/-- A query for the range with an index. -/
def rangeCall (fromBlock toBlock blockStep : Double) (range tries : ℕ) : Call where
  range := range
  tries := tries
  fromBlock := rangeStart fromBlock blockStep range
  toBlock := rangeEnd fromBlock toBlock blockStep range

section Scans

variable (provider : Provider Log) (matching : ℕ → List Log) (filter : Filter)
variable (fromBlock toBlock retryCount blockStep : Double)

/-- One of the attempts at a range succeeds. -/
def IsRead (range : ℕ) : Prop :=
  ∃ tries : ℕ, tries < retryCount.value ∧ ∃ logs,
    provider.getLogs (rangeCall fromBlock toBlock blockStep range tries) = .ok logs

/-- Every range is read. -/
def AllRead : Prop :=
  ∀ range, rangeStart fromBlock blockStep range ≤ toBlock →
    IsRead provider fromBlock toBlock retryCount blockStep range

/-- Every block with logs is in a range. -/
def NoneSkipped : Prop :=
  ∀ block ∈ blocksBetween fromBlock toBlock, matching block ≠ [] →
    ∃ range, block ∈ rangeBlocks fromBlock toBlock blockStep range

/-- A range has no logs, and its attempts cannot be counted. -/
def Stalls : Prop :=
  lastCount < retryCount ∧ ∃ range, rangeStart fromBlock blockStep range ≤ toBlock ∧
    (rangeBlocks fromBlock toBlock blockStep range).flatMap matching = []

/-- What is returned is complete, and the call rejects when a range cannot be read. -/
structure CompleteOrFails : Prop where
  complete : ∀ logs, Returns provider filter retryCount blockStep logs →
    logs = matchingLogs matching fromBlock toBlock
  fails : (∃ range, rangeStart fromBlock blockStep range ≤ toBlock ∧
    ¬ IsRead provider fromBlock toBlock retryCount blockStep range) →
      Rejects provider filter retryCount blockStep

end Scans

variable {provider : Provider Log} {matching : ℕ → List Log} {filter : Filter}
variable {fromBlock toBlock retryCount blockStep : Double}

/-! ## The ranges do not overlap -/

theorem mem_blocksBetween {first last : Double} {block : ℕ} :
    block ∈ blocksBetween first last ↔ first.value ≤ block ∧ (block : ℚ) ≤ last.value := by
  change block ∈ (List.range (⌊last.value⌋₊ + 1)).filter _ ↔ _
  rw [List.mem_filter, List.mem_range, decide_eq_true_iff, Nat.lt_succ_iff]
  exact ⟨And.right, fun h => ⟨Nat.le_floor h.2, h⟩⟩

/-- What is in a range lies between finite ends. -/
theorem exists_of_mem_blocksBetween {first last : ExtendedDouble} {block : ℕ}
    (h : block ∈ blocksBetween first last) : ∃ lower upper : Double, first = lower ∧
      last = upper ∧ lower.value ≤ block ∧ (block : ℚ) ≤ upper.value := by
  match first, last with
  | some (some lower), some (some upper) => exact ⟨lower, upper, rfl, rfl, mem_blocksBetween.mp h⟩
  | none, _ => cases h
  | some none, _ => cases h
  | some (some _), none => cases h
  | some (some _), some none => cases h

theorem pairwise_blocksBetween (first last : ExtendedDouble) :
    (blocksBetween first last).Pairwise (· < ·) := by
  unfold blocksBetween
  split
  · exact List.pairwise_lt_range.filter _
  · exact List.Pairwise.nil

theorem rangeStart_succ (range : ℕ) : rangeStart fromBlock blockStep (range + 1) =
    (rangeStart fromBlock blockStep range).add blockStep :=
  Function.iterate_succ_apply' _ _ _

/-- What a block in a range satisfies. -/
theorem exists_rangeStart_eq {range block : ℕ}
    (h : block ∈ rangeBlocks fromBlock toBlock blockStep range) :
    ∃ start : Double, rangeStart fromBlock blockStep range = start ∧ start.value ≤ block ∧
      (block : ℚ) ≤ toBlock.value := by
  obtain ⟨start, last, hstart, hlast, hlower, hupper⟩ := exists_of_mem_blocksBetween h
  refine ⟨start, hstart, hlower, hupper.trans ?_⟩
  have hle : rangeEnd fromBlock toBlock blockStep range ≤ toBlock := min_le_right _ _
  rw [hlast] at hle
  exact ExtendedDouble.coe_le_coe.mp hle

/-- Only a range that starts within the scan has blocks. -/
theorem rangeStart_le_of_mem {range block : ℕ}
    (h : block ∈ rangeBlocks fromBlock toBlock blockStep range) :
    rangeStart fromBlock blockStep range ≤ toBlock := by
  obtain ⟨start, hstart, hlower, hupper⟩ := exists_rangeStart_eq h
  rw [hstart]
  exact ExtendedDouble.coe_le_coe.mpr (hlower.trans hupper)

/-- A scan that goes forward through numbers that can be counted. -/
structure GoesForward (fromBlock toBlock blockStep : Double) : Prop where
  from_nonneg : 0 ≤ fromBlock.value
  from_le : fromBlock ≤ toBlock
  to_lt : toBlock.value < 2 ^ 53
  one_le : 1 ≤ blockStep.value

theorem GoesForward.advances (h : GoesForward fromBlock toBlock blockStep) :
    Advances fromBlock toBlock blockStep :=
  advances_of_one_le h.from_nonneg h.to_lt h.one_le

section Ranges

variable (hforward : GoesForward fromBlock toBlock blockStep)

include hforward

theorem rangeStart_mono : Monotone (rangeStart fromBlock blockStep) := by
  have hfirst : (fromBlock : ExtendedDouble) ≤ (fromBlock : ExtendedDouble).add blockStep :=
    (hforward.advances fromBlock le_rfl hforward.from_le).le
  exact Monotone.monotone_iterate_of_le_map (ExtendedDouble.add_mono blockStep) hfirst

/-- A range ends before the next one starts. -/
theorem lt_rangeStart_succ {range block : ℕ} {next : Double}
    (hmem : block ∈ rangeBlocks fromBlock toBlock blockStep range)
    (hnext : rangeStart fromBlock blockStep (range + 1) = next) (hsmall : next ≤ toBlock) :
    (block : ℚ) < next.value := by
  obtain ⟨start, last, hstart, hlast, hlower, hupper⟩ := exists_of_mem_blocksBetween hmem
  have hnonneg : 0 ≤ next.value := by
    have hmono := rangeStart_mono hforward (Nat.zero_le (range + 1))
    rw [hnext] at hmono
    exact hforward.from_nonneg.trans (ExtendedDouble.coe_le_coe.mp hmono)
  have hceil : ⌈next.value⌉ ≤ 2 ^ 53 := by
    rw [Int.ceil_le]
    push_cast
    exact ((Double.le_iff.mp hsmall).trans_lt hforward.to_lt).le
  have hceilNonneg : 0 ≤ ⌈next.value⌉ := Int.ceil_nonneg hnonneg
  have hbits : |⌈next.value⌉ - 1| ≤ 2 ^ 53 := abs_le.mpr ⟨by omega, by omega⟩
  have hend : (last : ExtendedDouble) ≤ Double.ofInt (⌈next.value⌉ - 1) hbits := by
    have hmin : rangeEnd fromBlock toBlock blockStep range ≤
        ((rangeStart fromBlock blockStep range).add blockStep).add Double.negOne :=
      min_le_left _ _
    rw [hlast, ← rangeStart_succ, hnext] at hmin
    refine hmin.trans (ExtendedDouble.add_negOne_le hbits ?_)
    push_cast
    linarith [Int.le_ceil next.value]
  have hblock : (block : ℚ) ≤ ((⌈next.value⌉ - 1 : ℤ) : ℚ) :=
    hupper.trans (ExtendedDouble.coe_le_coe.mp hend)
  have hlt := Int.ceil_lt_add_one next.value
  push_cast at hblock
  linarith

/-- The blocks of the ranges ascend. -/
theorem lt_of_mem_rangeBlocks {first second a b : ℕ} (hlt : first < second)
    (ha : a ∈ rangeBlocks fromBlock toBlock blockStep first)
    (hb : b ∈ rangeBlocks fromBlock toBlock blockStep second) : a < b := by
  obtain ⟨start, hstart, hlower, hupper⟩ := exists_rangeStart_eq hb
  have hmono := rangeStart_mono hforward
  have hnextLe : rangeStart fromBlock blockStep (first + 1) ≤ start := by
    rw [← hstart]
    exact hmono (Nat.succ_le_of_lt hlt)
  have hfirstLe : (fromBlock : ExtendedDouble) ≤ rangeStart fromBlock blockStep (first + 1) :=
    hmono (Nat.zero_le _)
  obtain ⟨next, hnext⟩ := ExtendedDouble.exists_eq_coe hfirstLe hnextLe
  rw [hnext] at hnextLe
  have hvalue : next.value ≤ start.value := ExtendedDouble.coe_le_coe.mp hnextLe
  have hbefore := lt_rangeStart_succ hforward ha hnext
    (hvalue.trans (hlower.trans hupper))
  exact_mod_cast (hbefore.trans_le hvalue).trans_le hlower

/-- The blocks of the ranges are blocks of the scan. -/
theorem mem_blocksBetween_of_mem {range block : ℕ}
    (h : block ∈ rangeBlocks fromBlock toBlock blockStep range) :
    block ∈ blocksBetween fromBlock toBlock := by
  obtain ⟨start, hstart, hlower, hupper⟩ := exists_rangeStart_eq h
  have hmono := rangeStart_mono hforward (Nat.zero_le range)
  rw [hstart] at hmono
  have hvalue : fromBlock.value ≤ start.value := ExtendedDouble.coe_le_coe.mp hmono
  exact mem_blocksBetween.mpr ⟨hvalue.trans hlower, hupper⟩

/-- The blocks of the ranges up to the end are the blocks of the scan that are in a range. -/
theorem flatMap_rangeBlocks [DecidablePred fun block => ∃ range,
    block ∈ rangeBlocks fromBlock toBlock blockStep range] {ranges : ℕ}
    (hend : ¬ rangeStart fromBlock blockStep ranges ≤ toBlock) :
    (List.range ranges).flatMap (rangeBlocks fromBlock toBlock blockStep) =
      (blocksBetween fromBlock toBlock).filter fun block => ∃ range,
        block ∈ rangeBlocks fromBlock toBlock blockStep range := by
  refine List.Pairwise.eq_of_mem_iff (r := (· < ·)) ?_ ?_ ?_
  · rw [List.pairwise_flatMap]
    refine ⟨fun _ _ => pairwise_blocksBetween _ _, List.pairwise_lt_range.imp ?_⟩
    intro first second hlt a ha b hb
    exact lt_of_mem_rangeBlocks hforward hlt ha hb
  · exact (pairwise_blocksBetween _ _).filter _
  · intro block
    rw [List.mem_flatMap, List.mem_filter, decide_eq_true_iff]
    constructor
    · rintro ⟨range, -, hmem⟩
      exact ⟨mem_blocksBetween_of_mem hforward hmem, range, hmem⟩
    · rintro ⟨-, range, hmem⟩
      refine ⟨range, List.mem_range.mpr (not_le.mp fun hge => hend ?_), hmem⟩
      exact (rangeStart_mono hforward hge).trans (rangeStart_le_of_mem hmem)

end Ranges

/-- Leaving out items changes what they are mapped to, unless that is nothing. -/
theorem flatMap_filter_eq_iff {α β : Type} {f : α → List β} {p : α → Bool} {items : List α} :
    (items.filter p).flatMap f = items.flatMap f ↔ ∀ item ∈ items, f item ≠ [] → p item := by
  induction items with
  | nil => simp
  | cons item items ih =>
      rw [List.forall_mem_cons, ← ih, List.flatMap_cons]
      by_cases hp : p item
      · rw [List.filter_cons_of_pos hp, List.flatMap_cons, List.append_cancel_left_eq]
        simp [hp]
      · rw [List.filter_cons_of_neg hp]
        have hsublist : List.Sublist ((items.filter p).flatMap f) (items.flatMap f) :=
          List.filter_sublist.flatMap f
        constructor
        · intro heq
          have hlength := hsublist.length_le
          rw [heq, List.length_append] at hlength
          have hnil : f item = [] := List.length_eq_zero_iff.mp (by omega)
          rw [hnil, List.nil_append] at heq
          exact ⟨fun hne => absurd hnil hne, heq⟩
        · rintro ⟨hitem, heq⟩
          have hnil : f item = [] := not_not.mp fun hne => hp (hitem hne)
          rw [hnil, List.nil_append, heq]

/-! ## The inner loop -/

theorem counted_succ (tries : ℕ) : counted (tries + 1) = (counted tries).add 1 :=
  Function.iterate_succ_apply' _ _ _

/-- The counter is the number of attempts, as long as this can be counted. -/
theorem counted_eq {tries : ℕ} (h : |(tries : ℤ)| ≤ 2 ^ 53) :
    counted tries = Double.ofInt tries h := by
  induction tries with
  | zero => rfl
  | succ tries ih =>
      have hbefore : |(tries : ℤ)| ≤ 2 ^ 53 := by
        rw [abs_of_nonneg (by omega)] at h ⊢
        omega
      rw [counted_succ, ih hbefore]
      apply ExtendedDouble.add_eq_of_value
      rw [Double.value_ofInt, Double.value_ofInt, Double.value_one]
      push_cast
      rfl

theorem counted_le (tries : ℕ) : counted tries ≤ lastCount := by
  induction tries with
  | zero => exact ExtendedDouble.coe_le_coe.mpr Double.zero_le_lastCount
  | succ tries ih =>
      rw [counted_succ]
      exact (ExtendedDouble.add_mono 1 ih).trans ExtendedDouble.add_one_lastCount.le

/-- An attempt below the number of attempts is made. -/
theorem counted_lt {tries : ℕ} (h : tries < retryCount.value) : counted tries < retryCount := by
  by_cases hbits : |(tries : ℤ)| ≤ 2 ^ 53
  · rw [counted_eq hbits]
    refine ExtendedDouble.coe_lt_coe.mpr ?_
    rw [Double.lt_iff, Double.value_ofInt]
    exact_mod_cast h
  · refine (counted_le tries).trans_lt (ExtendedDouble.coe_lt_coe.mpr ?_)
    have hlarge : 2 ^ 53 < tries := by
      rw [abs_of_nonneg (by omega)] at hbits
      omega
    rw [Double.lt_iff, Double.value_lastCount]
    exact lt_trans (by exact_mod_cast hlarge) h

/-- The inner loop after a number of attempts that have found nothing. -/
def triedInVain (blockStep : Double) (scan : Scan Log) (tries : ℕ) : Attempts Log where
  endBlock := endBlock scan.startBlock blockStep scan.toBlock
  attempt := counted tries
  blockLogs := []
  tries := tries

theorem retries_triedInVain {scan : Scan Log} {tries : ℕ} (h : counted tries < retryCount) :
    Retries retryCount (triedInVain blockStep scan tries) := ⟨rfl, h⟩

/-- An attempt at a range succeeds with the logs of the range, or fails. -/
theorem step_triedInVain {scan : Scan Log} {tries : ℕ} (h : counted tries < retryCount) :
    step provider filter retryCount blockStep (.inner scan (triedInVain blockStep scan tries)) =
      .inner scan { triedInVain blockStep scan (tries + 1) with
        blockLogs := logsAfter [] (provider.getLogs
          (call scan (endBlock scan.startBlock blockStep scan.toBlock) tries)) } := by
  rw [step_inner (retries_triedInVain h), attemptOnce]
  simp only [triedInVain, counted_succ]

/-- Attempts that find nothing go on, as long as there are any. -/
theorem reaches_triedInVain {scan : Scan Log} (tries : ℕ)
    (hnothing : ∀ k < tries, ∀ found, provider.getLogs
      (call scan (endBlock scan.startBlock blockStep scan.toBlock) k) = .ok found → found = [])
    (hcount : ∀ k < tries, counted k < retryCount) :
    Reaches (step provider filter retryCount blockStep)
      (.inner scan (firstAttempt blockStep scan))
      (.inner scan (triedInVain blockStep scan tries)) := by
  induction tries with
  | zero => exact Reaches.refl _ _
  | succ tries ih =>
      have hbefore := ih (fun k hk => hnothing k (by omega)) (fun k hk => hcount k (by omega))
      refine hbefore.trans (Reaches.of_step ?_)
      rw [step_triedInVain (hcount tries (by omega)), logsAfter_nil (hnothing tries (by omega))]
      rfl

/-- A range at which nothing is found is given up, if its attempts can be counted. -/
theorem inner_givesUp {scan : Scan Log} (hretry : retryCount ≤ lastCount)
    (hnothing : FindsNothing provider scan (endBlock scan.startBlock blockStep scan.toBlock)) :
    Reaches (step provider filter retryCount blockStep)
      (.inner scan (firstAttempt blockStep scan)) (.outer (nextScan blockStep scan [])) := by
  have hexists : ∃ tries, ¬ counted tries < retryCount := attempts_end hretry
  have hbefore : ∀ k < Nat.find hexists, counted k < retryCount :=
    fun k hk => not_not.mp (Nat.find_min hexists hk)
  have hstop : ¬ Retries retryCount (triedInVain blockStep scan (Nat.find hexists)) :=
    fun hretries => Nat.find_spec hexists hretries.2
  exact (reaches_triedInVain (Nat.find hexists) (fun k _ => hnothing k) hbefore).trans
    (Reaches.of_step (step_inner_end hstop))

/-- The inner loop ends with the first logs that are found. -/
theorem inner_finds {scan : Scan Log} {tries : ℕ} {logs : List Log}
    (hlast : tries < retryCount.value) (hlogs : logs ≠ [])
    (hnothing : ∀ k < tries, ∀ found, provider.getLogs
      (call scan (endBlock scan.startBlock blockStep scan.toBlock) k) = .ok found → found = [])
    (hquery : provider.getLogs
      (call scan (endBlock scan.startBlock blockStep scan.toBlock) tries) = .ok logs) :
    Reaches (step provider filter retryCount blockStep)
      (.inner scan (firstAttempt blockStep scan)) (.outer (nextScan blockStep scan logs)) := by
  have hbefore : ∀ k < tries, counted k < retryCount := fun k hk =>
    counted_lt (lt_trans (by exact_mod_cast hk) hlast)
  refine (reaches_triedInVain tries hnothing hbefore).trans ?_
  refine (Reaches.of_step (step_triedInVain (counted_lt hlast))).trans (Reaches.of_step ?_)
  rw [hquery, step_inner_end]
  · rfl
  · exact fun hretries => hlogs (List.length_eq_zero_iff.mp hretries.1)

/-! ## The outer loop -/

/-- The logs of the range with an index. -/
def rangeLogs (matching : ℕ → List Log) (fromBlock toBlock blockStep : Double) (range : ℕ) :
    List Log :=
  (rangeBlocks fromBlock toBlock blockStep range).flatMap matching

/-- The scan with the logs of the ranges before an index. -/
def scanAt (matching : ℕ → List Log) (fromBlock toBlock blockStep : Double) (range : ℕ) :
    Scan Log where
  toBlock := toBlock
  startBlock := rangeStart fromBlock blockStep range
  logs := (List.range range).flatMap (rangeLogs matching fromBlock toBlock blockStep)
  range := range

theorem nextScan_scanAt (range : ℕ) :
    nextScan blockStep (scanAt matching fromBlock toBlock blockStep range)
      (rangeLogs matching fromBlock toBlock blockStep range) =
      scanAt matching fromBlock toBlock blockStep (range + 1) := by
  simp only [nextScan, scanAt, rangeStart_succ, List.range_succ, List.flatMap_append,
    List.flatMap_singleton]

/-- A range whose logs are found, or that has none and is given up, is passed with its logs. -/
theorem reaches_scanAt_succ (hreads : ReadsExactly provider matching) {range : ℕ}
    (hwithin : rangeStart fromBlock blockStep range ≤ toBlock)
    (hread : IsRead provider fromBlock toBlock retryCount blockStep range)
    (hends : rangeLogs matching fromBlock toBlock blockStep range ≠ [] ∨ retryCount ≤ lastCount) :
    Reaches (step provider filter retryCount blockStep)
      (.outer (scanAt matching fromBlock toBlock blockStep range))
      (.outer (scanAt matching fromBlock toBlock blockStep (range + 1))) := by
  let scan := scanAt matching fromBlock toBlock blockStep range
  have hfound : ∀ tries found, provider.getLogs
      (call scan (endBlock scan.startBlock blockStep scan.toBlock) tries) = .ok found →
        found = rangeLogs matching fromBlock toBlock blockStep range :=
    fun tries found h => hreads _ _ h
  have hstart : Reaches (step provider filter retryCount blockStep) (.outer scan)
      (.inner scan (firstAttempt blockStep scan)) := Reaches.of_step (step_outer hwithin)
  refine hstart.trans ?_
  rw [← nextScan_scanAt]
  by_cases hempty : rangeLogs matching fromBlock toBlock blockStep range = []
  · rw [hempty]
    exact inner_givesUp (hends.resolve_left (not_not.mpr hempty))
      fun tries found h => (hfound tries found h).trans hempty
  · -- the first attempt that succeeds finds the logs
    classical
    obtain ⟨last, hlast, hsuccess⟩ := hread
    have hexists : ∃ tries, ∃ logs, provider.getLogs
        (rangeCall fromBlock toBlock blockStep range tries) = .ok logs := ⟨last, hsuccess⟩
    have hfirst : ((Nat.find hexists : ℕ) : ℚ) ≤ last := by
      exact_mod_cast Nat.find_min' hexists hsuccess
    obtain ⟨logs, hlogs⟩ := Nat.find_spec hexists
    have hvalue := hfound _ _ hlogs
    rw [hvalue] at hlogs
    exact inner_finds (hfirst.trans_lt hlast) hempty
      (fun k hk found h => absurd ⟨found, h⟩ (Nat.find_min hexists hk)) hlogs

/-- The ranges that are passed, one after the other. -/
theorem reaches_scanAt (hresolves : Resolves provider filter fromBlock toBlock)
    (hreads : ReadsExactly provider matching) (range : ℕ)
    (hpasses : ∀ before < range, rangeStart fromBlock blockStep before ≤ toBlock ∧
      IsRead provider fromBlock toBlock retryCount blockStep before ∧
      (rangeLogs matching fromBlock toBlock blockStep before ≠ [] ∨ retryCount ≤ lastCount)) :
    Reaches (step provider filter retryCount blockStep) .resolveToBlock
      (.outer (scanAt matching fromBlock toBlock blockStep range)) := by
  induction range with
  | zero => exact reaches_firstScan hresolves
  | succ range ih =>
      obtain ⟨hwithin, hread, hends⟩ := hpasses range (Nat.lt_succ_self range)
      exact (ih fun before hlt => hpasses before (by omega)).trans
        (reaches_scanAt_succ hreads hwithin hread hends)

/-- The call does not reject once the blocks are known. -/
theorem not_rejects (hresolves : Resolves provider filter fromBlock toBlock) :
    ¬ Rejects provider filter retryCount blockStep := by
  rintro ⟨reason, hrejects⟩
  let Scans : State Log → Prop
    | .outer _ | .inner _ _ | .returned _ => True
    | _ => False
  have hclosed : ∀ state, Scans state →
      Scans (step provider filter retryCount blockStep state) := by
    intro state h
    match state with
    | .outer scan =>
        by_cases hgoes : scan.startBlock ≤ scan.toBlock
        · rw [step_outer hgoes]
          trivial
        · rw [step_outer_end hgoes]
          trivial
    | .inner scan attempts =>
        by_cases hretries : Retries retryCount attempts
        · rw [step_inner hretries]
          trivial
        · rw [step_inner_end hretries]
          trivial
    | .returned logs => trivial
  have hlater := (reaches_firstScan hresolves).of_reaches hrejects rfl
  exact (hlater.mem_of_closed hclosed trivial : Scans (.rejected reason))

/-- A scan whose ranges are all read returns the logs of the blocks in the ranges. -/
theorem exists_returns_ranges (hresolves : Resolves provider filter fromBlock toBlock)
    (hreads : ReadsExactly provider matching) (hforward : GoesForward fromBlock toBlock blockStep)
    (hall : AllRead provider fromBlock toBlock retryCount blockStep)
    (hstalls : ¬ Stalls matching fromBlock toBlock retryCount blockStep) :
    ∃ ranges, ¬ rangeStart fromBlock blockStep ranges ≤ toBlock ∧
      Returns provider filter retryCount blockStep
        ((List.range ranges).flatMap (rangeLogs matching fromBlock toBlock blockStep)) := by
  have hpasses : ∃ ranges, ¬ rangeStart fromBlock blockStep ranges ≤ toBlock :=
    outer_passes hforward.advances
  let ranges := Nat.find hpasses
  have hend : ¬ rangeStart fromBlock blockStep ranges ≤ toBlock := Nat.find_spec hpasses
  have hreached : Reaches (step provider filter retryCount blockStep) .resolveToBlock
      (.outer (scanAt matching fromBlock toBlock blockStep ranges)) := by
    apply reaches_scanAt hresolves hreads
    intro before hlt
    have hwithin : rangeStart fromBlock blockStep before ≤ toBlock :=
      not_not.mp (Nat.find_min hpasses hlt)
    refine ⟨hwithin, hall before hwithin, ?_⟩
    by_contra hnot
    rw [not_or, not_not, not_le] at hnot
    exact hstalls ⟨hnot.2, before, hwithin, hnot.1⟩
  exact ⟨ranges, hend, hreached.trans (Reaches.of_step (step_outer_end hend))⟩

/-- A scan that stalls does not return, if all ranges are read. -/
theorem not_returns_of_stalls (hresolves : Resolves provider filter fromBlock toBlock)
    (hreads : ReadsExactly provider matching) (hforward : GoesForward fromBlock toBlock blockStep)
    (hall : AllRead provider fromBlock toBlock retryCount blockStep)
    (hstalls : Stalls matching fromBlock toBlock retryCount blockStep) (logs : List Log) :
    ¬ Returns provider filter retryCount blockStep logs := by
  classical
  obtain ⟨hretry, hempty⟩ := hstalls
  -- the first range without logs is reached and never left
  let range := Nat.find hempty
  obtain ⟨hwithin, hnone⟩ : rangeStart fromBlock blockStep range ≤ toBlock ∧
      rangeLogs matching fromBlock toBlock blockStep range = [] := Nat.find_spec hempty
  let scan := scanAt matching fromBlock toBlock blockStep range
  have hreached : Reaches (step provider filter retryCount blockStep) .resolveToBlock
      (.outer scan) := by
    apply reaches_scanAt hresolves hreads
    intro before hlt
    have hbefore : rangeStart fromBlock blockStep before ≤ toBlock :=
      (rangeStart_mono hforward hlt.le).trans hwithin
    exact ⟨hbefore, hall before hbefore,
      Or.inl fun h => Nat.find_min hempty hlt ⟨hbefore, h⟩⟩
  have hnothing : FindsNothing provider scan (endBlock scan.startBlock blockStep scan.toBlock) :=
    fun tries blockLogs h => (hreads _ _ h).trans hnone
  have hvain := hreached.trans (Reaches.of_step (step_outer hwithin))
  intro hreturns
  exact ((hvain.of_reaches hreturns rfl).mem_of_closed (inVain_step hretry hnothing)
    (inVain_firstAttempt scan) : InVain scan _ (.returned logs))

/-- The logs of the ranges are all logs exactly when no block with logs is left out. -/
theorem flatMap_rangeLogs_eq_iff (hforward : GoesForward fromBlock toBlock blockStep) {ranges : ℕ}
    (hend : ¬ rangeStart fromBlock blockStep ranges ≤ toBlock) :
    (List.range ranges).flatMap (rangeLogs matching fromBlock toBlock blockStep) =
        matchingLogs matching fromBlock toBlock ↔
      NoneSkipped matching fromBlock toBlock blockStep := by
  classical
  have hblocks : (List.range ranges).flatMap (rangeLogs matching fromBlock toBlock blockStep) =
      ((List.range ranges).flatMap (rangeBlocks fromBlock toBlock blockStep)).flatMap matching := by
    rw [List.flatMap_assoc]
    rfl
  rw [hblocks, flatMap_rangeBlocks hforward hend, matchingLogs, flatMap_filter_eq_iff]
  simp only [decide_eq_true_iff]
  rfl

/-! ## Block numbers -/

theorem goesForward_toDouble {fromBlock toBlock : BlockNumber}
    (hle : fromBlock.number ≤ toBlock.number) (hstep : 1 ≤ blockStep.value) :
    GoesForward fromBlock.toDouble toBlock.toDouble blockStep where
  from_nonneg := by
    rw [BlockNumber.toDouble, Double.value_ofInt]
    exact_mod_cast Nat.zero_le _
  from_le := by
    rw [Double.le_iff, BlockNumber.toDouble, BlockNumber.toDouble, Double.value_ofInt,
      Double.value_ofInt]
    exact_mod_cast hle
  to_lt := by
    have hsafe := toBlock.safe
    rw [maxSafeInteger] at hsafe
    have hlt : (toBlock.number : ℤ) < 2 ^ 53 := by omega
    rw [BlockNumber.toDouble, Double.value_ofInt]
    exact_mod_cast hlt
  one_le := hstep

theorem BlockNumber.mem_blocksBetween_iff {fromBlock toBlock : BlockNumber} {block : ℕ} :
    block ∈ blocksBetween fromBlock.toDouble toBlock.toDouble ↔
      fromBlock.number ≤ block ∧ block ≤ toBlock.number := by
  rw [mem_blocksBetween, toDouble, toDouble, Double.value_ofInt, Double.value_ofInt]
  norm_cast

/-- With a whole step every range starts where it would without rounding. -/
theorem rangeStart_eq {fromBlock : BlockNumber} {width : ℕ} (hwhole : blockStep.value = width)
    {range start : ℕ} (hstart : start = fromBlock.number + range * width)
    (h : |(start : ℤ)| ≤ 2 ^ 53) :
    rangeStart fromBlock.toDouble blockStep range = Double.ofInt start h := by
  induction range generalizing start with
  | zero =>
      have hsame : start = fromBlock.number := by omega
      subst hsame
      rfl
  | succ range ih =>
      rw [Nat.succ_mul] at hstart
      have hbefore : |((fromBlock.number + range * width : ℕ) : ℤ)| ≤ 2 ^ 53 := by
        rw [abs_of_nonneg (by omega)] at h ⊢
        omega
      rw [rangeStart_succ, ih rfl hbefore]
      apply ExtendedDouble.add_eq_of_value
      rw [Double.value_ofInt, Double.value_ofInt, hwhole, hstart]
      push_cast
      ring

/-- A range of a whole step ends at least with the block before the next one. -/
theorem le_rangeEnd {fromBlock toBlock : BlockNumber} {width : ℕ}
    (hwhole : blockStep.value = width) {range start block : ℕ}
    (hstart : start = fromBlock.number + range * width) (hlower : start ≤ block)
    (hupper : block < start + width) (hto : block ≤ toBlock.number) (h : |(block : ℤ)| ≤ 2 ^ 53) :
    (Double.ofInt block h : ExtendedDouble) ≤
      rangeEnd fromBlock.toDouble toBlock.toDouble blockStep range := by
  have hsafe := toBlock.safe
  rw [maxSafeInteger] at hsafe
  have hstartBits : |(start : ℤ)| ≤ 2 ^ 53 := by
    rw [abs_of_nonneg (by omega)]
    omega
  have hnextBits : |(block : ℤ) + 1| ≤ 2 ^ 53 := by
    rw [abs_of_nonneg (by omega)]
    omega
  apply le_min
  · have hsum : (Double.ofInt (block + 1) hnextBits).value ≤
        (Double.ofInt start hstartBits).value + blockStep.value := by
      rw [Double.value_ofInt, Double.value_ofInt, hwhole]
      exact_mod_cast hupper
    have hnext : (Double.ofInt (block + 1) hnextBits : ExtendedDouble) ≤
        (Double.ofInt start hstartBits : ExtendedDouble).add blockStep := by
      rw [ExtendedDouble.add_coe, ← ExtendedDouble.ofRat_value]
      exact ExtendedDouble.ofRat_mono hsum
    have hbefore : (Double.ofInt (block + 1) hnextBits : ExtendedDouble).add Double.negOne =
        Double.ofInt block h := by
      apply ExtendedDouble.add_eq_of_value
      rw [Double.value_ofInt, Double.value_ofInt, Double.value_negOne]
      push_cast
      ring
    rw [rangeStart_eq hwhole hstart hstartBits, ← hbefore]
    exact ExtendedDouble.add_mono Double.negOne hnext
  · refine ExtendedDouble.coe_le_coe.mpr ?_
    rw [Double.le_iff, BlockNumber.toDouble, Double.value_ofInt, Double.value_ofInt]
    exact_mod_cast hto

/-- A whole step leaves no block out. -/
theorem noneSkipped_of_whole {fromBlock toBlock : BlockNumber} {width : ℕ}
    (hwhole : blockStep.value = width) (hpos : 1 ≤ width) (matching : ℕ → List Log) :
    NoneSkipped matching fromBlock.toDouble toBlock.toDouble blockStep := by
  intro block hmem _
  obtain ⟨hlower, hupper⟩ := BlockNumber.mem_blocksBetween_iff.mp hmem
  have hsafe := toBlock.safe
  rw [maxSafeInteger] at hsafe
  have hbits : |(block : ℤ)| ≤ 2 ^ 53 := by
    rw [abs_of_nonneg (by omega)]
    omega
  obtain ⟨range, hrange⟩ : ∃ range, (block - fromBlock.number) / width = range := ⟨_, rfl⟩
  obtain ⟨start, hstart⟩ : ∃ start, start = fromBlock.number + range * width := ⟨_, rfl⟩
  have hdiv := Nat.div_mul_le_self (block - fromBlock.number) width
  have hmod := Nat.lt_div_mul_add (a := block - fromBlock.number) (b := width) (by omega)
  rw [hrange] at hdiv hmod
  have hstartLe : start ≤ block := by omega
  have hltNext : block < start + width := by omega
  have hstartBits : |(start : ℤ)| ≤ 2 ^ 53 := by
    rw [abs_of_nonneg (by omega)]
    omega
  have hend : (Double.ofInt block hbits : ExtendedDouble) ≤
      rangeEnd fromBlock.toDouble toBlock.toDouble blockStep range :=
    le_rangeEnd hwhole hstart hstartLe hltNext hupper hbits
  obtain ⟨last, hlast⟩ := ExtendedDouble.exists_eq_coe hend (min_le_right _ _)
  rw [hlast] at hend
  refine ⟨range, ?_⟩
  rw [rangeBlocks, rangeStart_eq hwhole hstart hstartBits, hlast]
  refine mem_blocksBetween.mpr ⟨?_, ExtendedDouble.coe_le_coe.mp hend⟩
  rw [Double.value_ofInt]
  exact_mod_cast hstartLe

/-- **What makes a scan complete, or fail**: every range is read by one of its attempts,
and no block with logs lies between two ranges, unless the scan does not return at all. -/
theorem completeOrFails_iff {fromBlock toBlock : BlockNumber}
    (hle : fromBlock.number ≤ toBlock.number) (hstep : 1 ≤ blockStep.value)
    (hresolves : Resolves provider filter fromBlock.toDouble toBlock.toDouble)
    (hreads : ReadsExactly provider matching) :
    CompleteOrFails provider matching filter fromBlock.toDouble toBlock.toDouble retryCount
        blockStep ↔
      AllRead provider fromBlock.toDouble toBlock.toDouble retryCount blockStep ∧
        (NoneSkipped matching fromBlock.toDouble toBlock.toDouble blockStep ∨
          Stalls matching fromBlock.toDouble toBlock.toDouble retryCount blockStep) := by
  have hforward := goesForward_toDouble hle hstep
  constructor
  · intro h
    have hall : AllRead provider fromBlock.toDouble toBlock.toDouble retryCount blockStep := by
      intro range hwithin
      by_contra hunread
      exact not_rejects hresolves (h.fails ⟨range, hwithin, hunread⟩)
    refine ⟨hall, ?_⟩
    by_contra hnot
    obtain ⟨hskipped, hstalls⟩ := not_or.mp hnot
    obtain ⟨ranges, hend, hreturns⟩ :=
      exists_returns_ranges hresolves hreads hforward hall hstalls
    exact hskipped ((flatMap_rangeLogs_eq_iff hforward hend).mp (h.complete _ hreturns))
  · rintro ⟨hall, hcovered⟩
    refine ⟨fun logs hlogs => ?_, ?_⟩
    · by_cases hstalls :
          Stalls matching fromBlock.toDouble toBlock.toDouble retryCount blockStep
      · exact absurd hlogs (not_returns_of_stalls hresolves hreads hforward hall hstalls logs)
      · obtain ⟨ranges, hend, hreturns⟩ :=
          exists_returns_ranges hresolves hreads hforward hall hstalls
        have hsame := State.returned.inj (hlogs.unique hreturns rfl rfl)
        rw [hsame]
        exact (flatMap_rangeLogs_eq_iff hforward hend).mpr (hcovered.resolve_right hstalls)
    · rintro ⟨range, hwithin, hunread⟩
      exact absurd (hall range hwithin) hunread

/-- A provider that answers with the matching logs, unless a call fails. -/
def answering (matching : ℕ → List Log) (fails : Call → Bool) : Provider Log where
  getBlock _ := .error "SERVER_ERROR".toList
  getLogs call :=
    if fails call then .error "SERVER_ERROR".toList
    else .ok (matchingLogs matching call.fromBlock call.toBlock)

theorem readsExactly_answering (matching : ℕ → List Log) (fails : Call → Bool) :
    ReadsExactly (answering matching fails) matching := by
  intro call logs h
  simp only [answering] at h
  split at h
  · cases h
  · exact (Except.ok.inj h).symm

/-- Block 20000000. -/
def weekAgoBlock : BlockNumber := ⟨20000000, by decide⟩

/-- Block 20050400. -/
def latestBlock : BlockNumber := ⟨20050400, by decide⟩

theorem one_le_defaultBlockStep : 1 ≤ defaultBlockStep.value := by
  rw [defaultBlockStep, Double.value_ofInt]
  norm_num

/-- A log in every block, and the first attempt at every range fails. -/
theorem completeOrFails_iff_secondAttempts :
    CompleteOrFails (answering (fun block => [block]) fun call => call.tries == 0)
      (fun block => [block]) (numberFilter weekAgoBlock.toDouble latestBlock.toDouble)
      weekAgoBlock.toDouble latestBlock.toDouble defaultRetryCount defaultBlockStep := by
  have hwhole : defaultBlockStep.value = (500 : ℕ) := rfl
  have hretry : defaultRetryCount.value = 2 := rfl
  refine (completeOrFails_iff (by decide) one_le_defaultBlockStep (resolves_numberFilter _ _ _)
    (readsExactly_answering _ _)).mpr ⟨?_, Or.inl (noneSkipped_of_whole hwhole (by norm_num) _)⟩
  intro range _
  refine ⟨1, ?_, _, rfl⟩
  rw [hretry]
  norm_num

/-- Both attempts at the second range of a scan fail: the scan returns, and does not
reject. -/
theorem not_completeOrFails_secondRange :
    (∃ logs, Returns (answering (fun block => [block]) fun call => call.range == 1)
      (numberFilter weekAgoBlock.toDouble latestBlock.toDouble) defaultRetryCount
      defaultBlockStep logs) ∧
    ¬ CompleteOrFails (answering (fun block => [block]) fun call => call.range == 1)
      (fun block => [block]) (numberFilter weekAgoBlock.toDouble latestBlock.toDouble)
      weekAgoBlock.toDouble latestBlock.toDouble defaultRetryCount defaultBlockStep := by
  have hwhole : defaultBlockStep.value = (500 : ℕ) := rfl
  have hforward : GoesForward weekAgoBlock.toDouble latestBlock.toDouble defaultBlockStep :=
    goesForward_toDouble (by decide) one_le_defaultBlockStep
  constructor
  · exact exists_returns (resolves_numberFilter _ _ _) hforward.advances defaultRetryCount_le
  · intro h
    refine not_rejects (resolves_numberFilter _ _ _) (h.fails ⟨1, ?_, ?_⟩)
    · have hstart : (20000500 : ℕ) = weekAgoBlock.number + 1 * 500 := rfl
      have hbits : |((20000500 : ℕ) : ℤ)| ≤ 2 ^ 53 := by decide
      rw [rangeStart_eq hwhole hstart hbits]
      refine ExtendedDouble.coe_le_coe.mpr ?_
      rw [Double.le_iff, BlockNumber.toDouble, Double.value_ofInt, Double.value_ofInt]
      norm_num [latestBlock]
    · rintro ⟨tries, -, logs, hlogs⟩
      cases hlogs

end WithdrawalsApi.ExecutionProvider
