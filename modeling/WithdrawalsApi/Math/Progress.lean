/-
# Jobs that come to rest

A job goes on each time the call it awaits is answered. It comes to rest when a rank goes
down with every answer, whatever the answer is and whatever the other jobs have done to
the memory meanwhile. A job that ends is at rest; so is one that stays where it has
arrived, as a reader does with its answer.

Runs are infinite here, and nothing is said about their order but that an awaited call is
answered at some time.
-/

import WithdrawalsApi.Math.Readers
import Mathlib.Order.WellFounded
import Mathlib.Data.Nat.Find
import Mathlib.Data.Prod.Lex

namespace WithdrawalsApi.Math

/-! ## Stages, with what is left of a loop -/

theorem stage_lt {first second left right : ℕ} (h : first < second) :
    (toLex (first, left) : ℕ ×ₗ ℕ) < toLex (second, right) :=
  Prod.Lex.toLex_lt_toLex.mpr (Or.inl h)

theorem left_lt {stage left right : ℕ} (h : left < right) :
    (toLex (stage, left) : ℕ ×ₗ ℕ) < toLex (stage, right) :=
  Prod.Lex.toLex_lt_toLex.mpr (Or.inr ⟨rfl, h⟩)

/-! ## Jobs that descend -/

namespace Job

universe u v w x

variable {σ : Type u} {ι : Type w}

/-- What brings a job to rest: a rank that goes down with every answer the job goes on
with. Another answer leaves the job where it waits. -/
structure Descent (job : Job.{u, v} σ) (α : Type x) [Preorder α] where
  rests : job.Suspension → Prop
  fits : job.Suspension → job.Answer → Prop
  rank : job.Suspension → α
  lowers : ∀ {suspension : job.Suspension} {answer : job.Answer} {s : σ}
    {next : job.Suspension}, ¬ rests suspension → fits suspension answer →
      (job.resume suspension answer s).2 = some next → rests next ∨ rank next < rank suspension
  keeps : ∀ {suspension : job.Suspension} {answer : job.Answer} (s : σ),
    ¬ fits suspension answer → (job.resume suspension answer s).2 = some suspension

/-- A job that goes on with every answer and rests nowhere but at its end. -/
def Descent.ofRank {job : Job.{u, v} σ} {α : Type x} [Preorder α] (rank : job.Suspension → α)
    (lowers : ∀ {suspension : job.Suspension} {answer : job.Answer} {s : σ}
      {next : job.Suspension}, (job.resume suspension answer s).2 = some next →
        rank next < rank suspension) : Descent job α where
  rests _ := False
  fits _ _ := True
  rank
  lowers _ _ hnext := Or.inr (lowers hnext)
  keeps _ hfits := absurd trivial hfits

/-- A reader rests where it has come to an answer. -/
def Descent.ofReader {reader : Reader.{u, v} σ} {α : Type x} [Preorder α]
    (rests : reader.Suspension → Prop) (fits : reader.Suspension → reader.Answer → Prop)
    (rank : reader.Suspension → α)
    (lowers : ∀ {suspension : reader.Suspension} {answer : reader.Answer} (s : σ),
      ¬ rests suspension → fits suspension answer →
        rests (reader.resume suspension answer s) ∨
          rank (reader.resume suspension answer s) < rank suspension)
    (keeps : ∀ {suspension : reader.Suspension} {answer : reader.Answer} (s : σ),
      ¬ fits suspension answer → reader.resume suspension answer s = suspension) :
    Descent reader.toJob α where
  rests
  fits
  rank
  lowers {suspension answer s next} hrests hfits hnext := by
    obtain rfl : reader.resume suspension answer s = next := Option.some.inj hnext
    exact lowers s hrests hfits
  keeps s hfits := congrArg some (keeps s hfits)

namespace State

variable {jobs : ι → Job.{u, v} σ} [DecidableEq ι]

/-- The states of an infinite run. -/
def trace (s : State jobs) (events : ℕ → Event jobs) : ℕ → State jobs
  | 0 => s
  | n + 1 => (trace s events n).step (events n)

/-- A suspended job stays where it is, unless the call it awaits is answered. -/
theorem step_suspended_of_ne_resume {s : State jobs} {event : Event jobs} {job : ι}
    {suspension : (jobs job).Suspension} (h : s.suspended job = some suspension)
    (hevent : ∀ answer, event ≠ .resume job answer) :
    (s.step event).suspended job = some suspension := by
  rcases s.step_cases event with hsame | ⟨other, segment, hruns⟩
  · rw [hsame]
    exact h
  · by_cases hother : other = job
    · subst hother
      cases hruns with
      | start hidle =>
          rw [hidle] at h
          cases h
      | resume hsuspended => exact absurd rfl (hevent _)
    · rw [hruns.step_suspended_of_ne (Ne.symm hother)]
      exact h

/-- A property of the states from some moment on. -/
theorem trace_preserves (property : State jobs → Prop) {s : State jobs}
    {events : ℕ → Event jobs} {n : ℕ}
    (hstep : ∀ k ≥ n, property (trace s events k) → property (trace s events (k + 1)))
    (h : property (trace s events n)) : ∀ m ≥ n, property (trace s events m) := by
  intro m hm
  induction m, hm using Nat.le_induction with
  | base => exact h
  | succ k hk ih => exact hstep k hk ih

/-- From the call of a job that is not running to its end: what its segments and those
of the others keep meanwhile, holds when it has ended. -/
theorem exists_ended (property : State jobs → Prop) {s : State jobs} {events : ℕ → Event jobs}
    {job : ι} (hends : ∀ n, ∃ m ≥ n, (trace s events m).suspended job = none) {n : ℕ}
    (hcalled : property (trace s events (n + 1)))
    (hstep : ∀ k > n, (∀ i > n, i ≤ k → (trace s events i).suspended job ≠ none) →
      property (trace s events k) → property (trace s events (k + 1))) :
    ∃ m > n, (trace s events m).suspended job = none ∧ property (trace s events m) := by
  classical
  have hexists : ∃ m, n < m ∧ (trace s events m).suspended job = none := by
    obtain ⟨m, hm, hidle⟩ := hends (n + 1)
    exact ⟨m, hm, hidle⟩
  obtain ⟨hlt, hidle⟩ := Nat.find_spec hexists
  have hrunning (i : ℕ) (hi : n < i) (hbefore : i < Nat.find hexists) :
      (trace s events i).suspended job ≠ none :=
    fun hnone => Nat.find_min hexists hbefore ⟨hi, hnone⟩
  have hkept (k : ℕ) (hk : n + 1 ≤ k) : k ≤ Nat.find hexists → property (trace s events k) := by
    induction k, hk using Nat.le_induction with
    | base => exact fun _ => hcalled
    | succ k hk ih =>
        intro hle
        exact hstep k hk (fun i hi hik => hrunning i hi (Nat.lt_of_le_of_lt hik hle))
          (ih (Nat.le_of_succ_le hle))
  exact ⟨Nat.find hexists, hlt, hidle, hkept _ hlt le_rfl⟩

theorem step_resume_suspended {s : State jobs} {job : ι} {suspension : (jobs job).Suspension}
    (h : s.suspended job = some suspension) (answer : (jobs job).Answer) :
    (s.step (.resume job answer)).suspended job =
      ((jobs job).resume suspension answer s.shared).2 := by
  have hruns : s.Runs (.resume job answer) job _ := .resume h
  exact hruns.step_suspended

end State

namespace Descent

open State

variable {jobs : ι → Job.{u, v} σ} [DecidableEq ι] {job : ι} {α : Type x} [Preorder α]
  (descent : Descent (jobs job) α)

/-- The job has ended, or it rests. -/
def AtRest (s : State jobs) : Prop :=
  ∀ suspension, s.suspended job = some suspension → descent.rests suspension

/-- Wherever the job waits, the call it awaits is answered at some time. -/
def Answered (s : State jobs) (events : ℕ → Event jobs) : Prop :=
  ∀ n suspension, (trace s events n).suspended job = some suspension → ¬ descent.rests suspension →
    ∃ m ≥ n, ∃ answer, events m = .resume job answer ∧ descent.fits suspension answer

variable {s : State jobs} {events : ℕ → Event jobs}

/-- The job waits until the first answer it goes on with. -/
theorem suspended_until {n : ℕ} {suspension : (jobs job).Suspension}
    (h : (trace s events n).suspended job = some suspension) {count : ℕ}
    (hnone : ∀ k < count, ∀ answer, events (n + k) = .resume job answer →
      ¬ descent.fits suspension answer) :
    (trace s events (n + count)).suspended job = some suspension := by
  induction count with
  | zero => exact h
  | succ count ih =>
      have hbefore := ih fun k hk => hnone k (Nat.lt_succ_of_lt hk)
      show ((trace s events (n + count)).step (events (n + count))).suspended job = _
      by_cases hevent : ∃ answer, events (n + count) = .resume job answer
      · obtain ⟨answer, hanswer⟩ := hevent
        rw [hanswer, step_resume_suspended hbefore]
        exact descent.keeps _ (hnone count (Nat.lt_succ_self count) answer hanswer)
      · apply step_suspended_of_ne_resume hbefore
        exact fun answer hanswer => hevent ⟨answer, hanswer⟩

variable {descent}

/-- The first answer finds the job where it has been waiting. -/
theorem exists_answer (hanswered : descent.Answered s events) {n : ℕ}
    {suspension : (jobs job).Suspension}
    (h : (trace s events n).suspended job = some suspension)
    (hrests : ¬ descent.rests suspension) :
    ∃ m ≥ n, ∃ answer, events m = .resume job answer ∧ descent.fits suspension answer ∧
      (trace s events m).suspended job = some suspension := by
  classical
  have hexists : ∃ count answer, events (n + count) = .resume job answer ∧
      descent.fits suspension answer := by
    obtain ⟨m, hm, answer, hanswer⟩ := hanswered n suspension h hrests
    refine ⟨m - n, answer, ?_⟩
    rw [Nat.add_sub_cancel' hm]
    exact hanswer
  obtain ⟨answer, hanswer, hfits⟩ := Nat.find_spec hexists
  refine ⟨n + Nat.find hexists, Nat.le_add_right _ _, answer, hanswer, hfits, ?_⟩
  apply descent.suspended_until h
  intro k hk other hevent hother
  exact Nat.find_min hexists hk ⟨other, hevent, hother⟩

/-- One answer later the job rests or its rank has gone down. -/
theorem atRest_or_lower {n : ℕ} {suspension : (jobs job).Suspension} {answer : (jobs job).Answer}
    (h : (trace s events n).suspended job = some suspension)
    (hevent : events n = .resume job answer) (hrests : ¬ descent.rests suspension)
    (hfits : descent.fits suspension answer) :
    descent.AtRest (trace s events (n + 1)) ∨
      ∃ next, (trace s events (n + 1)).suspended job = some next ∧
        descent.rank next < descent.rank suspension := by
  have hnext : (trace s events (n + 1)).suspended job =
      ((jobs job).resume suspension answer (trace s events n).shared).2 := by
    have hresume := step_resume_suspended h answer
    rw [← hevent] at hresume
    exact hresume
  cases hresult : ((jobs job).resume suspension answer (trace s events n).shared).2 with
  | none =>
      left
      intro other hother
      rw [hnext, hresult] at hother
      cases hother
  | some next =>
      rw [hresult] at hnext
      rcases descent.lowers hrests hfits hresult with hrest | hlower
      · left
        intro other hother
        obtain rfl : next = other := Option.some.inj (hnext.symm.trans hother)
        exact hrest
      · exact Or.inr ⟨next, hnext, hlower⟩

/-- **A job whose rank goes down comes to rest**, from whatever state on. -/
theorem exists_atRest [WellFoundedLT α] (hanswered : descent.Answered s events) (n : ℕ) :
    ∃ m ≥ n, descent.AtRest (trace s events m) := by
  have hfrom (rank : α) : ∀ n suspension, (trace s events n).suspended job = some suspension →
      descent.rank suspension = rank → ∃ m ≥ n, descent.AtRest (trace s events m) := by
    induction rank using WellFoundedLT.induction with
    | ind rank ih =>
        intro n suspension hsuspended hrank
        by_cases hrests : descent.rests suspension
        · refine ⟨n, le_rfl, fun other hother => ?_⟩
          obtain rfl : other = suspension := Option.some.inj (hother.symm.trans hsuspended)
          exact hrests
        · obtain ⟨m, hm, answer, hevent, hfits, hwaits⟩ := exists_answer hanswered hsuspended hrests
          rcases atRest_or_lower hwaits hevent hrests hfits with hrest | ⟨next, hnext, hlower⟩
          · exact ⟨m + 1, Nat.le_succ_of_le hm, hrest⟩
          · obtain ⟨last, hlast, hrest⟩ :=
              ih (descent.rank next) (hrank ▸ hlower) (m + 1) next hnext rfl
            exact ⟨last, (Nat.le_succ_of_le hm).trans hlast, hrest⟩
  cases hsuspended : (trace s events n).suspended job with
  | none =>
      refine ⟨n, le_rfl, fun suspension hsome => ?_⟩
      rw [hsuspended] at hsome
      cases hsome
  | some suspension => exact hfrom (descent.rank suspension) n suspension hsuspended rfl

/-- A job that has left where it waited has been answered in between. -/
theorem exists_answer_of_left {n m : ℕ} (hnm : n ≤ m) {suspension : (jobs job).Suspension}
    (h : (trace s events n).suspended job = some suspension)
    (hleft : (trace s events m).suspended job ≠ some suspension) :
    ∃ k ≥ n, ∃ answer, events k = .resume job answer ∧ descent.fits suspension answer := by
  by_contra hnone
  apply hleft
  rw [← Nat.add_sub_cancel' hnm]
  apply descent.suspended_until h
  intro k _ answer hevent hfits
  exact hnone ⟨n + k, Nat.le_add_right n k, answer, hevent, hfits⟩

/-- A job comes to rest again and again exactly if it is always answered. -/
theorem forall_exists_atRest_iff [WellFoundedLT α] :
    (∀ n, ∃ m ≥ n, descent.AtRest (trace s events m)) ↔ descent.Answered s events := by
  constructor
  · intro hrest n suspension hsuspended hrests
    obtain ⟨m, hm, hatRest⟩ := hrest n
    exact exists_answer_of_left hm hsuspended fun hsame => hrests (hatRest suspension hsame)
  · exact exists_atRest

/-- A job that goes on with every answer ends again and again exactly if it is always
answered. -/
theorem forall_exists_idle_iff [WellFoundedLT α] {rank : (jobs job).Suspension → α}
    (lowers : ∀ {suspension : (jobs job).Suspension} {answer : (jobs job).Answer} {s : σ}
      {next : (jobs job).Suspension}, ((jobs job).resume suspension answer s).2 = some next →
        rank next < rank suspension) :
    (∀ n, ∃ m ≥ n, (trace s events m).suspended job = none) ↔
      ∀ n, (trace s events n).suspended job ≠ none →
        ∃ m ≥ n, ∃ answer, events m = .resume job answer := by
  have hatRest (m : ℕ) : (ofRank rank lowers).AtRest (trace s events m) ↔
      (trace s events m).suspended job = none := by
    rw [Option.eq_none_iff_forall_ne_some]
    exact Iff.rfl
  have hanswered : (ofRank rank lowers).Answered s events ↔
      ∀ n, (trace s events n).suspended job ≠ none →
        ∃ m ≥ n, ∃ answer, events m = .resume job answer := by
    constructor
    · intro h n hsuspended
      obtain ⟨suspension, hsuspension⟩ := Option.ne_none_iff_exists'.mp hsuspended
      obtain ⟨m, hm, answer, hanswer, -⟩ := h n suspension hsuspension not_false
      exact ⟨m, hm, answer, hanswer⟩
    · intro h n suspension hsuspension _
      obtain ⟨m, hm, answer, hanswer⟩ := h n (by rw [hsuspension]; exact Option.some_ne_none _)
      exact ⟨m, hm, answer, hanswer, trivial⟩
  rw [← hanswered, ← forall_exists_atRest_iff]
  simp only [hatRest]

end Descent

end Job

end WithdrawalsApi.Math
