/-
# Loops as iterated steps

A deterministic machine is a step function, and a run its iterates; a state that
the step leaves as it is is an end. From a state the machine reaches one end at
most. Observations recur forever when a closed set of states leads back to them,
and stop when an end is reached at which nothing is observed.

A counter is a machine too. If it moves up as long as its loop goes on, and the loop
goes on for finitely many of its values, it leaves the loop.
-/

import Mathlib.Data.Set.Finite.Basic
import Mathlib.Dynamics.FixedPoints.Basic
import Mathlib.Order.Monotone.Basic
import Mathlib.Order.Preorder.Finite

namespace WithdrawalsApi.Math.Iteration

universe u

open Function

/-! ## Runs of a machine -/

section Runs

variable {σ : Type u} {step : σ → σ} {first second third : σ}

/-- A state lies on the run from another. -/
def Reaches (step : σ → σ) (first second : σ) : Prop := ∃ n, step^[n] first = second

theorem Reaches.refl (step : σ → σ) (state : σ) : Reaches step state state := ⟨0, rfl⟩

theorem Reaches.trans (h : Reaches step first second) (h' : Reaches step second third) :
    Reaches step first third := by
  obtain ⟨n, rfl⟩ := h
  obtain ⟨m, rfl⟩ := h'
  exact ⟨m + n, iterate_add_apply step m n first⟩

theorem Reaches.of_step (h : step first = second) : Reaches step first second := ⟨1, h⟩

/-- A closed set is not left. -/
theorem Reaches.mem_of_closed {closed : σ → Prop} (hclosed : ∀ s, closed s → closed (step s))
    (h : Reaches step first second) (hfirst : closed first) : closed second := by
  obtain ⟨n, rfl⟩ := h
  induction n with
  | zero => exact hfirst
  | succ n ih =>
      rw [iterate_succ_apply']
      exact hclosed _ ih

/-- On the way to an end lies everything that is reached. -/
theorem Reaches.of_reaches (h : Reaches step first second) (h' : Reaches step first third)
    (hend : step third = third) : Reaches step second third := by
  obtain ⟨n, rfl⟩ := h
  obtain ⟨m, rfl⟩ := h'
  refine ⟨m, ?_⟩
  rw [← iterate_add_apply, Nat.add_comm, iterate_add_apply]
  exact iterate_fixed hend n

/-- One end at most is reached. -/
theorem Reaches.unique (h : Reaches step first second) (h' : Reaches step first third)
    (hsecond : step second = second) (hthird : step third = third) : second = third := by
  obtain ⟨n, hn⟩ := h.of_reaches h' hthird
  rw [← hn, iterate_fixed hsecond]

/-- At an end at which nothing is observed the observations have stopped. -/
theorem finite_of_reaches {observed : σ → Prop} (h : Reaches step first second)
    (hend : step second = second) (hsilent : ¬ observed second) :
    {n | observed (step^[n] first)}.Finite := by
  obtain ⟨n, hn⟩ := h
  refine (Set.finite_lt_nat n).subset fun m hm => ?_
  by_contra hle
  obtain ⟨k, rfl⟩ := Nat.exists_eq_add_of_le (not_lt.mp hle)
  apply hsilent
  have hm : observed (step^[n + k] first) := hm
  rwa [Nat.add_comm, iterate_add_apply, hn, iterate_fixed hend] at hm

/-- In a closed set that leads back to observations they recur forever. -/
theorem infinite_of_closed {observed closed : σ → Prop}
    (hclosed : ∀ s, closed s → closed (step s))
    (hrecurs : ∀ s, closed s → ∃ n, observed (step^[n] s))
    (h : Reaches step first second) (hsecond : closed second) :
    {n | observed (step^[n] first)}.Infinite := by
  obtain ⟨start, rfl⟩ := h
  apply Set.infinite_of_forall_exists_gt
  intro n
  have hlater : closed (step^[n + 1] (step^[start] first)) :=
    Reaches.mem_of_closed hclosed ⟨n + 1, rfl⟩ hsecond
  obtain ⟨m, hm⟩ := hrecurs _ hlater
  refine ⟨m + (n + 1 + start), ?_, by omega⟩
  change observed (step^[m + (n + 1 + start)] first)
  rwa [iterate_add_apply, iterate_add_apply]

end Runs

/-! ## Counters -/

/-- A counter that moves up while its loop goes on leaves the loop. -/
theorem exists_iterate_not {α : Type u} [Preorder α] {next : α → α} {goes : α → Prop} {start : α}
    (hfinite : {x | start ≤ x ∧ goes x}.Finite)
    (hmoves : ∀ x, start ≤ x → goes x → x < next x) : ∃ n, ¬ goes (next^[n] start) := by
  by_contra hnever
  have hgoes (n : ℕ) : goes (next^[n] start) := not_not.mp fun h => hnever ⟨n, h⟩
  have hstart (n : ℕ) : start ≤ next^[n] start := by
    induction n with
    | zero => exact le_rfl
    | succ n ih =>
        rw [iterate_succ_apply']
        exact ih.trans (hmoves _ ih (hgoes n)).le
  have hstrict : StrictMono fun n => next^[n] start := by
    apply strictMono_nat_of_lt_succ
    intro n
    rw [iterate_succ_apply']
    exact hmoves _ (hstart n) (hgoes n)
  have hmem (n : ℕ) : next^[n] start ∈ {x | start ≤ x ∧ goes x} := ⟨hstart n, hgoes n⟩
  exact Set.infinite_of_injective_forall_mem hstrict.injective hmem hfinite

end WithdrawalsApi.Math.Iteration
