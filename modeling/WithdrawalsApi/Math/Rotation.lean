/-
# Equidistant points on a cycle

Points at a constant distance that divides a cycle come back to where they have
started, and each residue is met once. Counted from any of the points and then
sorted, they are the multiples of the distance above the least residue.
-/

import Mathlib.Algebra.Order.Ring.Nat
import Mathlib.Data.List.Sort
import Mathlib.Data.Nat.ModEq

namespace WithdrawalsApi.Math.Rotation

variable {period step start : ℕ}

/-- The points of a cycle at a distance, counted from one of them. -/
def points (period step start : ℕ) : List ℕ :=
  (List.range (period / step)).map fun index => (start + index * step) % period

/-- The points from the least on. -/
def ascending (period step start : ℕ) : List ℕ :=
  (List.range (period / step)).map fun index => start % step + index * step

@[simp]
theorem length_ascending : (ascending period step start).length = period / step := by
  simp [ascending]

/-- The points are at least the distance apart. -/
theorem pairwise_ascending :
    (ascending period step start).Pairwise fun first second => first + step ≤ second := by
  rw [ascending, List.pairwise_map]
  refine List.pairwise_lt_range.imp fun {first second} hlt => ?_
  have := Nat.mul_le_mul_right step (Nat.succ_le_of_lt hlt)
  rw [Nat.succ_mul] at this
  omega

/-- No point is met twice. -/
theorem nodup_points (hstep : 0 < step) (hdvd : step ∣ period) :
    (points period step start).Nodup := by
  have hbound : ∀ index ∈ List.range (period / step), index * step < period := by
    intro index hmem
    rw [← Nat.lt_div_iff_mul_lt_of_dvd hstep.ne' hdvd]
    exact List.mem_range.mp hmem
  refine List.Nodup.map_on ?_ List.nodup_range
  intro first hfirst second hsecond heq
  have hmod : first * step ≡ second * step [MOD period] :=
    Nat.ModEq.add_left_cancel' start heq
  have hsame := hmod.eq_of_lt_of_lt (hbound first hfirst) (hbound second hsecond)
  exact Nat.eq_of_mul_eq_mul_right hstep hsame

/-- Every point has the residue of the first. -/
theorem points_subset_ascending (hperiod : 0 < period) (hdvd : step ∣ period) :
    points period step start ⊆ ascending period step start := by
  intro point hmem
  obtain ⟨index, -, rfl⟩ := List.mem_map.mp hmem
  have hlt : (start + index * step) % period < period := Nat.mod_lt _ hperiod
  have hresidue : (start + index * step) % period % step = start % step := by
    rw [Nat.mod_mod_of_dvd _ hdvd, Nat.add_mul_mod_self_right]
  refine List.mem_map.mpr ⟨(start + index * step) % period / step, ?_, ?_⟩
  · exact List.mem_range.mpr (Nat.div_lt_div_of_lt_of_dvd hdvd hlt)
  · rw [← hresidue]
    exact Nat.mod_add_div' _ _

/-- The points in ascending order. -/
theorem insertionSort_points (hstep : 0 < step) (hperiod : 0 < period) (hdvd : step ∣ period) :
    (points period step start).insertionSort (· ≤ ·) = ascending period step start := by
  have hsubset : points period step start ⊆ ascending period step start :=
    points_subset_ascending hperiod hdvd
  have hsubperm := List.subperm_of_subset (nodup_points hstep hdvd) hsubset
  have hperm : (points period step start).Perm (ascending period step start) :=
    hsubperm.perm_of_length_le (by simp [points, ascending])
  refine List.Perm.eq_of_pairwise' (r := (· ≤ ·)) ?_ ?_ ?_
  · exact List.pairwise_insertionSort _ _
  · exact pairwise_ascending.imp fun hle => by omega
  · exact (List.perm_insertionSort _ _).trans hperm

theorem mem_ascending_iff (hstep : 0 < step) (hperiod : 0 < period) (hdvd : step ∣ period)
    {point : ℕ} : point ∈ ascending period step start ↔ point ∈ points period step start := by
  rw [← insertionSort_points hstep hperiod hdvd, List.mem_insertionSort]

end WithdrawalsApi.Math.Rotation
