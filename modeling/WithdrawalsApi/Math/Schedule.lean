/-
# Schedules: numbered points on a time line

A schedule numbers points of a time line and, for every time, reads off the
number of the last point that is not later. The two maps are adjoint, and
everything this development needs to know about slots, epochs and frames is a
consequence of that adjunction: where a time lies between two points, which
point comes next, and how a coarse schedule of a fine one behaves.

Floor division enters once, in `Schedule.periodic`. Every other statement is
about an arbitrary time line.
-/

import Mathlib.Algebra.Order.Group.Int
import Mathlib.Order.Bounds.Basic
import Mathlib.Order.GaloisConnection.Basic
import Mathlib.Tactic.Linarith
import Mathlib.Tactic.Ring

namespace WithdrawalsApi.Math

universe u v w

/-- Numbered points of a time line together with the number of the last point
not after a given time. -/
structure Schedule (κ : Type u) (τ : Type v) [LinearOrder κ] [LinearOrder τ] where
  /-- The time of a numbered point. -/
  point : κ → τ
  /-- The number of the last point that is not later than a time. -/
  index : τ → κ
  /-- A point is not later than a time exactly when its number is at most the
  number read off at that time. -/
  gc : GaloisConnection point index

namespace Schedule

section LinearOrder

variable {κ : Type u} {τ : Type v} {μ : Type w} [LinearOrder κ] [LinearOrder τ] [LinearOrder μ]
  (S : Schedule κ τ)

theorem point_le_iff {n : κ} {t : τ} : S.point n ≤ t ↔ n ≤ S.index t :=
  S.gc n t

theorem lt_point_iff {n : κ} {t : τ} : t < S.point n ↔ S.index t < n := by
  rw [← not_le, S.point_le_iff, not_le]

theorem index_mono : Monotone S.index := S.gc.monotone_u

/-- The point read off at a time has already been reached. -/
theorem point_index_le (t : τ) : S.point (S.index t) ≤ t := S.gc.l_u_le t

/-- Where no two points share a time, a point is read off as itself. -/
theorem index_point (hpoint : Function.Injective S.point) (n : κ) : S.index (S.point n) = n :=
  hpoint (S.gc.l_u_l_eq_l n)

/-- The points determine the numbers that are read off. -/
theorem index_eq_of_point_eq {first second : Schedule κ τ}
    (hpoint : ∀ n, first.point n = second.point n) (t : τ) :
    first.index t = second.index t := by
  apply le_antisymm
  · rw [← second.point_le_iff, ← hpoint]
    exact first.point_index_le t
  · rw [← first.point_le_iff, hpoint]
    exact second.point_index_le t

/-- Number points of a fine schedule by a coarser one. -/
def coarsen (fine : Schedule κ τ) (coarse : Schedule μ κ) : Schedule μ τ where
  point n := fine.point (coarse.point n)
  index t := coarse.index (fine.index t)
  gc := coarse.gc.compose fine.gc

@[simp]
theorem coarsen_point (fine : Schedule κ τ) (coarse : Schedule μ κ) (n : μ) :
    (fine.coarsen coarse).point n = fine.point (coarse.point n) := rfl

@[simp]
theorem coarsen_index (fine : Schedule κ τ) (coarse : Schedule μ κ) (t : τ) :
    (fine.coarsen coarse).index t = coarse.index (fine.index t) := rfl

end LinearOrder

/-- Equidistant points on the integer time line. -/
def periodic (origin period : ℤ) (hperiod : 0 < period) : Schedule ℤ ℤ where
  point n := origin + n * period
  index t := (t - origin) / period
  gc n t := by
    rw [Int.le_ediv_iff_mul_le hperiod]
    constructor <;> intro h <;> linarith

@[simp]
theorem periodic_point (origin period : ℤ) (hperiod : 0 < period) (n : ℤ) :
    (periodic origin period hperiod).point n = origin + n * period := rfl

@[simp]
theorem periodic_index (origin period : ℤ) (hperiod : 0 < period) (t : ℤ) :
    (periodic origin period hperiod).index t = (t - origin) / period := rfl

end Schedule

end WithdrawalsApi.Math
