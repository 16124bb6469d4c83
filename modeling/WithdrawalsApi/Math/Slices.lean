/-
# Loops over slices

A loop `for (i = 0; i < items.length; i += size)` takes a list in slices of one
length, the last of them possibly shorter. The slices are the list in order,
nothing twice and nothing left out, and what is proved of such a loop goes by
induction on its rounds: the empty list, or a first slice and what is left.
-/

import Mathlib.Algebra.Order.Group.Nat
import Mathlib.Data.Nat.Init
import Mathlib.Tactic.Common

namespace WithdrawalsApi.Math

universe u

variable {α : Type u} {size : ℕ}

/-- The slices that the loop takes, one for each round. -/
def slices (size : ℕ) (items : List α) : List (List α) :=
  (List.range ((items.length + (size - 1)) / size)).map fun round =>
    (items.drop (round * size)).take size

@[simp]
theorem slices_nil (hsize : 0 < size) : slices size ([] : List α) = [] := by
  have hrounds : (0 + (size - 1)) / size = 0 := Nat.div_eq_of_lt (by omega)
  rw [slices, List.length_nil, hrounds, List.range_zero, List.map_nil]

/-- A first slice, and the slices of what is left. -/
theorem slices_of_ne_nil (hsize : 0 < size) {items : List α} (hne : items ≠ []) :
    slices size items = items.take size :: slices size (items.drop size) := by
  have hlength := List.length_pos_iff.mpr hne
  have hrounds : (items.length + (size - 1)) / size =
      (items.length - size + (size - 1)) / size + 1 := by
    rw [← Nat.add_div_right _ hsize]
    by_cases hle : size ≤ items.length
    · congr 1
      omega
    · have hone : items.length - size = 0 := by omega
      rw [hone, Nat.zero_add, Nat.div_eq_of_lt_le (k := 1) (by omega) (by omega),
        Nat.div_eq_of_lt_le (k := 1) (by omega) (by omega)]
  rw [slices, slices, hrounds, List.range_succ_eq_map, List.map_cons, List.map_map,
    List.length_drop, Nat.zero_mul, List.drop_zero]
  congr 1
  apply List.map_congr_left
  intro round _
  rw [Function.comp_apply, List.drop_drop, Nat.succ_mul, Nat.add_comm size]

/-- Induction over the rounds of the loop. -/
@[elab_as_elim]
theorem slices_induction {motive : List α → Prop} (hsize : 0 < size) (nil : motive [])
    (round : ∀ items, items ≠ [] → motive (items.drop size) → motive items)
    (items : List α) : motive items := by
  induction hlength : items.length using Nat.strong_induction_on generalizing items with
  | h length ih =>
      by_cases hne : items = []
      · rw [hne]
        exact nil
      · have hpos := List.length_pos_iff.mpr hne
        apply round items hne
        exact ih (items.drop size).length (by rw [List.length_drop]; omega) _ rfl

/-- The slices make up the list. -/
theorem slices_flatten (hsize : 0 < size) (items : List α) :
    (slices size items).flatten = items := by
  induction items using slices_induction hsize with
  | nil => rw [slices_nil hsize, List.flatten_nil]
  | round items hne ih =>
      rw [slices_of_ne_nil hsize hne, List.flatten_cons, ih, List.take_append_drop]

/-- No slice is longer than the others, and none is empty. -/
theorem length_of_mem_slices (hsize : 0 < size) {items slice : List α}
    (hmem : slice ∈ slices size items) : 0 < slice.length ∧ slice.length ≤ size := by
  induction items using slices_induction hsize with
  | nil =>
      rw [slices_nil hsize] at hmem
      cases hmem
  | round items hne ih =>
      rw [slices_of_ne_nil hsize hne] at hmem
      rcases List.mem_cons.mp hmem with rfl | hrest
      · have hpos := List.length_pos_iff.mpr hne
        rw [List.length_take]
        omega
      · exact ih hrest

end WithdrawalsApi.Math
