/-
# Two queues that share batches of bounded size

Every batch takes items off the head of a first queue, up to a number reserved
for it, and fills up with items of a second queue. How many batches it takes
until the second queue is empty has a closed form, which neither queue reaches
batch by batch: the second queue has to share its batches only with as much of
the first one as the reserved places can hold until then.
-/

import Mathlib.Algebra.Order.Floor.Div
import Mathlib.Logic.Function.Iterate
import Mathlib.Order.Bounds.Basic
import Mathlib.Tactic.Linarith
import Mathlib.Tactic.Ring

namespace WithdrawalsApi.Math

universe u v

variable {α : Type u} {β : Type v} {size reserved : ℕ}

/-- The queues after one batch. -/
def fillBatch (size reserved : ℕ) (queues : List α × List β) : List α × List β :=
  (queues.1.drop reserved, queues.2.drop (size - min queues.1.length reserved))

/-- The queues after some batches. The first queue loses its reserved places in
every batch, and the second one gets what is left of all of them together. -/
theorem fillBatch_iterate (h : reserved ≤ size) (queues : List α × List β) (batches : ℕ) :
    (fillBatch size reserved)^[batches] queues =
      (queues.1.drop (batches * reserved),
        queues.2.drop (batches * size - min queues.1.length (batches * reserved))) := by
  induction batches with
  | zero => simp
  | succ batches ih =>
      have hplaces : batches * reserved ≤ batches * size := Nat.mul_le_mul_left batches h
      rw [Function.iterate_succ_apply', ih, fillBatch, List.drop_drop, List.drop_drop,
        List.length_drop, Nat.succ_mul, Nat.succ_mul]
      refine Prod.ext rfl (congrArg (fun taken => queues.2.drop taken) ?_)
      omega

/-- The second queue is empty once the batches hold both it and what they have
taken off the first. -/
theorem fillBatch_iterate_snd_eq_nil_iff (h : reserved ≤ size) (queues : List α × List β)
    (batches : ℕ) :
    ((fillBatch size reserved)^[batches] queues).2 = [] ↔
      queues.2.length + min queues.1.length (batches * reserved) ≤ batches * size := by
  have hplaces : batches * reserved ≤ batches * size := Nat.mul_le_mul_left batches h
  rw [fillBatch_iterate h, List.drop_eq_nil_iff]
  omega

/-- The places of the first queue in the batches that the second one fills up: the
second one has `size - reserved` places in each of them. -/
def sharedPlaces (size reserved : ℕ) (second : ℕ) : ℕ := (second * reserved) ⌈/⌉ (size - reserved)

theorem sharedPlaces_le_iff (h : reserved < size) {second places : ℕ} :
    sharedPlaces size reserved second ≤ places ↔
      second * reserved ≤ (size - reserved) * places :=
  ceilDiv_le_iff_le_mul (by omega)

/-- Batches that hold the second queue without the reserved places hold it with the
shared ones. -/
theorem sharedPlaces_le_of_le (h : reserved < size) {second batches : ℕ}
    (hfree : second ≤ batches * (size - reserved)) :
    sharedPlaces size reserved second ≤ batches * reserved := by
  rw [sharedPlaces_le_iff h]
  calc
    second * reserved ≤ batches * (size - reserved) * reserved :=
      Nat.mul_le_mul_right reserved hfree
    _ = (size - reserved) * (batches * reserved) := by ring

/-- Batches that hold the second queue with the shared places hold it without the
reserved ones: fewer shared places than reserved ones would be too few. -/
theorem le_of_add_sharedPlaces_le (h : reserved < size) {second batches : ℕ}
    (hall : second + sharedPlaces size reserved second ≤ batches * size) :
    second ≤ batches * (size - reserved) := by
  have hplaces : batches * size = batches * reserved + batches * (size - reserved) := by
    rw [← Nat.mul_add, Nat.add_sub_cancel' h.le]
  by_contra hmore
  have hfewer : sharedPlaces size reserved second ≤ batches * size - second := by omega
  rw [sharedPlaces_le_iff h] at hfewer
  have hlt : batches * size - second < batches * reserved := by omega
  have hscaled : (size - reserved) * (batches * size - second) <
      (size - reserved) * (batches * reserved) := Nat.mul_lt_mul_of_pos_left hlt (by omega)
  have hback : (size - reserved) * (batches * reserved) ≤ second * reserved := by
    calc
      (size - reserved) * (batches * reserved) = batches * (size - reserved) * reserved := by ring
      _ ≤ second * reserved := Nat.mul_le_mul_right reserved (not_le.mp hmore).le
  omega

/-- **The number of batches until the second queue is empty.** Up to `sharedPlaces`
items of the first queue are in its way. -/
theorem fillBatch_iterate_snd_eq_nil_iff_ceilDiv_le (h : reserved < size)
    (queues : List α × List β) (batches : ℕ) :
    ((fillBatch size reserved)^[batches] queues).2 = [] ↔
      (queues.2.length + min queues.1.length (sharedPlaces size reserved queues.2.length)) ⌈/⌉
        size ≤ batches := by
  have hplaces : batches * size = batches * reserved + batches * (size - reserved) := by
    rw [← Nat.mul_add, Nat.add_sub_cancel' h.le]
  rw [fillBatch_iterate_snd_eq_nil_iff h.le, ceilDiv_le_iff_le_mul (by omega), mul_comm size]
  constructor
  · intro hheld
    rcases le_or_gt queues.1.length (batches * reserved) with hfits | hfull
    · omega
    · have := sharedPlaces_le_of_le h (by omega :
        queues.2.length ≤ batches * (size - reserved))
      omega
  · intro hheld
    rcases le_or_gt queues.1.length (sharedPlaces size reserved queues.2.length) with hfits | hfull
    · omega
    · have := le_of_add_sharedPlaces_le h (by omega : queues.2.length +
        sharedPlaces size reserved queues.2.length ≤ batches * size)
      omega

end WithdrawalsApi.Math
