/-
# Rounding to binary floating-point numbers

A format has a number of bits for the significand and a least exponent. A number
is rounded to a whole multiple of a power of two that leaves at most the bits of
the significand, to the nearest one, and to the even one from the midpoint. The
exponent has no upper bound here; whether a rounded number is still finite is
for the user of the format to say.

Rounding is monotone, it changes no number of the format, and between any two
bounds there are only finitely many of these.
-/

import Mathlib.Algebra.Order.Ring.Int
import Mathlib.Algebra.Ring.Int.Parity
import Mathlib.Data.Int.Interval
import Mathlib.Data.Int.Log
import Mathlib.Data.Rat.Floor
import Mathlib.Order.Interval.Set.Infinite
import Mathlib.Tactic.FieldSimp
import Mathlib.Tactic.Linarith
import Mathlib.Tactic.Ring

namespace WithdrawalsApi.Math.Rounding

/-! ## Whole numbers -/

/-- The nearest integer, and the even one from a midpoint. -/
def roundHalfEven (q : ℚ) : ℤ :=
  if Int.fract q < 1 / 2 ∨ (Int.fract q = 1 / 2 ∧ Even ⌊q⌋) then ⌊q⌋ else ⌊q⌋ + 1

@[simp]
theorem roundHalfEven_intCast (n : ℤ) : roundHalfEven n = n := by
  simp [roundHalfEven]

theorem floor_le_roundHalfEven (q : ℚ) : ⌊q⌋ ≤ roundHalfEven q := by
  unfold roundHalfEven
  split_ifs <;> omega

theorem roundHalfEven_le_floor_add_one (q : ℚ) : roundHalfEven q ≤ ⌊q⌋ + 1 := by
  unfold roundHalfEven
  split_ifs <;> omega

theorem roundHalfEven_mono {first second : ℚ} (hle : first ≤ second) :
    roundHalfEven first ≤ roundHalfEven second := by
  rcases Int.lt_or_eq_of_le (Int.floor_le_floor hle) with hlt | hsame
  · calc
      roundHalfEven first ≤ ⌊first⌋ + 1 := roundHalfEven_le_floor_add_one first
      _ ≤ ⌊second⌋ := hlt
      _ ≤ roundHalfEven second := floor_le_roundHalfEven second
  · have hfract : Int.fract first ≤ Int.fract second := by
      rw [Int.fract, Int.fract, hsame]
      exact sub_le_sub_right hle _
    by_cases hsecond : Int.fract second < 1 / 2 ∨ (Int.fract second = 1 / 2 ∧ Even ⌊second⌋)
    · -- a fraction that goes down has no smaller one that goes up
      have hfirst : Int.fract first < 1 / 2 ∨ (Int.fract first = 1 / 2 ∧ Even ⌊first⌋) := by
        rw [hsame]
        rcases hsecond with hbelow | ⟨hhalf, heven⟩
        · exact Or.inl (hfract.trans_lt hbelow)
        · rcases (hfract.trans_eq hhalf).lt_or_eq with hlt | heq
          · exact Or.inl hlt
          · exact Or.inr ⟨heq, heven⟩
      rw [roundHalfEven, roundHalfEven, if_pos hfirst, if_pos hsecond, hsame]
    · calc
        roundHalfEven first ≤ ⌊first⌋ + 1 := roundHalfEven_le_floor_add_one first
        _ = roundHalfEven second := by rw [roundHalfEven, if_neg hsecond, hsame]

theorem roundHalfEven_nonneg {q : ℚ} (h : 0 ≤ q) : 0 ≤ roundHalfEven q := by
  have := roundHalfEven_mono h
  rwa [← Int.cast_zero, roundHalfEven_intCast] at this

/-! ## A format -/

/-- The bits of the significand, and the exponent of the least positive number. -/
structure Format where
  precision : ℕ
  minExponent : ℤ
  precision_pos : 0 < precision

namespace Format

variable (format : Format)

/-- The exponent at which a number that is not negative is rounded. -/
def exponent (q : ℚ) : ℤ := max (Int.log 2 q + 1 - format.precision) format.minExponent

/-- Rounding of a number that is not negative. -/
def roundNonneg (q : ℚ) : ℚ :=
  roundHalfEven (q / 2 ^ format.exponent q) * 2 ^ format.exponent q

/-- Rounding, in the same way on both sides of zero. -/
def round (q : ℚ) : ℚ := if q < 0 then -format.roundNonneg (-q) else format.roundNonneg q

variable {format}

theorem two_zpow_pos (e : ℤ) : (0 : ℚ) < 2 ^ e := zpow_pos (by norm_num) e

/-- Below the exponent at which it is rounded, a number has at most the bits of the
significand. -/
theorem lt_zpow_precision_add_exponent (q : ℚ) :
    q < 2 ^ (format.precision + format.exponent q) := by
  have hle : Int.log 2 q + 1 ≤ format.precision + format.exponent q := by
    have := le_max_left (Int.log 2 q + 1 - format.precision) format.minExponent
    unfold exponent
    omega
  calc
    q < ((2 : ℕ) : ℚ) ^ (Int.log 2 q + 1) := Int.lt_zpow_succ_log_self (by norm_num) q
    _ ≤ 2 ^ (format.precision + format.exponent q) := by
      rw [Nat.cast_ofNat]
      exact zpow_le_zpow_right₀ (by norm_num) hle

theorem exponent_mono {first second : ℚ} (hpos : 0 < first) (hle : first ≤ second) :
    format.exponent first ≤ format.exponent second := by
  have := Int.log_mono_right (b := 2) hpos hle
  unfold exponent
  omega

/-- A multiple of the power at which it is rounded stays as it is. -/
theorem roundNonneg_of_multiple {q : ℚ} {n : ℤ} (h : q = n * 2 ^ format.exponent q) :
    format.roundNonneg q = q := by
  have hpow : (2 : ℚ) ^ format.exponent q ≠ 0 := (two_zpow_pos _).ne'
  have hquotient : q / 2 ^ format.exponent q = n := by
    rw [div_eq_iff hpow]
    exact h
  rw [roundNonneg, hquotient, roundHalfEven_intCast, ← h]

theorem multiple_of_le {n e e' : ℤ} (h : e' ≤ e) :
    ∃ n' : ℤ, (n : ℚ) * 2 ^ e = n' * 2 ^ e' := by
  obtain ⟨k, hk⟩ := Int.le.dest h
  refine ⟨n * 2 ^ k, ?_⟩
  rw [← hk, zpow_add₀ (by norm_num : (2 : ℚ) ≠ 0), zpow_natCast]
  push_cast
  ring

/-- What has the bits of the significand above the least exponent stays as it is. -/
theorem roundNonneg_significand {n e : ℤ} (hnonneg : 0 ≤ n) (hle : n ≤ 2 ^ format.precision)
    (hmin : format.minExponent ≤ e) :
    format.roundNonneg (n * 2 ^ e) = n * 2 ^ e := by
  rcases hnonneg.eq_or_lt with rfl | hpos
  · exact roundNonneg_of_multiple (n := 0) (by simp)
  have hvalue : (0 : ℚ) < n * 2 ^ e := mul_pos (by exact_mod_cast hpos) (two_zpow_pos e)
  rcases hle.lt_or_eq with hlt | rfl
  · -- fewer bits: the exponent is at most `e`
    have hbound : (n : ℚ) * 2 ^ e < ((2 : ℕ) : ℚ) ^ ((format.precision : ℤ) + e) := by
      rw [Nat.cast_ofNat, zpow_add₀ (by norm_num : (2 : ℚ) ≠ 0), zpow_natCast]
      exact mul_lt_mul_of_pos_right (by exact_mod_cast hlt) (two_zpow_pos e)
    have hlog := (Int.lt_zpow_iff_log_lt (by norm_num) hvalue).mp hbound
    have hexponent : format.exponent (n * 2 ^ e) ≤ e := by
      unfold exponent
      omega
    obtain ⟨n', hn'⟩ := multiple_of_le (n := n) hexponent
    exact roundNonneg_of_multiple hn'
  · -- a power of two: half the significand at the next exponent
    have hpower : (((2 : ℤ) ^ format.precision : ℤ) : ℚ) * 2 ^ e =
        ((2 : ℕ) : ℚ) ^ ((format.precision : ℤ) + e) := by
      rw [Nat.cast_ofNat, zpow_add₀ (by norm_num : (2 : ℚ) ≠ 0), zpow_natCast]
      push_cast
      rfl
    have hlog : Int.log 2 ((((2 : ℤ) ^ format.precision : ℤ) : ℚ) * 2 ^ e) =
        format.precision + e := by
      rw [hpower, Int.log_zpow (by norm_num)]
    have hexponent : format.exponent ((((2 : ℤ) ^ format.precision : ℤ) : ℚ) * 2 ^ e) = e + 1 := by
      unfold exponent
      omega
    obtain ⟨p, hp⟩ := Nat.exists_eq_succ_of_ne_zero format.precision_pos.ne'
    apply roundNonneg_of_multiple (n := 2 ^ p)
    rw [hexponent, hp, zpow_add₀ (by norm_num : (2 : ℚ) ≠ 0), pow_succ]
    push_cast
    ring

theorem significand_le (q : ℚ) :
    roundHalfEven (q / 2 ^ format.exponent q) ≤ 2 ^ format.precision := by
  have hle : q / 2 ^ format.exponent q ≤ ((2 ^ format.precision : ℤ) : ℚ) := by
    rw [div_le_iff₀ (two_zpow_pos _), Int.cast_pow, Int.cast_ofNat, ← zpow_natCast,
      ← zpow_add₀ (by norm_num : (2 : ℚ) ≠ 0)]
    exact (lt_zpow_precision_add_exponent q).le
  calc
    roundHalfEven (q / 2 ^ format.exponent q) ≤
        roundHalfEven ((2 ^ format.precision : ℤ) : ℚ) := roundHalfEven_mono hle
    _ = 2 ^ format.precision := roundHalfEven_intCast _

theorem significand_nonneg {q : ℚ} (h : 0 ≤ q) :
    0 ≤ roundHalfEven (q / 2 ^ format.exponent q) :=
  roundHalfEven_nonneg (div_nonneg h (two_zpow_pos _).le)

theorem roundNonneg_nonneg {q : ℚ} (h : 0 ≤ q) : 0 ≤ format.roundNonneg q :=
  mul_nonneg (by exact_mod_cast significand_nonneg h) (two_zpow_pos _).le

theorem roundNonneg_le (q : ℚ) :
    format.roundNonneg q ≤ 2 ^ (format.precision + format.exponent q) := by
  rw [roundNonneg, zpow_add₀ (by norm_num : (2 : ℚ) ≠ 0), zpow_natCast]
  exact mul_le_mul_of_nonneg_right (by exact_mod_cast significand_le q) (two_zpow_pos _).le

/-- Above the least exponent all bits of the significand are used. -/
theorem le_roundNonneg {q : ℚ} (hpos : 0 < q) (h : format.minExponent < format.exponent q) :
    2 ^ (format.precision + format.exponent q - 1) ≤ format.roundNonneg q := by
  obtain ⟨p, hp⟩ := Nat.exists_eq_succ_of_ne_zero format.precision_pos.ne'
  have hlog : Int.log 2 q = p + format.exponent q := by
    unfold exponent at h ⊢
    omega
  have hle : ((2 ^ p : ℤ) : ℚ) ≤ q / 2 ^ format.exponent q := by
    rw [le_div_iff₀ (two_zpow_pos _), Int.cast_pow, Int.cast_ofNat, ← zpow_natCast,
      ← zpow_add₀ (by norm_num : (2 : ℚ) ≠ 0), ← hlog]
    exact_mod_cast Int.zpow_log_le_self (by norm_num : 1 < 2) hpos
  have hround : 2 ^ p ≤ roundHalfEven (q / 2 ^ format.exponent q) := by
    have := roundHalfEven_mono hle
    rwa [roundHalfEven_intCast] at this
  have hexponent : (format.precision : ℤ) + format.exponent q - 1 = p + format.exponent q := by
    omega
  rw [hexponent, roundNonneg, zpow_add₀ (by norm_num : (2 : ℚ) ≠ 0), zpow_natCast]
  exact mul_le_mul_of_nonneg_right (by exact_mod_cast hround) (two_zpow_pos _).le

theorem roundNonneg_mono {first second : ℚ} (hnonneg : 0 ≤ first) (hle : first ≤ second) :
    format.roundNonneg first ≤ format.roundNonneg second := by
  rcases hnonneg.eq_or_lt with rfl | hpos
  · calc
      format.roundNonneg 0 = 0 := by simp [roundNonneg, roundHalfEven]
      _ ≤ format.roundNonneg second := roundNonneg_nonneg hle
  have hexponent : format.exponent first ≤ format.exponent second := exponent_mono hpos hle
  rcases hexponent.eq_or_lt with hsame | hlt
  · rw [roundNonneg, roundNonneg, hsame]
    have hquotient := div_le_div_of_nonneg_right hle
      (two_zpow_pos (format.exponent second)).le
    exact mul_le_mul_of_nonneg_right (by exact_mod_cast roundHalfEven_mono hquotient)
      (two_zpow_pos _).le
  · -- a power of two lies between numbers of different exponents
    have hmin : format.minExponent < format.exponent second :=
      (le_max_right _ _).trans_lt hlt
    calc
      format.roundNonneg first ≤ 2 ^ (format.precision + format.exponent first) :=
        roundNonneg_le first
      _ ≤ 2 ^ (format.precision + format.exponent second - 1) :=
        zpow_le_zpow_right₀ (by norm_num) (by omega)
      _ ≤ format.roundNonneg second := le_roundNonneg (hpos.trans_le hle) hmin

theorem roundNonneg_roundNonneg {q : ℚ} (h : 0 ≤ q) :
    format.roundNonneg (format.roundNonneg q) = format.roundNonneg q :=
  roundNonneg_significand (significand_nonneg h) (significand_le q) (le_max_right _ _)

/-! ## Rounding of every number -/

theorem round_of_nonneg {q : ℚ} (h : 0 ≤ q) : format.round q = format.roundNonneg q :=
  if_neg h.not_gt

theorem round_neg (q : ℚ) : format.round (-q) = -format.round q := by
  have hzero : format.roundNonneg 0 = 0 := by simp [roundNonneg, roundHalfEven]
  unfold round
  rcases lt_trichotomy q 0 with hneg | rfl | hpos
  · rw [if_neg (by linarith), if_pos hneg, neg_neg]
  · simp [hzero]
  · rw [if_pos (by linarith), if_neg (by linarith), neg_neg]

theorem round_mono : Monotone format.round := by
  intro first second hle
  rcases le_or_gt 0 first with hfirst | hfirst
  · rw [round_of_nonneg hfirst, round_of_nonneg (hfirst.trans hle)]
    exact roundNonneg_mono hfirst hle
  have hnegFirst : format.round first = -format.roundNonneg (-first) := if_pos hfirst
  rw [hnegFirst]
  rcases le_or_gt 0 second with hsecond | hsecond
  · rw [round_of_nonneg hsecond]
    have hnegative : 0 ≤ format.roundNonneg (-first) :=
      roundNonneg_nonneg (neg_nonneg.mpr hfirst.le)
    have hpositive : 0 ≤ format.roundNonneg second := roundNonneg_nonneg hsecond
    linarith
  · have hnegSecond : format.round second = -format.roundNonneg (-second) := if_pos hsecond
    rw [hnegSecond]
    exact neg_le_neg (roundNonneg_mono (by linarith) (neg_le_neg hle))

/-- A rounded number is not rounded again. -/
theorem round_round (q : ℚ) : format.round (format.round q) = format.round q := by
  rcases le_or_gt 0 q with h | h
  · rw [round_of_nonneg h, round_of_nonneg (roundNonneg_nonneg h), roundNonneg_roundNonneg h]
  · have hneg : format.round q = -format.roundNonneg (-q) := if_pos h
    have hnonneg : 0 ≤ -q := by linarith
    rw [hneg, round_neg, round_of_nonneg (roundNonneg_nonneg hnonneg),
      roundNonneg_roundNonneg hnonneg]

/-- Integers with at most the bits of the significand are numbers of the format. -/
theorem round_intCast {n : ℤ} (hmin : format.minExponent ≤ 0)
    (h : |n| ≤ 2 ^ format.precision) : format.round n = n := by
  have hnat {k : ℤ} (hnonneg : 0 ≤ k) (hle : k ≤ 2 ^ format.precision) :
      format.round k = k := by
    rw [round_of_nonneg (by exact_mod_cast hnonneg)]
    simpa using roundNonneg_significand hnonneg hle hmin
  rcases le_or_gt 0 n with hn | hn
  · exact hnat hn ((le_abs_self n).trans h)
  · have hneg := hnat (neg_nonneg.mpr hn.le) ((neg_le_abs n).trans h)
    rw [Int.cast_neg, round_neg] at hneg
    exact neg_injective hneg

/-- Natural numbers are rounded to natural numbers. -/
theorem exists_round_natCast (hmin : format.minExponent ≤ 0) (n : ℕ) :
    ∃ m : ℕ, format.round n = m := by
  by_cases hbits : n ≤ 2 ^ format.precision
  · have habs : |(n : ℤ)| ≤ 2 ^ format.precision := by
      rw [Nat.abs_cast]
      exact_mod_cast hbits
    have hround := round_intCast hmin habs
    rw [Int.cast_natCast] at hround
    exact ⟨n, hround⟩
  · have hlarge : ((2 : ℕ) : ℚ) ^ (format.precision : ℤ) ≤ n := by
      rw [zpow_natCast]
      exact_mod_cast (not_le.mp hbits).le
    have hpos : (0 : ℚ) < n := (zpow_pos (by norm_num) _).trans_le hlarge
    have hexponent : 0 ≤ format.exponent n := by
      have hlog := (Int.zpow_le_iff_le_log (by norm_num) hpos).mp hlarge
      unfold exponent
      omega
    obtain ⟨m, hm⟩ := multiple_of_le (n := roundHalfEven (n / 2 ^ format.exponent n)) hexponent
    have hround : format.round n = m := by
      rw [round_of_nonneg hpos.le, roundNonneg, hm, zpow_zero, mul_one]
    have hnonneg : 0 ≤ m := by
      have hle : 0 ≤ format.roundNonneg n := roundNonneg_nonneg hpos.le
      rw [← round_of_nonneg hpos.le, hround] at hle
      exact_mod_cast hle
    exact ⟨m.toNat, by rw [hround, ← Int.cast_natCast, Int.toNat_of_nonneg hnonneg]⟩

/-- Powers of two are numbers of the format. -/
theorem round_two_pow {e : ℕ} (hmin : format.minExponent ≤ e) : format.round (2 ^ e) = 2 ^ e := by
  have hsignificand : format.roundNonneg ((1 : ℤ) * 2 ^ (e : ℤ)) = (1 : ℤ) * 2 ^ (e : ℤ) :=
    roundNonneg_significand (by norm_num) (one_le_pow₀ (by norm_num)) hmin
  rw [Int.cast_one, one_mul, zpow_natCast] at hsignificand
  rw [round_of_nonneg (by positivity), hsignificand]

/-- The numbers of the format are multiples of its least positive one. -/
theorem exists_eq_of_round_eq {q : ℚ} (h : format.round q = q) :
    ∃ n : ℤ, q = n * 2 ^ format.minExponent := by
  have hround (q : ℚ) : ∃ n : ℤ, format.roundNonneg q = n * 2 ^ format.minExponent :=
    multiple_of_le (le_max_right _ _)
  rw [← h, round]
  split_ifs with hneg
  · obtain ⟨n, hn⟩ := hround (-q)
    exact ⟨-n, by rw [hn]; push_cast; ring⟩
  · exact hround q

/-- Between two bounds there are finitely many numbers of the format. -/
theorem finite_setOf_round_eq (lower upper : ℚ) :
    {q | format.round q = q ∧ lower ≤ q ∧ q ≤ upper}.Finite := by
  have hunit := two_zpow_pos format.minExponent
  refine ((Set.finite_Icc ⌈lower / 2 ^ format.minExponent⌉
    ⌊upper / 2 ^ format.minExponent⌋).image
    fun n : ℤ => (n : ℚ) * 2 ^ format.minExponent).subset ?_
  rintro q ⟨hround, hlower, hupper⟩
  obtain ⟨n, rfl⟩ := exists_eq_of_round_eq hround
  refine ⟨n, ⟨?_, ?_⟩, rfl⟩
  · rw [Int.ceil_le, div_le_iff₀ hunit]
    exact hlower
  · rw [Int.le_floor, le_div_iff₀ hunit]
    exact hupper

/-- The first integer that has too many bits is a midpoint, and rounds down to the even
number. -/
theorem round_two_pow_add_one (hmin : format.minExponent ≤ 1) (hbits : 1 < format.precision) :
    format.round (2 ^ format.precision + 1) = 2 ^ format.precision := by
  obtain ⟨p, hp⟩ := Nat.exists_eq_add_of_lt hbits
  have hlarge : (1 : ℚ) < 2 ^ format.precision :=
    one_lt_pow₀ (by norm_num) format.precision_pos.ne'
  have hpos : (0 : ℚ) < 2 ^ format.precision + 1 := by linarith
  have hlog : Int.log 2 ((2 : ℚ) ^ format.precision + 1) = format.precision := by
    apply le_antisymm
    · rw [← Int.lt_add_one_iff, ← Int.lt_zpow_iff_log_lt (by norm_num) hpos]
      have hdouble : ((2 : ℕ) : ℚ) ^ ((format.precision : ℤ) + 1) = 2 ^ format.precision * 2 := by
        rw [Nat.cast_ofNat, zpow_add₀ (by norm_num), zpow_natCast, zpow_one]
      rw [hdouble]
      linarith
    · rw [← Int.zpow_le_iff_le_log (by norm_num) hpos, Nat.cast_ofNat, zpow_natCast]
      linarith
  have hexponent : format.exponent (2 ^ format.precision + 1) = 1 := by
    unfold exponent
    omega
  have hhalf : ((2 : ℚ) ^ format.precision + 1) / 2 = ((2 ^ (p + 1) : ℤ) : ℚ) + 1 / 2 := by
    rw [hp]
    push_cast
    ring
  have hfloor : ⌊((2 ^ (p + 1) : ℤ) : ℚ) + 1 / 2⌋ = 2 ^ (p + 1) := by
    rw [Int.floor_intCast_add]
    norm_num
  have hfract : Int.fract (((2 ^ (p + 1) : ℤ) : ℚ) + 1 / 2) = 1 / 2 := by
    rw [Int.fract_intCast_add]
    norm_num
  have heven : Even ((2 : ℤ) ^ (p + 1)) := by
    rw [pow_succ]
    exact even_two.mul_left _
  rw [round_of_nonneg hpos.le, roundNonneg, hexponent, zpow_one, hhalf, roundHalfEven, hfloor,
    hfract, if_pos (Or.inr ⟨rfl, heven⟩), hp]
  push_cast
  ring

end Format

end WithdrawalsApi.Math.Rounding
