/-
Decimal numbers with a scale.

A decimal is a whole number of digits and a scale, the number of them behind the point; a
negative scale stands for zeros that are not written.  Giving it a smaller scale drops
digits, towards zero: an integer comes out of that unchanged, and anything else as its
whole part.
-/
import Mathlib.Algebra.Order.Field.Rat
import Mathlib.Data.Rat.Cast.Order
import Mathlib.Tactic.Positivity

namespace Numeric

/-- `digits * 10 ^ (-scale)`. -/
structure Decimal where
  digits : Int
  scale : Int
  deriving DecidableEq, Repr

namespace Decimal

/-- The number. -/
def value (v : Decimal) : ℚ := v.digits * (10 : ℚ) ^ (-v.scale)

/-- The decimal with another scale; what is behind the new one is dropped. -/
def rescale (v : Decimal) (scale : Int) : Decimal where
  digits := (v.digits * 10 ^ (scale - v.scale).toNat).tdiv (10 ^ (v.scale - scale).toNat)
  scale := scale

/-- The digits in front of the point. -/
def whole (v : Decimal) : Int := (v.rescale 0).digits

/-- The number as a fraction, of which one part is a power of ten and the other has no zeros
added. -/
theorem value_eq (v : Decimal) :
    v.value = ((v.digits * 10 ^ (0 - v.scale).toNat : ℤ) : ℚ) /
      ((10 ^ (v.scale - 0).toNat : ℤ) : ℚ) := by
  unfold value
  push_cast
  rcases Int.le_total 0 v.scale with h | h
  · have hzero : (0 - v.scale).toNat = 0 := by omega
    have hnat : v.scale = ((v.scale - 0).toNat : ℤ) := by omega
    rw [hzero, pow_zero, mul_one, div_eq_mul_inv, ← zpow_natCast, ← zpow_neg, ← hnat]
  · have hzero : (v.scale - 0).toNat = 0 := by omega
    have hnat : -v.scale = ((0 - v.scale).toNat : ℤ) := by omega
    rw [hzero, pow_zero, div_one, hnat, zpow_natCast]

/-- **An integer is kept.** -/
theorem whole_of_value_eq {v : Decimal} {n : ℤ} (h : v.value = n) : v.whole = n := by
  have hpow : (10 ^ (v.scale - 0).toNat : ℤ) ≠ 0 := by positivity
  rw [value_eq, div_eq_iff (by exact_mod_cast hpow)] at h
  have hdigits : v.digits * 10 ^ (0 - v.scale).toNat = n * 10 ^ (v.scale - 0).toNat := by
    exact_mod_cast h
  show (v.digits * 10 ^ (0 - v.scale).toNat).tdiv (10 ^ (v.scale - 0).toNat) = n
  rw [hdigits, Int.mul_tdiv_cancel _ hpow]

/-- The whole part is at least a positive number when the number is. -/
theorem le_whole_iff {v : Decimal} {n : ℤ} (hn : 0 < n) : n ≤ v.whole ↔ (n : ℚ) ≤ v.value := by
  have hpow : (0 : ℤ) < 10 ^ (v.scale - 0).toNat := by positivity
  rw [value_eq, le_div_iff₀ (by exact_mod_cast hpow)]
  show n ≤ (v.digits * 10 ^ (0 - v.scale).toNat).tdiv (10 ^ (v.scale - 0).toNat) ↔ _
  generalize v.digits * 10 ^ (0 - v.scale).toNat = d
  generalize (10 : ℤ) ^ (v.scale - 0).toNat = p at hpow
  rw [show ((n : ℚ) * (p : ℚ) ≤ (d : ℚ)) ↔ n * p ≤ d by norm_cast]
  rcases Int.lt_or_le d 0 with hneg | hnonneg
  · have htdiv : d.tdiv p ≤ 0 := by
      have hflip : (-d).tdiv p = -(d.tdiv p) := Int.neg_tdiv d p
      have hpos : 0 ≤ (-d).tdiv p := Int.tdiv_nonneg (by omega) hpow.le
      omega
    have hmul : 0 < n * p := Int.mul_pos hn hpow
    omega
  · rw [Int.tdiv_eq_ediv_of_nonneg hnonneg]
    exact Int.le_ediv_iff_mul_le hpow

/-- **It is negative** when the number is at most minus one. -/
theorem whole_neg_iff {v : Decimal} : v.whole < 0 ↔ v.value ≤ -1 := by
  have hneg : (⟨-v.digits, v.scale⟩ : Decimal).whole = -v.whole := by
    show (-v.digits * 10 ^ (0 - v.scale).toNat).tdiv (10 ^ (v.scale - 0).toNat) = _
    rw [Int.neg_mul, Int.neg_tdiv]
    rfl
  have hvalue : (⟨-v.digits, v.scale⟩ : Decimal).value = -v.value := by
    unfold value
    push_cast
    exact neg_mul _ _
  have hone := le_whole_iff (v := ⟨-v.digits, v.scale⟩) (n := 1) Int.one_pos
  rw [hneg, hvalue, Int.cast_one] at hone
  constructor
  · intro h
    exact le_neg_of_le_neg (hone.mp (by omega))
  · intro h
    have hle := hone.mpr (le_neg_of_le_neg h)
    omega

end Decimal

end Numeric
