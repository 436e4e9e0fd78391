import Mathlib.Algebra.Order.Field.Basic

-- A bucket that fills at a rate up to its burst, over any ordered field.
namespace TokenBucket

variable {K : Type*} [Field K] [LinearOrder K] [IsStrictOrderedRing K] {rate burst tokens elapsed : K}

-- What a bucket holds some time after it held `tokens`.
def level (rate burst tokens elapsed : K) : K :=
  min burst (tokens + rate * elapsed)

omit [IsStrictOrderedRing K] in
theorem level_le : level rate burst tokens elapsed ≤ burst :=
  min_le_left _ _

theorem level_nonneg (hburst : 0 ≤ burst) (hrate : 0 ≤ rate) (htokens : 0 ≤ tokens)
    (helapsed : 0 ≤ elapsed) : 0 ≤ level rate burst tokens elapsed :=
  le_min hburst (add_nonneg htokens (mul_nonneg hrate helapsed))

omit [IsStrictOrderedRing K] in
theorem level_zero (h : tokens ≤ burst) : level rate burst tokens 0 = tokens := by
  rw [level, mul_zero, add_zero, min_eq_right h]

omit [IsStrictOrderedRing K] in
theorem level_full (h : burst ≤ tokens + rate * elapsed) : level rate burst tokens elapsed = burst :=
  min_eq_left h

theorem level_add_le (hrate : 0 ≤ rate) {more : K} (hmore : 0 ≤ more) :
    level rate burst tokens (elapsed + more) ≤ level rate burst tokens elapsed + rate * more := by
  have hgain : 0 ≤ rate * more := mul_nonneg hrate hmore
  rw [level, level, min_add, mul_add, ← add_assoc]
  exact min_le_min (le_add_of_nonneg_right hgain) le_rfl

end TokenBucket
