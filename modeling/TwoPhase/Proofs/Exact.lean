import Mathlib.Algebra.BigOperators.Field
import Mathlib.Algebra.BigOperators.Fin
import Mathlib.Algebra.Order.BigOperators.Ring.Finset
import Mathlib.Algebra.Order.Field.Rat
import Mathlib.Tactic.FieldSimp
import Mathlib.Tactic.Linarith
import Mathlib.Tactic.Ring
import TwoPhase.Scalar.Rational

/-!
# Exact arithmetic

The operations of the rational scalars are those of the field `ℚ`.  Where every value that a run
tests is clear of the tolerance, the tests with a tolerance decide as exact ones would.
-/

namespace TwoPhase

namespace Scalar

@[simp]
theorem abs_rat (value : ℚ) : Scalar.abs value = |value| := by
  change Rat.abs value = |value|
  rcases le_total 0 value with nonneg | nonpos
  · rw [Rat.abs_of_nonneg nonneg, abs_of_nonneg nonneg]
  · rw [Rat.abs_of_nonpos nonpos, abs_of_nonpos nonpos]

theorem tolerance_rat : (Scalar.tolerance : ℚ) = 1 / 10 ^ 9 := by
  change (1e-9 : ℚ) = 1 / 10 ^ 9
  norm_num

theorem residualTolerance_rat : (Scalar.residualTolerance : ℚ) = 1 / 10 ^ 6 := by
  change (1e-6 : ℚ) = 1 / 10 ^ 6
  norm_num

theorem tolerance_pos : (0 : ℚ) < Scalar.tolerance := by
  rw [tolerance_rat]
  norm_num

theorem ne_zero_of_large {value : ℚ} (large : Scalar.tolerance < Scalar.abs value) :
    value ≠ 0 := by
  intro zero
  rw [abs_rat, zero, abs_zero] at large
  exact lt_asymm large tolerance_pos

theorem sum_rat (values : List ℚ) : Scalar.sum values = values.sum := by
  change values.foldl (· + ·) 0 = values.sum
  exact List.sum_eq_foldl.symm

end Scalar

/-- A value that no test takes for zero unless it is zero. -/
def Clear (value : ℚ) : Prop :=
  value = 0 ∨ Scalar.tolerance < |value|

instance (value : ℚ) : Decidable (Clear value) :=
  inferInstanceAs (Decidable (value = 0 ∨ Scalar.tolerance < |value|))

namespace Clear

variable {value : ℚ}

theorem eq_zero (clear : Clear value) (small : ¬ Scalar.tolerance < |value|) : value = 0 := by
  rcases clear with zero | large
  · exact zero
  · exact absurd large small

theorem nonneg (clear : Clear value) (notBelow : ¬ value < -Scalar.tolerance) : 0 ≤ value := by
  rcases clear with zero | large
  · exact zero.ge
  · by_contra negative
    rw [abs_of_neg (not_le.mp negative)] at large
    exact notBelow (lt_neg_of_lt_neg large)

theorem nonpos (clear : Clear value) (notAbove : ¬ Scalar.tolerance < value) : value ≤ 0 := by
  rcases clear with zero | large
  · exact zero.le
  · by_contra positive
    rw [abs_of_pos (not_le.mp positive)] at large
    exact notAbove large

end Clear

end TwoPhase
