import Mathlib.Tactic.Linarith
import TwoPhase.Binary64
import TwoPhase.Proofs.Binary64.Rounding

/-!
# Units, and the nearest number to a quotient

A number whose last bit is worth at least one is whole, and any other one is below `2 ^ 52`.  The
number nearest to a quotient is finite if the quotient is at most some finite number.
-/

namespace TwoPhase

namespace Rounding

theorem halfEven_le {num den bound : Nat} (positive : 0 < den) (le : num ≤ bound * den) :
    halfEven num den ≤ bound := by
  have quotientLe : num / den ≤ bound := Nat.div_le_of_le_mul (le.trans_eq (mul_comm _ _))
  simp only [halfEven]
  split
  · exact quotientLe
  · next up =>
      apply Nat.succ_le_of_lt
      apply lt_of_le_of_ne quotientLe
      intro equal
      have noRemainder := Binary64.mod_eq_zero_of_div_eq le equal
      exact up (.inl (by omega))

theorem halfUp_zero {den : Nat} (positive : 0 < den) : halfUp 0 den = 0 := by
  rw [halfUp, mul_zero, zero_add]
  exact Nat.div_eq_of_lt (by omega)

end Rounding

namespace Binary64

theorem units_eq (mantissa scale : Nat) : units mantissa scale = mantissa * 2 ^ scale :=
  rfl

theorem unitsPerOne_eq : unitsPerOne = 2 ^ 1074 := by
  decide +kernel

theorem unitsPerOne_pos : 0 < unitsPerOne := by
  decide +kernel

theorem units_of_le {mantissa scale : Nat} (whole : 1074 ≤ scale) :
    units mantissa scale = mantissa * 2 ^ (scale - 1074) * unitsPerOne := by
  rw [units_eq, unitsPerOne_eq, mul_assoc, ← pow_add, Nat.sub_add_cancel whole]

theorem mul_two_pow_lt {mantissa scale places : Nat} (short : mantissa < 2 ^ 53)
    (less : scale < places) : mantissa * 2 ^ scale < 2 ^ 52 * 2 ^ places := by
  calc mantissa * 2 ^ scale
      < 2 ^ 53 * 2 ^ scale := Nat.mul_lt_mul_of_pos_right short (Nat.two_pow_pos scale)
    _ = 2 ^ 52 * 2 ^ (scale + 1) := by rw [pow_succ 2 52, mul_assoc, ← pow_succ']
    _ ≤ 2 ^ 52 * 2 ^ places := Nat.mul_le_mul_left _ (Nat.pow_le_pow_right (by decide) less)

theorem units_lt {mantissa scale : Nat} (short : mantissa < 2 ^ 53) (fraction : scale < 1074) :
    units mantissa scale < 2 ^ 52 * unitsPerOne := by
  rw [units_eq, unitsPerOne_eq]
  exact mul_two_pow_lt short fraction

theorem isFinite_negate {x : Binary64} (finite : x.isFinite = true) :
    x.negate.isFinite = true := by
  cases x <;> exact finite

theorem isFinite_ofRounded {mantissa scale : Nat}
    (inRange : scale < 2045 ∨ (scale = 2045 ∧ mantissa < 2 ^ 53)) :
    (ofRounded mantissa scale).isFinite = true := by
  unfold ofRounded
  split
  · next carry =>
      have carried : mantissa = 2 ^ 53 := carry
      rw [if_pos (by omega)]
      rfl
  · rw [if_pos (by omega)]
    rfl

/-- A quotient does not overflow if it is at most the finite number `mantissa * 2 ^ scale`. -/
theorem isFinite_nearest {num den mantissa scale : Nat} (positive : 0 < den)
    (short : mantissa < 2 ^ 53) (inRange : scale ≤ 2045)
    (le : num * unitsPerOne ≤ mantissa * (den * 2 ^ scale)) :
    (nearest num den).isFinite = true := by
  unfold nearest
  generalize num * unitsPerOne = scaled at le
  have quotientLe : scaled / den ≤ mantissa * 2 ^ scale := by
    apply Nat.div_le_of_le_mul
    linarith
  have quotientLt : scaled / den < 2 ^ (scale + 53) := by
    rw [pow_add, mul_comm]
    exact quotientLe.trans_lt (Nat.mul_lt_mul_of_pos_right short (Nat.two_pow_pos scale))
  have log2Lt : (scaled / den).log2 < scale + 53 := by
    by_cases zero : scaled / den = 0
    · rw [zero]
      simp
    · exact (Nat.log2_lt zero).mpr quotientLt
  apply isFinite_ofRounded
  by_cases same : (scaled / den).log2 + 1 - 53 = scale
  · rw [same]
    have rounded := Rounding.halfEven_le (Nat.mul_pos positive (Nat.two_pow_pos scale)) le
    rcases inRange.lt_or_eq with less | equal
    · exact .inl less
    · exact .inr ⟨equal, rounded.trans_lt short⟩
  · exact .inl (by omega)

end Binary64

end TwoPhase
