import Mathlib.Algebra.Order.Round
import Mathlib.Data.Rat.Floor
import Mathlib.Tactic.FieldSimp
import Mathlib.Tactic.Linarith
import Mathlib.Tactic.Ring
import TwoPhase.Rounding

/-!
# Rounded quotients

A rounded quotient is within a half of the quotient, and any whole number closer than a half is the
rounded quotient.  Rounding to a number of significant bits changes a number by at most half the
worth of the last bit, and a number that has no more bits not at all.
-/

namespace TwoPhase.Rounding

section Quotient

variable {num den : Nat}

theorem div_eq_quotient_add (positive : 0 < den) :
    (num : ℚ) / den = (num / den : ℕ) + (num % den : ℕ) / den := by
  have nonzero : (den : ℚ) ≠ 0 := Nat.cast_ne_zero.mpr positive.ne'
  have total : ((den * (num / den) + num % den : ℕ) : ℚ) = num := by rw [Nat.div_add_mod]
  push_cast at total
  field_simp
  linarith

/-- Which way a quotient is rounded, by its remainder. -/
theorem halfEven_cases (num den : Nat) :
    (halfEven num den = num / den ∧ 2 * (num % den) ≤ den ∧
        (2 * (num % den) = den → num / den % 2 = 0)) ∨
      (halfEven num den = num / den + 1 ∧ den ≤ 2 * (num % den) ∧
        (2 * (num % den) = den → num / den % 2 = 1)) := by
  simp only [halfEven]
  split
  · next down => exact .inl ⟨rfl, by omega, by omega⟩
  · next up => exact .inr ⟨rfl, by omega, by omega⟩

theorem abs_halfEven_sub_le (positive : 0 < den) :
    |(halfEven num den : ℚ) - num / den| ≤ 1 / 2 := by
  have denPositive : (0 : ℚ) < den := Nat.cast_pos.mpr positive
  have less : ((num % den : ℕ) : ℚ) / den ≤ 1 :=
    (div_le_one denPositive).mpr (Nat.cast_le.mpr (Nat.mod_lt num positive).le)
  rw [div_eq_quotient_add positive]
  rcases halfEven_cases num den with ⟨down, small, _⟩ | ⟨up, large, _⟩
  · have small : ((num % den : ℕ) : ℚ) / den ≤ 1 / 2 := by
      rw [div_le_div_iff₀ denPositive two_pos]
      exact_mod_cast (by omega : num % den * 2 ≤ 1 * den)
    rw [down, sub_add_cancel_left, abs_neg, abs_of_nonneg (by positivity)]
    exact small
  · have large : 1 / 2 ≤ ((num % den : ℕ) : ℚ) / den := by
      rw [div_le_div_iff₀ two_pos denPositive]
      exact_mod_cast (by omega : 1 * den ≤ num % den * 2)
    rw [up, Nat.cast_succ, add_sub_add_left_eq_sub, abs_of_nonneg (sub_nonneg.mpr less)]
    linarith

/-- A whole number closer than a half is the rounded quotient. -/
theorem halfEven_eq_of_near {whole : Nat} (positive : 0 < den)
    (near : |(whole : ℚ) - num / den| < 1 / 2) : halfEven num den = whole := by
  have rounded := @abs_halfEven_sub_le num _ positive
  have close : |((halfEven num den : ℤ) - whole : ℤ)| < 1 := by
    rw [← Int.cast_lt (R := ℚ)]
    push_cast
    calc |(halfEven num den : ℚ) - whole|
        ≤ |(halfEven num den : ℚ) - num / den| + |num / den - (whole : ℚ)| := abs_sub_le _ _ _
      _ < 1 := by
          rw [abs_sub_comm (_ / _)]
          linarith
  have equal := Int.abs_lt_one_iff.mp close
  omega

/-- A quotient halfway between two whole numbers leaves half the denominator. -/
theorem div_and_mod_of_half {odd : Nat} (positive : 0 < den) (isOdd : odd % 2 = 1)
    (half : 2 * num = odd * den) : num / den = odd / 2 ∧ 2 * (num % den) = den := by
  constructor
  · rw [← Nat.mul_div_mul_left num den two_pos, half, Nat.mul_div_mul_right _ _ positive]
  · rw [← Nat.mul_mod_mul_left, half, Nat.mul_mod_mul_right, isOdd, one_mul]

/-- An even number is the rounded quotient as well if it is a half away. -/
theorem halfEven_eq_of_le {whole : Nat} (positive : 0 < den)
    (near : |(whole : ℚ) - num / den| ≤ 1 / 2)
    (tie : |(whole : ℚ) - num / den| = 1 / 2 → whole % 2 = 0) : halfEven num den = whole := by
  rcases near.lt_or_eq with less | half
  · exact halfEven_eq_of_near positive less
  have even := tie half
  have nonzero : (den : ℚ) ≠ 0 := Nat.cast_ne_zero.mpr positive.ne'
  rcases eq_or_eq_neg_of_abs_eq half with above | below
  · -- The quotient lies below the whole number, so the one before that is odd.
    field_simp at above
    have twice : 2 * num + den = 2 * whole * den := by
      rw [← Nat.cast_inj (R := ℚ)]
      push_cast
      linarith
    have wholePositive : 0 < whole := by
      by_contra zero
      rw [Nat.eq_zero_of_not_pos zero] at twice
      omega
    have isHalf : 2 * num = (2 * whole - 1) * den := by
      rw [Nat.sub_mul]
      omega
    obtain ⟨quotient, remainder⟩ := div_and_mod_of_half positive (by omega) isHalf
    rcases halfEven_cases num den with ⟨_, _, onTie⟩ | ⟨up, _, _⟩
    · have := onTie remainder
      omega
    · omega
  · field_simp at below
    have isHalf : 2 * num = (2 * whole + 1) * den := by
      rw [← Nat.cast_inj (R := ℚ)]
      push_cast
      linarith
    obtain ⟨quotient, remainder⟩ := div_and_mod_of_half positive (by omega) isHalf
    rcases halfEven_cases num den with ⟨down, _, _⟩ | ⟨_, _, onTie⟩
    · omega
    · have := onTie remainder
      omega

theorem halfEven_mul_self (whole : Nat) (positive : 0 < den) :
    halfEven (whole * den) den = whole := by
  have nonzero : (den : ℚ) ≠ 0 := Nat.cast_ne_zero.mpr positive.ne'
  apply halfEven_eq_of_near positive
  rw [Nat.cast_mul, mul_div_cancel_right₀ _ nonzero, sub_self, abs_zero]
  exact one_half_pos

theorem halfEven_mul_right {factor : Nat} (positive : 0 < factor) :
    halfEven (num * factor) (den * factor) = halfEven num den := by
  have twice : 2 * (num * factor % (den * factor)) = 2 * (num % den) * factor := by
    rw [Nat.mul_mod_mul_right, mul_assoc]
  simp only [halfEven, twice, Nat.mul_div_mul_right _ _ positive, Nat.mul_lt_mul_right positive,
    Nat.mul_left_inj positive.ne']

theorem halfUp_eq_round (positive : 0 < den) : (halfUp num den : ℤ) = round ((num : ℚ) / den) := by
  have nonzero : (den : ℚ) ≠ 0 := Nat.cast_ne_zero.mpr positive.ne'
  have sum : (num : ℚ) / den + 1 / 2 = ((2 * num + den : ℕ) : ℚ) / (2 * den : ℕ) := by
    push_cast
    field_simp
  rw [round_eq, sum, halfUp, Rat.floor_natCast_div_natCast, Int.natCast_ediv]

end Quotient

section Width

variable {width value : Nat}

theorem abs_toWidth_sub_le (width value : Nat) :
    |(toWidth width value : ℚ) - value| ≤ 2 ^ (value.log2 + 1 - width) / 2 := by
  rw [toWidth, Nat.pow_eq]
  set place := 2 ^ (value.log2 + 1 - width) with isPlace
  have positive : 0 < place := Nat.two_pow_pos _
  have castPositive : (0 : ℚ) < place := Nat.cast_pos.mpr positive
  have rounded := @abs_halfEven_sub_le value _ positive
  have worth : ((2 : ℚ) ^ (value.log2 + 1 - width)) = place := by
    rw [isPlace]
    push_cast
    rfl
  have factored : ((halfEven value place * place : ℕ) : ℚ) - value =
      (halfEven value place - value / place) * place := by
    push_cast
    field_simp
  rw [worth, factored, abs_mul, abs_of_pos castPositive]
  linarith [mul_le_mul_of_nonneg_right rounded castPositive.le]

theorem log2_mul_two_pow {mantissa : Nat} (nonzero : mantissa ≠ 0) (places : Nat) :
    (mantissa * 2 ^ places).log2 = mantissa.log2 + places := by
  induction places with
  | zero => rw [pow_zero, mul_one, add_zero]
  | succ places inductionHypothesis =>
      have product : mantissa * 2 ^ places ≠ 0 := mul_ne_zero nonzero (Nat.two_pow_pos places).ne'
      rw [pow_succ', mul_left_comm, Nat.log2_two_mul product, inductionHypothesis, add_assoc]

/-- A number that needs no more significant bits is not changed. -/
theorem toWidth_mul_two_pow {mantissa : Nat} (fits : mantissa < 2 ^ width) (places : Nat) :
    toWidth width (mantissa * 2 ^ places) = mantissa * 2 ^ places := by
  by_cases zero : mantissa = 0
  · rw [zero, zero_mul, toWidth, halfEven]
    simp
  · have bits : mantissa.log2 < width := (Nat.log2_lt zero).mpr fits
    rw [toWidth, Nat.pow_eq, log2_mul_two_pow zero]
    obtain ⟨more, isMore⟩ := Nat.exists_eq_add_of_le
      (by omega : mantissa.log2 + places + 1 - width ≤ places)
    have split : mantissa * 2 ^ places =
        mantissa * 2 ^ more * 2 ^ (mantissa.log2 + places + 1 - width) := by
      rw [mul_assoc, ← pow_add, add_comm more, ← isMore]
    rw [split, halfEven_mul_self _ (Nat.two_pow_pos _)]

end Width

end TwoPhase.Rounding
