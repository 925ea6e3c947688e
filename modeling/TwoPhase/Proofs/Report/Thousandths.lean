import TwoPhase.Proofs.Report
import TwoPhase.Proofs.Rounding

/-!
# The thousandths of a written value

A value is written as a whole number of thousandths.  They are the exact thousandths, rounded once
to binary64 below the point and then to a whole number, so only where the exact thousandths come
close to a half can the first rounding change the second one.
-/

namespace TwoPhase.Report

open Binary64 (unitsPerOne)

/-- The thousandths that are written for a number of units. -/
def thousandths (units : Nat) : Nat :=
  1000 * (split units).1 + (split units).2

/-- The thousandths before they are rounded to a whole number: exact above the point, and rounded to
binary64 below it. -/
def scaled (units : Nat) : ℚ :=
  1000 * (units / unitsPerOne : ℕ) +
    (Rounding.toWidth 53 (units % unitsPerOne * 1000) : ℕ) / unitsPerOne

/-- The exact thousandths of a number of units. -/
def exactThousandths (units : Nat) : ℚ :=
  1000 * (units / unitsPerOne)

section Scaled

variable (units : Nat)

theorem castUnitsPerOne_eq : (unitsPerOne : ℚ) = 2 ^ 1074 := by
  rw [Binary64.unitsPerOne_eq, Nat.cast_pow, Nat.cast_ofNat]

theorem castUnitsPerOne_pos : (0 : ℚ) < unitsPerOne :=
  Nat.cast_pos.mpr Binary64.unitsPerOne_pos

theorem scaled_sub_exactThousandths :
    scaled units - exactThousandths units =
      ((Rounding.toWidth 53 (units % unitsPerOne * 1000) : ℕ) -
        (units % unitsPerOne * 1000 : ℕ)) / unitsPerOne := by
  rw [scaled, exactThousandths, @Rounding.div_eq_quotient_add units _ Binary64.unitsPerOne_pos]
  push_cast
  ring

theorem abs_scaled_sub_le : |scaled units - exactThousandths units| ≤ 1 / 2 ^ 44 := by
  rw [scaled_sub_exactThousandths, abs_div, abs_of_pos castUnitsPerOne_pos,
    div_le_iff₀ castUnitsPerOne_pos]
  set fraction := units % unitsPerOne * 1000 with isFraction
  have below : fraction < 2 ^ 1084 := by
    have less := Nat.mod_lt units Binary64.unitsPerOne_pos
    calc fraction < unitsPerOne * 2 ^ 10 := Nat.mul_lt_mul_of_lt_of_le less (by decide) (by decide)
      _ = 2 ^ 1084 := by rw [Binary64.unitsPerOne_eq, ← pow_add]
  have bits : fraction.log2 + 1 - 53 ≤ 1031 := by
    by_cases zero : fraction = 0
    · rw [zero]
      simp
    · have := (Nat.log2_lt zero).mpr below
      omega
  calc |(Rounding.toWidth 53 fraction : ℚ) - fraction|
      ≤ 2 ^ (fraction.log2 + 1 - 53) / 2 := Rounding.abs_toWidth_sub_le 53 fraction
    _ ≤ 2 ^ 1031 / 2 :=
        div_le_div_of_nonneg_right (pow_le_pow_right₀ one_le_two bits) zero_le_two
    _ = 1 / 2 ^ 44 * unitsPerOne := by
        rw [castUnitsPerOne_eq, pow_add 2 1030 1, pow_add 2 44 1030]
        field_simp

/-- A whole number of half thousandths is not changed by the first rounding. -/
theorem scaled_eq_of_half {units halves : Nat} (half : 2000 * units = halves * unitsPerOne) :
    scaled units = exactThousandths units := by
  have positive := Binary64.unitsPerOne_pos
  have total := Nat.div_add_mod units unitsPerOne
  have isFraction : 2000 * (units % unitsPerOne) =
      (halves - 2000 * (units / unitsPerOne)) * unitsPerOne := by
    rw [Nat.sub_mul, ← half, mul_assoc, mul_comm (units / unitsPerOne)]
    omega
  have few : halves - 2000 * (units / unitsPerOne) < 2000 := by
    apply Nat.lt_of_mul_lt_mul_right (a := unitsPerOne)
    rw [← isFraction]
    exact Nat.mul_lt_mul_of_pos_left (Nat.mod_lt units positive) (by decide)
  have exact : units % unitsPerOne * 1000 =
      (halves - 2000 * (units / unitsPerOne)) * 2 ^ 1073 := by
    apply Nat.mul_right_cancel two_pos
    rw [mul_assoc _ (2 ^ 1073), ← pow_succ, ← Binary64.unitsPerOne_eq, ← isFraction]
    omega
  rw [← sub_eq_zero, scaled_sub_exactThousandths, exact,
    Rounding.toWidth_mul_two_pow (few.trans (by decide)), sub_self, zero_div]

end Scaled

section Round

theorem carry_eq {whole count : Nat} (le : count ≤ 1000) :
    1000 * (carry whole count).1 + (carry whole count).2 = 1000 * whole + count := by
  unfold carry
  split
  · rfl
  · simp only
    omega

theorem round_le_of_le {value : ℚ} {whole : Int} (le : value < whole + 1 / 2) :
    round value ≤ whole := by
  rw [round_eq, ← Int.lt_add_one_iff, Int.floor_lt]
  push_cast
  linarith

/-- Two values round to one whole number if no half lies between them and none too close. -/
theorem round_eq_of_far {near value distance : ℚ} (close : |near - value| ≤ distance)
    (far : ∀ odd : ℤ, Odd odd → distance < |value - odd / 2|) : round near = round value := by
  have lower := abs_le.mp (abs_sub_round value)
  have below := far (2 * round value - 1) (by simp)
  have above := far (2 * round value + 1) (odd_two_mul_add_one _)
  push_cast at below above
  rw [abs_of_nonneg (by linarith)] at below
  rw [abs_of_nonpos (by linarith)] at above
  obtain ⟨closeBelow, closeAbove⟩ := abs_le.mp close
  rw [round_eq near, Int.floor_eq_iff]
  constructor <;> linarith

variable (units : Nat)

theorem halfUp_le_thousand :
    Rounding.halfUp (Rounding.toWidth 53 (units % unitsPerOne * 1000)) unitsPerOne ≤ 1000 := by
  have positive := Binary64.unitsPerOne_pos
  have near := (abs_le.mp (abs_scaled_sub_le (units % unitsPerOne))).2
  have less : ((units % unitsPerOne : ℕ) : ℚ) / unitsPerOne < 1 :=
    (div_lt_one castUnitsPerOne_pos).mpr (Nat.cast_lt.mpr (Nat.mod_lt units positive))
  rw [scaled, exactThousandths, Nat.mod_mod, Nat.div_eq_of_lt (Nat.mod_lt units positive),
    Nat.cast_zero, mul_zero, zero_add] at near
  rw [← Int.ofNat_le, Rounding.halfUp_eq_round positive]
  apply round_le_of_le
  have small : (1 : ℚ) / 2 ^ 44 < 1 / 2 := by norm_num
  push_cast
  linarith

theorem thousandths_eq_round : (thousandths units : ℤ) = round (scaled units) := by
  rw [thousandths, split, carry_eq (halfUp_le_thousand units), scaled]
  push_cast
  rw [Rounding.halfUp_eq_round Binary64.unitsPerOne_pos]
  exact_mod_cast (round_intCast_add _ (1000 * (units / unitsPerOne : ℕ) : ℤ)).symm

theorem abs_thousandths_sub_le :
    |(thousandths units : ℚ) - exactThousandths units| ≤ 1 / 2 + 1 / 2 ^ 44 := by
  have isRound : (thousandths units : ℚ) = round (scaled units) := by
    rw [← thousandths_eq_round, Int.cast_natCast]
  calc |(thousandths units : ℚ) - exactThousandths units|
      ≤ |(thousandths units : ℚ) - scaled units| + |scaled units - exactThousandths units| :=
        abs_sub_le _ _ _
    _ ≤ 1 / 2 + 1 / 2 ^ 44 := by
        apply add_le_add _ (abs_scaled_sub_le units)
        rw [isRound, abs_sub_comm]
        exact abs_sub_round _

/-- The exact thousandths are rounded as such where they are a half, or far from every half. -/
theorem thousandths_eq_of_clear {units : Nat}
    (clear : (∃ halves : ℕ, 2000 * units = halves * unitsPerOne) ∨
      ∀ odd : ℤ, Odd odd → 1 / 2 ^ 44 < |exactThousandths units - odd / 2|) :
    (thousandths units : ℤ) = round (exactThousandths units) := by
  rw [thousandths_eq_round]
  rcases clear with ⟨halves, half⟩ | far
  · rw [scaled_eq_of_half half]
  · exact round_eq_of_far (abs_scaled_sub_le units) far

theorem split_eq : split units = (thousandths units / 1000, thousandths units % 1000) := by
  have fits := split_snd_lt units
  apply Prod.ext <;> simp only [thousandths] <;> omega

end Round

end TwoPhase.Report
