import TwoPhase.Proofs.Binary64.Packing
import TwoPhase.Proofs.Decimal.Reading
import TwoPhase.Report

/-!
# Reading back a written value

The text of a finite number is a sign, digits, a point and at most three digits, and reads back as a
finite number.
-/

namespace TwoPhase

namespace Report

section Carry

variable {whole thousandths : Nat}

theorem carry_snd_lt : (carry whole thousandths).2 < 1000 := by
  unfold carry
  split
  · next fits => exact fits
  · exact Nat.zero_lt_succ 999

theorem carry_fst_le : (carry whole thousandths).1 ≤ whole + 1 := by
  unfold carry
  split
  · exact Nat.le_succ whole
  · exact le_rfl

end Carry

theorem split_snd_lt (units : Nat) : (split units).2 < 1000 := by
  rw [split]
  exact carry_snd_lt

theorem split_fst_le (units : Nat) : (split units).1 ≤ units / Binary64.unitsPerOne + 1 := by
  rw [split]
  exact carry_fst_le

theorem split_of_whole (whole : Nat) : split (whole * Binary64.unitsPerOne) = (whole, 0) := by
  have positive := Binary64.unitsPerOne_pos
  rw [split]
  generalize Binary64.unitsPerOne = one at positive ⊢
  rw [Nat.mul_mod_left, Nat.mul_div_cancel _ positive, zero_mul, Rounding.toWidth_of_lt (by simp),
    Rounding.halfUp_zero positive]
  rfl

theorem decimalsText_digits {thousandths : Nat} (fits : thousandths < 1000) :
    (∀ c ∈ (decimalsText thousandths).toList, c.isDigit = true) ∧
      (decimalsText thousandths).toList.length ≤ 3 := by
  have first : thousandths / 100 < 10 := by omega
  have second : thousandths / 10 % 10 < 10 := Nat.mod_lt _ (by decide)
  have third : thousandths % 10 < 10 := Nat.mod_lt _ (by decide)
  unfold decimalsText
  simp only
  split
  · simp [Nat.toDigits_of_lt_base, Nat.isDigit_digitChar, first, second, third]
  split
  · simp [Nat.toDigits_of_lt_base, Nat.isDigit_digitChar, first, second]
  · simp [Nat.toDigits_of_lt_base, Nat.isDigit_digitChar, first]

/-- A whole part and thousandths read back as a finite number if what they stand for is at most the
finite number `mantissa * 2 ^ scale`. -/
theorem exists_readNumber_partsText {negative : Bool} {parts : Nat × Nat} {mantissa scale : Nat}
    (fits : parts.2 < 1000) (short : mantissa < 2 ^ 53) (inRange : scale ≤ 2045)
    (le : ∀ decimals, decimals = (decimalsText parts.2).toList →
      (parts.1 * 10 ^ decimals.length + Decimal.digitsValue decimals) * Binary64.unitsPerOne ≤
        mantissa * (10 ^ decimals.length * 2 ^ scale)) :
    ∃ value, Decimal.readNumber (partsText negative parts).toList = some value ∧
      value.isFinite = true := by
  obtain ⟨allDigits, few⟩ := decimalsText_digits fits
  have finite := Decimal.isFinite_nearest (few.trans (by decide)) short inRange (le _ rfl)
  have text : (partsText negative parts).toList =
      (Decimal.signText (negative && (decide (parts.1 ≠ 0) || decide (parts.2 ≠ 0)))).toList ++
        (parts.1.repr.toList ++ '.' :: (decimalsText parts.2).toList) := by
    simp [partsText]
  rw [text, Decimal.readNumber_point allDigits]
  refine ⟨_, rfl, ?_⟩
  split
  · exact Binary64.isFinite_negate finite
  · exact finite

/-- The text of a finite number reads back as a finite number. -/
theorem exists_readNumber_format {negative : Bool} {mantissa scale : Nat}
    (short : mantissa < 2 ^ 53) (inRange : scale ≤ 2045) :
    ∃ value, Decimal.readNumber (format (.finite negative mantissa scale)).toList = some value ∧
      value.isFinite = true := by
  rw [format]
  by_cases whole : 1074 ≤ scale
  · have unitsAre := @Binary64.units_of_le mantissa scale whole
    rw [unitsAre, split_of_whole]
    apply exists_readNumber_partsText (Nat.zero_lt_succ 999) short inRange
    intro decimals isDecimals
    have zero : (decimalsText 0).toList = ['0'] := by decide
    have noFraction : Decimal.digitsValue ['0'] = 0 := rfl
    rw [isDecimals.trans zero, noFraction, add_zero, mul_right_comm, ← unitsAre, Binary64.units_eq,
      mul_assoc, mul_comm (2 ^ scale)]
  · have wholeLt := Nat.div_lt_of_lt_mul ((Binary64.units_lt short (not_le.mp whole)).trans_eq
      (mul_comm _ _))
    -- Below `2 ^ 52` and a carry, so far below the largest number.
    apply exists_readNumber_partsText (split_snd_lt _) (by decide : 2 ^ 52 + 1 < 2 ^ 53)
      (by decide : 1074 ≤ 2045)
    intro decimals isDecimals
    have wholeLe : (split (Binary64.units mantissa scale)).1 ≤ 2 ^ 52 :=
      (split_fst_le _).trans wholeLt
    have fractionLt : Decimal.digitsValue decimals < 10 ^ decimals.length :=
      Decimal.digitsValue_lt (isDecimals ▸ (decimalsText_digits (split_snd_lt _)).1)
    have total := add_le_add (Nat.mul_le_mul_right (10 ^ decimals.length) wholeLe) fractionLt.le
    rw [← Nat.succ_mul] at total
    rw [← Binary64.unitsPerOne_eq, ← mul_assoc]
    exact Nat.mul_le_mul_right _ total

theorem exists_readNumber_formatValue {x : Float} (finite : x.isFinite = true) :
    ∃ value, Decimal.readNumber (formatValue x).toList = some value ∧ value.isFinite = true := by
  obtain ⟨negative, mantissa, scale, isFinite, short, inRange⟩ :=
    Binary64.exists_ofFloat_eq_finite finite
  rw [formatValue, isFinite]
  exact exists_readNumber_format short inRange

end Report

end TwoPhase
