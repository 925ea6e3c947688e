import TwoPhase.Proofs.Report.Written

/-!
# Writing what was read back

What is written for a finite number reads back as the nearest number to a number of thousandths.
Below `2 ^ 43` that number is so close to the thousandths that it is written with them again.  From
there on numbers lie so far apart that it is the number itself.
-/

namespace TwoPhase

namespace Report

open Binary64 (unitsPerOne nearest quotientUnits Representable)

theorem nearest_decimals {whole count : Nat} (fits : count < 1000) :
    Decimal.nearest
        (whole * 10 ^ (decimalsText count).toList.length +
          Decimal.digitsValue (decimalsText count).toList)
        (-(decimalsText count).toList.length) =
      nearest (1000 * whole + count) 1000 := by
  have value := digitsValue_decimalsText fits
  have few := (decimalsText_count fits).2
  generalize (decimalsText count).toList = decimals at value few ⊢
  obtain ⟨omitted, sum⟩ := Nat.exists_eq_add_of_le few
  have power : 10 ^ decimals.length * 10 ^ omitted = 1000 := by
    rw [← pow_add, ← sum]
    norm_num
  rw [sum, Nat.add_sub_cancel_left] at value
  rw [Decimal.nearest_eq_quotient (by omega),
    ← Binary64.nearest_mul_right (Nat.pow_pos (by decide) : 0 < 10 ^ omitted), add_mul, value,
    mul_assoc, power, mul_comm whole]

section Thousandths

variable {units : Nat}

theorem thousandths_of_whole (whole : Nat) : thousandths (whole * unitsPerOne) = 1000 * whole := by
  rw [thousandths, split_of_whole, add_zero]

theorem thousandths_le (units : Nat) : thousandths units ≤ 1000 * (units / unitsPerOne + 1) := by
  have := halfUp_le_thousand units
  rw [thousandths, split, carry_eq this]
  omega

/-- Exact thousandths close enough to a whole number are written as it. -/
theorem thousandths_eq_of_near {count : Nat}
    (near : |exactThousandths units - count| < 1 / 2 - 1 / 2 ^ 44) : thousandths units = count := by
  have close : |((thousandths units : ℤ) - count : ℤ)| < 1 := by
    rw [thousandths_eq_round, ← Int.cast_lt (R := ℚ)]
    push_cast
    have first := abs_sub_round (scaled units)
    rw [abs_sub_comm] at first
    calc |(round (scaled units) : ℚ) - count|
        ≤ |round (scaled units) - scaled units| + |scaled units - count| := abs_sub_le _ _ _
      _ ≤ |round (scaled units) - scaled units| +
            (|scaled units - exactThousandths units| + |exactThousandths units - count|) :=
          add_le_add_right (abs_sub_le _ _ _) _
      _ < 1 := by linarith [abs_scaled_sub_le units]
  have equal := Int.abs_lt_one_iff.mp close
  omega

theorem quotientUnits_thousand (count : Nat) :
    quotientUnits count 1000 = count / 1000 * unitsPerOne := by
  rw [quotientUnits]
  push_cast
  ring

/-- Units and thousandths differ alike, up to the factor between them. -/
theorem exactThousandths_sub (units count : Nat) :
    exactThousandths units - count =
      (units - quotientUnits count 1000) * (1000 / unitsPerOne) := by
  have positive := castUnitsPerOne_pos
  rw [exactThousandths, quotientUnits_thousand]
  generalize (unitsPerOne : ℚ) = one at positive
  field_simp

end Thousandths

section Nearest

variable {negative : Bool} {mantissa scale : Nat}

/-- Half of the last bit of a number below `2 ^ 43` is less than half a thousandth. -/
theorem thousandths_eq_of_close {units count : Nat}
    (close : |(units : ℚ) - quotientUnits count 1000| ≤ 2 ^ 1064 / 2) :
    thousandths units = count := by
  have factor : (0 : ℚ) < 1000 / unitsPerOne := div_pos (by norm_num) castUnitsPerOne_pos
  have worth : (2 : ℚ) ^ 1064 / 2 * (1000 / unitsPerOne) = 1000 / 2 ^ 11 := by
    rw [castUnitsPerOne_eq, pow_add 2 1064 10]
    have positive : (0 : ℚ) < 2 ^ 1064 := by positivity
    generalize (2 : ℚ) ^ 1064 = bit at positive
    field_simp
  apply thousandths_eq_of_near
  rw [exactThousandths_sub, abs_mul, abs_of_pos factor]
  calc |(units : ℚ) - quotientUnits count 1000| * (1000 / unitsPerOne)
      ≤ 2 ^ 1064 / 2 * (1000 / unitsPerOne) := mul_le_mul_of_nonneg_right close factor.le
    _ = 1000 / 2 ^ 11 := worth
    _ < 1 / 2 - 1 / 2 ^ 44 := by norm_num

/-- Below `2 ^ 43` the nearest number to the thousandths is written with the same thousandths. -/
theorem exists_nearest_of_small {units : Nat} (small : units < 2 ^ 43 * unitsPerOne) :
    ∃ mantissa scale, nearest (thousandths units) 1000 = .finite false mantissa scale ∧
      thousandths (Binary64.units mantissa scale) = thousandths units := by
  have wholeLt : units / unitsPerOne < 2 ^ 43 :=
    Nat.div_lt_of_lt_mul (small.trans_eq (mul_comm _ _))
  have le : thousandths units * unitsPerOne ≤ 2 ^ 43 * (1000 * unitsPerOne) := by
    rw [← mul_assoc, mul_comm (2 ^ 43)]
    exact Nat.mul_le_mul_right _ ((thousandths_le units).trans (Nat.mul_le_mul_left _ wholeLt))
  have finite : (nearest (thousandths units) 1000).isFinite = true := by
    apply Binary64.isFinite_nearest (by decide) (by decide : 2 ^ 43 < 2 ^ 53)
      (by decide : 1074 ≤ 2045)
    rwa [← Binary64.unitsPerOne_eq]
  have bounded : quotientUnits (thousandths units) 1000 ≤ (2 ^ (53 + 1064) : ℕ) := by
    rw [quotientUnits, div_le_iff₀ (by norm_num), ← Nat.cast_mul, Nat.cast_le, mul_comm (2 ^ _)]
    apply le.trans_eq
    rw [Binary64.unitsPerOne_eq, mul_left_comm, ← pow_add]
  cases isNearest : nearest (thousandths units) 1000 with
  | nan =>
      rw [isNearest] at finite
      cases finite
  | infinite sign =>
      rw [isNearest] at finite
      cases finite
  | finite sign mantissa scale =>
      obtain ⟨rfl, _⟩ := Binary64.units_of_ofRounded isNearest
      have close := Binary64.abs_units_sub_le (by decide) isNearest bounded
      exact ⟨mantissa, scale, rfl, thousandths_eq_of_close close⟩

/-- The last bit of a number from `2 ^ 43` on is worth almost two thousandths. -/
theorem scale_of_large (short : mantissa < 2 ^ 53)
    (large : 2 ^ 43 * unitsPerOne ≤ Binary64.units mantissa scale) : 1065 ≤ scale := by
  rw [Binary64.unitsPerOne_eq, Binary64.units_eq, ← pow_add] at large
  have less : 2 ^ (43 + 1074) < 2 ^ (53 + scale) := by
    rw [pow_add 2 53]
    exact large.trans_lt (Nat.mul_lt_mul_of_pos_right short (Nat.two_pow_pos scale))
  have := (Nat.pow_lt_pow_iff_right (by decide)).mp less
  omega

/-- The thousandths of a number from `2 ^ 43` on lie within less than half of its last bit. -/
theorem abs_sub_quotientUnits_lt (high : 1065 ≤ scale) :
    |(mantissa : ℚ) -
        quotientUnits (thousandths (Binary64.units mantissa scale)) 1000 / 2 ^ scale| < 1 / 2 := by
  have near := abs_thousandths_sub_le (Binary64.units mantissa scale)
  have onePositive := castUnitsPerOne_pos
  have bit : (0 : ℚ) < 2 ^ scale := by positivity
  have oneLe : (unitsPerOne : ℚ) ≤ 2 ^ 9 * 2 ^ scale := by
    rw [castUnitsPerOne_eq, ← pow_add]
    exact pow_le_pow_right₀ one_le_two (by omega)
  rw [abs_sub_comm, exactThousandths_sub, abs_mul, abs_of_pos (div_pos (by norm_num) onePositive),
    ← le_div_iff₀ (div_pos (by norm_num) onePositive)] at near
  have inBits : (mantissa : ℚ) -
        quotientUnits (thousandths (Binary64.units mantissa scale)) 1000 / 2 ^ scale =
      ((Binary64.units mantissa scale : ℚ) -
        quotientUnits (thousandths (Binary64.units mantissa scale)) 1000) / 2 ^ scale := by
    rw [sub_div, Binary64.units_eq, Nat.cast_mul, Nat.cast_pow, Nat.cast_ofNat,
      mul_div_cancel_right₀ _ bit.ne']
  rw [inBits, abs_div, abs_of_pos bit, div_lt_iff₀ bit]
  generalize (unitsPerOne : ℚ) = one at onePositive oneLe near
  calc _ ≤ (1 / 2 + 1 / 2 ^ 44) / (1000 / one) := near
    _ = (1 / 2 + 1 / 2 ^ 44) / 1000 * one := by field_simp
    _ ≤ (1 / 2 + 1 / 2 ^ 44) / 1000 * (2 ^ 9 * 2 ^ scale) :=
        mul_le_mul_of_nonneg_left oneLe (by norm_num)
    _ < 1 / 2 * 2 ^ scale := by
        rw [← mul_assoc]
        exact mul_lt_mul_of_pos_right (by norm_num) bit

/-- From `2 ^ 43` on the nearest number to the thousandths of a number is the number. -/
theorem nearest_of_large (representable : (Binary64.finite negative mantissa scale).Representable)
    (large : 2 ^ 43 * unitsPerOne ≤ Binary64.units mantissa scale) :
    nearest (thousandths (Binary64.units mantissa scale)) 1000 = .finite false mantissa scale := by
  have high := scale_of_large representable.1 large
  have near := @abs_sub_quotientUnits_lt mantissa scale high
  apply Binary64.nearest_eq_of_roundsTo (by decide) representable
  refine ⟨near.le, fun half => absurd half near.ne, fun isFull _ => ?_⟩
  -- A power of two this large is whole, so its thousandths are exact.
  obtain ⟨more, rfl⟩ := Nat.exists_eq_add_of_le' (by omega : 1022 ≤ scale)
  have whole : Binary64.units mantissa (more + 1022) = 2 ^ more * unitsPerOne := by
    rw [isFull, Binary64.units_eq, Binary64.unitsPerOne_eq, Binary64.fullMantissa, Nat.pow_eq,
      ← pow_add, ← pow_add]
    exact congrArg (2 ^ ·) (by omega)
  have castWhole := congrArg (Nat.cast : ℕ → ℚ) whole
  rw [Binary64.units_eq, Nat.cast_mul, Nat.cast_mul, Nat.cast_pow, Nat.cast_pow,
    Nat.cast_ofNat] at castWhole
  rw [whole, thousandths_of_whole, quotientUnits_thousand, Nat.cast_mul, Nat.cast_pow,
    Nat.cast_ofNat, Nat.cast_ofNat, mul_div_cancel_left₀ _ (by norm_num), ← castWhole,
    mul_div_cancel_right₀ _ (by positivity), sub_self]
  norm_num

theorem exists_nearest_thousandths
    (representable : (Binary64.finite negative mantissa scale).Representable) :
    ∃ others places, nearest (thousandths (Binary64.units mantissa scale)) 1000 =
        .finite false others places ∧
      thousandths (Binary64.units others places) =
        thousandths (Binary64.units mantissa scale) := by
  rcases Nat.lt_or_ge (Binary64.units mantissa scale) (2 ^ 43 * unitsPerOne) with small | large
  · exact exists_nearest_of_small small
  · exact ⟨mantissa, scale, nearest_of_large representable large, rfl⟩

end Nearest

section Text

/-- The sign in front of a written zero is left out, so it does not matter whether there is one. -/
theorem partsText_and_present (negative : Bool) (parts : Nat × Nat) :
    partsText (negative && (decide (parts.1 ≠ 0) || decide (parts.2 ≠ 0))) parts =
      partsText negative parts := by
  simp only [partsText, Bool.and_assoc, Bool.and_self]

theorem split_eq_of_thousandths {units others : Nat}
    (same : thousandths units = thousandths others) :
    split units = split others := by
  rw [split_eq, split_eq, same]

theorem format_finite (negative : Bool) (mantissa scale : Nat) :
    format (.finite negative mantissa scale) =
      partsText negative (split (Binary64.units mantissa scale)) :=
  rfl

theorem format_signed (negative : Bool) (mantissa scale : Nat) :
    format (if negative then (Binary64.finite false mantissa scale).negate
        else .finite false mantissa scale) = format (.finite negative mantissa scale) := by
  cases negative <;> rfl

/-- What is written for a finite number reads back, and is written for what is read as well. -/
theorem exists_readNumber_format_eq {negative : Bool} {mantissa scale : Nat}
    (representable : (Binary64.finite negative mantissa scale).Representable) :
    ∃ value, Decimal.readNumber (format (.finite negative mantissa scale)).toList = some value ∧
      value.isFinite = true ∧ format value = format (.finite negative mantissa scale) := by
  obtain ⟨others, places, isNearest, same⟩ := exists_nearest_thousandths representable
  set parts := split (Binary64.units mantissa scale) with isParts
  have fits : parts.2 < 1000 := split_snd_lt _
  rw [thousandths, ← isParts] at isNearest
  have text : (partsText negative parts).toList =
      (Decimal.signText (negative && (decide (parts.1 ≠ 0) || decide (parts.2 ≠ 0)))).toList ++
        (parts.1.repr.toList ++ '.' :: (decimalsText parts.2).toList) := by
    simp [partsText]
  rw [format_finite, ← isParts, text, Decimal.readNumber_point (decimalsText_digits fits).1]
  simp only [nearest_decimals fits, isNearest]
  refine ⟨_, rfl, ?_, ?_⟩
  · split <;> rfl
  · rw [format_signed, format_finite, split_eq_of_thousandths same, ← isParts,
      partsText_and_present]

end Text

/-- Reading back what is written for a finite number gives a finite number for which the same is
written. -/
theorem formatValue_of_read_back {x : Float} (finite : x.isFinite = true) :
    ∃ value, Decimal.readNumber (formatValue x).toList = some value ∧
      value.toFloat.isFinite = true ∧ formatValue value.toFloat = formatValue x := by
  have representable := Binary64.representable_ofFloat x
  obtain ⟨negative, mantissa, scale, isFinite, _, _⟩ := Binary64.exists_ofFloat_eq_finite finite
  rw [isFinite] at representable
  obtain ⟨value, read, valueFinite, same⟩ := exists_readNumber_format_eq representable
  have valueRepresentable := Decimal.representable_of_readNumber read
  refine ⟨value, ?_, ?_, ?_⟩
  · rw [formatValue, isFinite, read]
  · rw [Binary64.isFinite_toFloat valueRepresentable, valueFinite]
  · rw [formatValue, Binary64.ofFloat_toFloat valueRepresentable, same, formatValue, isFinite]

/-- Beside `2 ^ 43` the last bit is worth almost two thousandths, and the decimal that is written
is no number. -/
theorem formatValue_of_read_back_sparse :
    (8796093022208.001953125 : Float).isFinite = true ∧
      formatValue 8796093022208.001953125 = "8796093022208.002" ∧
      ∃ value, Decimal.readNumber (formatValue 8796093022208.001953125).toList = some value ∧
        value.toFloat.isFinite = true ∧
        formatValue value.toFloat = formatValue 8796093022208.001953125 := by
  have finite : (8796093022208.001953125 : Float).isFinite = true := by decide +kernel
  have text : formatValue 8796093022208.001953125 = "8796093022208.002" := by decide +kernel
  exact ⟨finite, text, formatValue_of_read_back finite⟩

end Report

end TwoPhase
