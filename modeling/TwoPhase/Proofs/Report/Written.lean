import TwoPhase.Proofs.Report.Thousandths

/-!
# What is written for a value

A finite number is written as a decimal with no needless digits, within half a thousandth and the
error of one product of the number.  It is the number rounded to three decimals, a half away from
zero, unless the number is next to a half without being one.
-/

namespace TwoPhase

/-- The sign as a factor. -/
def signFactor (negative : Bool) : ℚ :=
  if negative then -1 else 1

/-- The exact value of a finite number. -/
def Binary64.value : Binary64 → ℚ
  | .finite negative mantissa scale =>
      signFactor negative * (units mantissa scale / unitsPerOne)
  | _ => 0

namespace Report

open Binary64 (unitsPerOne)

/-- The digits on both sides of the point: at least one and no needless zero in front of it, one to
three behind it, of which the last is a zero only if it is the only one. -/
structure Trimmed (whole decimals : List Char) : Prop where
  whole_digits : ∀ c ∈ whole, c.isDigit = true
  whole_nonempty : whole ≠ []
  whole_first : whole.head? = some '0' → whole = ['0']
  decimals_digits : ∀ c ∈ decimals, c.isDigit = true
  decimals_count : 1 ≤ decimals.length ∧ decimals.length ≤ 3
  decimals_last : decimals.getLast? = some '0' → decimals.length = 1

/-- The decimal that a sign and digits around a point stand for. -/
def written (negative : Bool) (whole decimals : List Char) : ℚ :=
  signFactor negative *
    (Decimal.digitsValue whole + Decimal.digitsValue decimals / 10 ^ decimals.length)

/-- A number to three decimals, a half away from zero. -/
def toThreeDecimals (value : ℚ) : ℚ :=
  signFactor (value < 0) * (round (1000 * |value|) / 1000)

/-- What the decimal that is written for a value has to do with it. -/
structure Approximates (value : ℚ) (negative : Bool) (whole decimals : List Char) : Prop where
  negative_iff : negative = true ↔ value < 0 ∧ written negative whole decimals ≠ 0
  near : |written negative whole decimals - value| ≤ 1 / 2000 + 1 / 2 ^ 44 / 1000
  rounded :
    (∃ odd : ℤ, Odd odd ∧ value = odd / 2000) ∨
        (∀ odd : ℤ, Odd odd → 1 / 2 ^ 44 / 1000 < |value - odd / 2000|) →
      written negative whole decimals = toThreeDecimals value

section Digits

theorem head?_repr_ne_zero {n : Nat} (positive : 0 < n) : n.repr.toList.head? ≠ some '0' := by
  rw [Nat.toList_repr]
  induction n using Nat.strongRecOn with
  | ind n inductionHypothesis =>
      rw [Nat.toDigits_eq_if (by decide)]
      split
      · intro isZero
        have zero := Nat.digitChar_eq_zero.mp (Option.some.inj isZero)
        exact positive.ne' zero
      · next large =>
          have tens : 0 < n / 10 := Nat.div_pos (not_lt.mp large) (by decide)
          rw [List.head?_append_of_ne_nil _ (List.ne_nil_of_length_pos Nat.length_toDigits_pos)]
          exact inductionHypothesis (n / 10) (by omega) tens

theorem repr_of_head?_eq_zero {n : Nat} (first : n.repr.toList.head? = some '0') :
    n.repr.toList = ['0'] := by
  rcases Nat.eq_zero_or_pos n with rfl | positive
  · decide
  · exact absurd first (head?_repr_ne_zero positive)

/-- The decimals of a number of thousandths, by how many of them are left. -/
theorem decimalsText_cases {count : Nat} (fits : count < 1000) :
    ∃ a b c, a < 10 ∧ b < 10 ∧ c < 10 ∧ count = 100 * a + 10 * b + c ∧
      ((c ≠ 0 ∧ (decimalsText count).toList = [a.digitChar, b.digitChar, c.digitChar]) ∨
        (c = 0 ∧ b ≠ 0 ∧ (decimalsText count).toList = [a.digitChar, b.digitChar]) ∨
        (c = 0 ∧ b = 0 ∧ (decimalsText count).toList = [a.digitChar])) := by
  have first : count / 100 < 10 := by omega
  have second : count / 10 % 10 < 10 := Nat.mod_lt _ (by decide)
  have third : count % 10 < 10 := Nat.mod_lt _ (by decide)
  refine ⟨count / 100, count / 10 % 10, count % 10, first, second, third, by omega, ?_⟩
  unfold decimalsText
  simp only
  split
  · next present =>
      refine .inl ⟨present, ?_⟩
      simp [Nat.toDigits_of_lt_base, first, second, third]
  · next absent =>
      refine .inr ?_
      split
      · next present =>
          refine .inl ⟨not_not.mp absent, present, ?_⟩
          simp [Nat.toDigits_of_lt_base, first, second]
      · next absentToo =>
          refine .inr ⟨not_not.mp absent, not_not.mp absentToo, ?_⟩
          simp [Nat.toDigits_of_lt_base, first]

theorem decimalsText_count {count : Nat} (fits : count < 1000) :
    1 ≤ (decimalsText count).toList.length ∧ (decimalsText count).toList.length ≤ 3 := by
  obtain ⟨a, b, c, _, _, _, _, ⟨_, text⟩ | ⟨_, _, text⟩ | ⟨_, _, text⟩⟩ := decimalsText_cases fits
  all_goals simp [text]

theorem decimalsText_last {count : Nat} (fits : count < 1000)
    (zero : (decimalsText count).toList.getLast? = some '0') :
    (decimalsText count).toList.length = 1 := by
  obtain ⟨a, b, c, _, _, _, _, ⟨present, text⟩ | ⟨_, present, text⟩ | ⟨_, _, text⟩⟩ :=
    decimalsText_cases fits
  · rw [text] at zero
    exact absurd (Nat.digitChar_eq_zero.mp (Option.some.inj zero)) present
  · rw [text] at zero
    exact absurd (Nat.digitChar_eq_zero.mp (Option.some.inj zero)) present
  · rw [text]
    rfl

theorem digitChar_sub_zero {n : Nat} (digit : n < 10) : n.digitChar.toNat - '0'.toNat = n :=
  Nat.toNat_digitChar_sub_48_of_lt_ten digit

/-- The decimals stand for the thousandths, whatever zeros are left out. -/
theorem digitsValue_decimalsText {count : Nat} (fits : count < 1000) :
    Decimal.digitsValue (decimalsText count).toList *
      10 ^ (3 - (decimalsText count).toList.length) = count := by
  obtain ⟨a, b, c, first, second, third, isCount,
    ⟨_, text⟩ | ⟨zero, _, text⟩ | ⟨zero, zeroToo, text⟩⟩ := decimalsText_cases fits
  all_goals
    rw [text, isCount]
    simp only [Decimal.digitsValue, List.foldl_cons, List.foldl_nil, List.length_cons,
      List.length_nil, digitChar_sub_zero first, digitChar_sub_zero second,
      digitChar_sub_zero third, Nat.reduceAdd, Nat.reduceSub, Nat.reducePow]
    omega

theorem trimmed_repr {parts : Nat × Nat} (fits : parts.2 < 1000) :
    Trimmed parts.1.repr.toList (decimalsText parts.2).toList where
  whole_digits _ := Decimal.isDigit_of_mem_repr
  whole_nonempty := by simp
  whole_first := repr_of_head?_eq_zero
  decimals_digits := (decimalsText_digits fits).1
  decimals_count := decimalsText_count fits
  decimals_last := decimalsText_last fits

theorem written_repr (negative : Bool) {parts : Nat × Nat} (fits : parts.2 < 1000) :
    written negative parts.1.repr.toList (decimalsText parts.2).toList =
      signFactor negative * ((1000 * parts.1 + parts.2 : ℕ) / 1000) := by
  have value := digitsValue_decimalsText fits
  have few := (decimalsText_count fits).2
  rw [written, Decimal.digitsValue_repr]
  generalize (decimalsText parts.2).toList = decimals at value few ⊢
  obtain ⟨omitted, sum⟩ := Nat.exists_eq_add_of_le few
  have power : (1000 : ℚ) = 10 ^ decimals.length * 10 ^ omitted := by
    rw [← pow_add, ← sum]
    norm_num
  rw [sum, Nat.add_sub_cancel_left] at value
  rw [← value]
  push_cast
  rw [power]
  field_simp

end Digits

section Sign

variable {negative : Bool}

theorem abs_signFactor_mul (negative : Bool) (value : ℚ) :
    |signFactor negative * value| = |value| := by
  cases negative <;> simp [signFactor]

theorem signFactor_mul_eq_zero_iff {value : ℚ} :
    signFactor negative * value = 0 ↔ value = 0 := by
  cases negative <;> simp [signFactor]

theorem signFactor_mul_neg_iff {value : ℚ} (nonneg : 0 ≤ value) :
    signFactor negative * value < 0 ↔ negative = true ∧ value ≠ 0 := by
  cases negative with
  | false => simp [signFactor, nonneg]
  | true => simp [signFactor, lt_iff_le_and_ne, nonneg]

/-- Leaving out the sign of zero does not change the number. -/
theorem signFactor_and_ne_zero (negative : Bool) (count : Nat) :
    signFactor (negative && decide (count ≠ 0)) * (count / 1000) =
      signFactor negative * (count / 1000) := by
  by_cases zero : count = 0
  · simp [zero]
  · simp [zero]

theorem toThreeDecimals_signFactor_mul {magnitude : ℚ} (nonneg : 0 ≤ magnitude) :
    toThreeDecimals (signFactor negative * magnitude) =
      signFactor negative * (round (1000 * magnitude) / 1000) := by
  rw [toThreeDecimals, abs_signFactor_mul, abs_of_nonneg nonneg]
  rcases nonneg.eq_or_lt with rfl | positive
  · simp
  · have negativeIff : decide (signFactor negative * magnitude < 0) = negative := by
      rw [Bool.eq_iff_iff, decide_eq_true_iff, signFactor_mul_neg_iff nonneg]
      exact and_iff_left positive.ne'
    rw [negativeIff]

end Sign

section Finite

variable {negative : Bool} {units : Nat}

theorem toList_partsText (negative : Bool) (parts : Nat × Nat) :
    (partsText negative parts).toList =
      (if negative && decide (1000 * parts.1 + parts.2 ≠ 0) then ['-'] else []) ++
        parts.1.repr.toList ++ '.' :: (decimalsText parts.2).toList := by
  have zeroIff : (decide (parts.1 ≠ 0) || decide (parts.2 ≠ 0)) =
      decide (1000 * parts.1 + parts.2 ≠ 0) := by
    rw [← Bool.decide_or]
    exact decide_eq_decide.mpr (by omega)
  rw [partsText, zeroIff, Decimal.signText]
  split <;> simp

theorem split_zero : split 0 = (0, 0) := by
  have whole := split_of_whole 0
  rwa [Nat.zero_mul] at whole

theorem units_ne_zero_of_thousandths (present : thousandths units ≠ 0) : units ≠ 0 := by
  intro zero
  rw [zero, thousandths, split_zero] at present
  exact present rfl

theorem exactThousandths_nonneg (units : Nat) : 0 ≤ exactThousandths units := by
  rw [exactThousandths]
  exact mul_nonneg (by norm_num) (div_nonneg (Nat.cast_nonneg _) castUnitsPerOne_pos.le)

theorem exactThousandths_ne_zero (present : thousandths units ≠ 0) :
    exactThousandths units ≠ 0 := by
  have positive := Nat.pos_of_ne_zero (units_ne_zero_of_thousandths present)
  rw [exactThousandths]
  exact mul_ne_zero (by norm_num) (div_pos (Nat.cast_pos.mpr positive) castUnitsPerOne_pos).ne'

theorem sign_written_iff :
    (negative && decide (thousandths units ≠ 0)) = true ↔
      signFactor negative * (exactThousandths units / 1000) < 0 ∧
        signFactor negative * (thousandths units / 1000 : ℚ) ≠ 0 := by
  have nonneg := exactThousandths_nonneg units
  have present := @exactThousandths_ne_zero units
  rw [signFactor_mul_neg_iff (by linarith), Bool.and_eq_true, decide_eq_true_eq]
  simp only [ne_eq, signFactor_mul_eq_zero_iff, div_eq_zero_iff, Nat.cast_eq_zero,
    OfNat.ofNat_ne_zero, or_false]
  tauto

theorem value_eq_exactThousandths (negative : Bool) (units : Nat) :
    signFactor negative * (units / unitsPerOne : ℚ) =
      signFactor negative * (exactThousandths units / 1000) := by
  rw [exactThousandths, mul_div_cancel_left₀ _ (by norm_num)]

theorem abs_written_sub_le (negative : Bool) (units : Nat) :
    |signFactor negative * (thousandths units / 1000) -
        signFactor negative * (exactThousandths units / 1000)| ≤
      1 / 2000 + 1 / 2 ^ 44 / 1000 := by
  have near := abs_thousandths_sub_le units
  rw [← mul_sub, abs_signFactor_mul, ← sub_div, abs_div, abs_of_pos (by norm_num : (0 : ℚ) < 1000)]
  linarith

/-- A value at a half or far from all of them has its magnitude there. -/
theorem clear_of_value
    (clear : (∃ odd : ℤ, Odd odd ∧
        signFactor negative * (exactThousandths units / 1000) = odd / 2000) ∨
      ∀ odd : ℤ, Odd odd →
        1 / 2 ^ 44 / 1000 < |signFactor negative * (exactThousandths units / 1000) - odd / 2000|) :
    (∃ halves : ℕ, 2000 * units = halves * unitsPerOne) ∨
      ∀ odd : ℤ, Odd odd → 1 / 2 ^ 44 < |exactThousandths units - odd / 2| := by
  rcases clear with ⟨odd, _, half⟩ | far
  · refine .inl ⟨odd.natAbs, ?_⟩
    have magnitude := congrArg abs half
    rw [abs_signFactor_mul, abs_of_nonneg (by linarith [exactThousandths_nonneg units]), abs_div,
      abs_of_pos (by norm_num : (0 : ℚ) < 2000), exactThousandths, ← Int.cast_abs,
      Int.abs_eq_natAbs, Int.cast_natCast] at magnitude
    have onePositive := castUnitsPerOne_pos
    field_simp at magnitude
    rw [← Nat.cast_inj (R := ℚ)]
    push_cast
    linarith
  · refine .inr fun odd isOdd => ?_
    have scaleDown (sum : ℚ) : 1 / 2 ^ 44 / 1000 < |sum / 1000| → 1 / 2 ^ 44 < |sum| := by
      rw [abs_div, abs_of_pos (by norm_num : (0 : ℚ) < 1000),
        div_lt_div_iff_of_pos_right (by norm_num)]
      exact id
    cases negative with
    | false =>
        apply scaleDown
        convert far odd isOdd using 2
        rw [signFactor]
        simp
        ring
    | true =>
        apply scaleDown
        rw [← abs_neg]
        convert far (-odd) isOdd.neg using 2
        rw [signFactor]
        simp
        ring

theorem approximates_thousandths {whole decimals : List Char}
    (isWritten : written (negative && decide (thousandths units ≠ 0)) whole decimals =
      signFactor negative * (thousandths units / 1000)) :
    Approximates (signFactor negative * (exactThousandths units / 1000))
      (negative && decide (thousandths units ≠ 0)) whole decimals where
  negative_iff := isWritten ▸ sign_written_iff
  near := isWritten ▸ abs_written_sub_le negative units
  rounded clear := by
    have nonneg := exactThousandths_nonneg units
    rw [isWritten, toThreeDecimals_signFactor_mul (by linarith),
      mul_div_cancel₀ _ (by norm_num), ← thousandths_eq_of_clear (clear_of_value clear),
      Int.cast_natCast]

end Finite

/-- A finite number is written as a sign, digits without needless zeros and a point.  The sign
stands in front of what is negative and not written as zero.  The decimal is within half a
thousandth and the error of one product of the number, and it is the number rounded to three
decimals, a half away from zero, if the number is such a half or farther than that error from all of
them. -/
theorem formatValue_trimmed_and_approximates {x : Float} (finite : x.isFinite = true) :
    ∃ negative whole decimals,
      (formatValue x).toList = (if negative then ['-'] else []) ++ whole ++ '.' :: decimals ∧
      Trimmed whole decimals ∧
      Approximates (Binary64.ofFloat x).value negative whole decimals := by
  obtain ⟨negative, mantissa, scale, isFinite, _, _⟩ := Binary64.exists_ofFloat_eq_finite finite
  rw [formatValue, isFinite, format, Binary64.value, value_eq_exactThousandths]
  generalize Binary64.units mantissa scale = units
  have fits := split_snd_lt units
  have isWritten := written_repr (negative && decide (thousandths units ≠ 0)) fits
  rw [← thousandths, signFactor_and_ne_zero] at isWritten
  exact ⟨negative && decide (thousandths units ≠ 0), _, _, toList_partsText negative _,
    trimmed_repr fits, approximates_thousandths isWritten⟩

/-- A sixteenth is halfway between two numbers of thousandths. -/
theorem formatValue_sixteenth_away :
    (-0.0625 : Float).isFinite = true ∧ formatValue (-0.0625) = "-0.063" ∧
      ∃ negative whole decimals,
        (formatValue (-0.0625)).toList =
          (if negative then ['-'] else []) ++ whole ++ '.' :: decimals ∧
        Trimmed whole decimals ∧
        Approximates (Binary64.ofFloat (-0.0625)).value negative whole decimals := by
  have finite : (-0.0625 : Float).isFinite = true := by decide +kernel
  have text : formatValue (-0.0625) = "-0.063" := by decide +kernel
  exact ⟨finite, text, formatValue_trimmed_and_approximates finite⟩

end Report

end TwoPhase
