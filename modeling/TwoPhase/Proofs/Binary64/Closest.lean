import TwoPhase.Proofs.Binary64.Bits
import TwoPhase.Proofs.Rounding

/-!
# Which number is nearest to a quotient

The nearest number is within half the worth of its last bit.  Conversely a number is the nearest one
to every quotient that reaches no farther than halfway to its neighbours, and to the two halfway
points as well if its mantissa is even.
-/

namespace TwoPhase.Binary64

open Rounding (halfEven)

/-- A quotient as a number of units. -/
def quotientUnits (num den : Nat) : ℚ :=
  (num * unitsPerOne : ℕ) / den

/-- The worth of the last bit that a quotient is rounded to, as a power of two. -/
def quotientScale (num den : Nat) : Nat :=
  (num * unitsPerOne / den).log2 + 1 - 53

section Scale

variable {num den : Nat}

theorem nearest_eq_ofRounded (num den : Nat) :
    nearest num den = ofRounded
      (halfEven (num * unitsPerOne) (den * 2 ^ quotientScale num den)) (quotientScale num den) :=
  rfl

theorem nearest_mul_right {factor : Nat} (positive : 0 < factor) :
    nearest (num * factor) (den * factor) = nearest num den := by
  have sameScale : quotientScale (num * factor) (den * factor) = quotientScale num den := by
    rw [quotientScale, mul_right_comm, Nat.mul_div_mul_right _ _ positive, quotientScale]
  rw [nearest_eq_ofRounded, sameScale, mul_right_comm, mul_right_comm den,
    Rounding.halfEven_mul_right positive, nearest_eq_ofRounded]

theorem quotientScale_le {places : Nat}
    (below : num * unitsPerOne < den * 2 ^ (53 + places)) : quotientScale num den ≤ places := by
  have quotientLt := Nat.div_lt_of_lt_mul below
  rw [quotientScale]
  by_cases zero : num * unitsPerOne / den = 0
  · rw [zero]
    simp
  · have := (Nat.log2_lt zero).mpr quotientLt
    omega

theorem le_quotientScale {places : Nat} (positive : 0 < den)
    (above : den * 2 ^ (52 + places) ≤ num * unitsPerOne) : places ≤ quotientScale num den := by
  have quotientLe : 2 ^ (52 + places) ≤ num * unitsPerOne / den := by
    rwa [Nat.le_div_iff_mul_le positive, mul_comm]
  have := (Nat.le_log2 ((Nat.two_pow_pos _).trans_le quotientLe).ne').mpr quotientLe
  rw [quotientScale]
  omega

end Scale

section Error

variable {num den : Nat}

theorem units_of_ofRounded {negative : Bool} {rounded place mantissa scale : Nat}
    (isFinite : ofRounded rounded place = .finite negative mantissa scale) :
    negative = false ∧ units mantissa scale = rounded * 2 ^ place := by
  unfold ofRounded at isFinite
  split at isFinite
  · next carry =>
      split at isFinite
      · cases isFinite
        refine ⟨rfl, ?_⟩
        rw [carry, units_eq, pow_succ']
        ring
      · cases isFinite
  · split at isFinite
    · cases isFinite
      exact ⟨rfl, rfl⟩
    · cases isFinite

theorem quotientUnits_div (place : Nat) :
    quotientUnits num den / 2 ^ place = (num * unitsPerOne : ℕ) / (den * 2 ^ place : ℕ) := by
  rw [quotientUnits, div_div]
  push_cast
  rfl

theorem quotientUnits_lt_iff {bound : Nat} (positive : 0 < den) :
    quotientUnits num den < bound ↔ num * unitsPerOne < den * bound := by
  rw [quotientUnits, div_lt_iff₀ (Nat.cast_pos.mpr positive), ← Nat.cast_mul, Nat.cast_lt,
    mul_comm bound]

theorem quotientUnits_eq_iff {bound : Nat} (positive : 0 < den) :
    quotientUnits num den = bound ↔ num * unitsPerOne = bound * den := by
  rw [quotientUnits, div_eq_iff (Nat.cast_ne_zero.mpr positive.ne'), ← Nat.cast_mul, Nat.cast_inj]

theorem abs_rounded_sub_le (positive : 0 < den) (place : Nat) :
    |((halfEven (num * unitsPerOne) (den * 2 ^ place) * 2 ^ place : ℕ) : ℚ) -
        quotientUnits num den| ≤ 2 ^ place / 2 := by
  have worth : (0 : ℚ) < 2 ^ place := by positivity
  have rounded := @Rounding.abs_halfEven_sub_le (num * unitsPerOne) _
    (Nat.mul_pos positive (Nat.two_pow_pos place))
  rw [← quotientUnits_div] at rounded
  have factored : ((halfEven (num * unitsPerOne) (den * 2 ^ place) * 2 ^ place : ℕ) : ℚ) -
        quotientUnits num den =
      (halfEven (num * unitsPerOne) (den * 2 ^ place) - quotientUnits num den / 2 ^ place) *
        2 ^ place := by
    push_cast
    field_simp
  rw [factored, abs_mul, abs_of_pos worth]
  linarith [mul_le_mul_of_nonneg_right rounded worth.le]

/-- The nearest number to a quotient of at most 53 bits above a place is within half the worth of
the bit at the place. -/
theorem abs_units_sub_le {negative : Bool} {mantissa scale place : Nat} (positive : 0 < den)
    (isNearest : nearest num den = .finite negative mantissa scale)
    (le : quotientUnits num den ≤ (2 ^ (53 + place) : ℕ)) :
    |(units mantissa scale : ℚ) - quotientUnits num den| ≤ 2 ^ place / 2 := by
  rw [nearest_eq_ofRounded] at isNearest
  rw [(units_of_ofRounded isNearest).2]
  rcases le.lt_or_eq with less | equal
  · have lower := quotientScale_le ((quotientUnits_lt_iff positive).mp less)
    apply (abs_rounded_sub_le positive _).trans
    exact div_le_div_of_nonneg_right (pow_le_pow_right₀ one_le_two lower) zero_le_two
  · -- The quotient needs one bit more, but all of its bits below the first are zero.
    have exact := (quotientUnits_eq_iff positive).mp equal
    have isScale : quotientScale num den = place + 1 := by
      apply le_antisymm
      · apply quotientScale_le
        rw [exact, mul_comm]
        exact Nat.mul_lt_mul_of_pos_left (Nat.pow_lt_pow_right (by decide) (by omega)) positive
      · apply le_quotientScale positive
        rw [exact, mul_comm, ← add_assoc, Nat.add_right_comm]
    have split : num * unitsPerOne = 2 ^ 52 * (den * 2 ^ (place + 1)) := by
      rw [exact, mul_left_comm, ← pow_add, mul_comm, ← add_assoc, Nat.add_right_comm]
    rw [isScale, split, Rounding.halfEven_mul_self _ (Nat.mul_pos positive (Nat.two_pow_pos _)),
      ← pow_add, equal, ← add_assoc, Nat.add_right_comm, sub_self, abs_zero]
    positivity

end Error

section Reach

variable {num den mantissa scale : Nat}

/-- A number of units, counted in the worth of the last bit of `mantissa * 2 ^ scale`, lies no
farther than halfway to the neighbours of this number, of which the one below the least full
mantissa is twice as close.  The halfway points themselves belong to even mantissas. -/
structure RoundsTo (units : ℚ) (mantissa scale : Nat) : Prop where
  near : |(mantissa : ℚ) - units / 2 ^ scale| ≤ 1 / 2
  tie : |(mantissa : ℚ) - units / 2 ^ scale| = 1 / 2 → mantissa % 2 = 0
  full : mantissa = fullMantissa → 0 < scale → (mantissa : ℚ) - units / 2 ^ scale ≤ 1 / 4

theorem quotientScale_eq (positive : 0 < den) (short : quotientUnits num den / 2 ^ scale < 2 ^ 53)
    (full : 0 < scale → 2 ^ 52 ≤ quotientUnits num den / 2 ^ scale) :
    quotientScale num den = scale := by
  have worth : (0 : ℚ) < 2 ^ scale := by positivity
  apply le_antisymm
  · apply quotientScale_le
    rw [← quotientUnits_lt_iff positive, pow_add]
    push_cast
    rwa [div_lt_iff₀ worth] at short
  · rcases Nat.eq_zero_or_pos scale with rfl | above
    · exact Nat.zero_le _
    · have large := full above
      apply le_quotientScale positive
      rw [← not_lt, ← quotientUnits_lt_iff positive, not_lt, pow_add]
      push_cast
      rwa [le_div_iff₀ worth] at large

theorem nearest_eq_of_scale (positive : 0 < den) (isScale : quotientScale num den = scale)
    (near : |(mantissa : ℚ) - quotientUnits num den / 2 ^ scale| ≤ 1 / 2)
    (tie : |(mantissa : ℚ) - quotientUnits num den / 2 ^ scale| = 1 / 2 → mantissa % 2 = 0) :
    nearest num den = ofRounded mantissa scale := by
  rw [quotientUnits_div] at near tie
  rw [nearest_eq_ofRounded, isScale,
    Rounding.halfEven_eq_of_le (Nat.mul_pos positive (Nat.two_pow_pos scale)) near tie]

/-- A number is the nearest one to each quotient that rounds to it. -/
theorem nearest_eq_of_roundsTo {negative : Bool} (positive : 0 < den)
    (representable : (finite negative mantissa scale).Representable)
    (rounds : RoundsTo (quotientUnits num den) mantissa scale) :
    nearest num den = .finite false mantissa scale := by
  obtain ⟨short, inRange, subnormal⟩ := representable
  obtain ⟨near, tie, full⟩ := rounds
  obtain ⟨above, below⟩ := abs_le.mp near
  have castFull : (fullMantissa : ℚ) = 2 ^ 52 := by norm_num [fullMantissa]
  by_cases under : mantissa = fullMantissa ∧ 0 < scale ∧ quotientUnits num den / 2 ^ scale < 2 ^ 52
  · -- The quotient is below the least full mantissa, and rounded at the next lower place.
    obtain ⟨isFull, shifted, less⟩ := under
    have close := full isFull shifted
    obtain ⟨place, rfl⟩ := Nat.exists_eq_add_one.mpr shifted
    have twice : quotientUnits num den / 2 ^ place =
        2 * (quotientUnits num den / 2 ^ (place + 1)) := by
      rw [pow_succ]
      field_simp
    rw [isFull, castFull] at close
    have distance : |((2 * fullMantissa : ℕ) : ℚ) - quotientUnits num den / 2 ^ place| ≤ 1 / 2 := by
      rw [twice, Nat.cast_mul, castFull, abs_le]
      constructor <;> push_cast <;> linarith
    have isScale : quotientScale num den = place := by
      apply quotientScale_eq positive
      · rw [twice]
        linarith
      · intro _
        rw [twice]
        linarith
    rw [nearest_eq_of_scale positive isScale distance fun _ => Nat.mul_mod_right 2 _, ofRounded,
      if_pos rfl, if_pos (by omega), isFull]
  · have isScale : quotientScale num den = scale := by
      apply quotientScale_eq positive
      · have castShort : (mantissa : ℚ) + 1 ≤ 2 ^ 53 := by
          exact_mod_cast (short : mantissa + 1 ≤ 2 ^ 53)
        linarith
      · intro shifted
        have large : fullMantissa ≤ mantissa := by
          by_contra small
          exact shifted.ne' (subnormal (not_le.mp small))
        rcases large.eq_or_lt with isFull | more
        · by_contra less
          exact under ⟨isFull.symm, shifted, not_le.mp less⟩
        · have castMore : (fullMantissa : ℚ) + 1 ≤ mantissa := by exact_mod_cast more
          linarith
    rw [nearest_eq_of_scale positive isScale near tie, ofRounded, if_neg short.ne, if_pos inRange]

theorem nearest_zero (positive : 0 < den) : nearest 0 den = .finite false 0 0 := by
  apply @nearest_eq_of_roundsTo 0 den 0 0 false positive
  · exact Decimal.representable_zero
  · have zero : quotientUnits 0 den = 0 := by simp [quotientUnits]
    rw [zero]
    constructor <;> norm_num [fullMantissa]

end Reach

end TwoPhase.Binary64
