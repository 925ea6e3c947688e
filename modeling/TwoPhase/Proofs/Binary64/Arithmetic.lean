import TwoPhase.Scalar
import TwoPhase.Proofs.Binary64.Packing

/-!
# How far one operation can carry a number

A difference is at most twice the larger operand, a product at most the product of the bounds, and
the inverse of a number beyond the tolerance at most `2 ^ 30`.  Rounding does not change that, and
as long as the bound is below the overflow threshold the result is finite.
-/

namespace TwoPhase

namespace Binary64

open Float.Model (UnpackedFloat totalExponent)
open Float.Model.UnpackedFloat (Sign decreaseExponent divCore)

theorem fitsIn_neg {places : Int} {unpacked : UnpackedFloat} (fits : FitsIn places unpacked) :
    FitsIn places unpacked.neg := by
  cases unpacked <;> exact fits

theorem fitsIn_abs {places : Int} {unpacked : UnpackedFloat} (fits : FitsIn places unpacked) :
    FitsIn places unpacked.abs := by
  cases unpacked <;> exact fits

theorem natAbs_apply (sign : Sign) (magnitude : Nat) :
    (sign.apply magnitude).natAbs = magnitude := by
  cases sign <;> simp [Sign.apply]

theorem shiftLeft_le {mantissa : Nat} {exponent places least : Int} (le : least ≤ exponent)
    (below : exponent ≤ places) (bounded : mantissa ≤ 2 ^ (places - exponent).toNat) :
    mantissa <<< (exponent - least).toNat ≤ 2 ^ (places - least).toNat := by
  have sum : (places - least).toNat = (places - exponent).toNat + (exponent - least).toNat := by
    omega
  rw [Nat.shiftLeft_eq, sum, pow_add]
  exact Nat.mul_le_mul_right _ bounded

theorem fitsIn_sub {places : Int} {left right : UnpackedFloat} (unit : -1074 ≤ places)
    (leftFits : FitsIn places left) (rightFits : FitsIn places right) :
    FitsIn (places + 1) (UnpackedFloat.sub .binary64 left right) := by
  obtain ⟨leftSign, rfl⟩ | ⟨leftSign, leftMantissa, leftExponent, leftPositive, rfl⟩ :=
    leftFits.cases
  · obtain ⟨rightSign, rfl⟩ | ⟨rightSign, rightMantissa, rightExponent, rightPositive, rfl⟩ :=
      rightFits.cases
    · rw [UnpackedFloat.sub]
      split <;> trivial
    · exact (fitsIn_neg rightFits).mono (by omega)
  · obtain ⟨rightSign, rfl⟩ | ⟨rightSign, rightMantissa, rightExponent, rightPositive, rfl⟩ :=
      rightFits.cases
    · exact leftFits.mono (by omega)
    · obtain ⟨_, leftBelow, leftBounded, _⟩ := leftFits
      obtain ⟨_, rightBelow, rightBounded, _⟩ := rightFits
      simp only [UnpackedFloat.sub, decreaseExponent]
      set least := min leftExponent rightExponent
      have leftShifted := shiftLeft_le (min_le_left _ _ : least ≤ _) leftBelow leftBounded
      have rightShifted := shiftLeft_le (min_le_right _ _ : least ≤ _) rightBelow rightBounded
      have double : (places + 1 - least).toNat = (places - least).toNat + 1 := by omega
      apply fitsIn_normalize (by omega) (by omega)
      rw [double, pow_succ, mul_two]
      apply (Int.natAbs_sub_le _ _).trans
      rw [natAbs_apply, natAbs_apply]
      exact add_le_add leftShifted rightShifted

theorem fitsIn_mul {leftPlaces rightPlaces : Int} {left right : UnpackedFloat}
    (unit : -1074 ≤ leftPlaces + rightPlaces)
    (leftFits : FitsIn leftPlaces left) (rightFits : FitsIn rightPlaces right) :
    FitsIn (leftPlaces + rightPlaces) (UnpackedFloat.mul .binary64 left right) := by
  obtain ⟨leftSign, rfl⟩ | ⟨leftSign, leftMantissa, leftExponent, leftPositive, rfl⟩ :=
    leftFits.cases
  · obtain ⟨rightSign, rfl⟩ | ⟨rightSign, rightMantissa, rightExponent, rightPositive, rfl⟩ :=
      rightFits.cases <;> trivial
  · obtain ⟨rightSign, rfl⟩ | ⟨rightSign, rightMantissa, rightExponent, rightPositive, rfl⟩ :=
      rightFits.cases
    · trivial
    · obtain ⟨_, leftBelow, leftBounded, leftFull⟩ := leftFits
      obtain ⟨_, rightBelow, rightBounded, rightFull⟩ := rightFits
      have sum : (leftPlaces + rightPlaces - (leftExponent + rightExponent)).toNat =
          (leftPlaces - leftExponent).toNat + (rightPlaces - rightExponent).toNat := by
        omega
      apply fitsIn_roundWithAccuracy _ unit (by omega)
      · apply AtMost.of_exact
        rw [sum, pow_add]
        exact Nat.mul_le_mul leftBounded rightBounded
      · rcases leftFull with leftSmall | leftLarge
        · rcases rightFull with rightSmall | rightLarge
          · exact .inl (by omega)
          · exact .inr (rightLarge.trans (Nat.le_mul_of_pos_left _ leftPositive))
        · exact .inr (leftLarge.trans (Nat.le_mul_of_pos_right _ rightPositive))

/-- A finite number of at least `2 ^ places` in absolute value, or of at least `2 ^ exponent` if
that is more. -/
def AtLeast (places : Int) : UnpackedFloat → Prop
  | .finite _ mantissa exponent _ => 2 ^ (places - exponent).toNat ≤ mantissa
  | _ => False

theorem fitsIn_div {leftPlaces rightPlaces : Int} {left right : UnpackedFloat}
    (unit : -1074 ≤ leftPlaces - rightPlaces)
    (leftFits : FitsIn leftPlaces left) (rightAtLeast : AtLeast rightPlaces right) :
    FitsIn (leftPlaces - rightPlaces) (UnpackedFloat.div .binary64 left right) := by
  cases right with
  | notANumber => exact rightAtLeast.elim
  | infinity sign => exact rightAtLeast.elim
  | zero sign => exact rightAtLeast.elim
  | finite rightSign rightMantissa rightExponent rightPositive =>
      obtain ⟨leftSign, rfl⟩ | ⟨leftSign, leftMantissa, leftExponent, leftPositive, rfl⟩ :=
        leftFits.cases
      · trivial
      obtain ⟨_, below, bounded, _⟩ := leftFits
      change 2 ^ (rightPlaces - rightExponent).toNat ≤ rightMantissa at rightAtLeast
      have leftLog := log2_le_of_le bounded
      have rightLog := (Nat.le_log2 rightPositive.ne').mpr rightAtLeast
      simp only [UnpackedFloat.div, divCore, totalExponent, targetExponent_binary64]
      set target := min (leftExponent - rightExponent)
        (max (leftMantissa.log2 + 1 + leftExponent -
          (rightMantissa.log2 + 1 + rightExponent) - 53) (-1074)) with isTarget
      set shift := (leftExponent - rightExponent - target).toNat with isShift
      rw [Nat.shiftLeft_eq]
      apply fitsIn_roundWithAccuracy _ unit (by omega)
      · apply AtMost.of_division
        calc leftMantissa * 2 ^ shift
            ≤ 2 ^ (leftPlaces - leftExponent).toNat * 2 ^ shift :=
              Nat.mul_le_mul_right _ bounded
          _ = 2 ^ ((leftPlaces - leftExponent).toNat + shift) := (pow_add 2 _ _).symm
          _ ≤ 2 ^ ((leftPlaces - rightPlaces - target).toNat +
                (rightPlaces - rightExponent).toNat) :=
              Nat.pow_le_pow_right (by decide) (by omega)
          _ = 2 ^ (leftPlaces - rightPlaces - target).toNat *
                2 ^ (rightPlaces - rightExponent).toNat := pow_add 2 _ _
          _ ≤ 2 ^ (leftPlaces - rightPlaces - target).toNat * rightMantissa :=
              Nat.mul_le_mul_left _ rightAtLeast
      · by_cases least : target ≤ -1074
        · exact .inl least
        · right
          rw [Nat.le_div_iff_mul_le rightPositive]
          calc 2 ^ 52 * rightMantissa
              ≤ 2 ^ 52 * 2 ^ (rightMantissa.log2 + 1) :=
                Nat.mul_le_mul_left _ Nat.lt_log2_self.le
            _ = 2 ^ (52 + (rightMantissa.log2 + 1)) := (pow_add 2 _ _).symm
            _ ≤ 2 ^ (leftMantissa.log2 + shift) :=
                Nat.pow_le_pow_right (by decide) (by omega)
            _ = 2 ^ leftMantissa.log2 * 2 ^ shift := pow_add 2 _ _
            _ ≤ leftMantissa * 2 ^ shift :=
                Nat.mul_le_mul_right _ (Nat.log2_self_le leftPositive.ne')

theorem unpack_tolerance : ∃ positive, (Scalar.tolerance : Float).toModel.unpack =
    .finite .positive 4835703278458517 (-82) positive :=
  ⟨by decide, rfl⟩

theorem lt_iff_compare {x y : Float} :
    x < y ↔ UnpackedFloat.compare x.toModel.unpack y.toModel.unpack = some .lt := by
  change decide (x.toModel < y.toModel) = true ↔ _
  rw [decide_eq_true_eq]
  exact beq_iff_eq

/-- The tolerance lies above `2 ^ (-30)`. -/
theorem not_tolerance_lt {x : Float} (fits : FitsIn (-30) x.toModel.unpack) :
    ¬ (Scalar.tolerance : Float) < x := by
  intro above
  obtain ⟨_, tolerance⟩ := unpack_tolerance
  rw [lt_iff_compare, tolerance] at above
  obtain ⟨sign, unpacked⟩ | ⟨sign, mantissa, exponent, positive, unpacked⟩ := fits.cases
  · rw [unpacked] at above
    cases above
  rw [unpacked] at fits above
  obtain ⟨_, below, bounded, full⟩ := fits
  cases sign with
  | negative => cases above
  | positive =>
      simp only [UnpackedFloat.compare, Option.some.injEq, Ordering.then_eq_lt,
        Int.compare_eq_lt, Int.compare_eq_eq, Nat.compare_eq_lt] at above
      have large : 2 ^ 52 ≤ mantissa := full.resolve_left (by omega)
      have exponentLe := (Nat.pow_le_pow_iff_right Nat.one_lt_two).mp (large.trans bounded)
      obtain ⟨same, more⟩ := above.resolve_left (by omega)
      rw [← same] at bounded
      have mantissaLe : mantissa ≤ 2 ^ 52 := bounded
      omega

theorem atLeast_of_tolerance_lt {places : Int} {x : Float} (fits : FitsIn places x.toModel.unpack)
    (above : (Scalar.tolerance : Float) < x.abs) : AtLeast (-30) x.toModel.unpack := by
  have notSmall : ¬ FitsIn (-30) x.toModel.unpack := fun small =>
    not_tolerance_lt (fitsIn_unpack_pack (fitsIn_abs small) (by omega)) above
  obtain ⟨sign, unpacked⟩ | ⟨sign, mantissa, exponent, positive, unpacked⟩ := fits.cases
  · rw [unpacked] at notSmall
    exact absurd trivial notSmall
  rw [unpacked] at fits notSmall ⊢
  obtain ⟨unit, _, _, full⟩ := fits
  change 2 ^ (-30 - exponent).toNat ≤ mantissa
  by_contra less
  by_cases below : exponent ≤ -30
  · exact notSmall ⟨unit, below, (not_le.mp less).le, full⟩
  · have noShift : (-30 - exponent).toNat = 0 := by omega
    rw [noShift] at less
    exact less positive

end Binary64

/-- The number is finite and at most `2 ^ places` in absolute value. -/
def IsWithin (places : Nat) (x : Float) : Prop :=
  (Binary64.ofFloat x).Within places

instance (places : Nat) (x : Float) : Decidable (IsWithin places x) :=
  inferInstanceAs (Decidable (Binary64.Within _ _))

namespace IsWithin

variable {places : Nat} {x y : Float}

theorem fitsIn (within : IsWithin places x) : Binary64.FitsIn places x.toModel.unpack :=
  Binary64.within_iff_fitsIn.mp within

theorem isFinite (within : IsWithin places x) : x.isFinite = true := by
  change x.toModel.unpack.isFinite = true
  obtain ⟨sign, unpacked⟩ | ⟨sign, mantissa, exponent, positive, unpacked⟩ := within.fitsIn.cases
  · rw [unpacked]
    rfl
  · rw [unpacked]
    rfl

theorem mono {most : Nat} (within : IsWithin places x) (le : places ≤ most) : IsWithin most x :=
  Binary64.within_iff_fitsIn.mpr (within.fitsIn.mono (by omega))

theorem neg (within : IsWithin places x) (inRange : places ≤ 1023) : IsWithin places (-x) := by
  apply Binary64.within_iff_fitsIn.mpr
  exact Binary64.fitsIn_unpack_pack (Binary64.fitsIn_neg within.fitsIn) (by omega)

theorem sub (left : IsWithin places x) (right : IsWithin places y) (inRange : places + 1 ≤ 1023) :
    IsWithin (places + 1) (x - y) := by
  apply Binary64.within_iff_fitsIn.mpr
  exact Binary64.fitsIn_unpack_pack (Binary64.fitsIn_sub (by omega) left.fitsIn right.fitsIn)
    (by omega)

theorem mul {others : Nat} (left : IsWithin places x) (right : IsWithin others y)
    (inRange : places + others ≤ 1023) : IsWithin (places + others) (x * y) := by
  apply Binary64.within_iff_fitsIn.mpr
  exact Binary64.fitsIn_unpack_pack (Binary64.fitsIn_mul (by omega) left.fitsIn right.fitsIn)
    (by omega)

theorem zero : IsWithin 0 (Zero.zero : Float) := by
  decide +kernel

theorem one : IsWithin 0 (One.one : Float) := by
  decide +kernel

/-- The inverse of a number beyond the tolerance. -/
theorem inverse (within : IsWithin places x) (above : (Scalar.tolerance : Float) < x.abs) :
    IsWithin 30 (One.one / x) := by
  apply Binary64.within_iff_fitsIn.mpr
  exact Binary64.fitsIn_unpack_pack (Binary64.fitsIn_div (by omega) one.fitsIn
    (Binary64.atLeast_of_tolerance_lt within.fitsIn above)) (by omega)

end IsWithin

end TwoPhase
