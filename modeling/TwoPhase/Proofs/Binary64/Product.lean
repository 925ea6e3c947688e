import TwoPhase.Proofs.Binary64.Bits
import TwoPhase.Proofs.Binary64.Sign
import TwoPhase.Proofs.Rounding

/-!
# Products, signs and one

The sign of a product is apart from its rounding, so a product with one factor negated is the
negated product.  A number times one is rounded at its own last bit, which leaves it as it is.
-/

namespace TwoPhase.Binary64

open Float.Model (UnpackedFloat Format totalExponent)
open Float.Model.UnpackedFloat (Sign ExtendedMantissa shiftToExponent shiftToTargetExponent
  roundWithAccuracy)

section Sign

variable {spec : Format} {x y : UnpackedFloat}

theorem neg_mul_sign (left right : Sign) : -left * right = -(left * right) := by
  cases left <;> cases right <;> rfl

theorem mul_comm_sign (left right : Sign) : left * right = right * left := by
  cases left <;> cases right <;> rfl

theorem positive_mul_sign (sign : Sign) : Sign.positive * sign = sign := by
  cases sign <;> rfl

theorem mul_comm_unpacked (x y : UnpackedFloat) :
    UnpackedFloat.mul spec x y = UnpackedFloat.mul spec y x := by
  cases x with
  | notANumber => cases y <;> rfl
  | infinity left | zero left | finite left =>
      cases y <;> simp [UnpackedFloat.mul, mul_comm_sign left, Nat.mul_comm, Int.add_comm]

theorem neg_mul_unpacked (x y : UnpackedFloat) :
    UnpackedFloat.mul spec x.neg y = (UnpackedFloat.mul spec x y).neg := by
  cases x with
  | notANumber => rfl
  | infinity left | zero left | finite left =>
      cases y <;>
        simp [UnpackedFloat.mul, UnpackedFloat.neg, neg_mul_sign, roundWithAccuracy_neg]

theorem Alike.mul_right (alike : Alike x y) (z : UnpackedFloat) :
    Alike (UnpackedFloat.mul spec x z) (UnpackedFloat.mul spec y z) := by
  cases alike with
  | same => exact .same _
  | zero left right =>
      cases z with
      | zero | finite => exact .zero _ _
      | notANumber | infinity => exact .same _

theorem Alike.mul {x' y' : UnpackedFloat} (left : Alike x x') (right : Alike y y') :
    Alike (UnpackedFloat.mul spec x y) (UnpackedFloat.mul spec x' y') := by
  apply (left.mul_right y).trans
  rw [mul_comm_unpacked x', mul_comm_unpacked x']
  exact right.mul_right x'

end Sign

section One

/-- Bits that are all zero are shifted out without a trace. -/
theorem shiftRight_mul_two_pow (mantissa places : Nat) :
    ExtendedMantissa.ofMantissaAndAccuracy (mantissa * 2 ^ places) .exact >>> places =
      .ofMantissaAndAccuracy mantissa .exact := by
  induction places generalizing mantissa with
  | zero => simp [HShiftRight.hShiftRight, Nat.repeat]
  | succ places inductionHypothesis =>
      change (ExtendedMantissa.ofMantissaAndAccuracy (mantissa * 2 ^ (places + 1)) .exact >>>
        places).shiftRightOne = _
      rw [pow_succ', ← mul_assoc, inductionHypothesis]
      simp [ExtendedMantissa.ofMantissaAndAccuracy, ExtendedMantissa.shiftRightOne]

variable {mantissa : Nat} {exponent : Int}
  (own : Format.binary64.targetExponent (totalExponent mantissa exponent) = exponent)

include own

theorem shiftToTargetExponent_own (positive : 0 < mantissa) (places : Nat) :
    shiftToTargetExponent .binary64 (mantissa * 2 ^ places) (exponent - places) .exact =
      (.ofMantissaAndAccuracy mantissa .exact, exponent) := by
  have total : totalExponent (mantissa * 2 ^ places) (exponent - places) =
      totalExponent mantissa exponent := by
    rw [totalExponent, totalExponent, Rounding.log2_mul_two_pow positive.ne']
    push_cast
    ring
  have shift : (exponent - (exponent - places)).toNat = places := by omega
  simp only [shiftToTargetExponent, shiftToExponent, total, own, shift, shiftRight_mul_two_pow]
  rw [sub_add_cancel]

/-- A number at its own exponent is not rounded, however many zero bits follow it. -/
theorem roundWithAccuracy_own (sign : Sign) (positive : 0 < mantissa) (places : Nat) :
    roundWithAccuracy .binary64 sign (mantissa * 2 ^ places) (exponent - places) .exact =
      .finite sign mantissa exponent positive := by
  -- What rounding leaves is brought to the target exponent once more.
  have again := shiftToTargetExponent_own own positive 0
  rw [pow_zero, mul_one, Nat.cast_zero, sub_zero] at again
  have rounded : (ExtendedMantissa.ofMantissaAndAccuracy mantissa .exact).roundedMantissa =
      mantissa := rfl
  simp only [roundWithAccuracy, shiftToTargetExponent_own own positive, rounded, again]
  exact dif_neg positive.ne'

end One

section Float

variable {x : Float}

theorem targetExponent_own {sign : Sign} {mantissa : Nat} {exponent : Int}
    {positive : 0 < mantissa}
    (unpacked : x.toModel.unpack = .finite sign mantissa exponent positive) :
    Format.binary64.targetExponent (totalExponent mantissa exponent) = exponent := by
  have unit := (full_of_unpack unpacked).1
  have representable := representable_ofFloat x
  rw [ofFloat_eq, unpacked, ofUnpacked] at representable
  obtain ⟨short, _, subnormal⟩ := representable
  rw [targetExponent_binary64, totalExponent]
  by_cases full : fullMantissa ≤ mantissa
  · have log : mantissa.log2 = 52 :=
      (Nat.log2_eq_iff positive.ne').mpr ⟨full, short⟩
    omega
  · have log := (Nat.log2_lt positive.ne').mpr (not_le.mp full)
    have least := subnormal (not_le.mp full)
    omega

theorem unpack_mul (x y : Float) : (x * y).toModel.unpack =
    (Float.Model.pack (UnpackedFloat.mul .binary64 x.toModel.unpack y.toModel.unpack)).unpack :=
  rfl

theorem one_mul_unpacked (x : Float) :
    UnpackedFloat.mul .binary64 (One.one : Float).toModel.unpack x.toModel.unpack =
      x.toModel.unpack := by
  have one : ∃ positive, (One.one : Float).toModel.unpack =
      .finite .positive (2 ^ 52) (-52) positive := ⟨by decide, rfl⟩
  obtain ⟨onePositive, isOne⟩ := one
  rw [isOne]
  cases unpacked : x.toModel.unpack with
  | notANumber => rfl
  | infinity sign | zero sign =>
      rw [UnpackedFloat.mul, positive_mul_sign]
  | finite sign mantissa exponent positive =>
      have own := targetExponent_own unpacked
      rw [UnpackedFloat.mul, positive_mul_sign, mul_comm, neg_add_eq_sub]
      exact roundWithAccuracy_own own sign positive 52

theorem neg_mul_float (x y : Float) : -x * y = -(x * y) := by
  apply eq_of_unpack_eq
  rw [unpack_mul, unpack_neg, neg_mul_unpacked, unpack_neg, unpack_mul]
  exact unpack_pack_neg _

theorem mul_comm_float (x y : Float) : x * y = y * x := by
  apply eq_of_unpack_eq
  rw [unpack_mul, unpack_mul, mul_comm_unpacked]

theorem mul_neg_float (x y : Float) : x * -y = -(x * y) := by
  rw [mul_comm_float, neg_mul_float, mul_comm_float]

theorem one_mul_float (x : Float) : One.one * x = x := by
  apply eq_of_unpack_eq
  rw [unpack_mul, one_mul_unpacked, pack_unpack_toModel]

end Float

end TwoPhase.Binary64
