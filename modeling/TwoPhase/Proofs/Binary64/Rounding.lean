import Mathlib.Algebra.Ring.Nat
import Mathlib.Data.Nat.Log
import Mathlib.Tactic.Set

/-!
# Rounding to 53 bits keeps powers of two

Binary64 arithmetic computes a mantissa with a round and a sticky bit behind it, shifts it to 53
bits and rounds.  A power of two is a whole number at every exponent up to its own, so a number that
is at most `2 ^ places` before rounding is so afterwards.
-/

namespace TwoPhase.Binary64

open Float.Model (UnpackedFloat Format totalExponent)
open Float.Model.UnpackedFloat (Sign Accuracy ExtendedMantissa accuracyOfFraction
  shiftToTargetExponent roundWithAccuracy)

/-- A mantissa and the bits behind it stand for a number that is at most `bound`. -/
def AtMost (extended : ExtendedMantissa) (bound : Nat) : Prop :=
  extended.mantissa < bound ∨
    (extended.mantissa = bound ∧ extended.roundBit = false ∧ extended.stickyBit = false)

/-- A quotient that reaches its bound leaves no remainder. -/
theorem mod_eq_zero_of_div_eq {numerator denominator bound : Nat}
    (le : numerator ≤ bound * denominator) (equal : numerator / denominator = bound) :
    numerator % denominator = 0 := by
  have total := Nat.div_add_mod' numerator denominator
  rw [equal] at total
  omega

theorem mantissa_ofMantissaAndAccuracy (mantissa : Nat) (accuracy : Accuracy) :
    (ExtendedMantissa.ofMantissaAndAccuracy mantissa accuracy).mantissa = mantissa := by
  cases accuracy with
  | exact => rfl
  | inexact side => cases side <;> rfl

theorem mantissa_shiftRight (extended : ExtendedMantissa) (places : Nat) :
    (extended >>> places).mantissa = extended.mantissa / 2 ^ places := by
  induction places with
  | zero => simp [HShiftRight.hShiftRight, Nat.repeat]
  | succ places inductionHypothesis =>
      change (extended >>> places).mantissa / 2 = _
      rw [inductionHypothesis, Nat.div_div_eq_div_mul, ← pow_succ]

theorem mantissa_le_roundedMantissa (extended : ExtendedMantissa) :
    extended.mantissa ≤ extended.roundedMantissa := by
  obtain ⟨mantissa, roundBit, stickyBit⟩ := extended
  cases roundBit <;> cases stickyBit <;>
    simp [ExtendedMantissa.roundedMantissa, ExtendedMantissa.accuracy,
      Accuracy.roundToNearestEven]

namespace AtMost

variable {extended : ExtendedMantissa} {bound : Nat}

theorem mantissa_le (atMost : AtMost extended bound) : extended.mantissa ≤ bound := by
  rcases atMost with less | ⟨equal, _, _⟩
  · exact less.le
  · exact equal.le

theorem of_exact {mantissa : Nat} (le : mantissa ≤ bound) :
    AtMost (.ofMantissaAndAccuracy mantissa .exact) bound := by
  rcases le.lt_or_eq with less | equal
  · exact .inl less
  · exact .inr ⟨equal, rfl, rfl⟩

theorem of_division {numerator denominator : Nat} (le : numerator ≤ bound * denominator) :
    AtMost (.ofMantissaAndAccuracy (numerator / denominator)
      (accuracyOfFraction (numerator % denominator) denominator)) bound := by
  have quotientLe : numerator / denominator ≤ bound :=
    Nat.div_le_of_le_mul (le.trans_eq (mul_comm _ _))
  rcases quotientLe.lt_or_eq with less | equal
  · left
    rwa [mantissa_ofMantissaAndAccuracy]
  · rw [mod_eq_zero_of_div_eq le equal, accuracyOfFraction, if_pos rfl]
    exact .of_exact equal.le

theorem shiftRightOne (atMost : AtMost extended (2 * bound)) :
    AtMost extended.shiftRightOne bound := by
  rcases atMost with less | ⟨equal, noRound, noSticky⟩
  · left
    simp only [ExtendedMantissa.shiftRightOne]
    omega
  · right
    simp [ExtendedMantissa.shiftRightOne, equal, noRound, noSticky]

theorem shiftRight {places : Nat} (atMost : AtMost extended (2 ^ places * bound)) :
    AtMost (extended >>> places) bound := by
  induction places generalizing bound with
  | zero => simpa [HShiftRight.hShiftRight, Nat.repeat] using atMost
  | succ places inductionHypothesis =>
      have allButOne : AtMost (extended >>> places) (2 * bound) := by
        apply inductionHypothesis
        rwa [← mul_assoc, ← pow_succ]
      exact allButOne.shiftRightOne

theorem roundedMantissa_le (atMost : AtMost extended bound) :
    extended.roundedMantissa ≤ bound := by
  obtain ⟨mantissa, roundBit, stickyBit⟩ := extended
  cases roundBit <;> cases stickyBit <;>
    simp [AtMost, ExtendedMantissa.roundedMantissa, ExtendedMantissa.accuracy,
      Accuracy.roundToNearestEven] at atMost ⊢ <;> omega

end AtMost

theorem mantissaBits_binary64 : Format.binary64.mantissaBits = 53 :=
  rfl

theorem targetExponent_binary64 (total : Int) :
    Format.binary64.targetExponent total = max (total - 53) (-1074) :=
  rfl

theorem log2_le_of_le {value places : Nat} (le : value ≤ 2 ^ places) : value.log2 ≤ places := by
  rw [Nat.log2_eq_log_two]
  exact (Nat.log_mono_right le).trans_eq (Nat.log_pow Nat.one_lt_two _)

/-- `mantissa * 2 ^ exponent` needs no shift to the left: it has 53 bits, or its last bit is worth a
unit at most. -/
def Full (mantissa : Nat) (exponent : Int) : Prop :=
  exponent ≤ -1074 ∨ 2 ^ 52 ≤ mantissa

/-- A mantissa that has been shifted to its exponent, of a number that is at most `2 ^ places`. -/
structure Settled (places : Int) (extended : ExtendedMantissa) (exponent : Int) : Prop where
  unit : -1074 ≤ exponent
  below : exponent ≤ places
  atMost : AtMost extended (2 ^ (places - exponent).toNat)
  full : Full extended.mantissa exponent

theorem settled_shiftToTargetExponent {mantissa : Nat} {exponent places : Int}
    {accuracy : Accuracy} (full : Full mantissa exponent) (unit : -1074 ≤ places)
    (below : exponent ≤ places)
    (atMost : AtMost (.ofMantissaAndAccuracy mantissa accuracy)
      (2 ^ (places - exponent).toNat)) :
    Settled places (shiftToTargetExponent .binary64 mantissa exponent accuracy).1
      (shiftToTargetExponent .binary64 mantissa exponent accuracy).2 := by
  have mantissaLe : mantissa ≤ 2 ^ (places - exponent).toNat :=
    (mantissa_ofMantissaAndAccuracy mantissa accuracy) ▸ atMost.mantissa_le
  have log2Le := log2_le_of_le mantissaLe
  simp only [shiftToTargetExponent, Float.Model.UnpackedFloat.shiftToExponent,
    targetExponent_binary64, totalExponent]
  set shift := (max (mantissa.log2 + 1 + exponent - 53 : Int) (-1074) - exponent).toNat with isShift
  refine ⟨by omega, by omega, ?_, ?_⟩
  · apply AtMost.shiftRight
    have sum : shift + (places - (exponent + shift)).toNat = (places - exponent).toNat := by omega
    rwa [← pow_add, sum]
  · rw [mantissa_shiftRight, mantissa_ofMantissaAndAccuracy]
    by_cases least : exponent + shift ≤ -1074
    · exact .inl least
    · right
      have enough : 52 ≤ mantissa.log2 := by
        rcases full with small | large
        · omega
        · exact (Nat.le_log2 (by omega)).mpr large
      have nonzero : mantissa ≠ 0 := by
        rintro rfl
        simp at enough
      have bits : 52 + shift ≤ mantissa.log2 := by omega
      rw [Nat.le_div_iff_mul_le (Nat.two_pow_pos _), ← pow_add]
      exact (Nat.pow_le_pow_right (by decide) bits).trans (Nat.log2_self_le nonzero)

/-- A finite number of at most `2 ^ places` in absolute value, in a form that can be packed. -/
def FitsIn (places : Int) : UnpackedFloat → Prop
  | .zero _ => True
  | .finite _ mantissa exponent _ =>
      -1074 ≤ exponent ∧ exponent ≤ places ∧ mantissa ≤ 2 ^ (places - exponent).toNat ∧
        Full mantissa exponent
  | _ => False

theorem FitsIn.cases {places : Int} {unpacked : UnpackedFloat} (fits : FitsIn places unpacked) :
    (∃ sign, unpacked = .zero sign) ∨
      ∃ sign mantissa exponent positive,
        unpacked = .finite sign mantissa exponent positive := by
  cases unpacked with
  | notANumber => exact fits.elim
  | infinity sign => exact fits.elim
  | zero sign => exact .inl ⟨sign, rfl⟩
  | finite sign mantissa exponent positive => exact .inr ⟨sign, mantissa, exponent, positive, rfl⟩

theorem FitsIn.mono {least most : Int} {unpacked : UnpackedFloat} (fits : FitsIn least unpacked)
    (le : least ≤ most) : FitsIn most unpacked := by
  obtain ⟨sign, rfl⟩ | ⟨sign, mantissa, exponent, positive, rfl⟩ := fits.cases
  · trivial
  · obtain ⟨unit, below, bounded, full⟩ := fits
    exact ⟨unit, below.trans le, bounded.trans (Nat.pow_le_pow_right (by decide) (by omega)), full⟩

theorem fitsIn_roundWithAccuracy {sign : Sign} {mantissa : Nat} {exponent places : Int}
    {accuracy : Accuracy} (full : Full mantissa exponent) (unit : -1074 ≤ places)
    (below : exponent ≤ places)
    (atMost : AtMost (.ofMantissaAndAccuracy mantissa accuracy)
      (2 ^ (places - exponent).toNat)) :
    FitsIn places (roundWithAccuracy .binary64 sign mantissa exponent accuracy) := by
  have first := settled_shiftToTargetExponent full unit below atMost
  have fullRounded := first.full.imp_right fun large =>
    large.trans (mantissa_le_roundedMantissa _)
  -- The second shift only takes back a carry, so nothing is left to round.
  have second := settled_shiftToTargetExponent fullRounded unit first.below
    (.of_exact first.atMost.roundedMantissa_le)
  rw [roundWithAccuracy, apply_dite (FitsIn places), dite_prop_iff_and]
  constructor
  · exact fun _ => trivial
  · exact fun _ => ⟨second.unit, second.below, second.atMost.mantissa_le, second.full⟩

theorem fitsIn_round {sign : Sign} {mantissa : Nat} {exponent places : Int}
    (positive : 0 < mantissa) (unit : -1074 ≤ places) (below : exponent ≤ places)
    (bounded : mantissa ≤ 2 ^ (places - exponent).toNat) :
    FitsIn places (UnpackedFloat.round .binary64 sign mantissa exponent) := by
  simp only [UnpackedFloat.round, Float.Model.UnpackedFloat.decreaseExponent,
    targetExponent_binary64, totalExponent]
  set shift := (exponent - max (mantissa.log2 + 1 + exponent - 53 : Int) (-1074)).toNat with isShift
  rw [Nat.shiftLeft_eq]
  apply fitsIn_roundWithAccuracy _ unit (by omega)
  · apply AtMost.of_exact
    have sum : (places - (exponent - shift)).toNat = (places - exponent).toNat + shift := by omega
    rw [sum, pow_add]
    exact Nat.mul_le_mul_right _ bounded
  · by_cases least : exponent - shift ≤ -1074
    · exact .inl least
    · right
      calc 2 ^ 52 ≤ 2 ^ (mantissa.log2 + shift) := Nat.pow_le_pow_right (by decide) (by omega)
        _ = 2 ^ mantissa.log2 * 2 ^ shift := pow_add 2 _ _
        _ ≤ mantissa * 2 ^ shift := Nat.mul_le_mul_right _ (Nat.log2_self_le positive.ne')

theorem fitsIn_normalize {mantissa exponent places : Int} (unit : -1074 ≤ places)
    (below : exponent ≤ places) (bounded : mantissa.natAbs ≤ 2 ^ (places - exponent).toNat) :
    FitsIn places (UnpackedFloat.normalize .binary64 mantissa exponent .positive) := by
  unfold UnpackedFloat.normalize
  split
  · next negative =>
      have := Int.compare_eq_lt.mp negative
      exact fitsIn_round (by omega) unit below (by omega)
  · trivial
  · next positive =>
      have := Int.compare_eq_gt.mp positive
      exact fitsIn_round (by omega) unit below (by omega)

end TwoPhase.Binary64
