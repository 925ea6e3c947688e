import Mathlib
import TwoPhase.Binary64
import TwoPhase.Proofs.Binary64.Rounding

/-!
# Packed and unpacked numbers

The bits of a number give the same class, mantissa and exponent whichever way they are taken apart.
Packing a number that is at most `2 ^ places` and unpacking it again leaves a finite number of at
most `2 ^ places`, as long as that power is a binary64 number itself.

The laws of packing for numbers of any format are those of Batteries, which Mathlib imports only as
a whole.
-/

namespace TwoPhase.Binary64

open Float.Model (UnpackedFloat Format)
open Float.Model.UnpackedFloat (Sign unpackSign unpackExponent unpackMantissa packComponents
  unpackExponent_packComponents unpackMantissa_packComponents unpack_packedZero)

theorem exponentBias_binary64 : Format.binary64.exponentBias = 1023 :=
  rfl

theorem toNat_implicit_append (fraction : BitVec 52) :
    (1#1 ++ fraction).toNat = 2 ^ 52 + fraction.toNat := by
  rw [BitVec.toNat_append, ← Nat.shiftLeft_add_eq_or_of_lt fraction.isLt]
  simp [Nat.shiftLeft_eq]

section Unpack

theorem toNat_unpackMantissa (bits : BitVec 64) :
    (@unpackMantissa .binary64 bits).toNat = bits.toNat % 2 ^ 52 := by
  simp [unpackMantissa, BitVec.extractLsb_toNat]

theorem toNat_unpackExponent (bits : BitVec 64) :
    (@unpackExponent .binary64 bits).toNat = bits.toNat / 2 ^ 52 % 2 ^ 11 := by
  simp [unpackExponent, BitVec.extractLsb_toNat, Nat.shiftRight_eq_div_pow]

theorem toNat_unpackSign (bits : BitVec 64) :
    (@unpackSign .binary64 bits).toNat = bits.toNat / 2 ^ 63 := by
  simp [unpackSign, BitVec.extractLsb_toNat, Nat.shiftRight_eq_div_pow]
  have := bits.isLt
  omega

theorem ofBitVec_unpackSign (bits : BitVec 64) :
    (Sign.ofBitVec (@unpackSign .binary64 bits) == .negative) =
      (bits.toNat / 2 ^ 63 == 1) := by
  rw [← toNat_unpackSign]
  generalize @unpackSign .binary64 bits = sign
  revert sign
  decide

/-- The class of an unpacked number, with its exponent counted from the unit. -/
def ofUnpacked : UnpackedFloat → Binary64
  | .notANumber => .nan
  | .infinity sign => .infinite (sign == .negative)
  | .zero sign => .finite (sign == .negative) 0 0
  | .finite sign mantissa exponent _ => .finite (sign == .negative) mantissa (exponent + 1074).toNat

theorem ofBits_eq (bits : Nat) :
    ofBits bits =
      if bits / 2 ^ 52 % 2 ^ 11 = 2047 then
        if bits % 2 ^ 52 = 0 then .infinite (bits / 2 ^ 63 == 1) else .nan
      else if bits / 2 ^ 52 % 2 ^ 11 = 0 then .finite (bits / 2 ^ 63 == 1) (bits % 2 ^ 52) 0
      else .finite (bits / 2 ^ 63 == 1) (2 ^ 52 + bits % 2 ^ 52) (bits / 2 ^ 52 % 2 ^ 11 - 1) :=
  rfl

theorem ofBits_eq_ofUnpacked (bits : BitVec 64) :
    ofBits bits.toNat = ofUnpacked (UnpackedFloat.unpack .binary64 bits) := by
  have mantissa := toNat_unpackMantissa bits
  have exponent := toNat_unpackExponent bits
  have sign := ofBitVec_unpackSign bits
  have topIff : @unpackExponent .binary64 bits = -1#11 ↔
      bits.toNat / 2 ^ 52 % 2 ^ 11 = 2047 := by
    rw [← exponent, ← BitVec.toNat_inj]
    rfl
  have bottomIff : @unpackExponent .binary64 bits = 0#11 ↔
      bits.toNat / 2 ^ 52 % 2 ^ 11 = 0 := by
    rw [← exponent, ← BitVec.toNat_inj]
    rfl
  have zeroIff : @unpackMantissa .binary64 bits = 0#52 ↔ bits.toNat % 2 ^ 52 = 0 := by
    rw [← mantissa, ← BitVec.toNat_inj]
    rfl
  rw [ofBits_eq]
  unfold UnpackedFloat.unpack
  simp only [topIff, bottomIff, zeroIff, exponent]
  by_cases top : bits.toNat / 2 ^ 52 % 2 ^ 11 = 2047
  · simp only [if_pos top]
    split
    · exact congrArg infinite sign.symm
    · rfl
  simp only [if_neg top]
  by_cases bottom : bits.toNat / 2 ^ 52 % 2 ^ 11 = 0
  · simp only [if_pos bottom]
    split
    · next zero => rw [ofUnpacked, sign, zero]
    · rw [ofUnpacked, sign, mantissa, exponentBias_binary64, bottom]
      rfl
  · simp only [if_neg bottom]
    rw [ofUnpacked, sign, toNat_implicit_append, mantissa, exponentBias_binary64]
    congr 1
    omega

theorem ofFloat_eq (x : Float) : ofFloat x = ofUnpacked x.toModel.unpack :=
  ofBits_eq_ofUnpacked x.toBits.toBitVec

theorem isFinite_ofFloat (x : Float) : (ofFloat x).isFinite = x.isFinite := by
  rw [ofFloat_eq]
  change _ = x.toModel.unpack.isFinite
  cases x.toModel.unpack <;> rfl

theorem exists_ofBits_eq_finite {bits : Nat} (finite : (ofBits bits).isFinite = true) :
    ∃ negative mantissa scale, ofBits bits = .finite negative mantissa scale ∧
      mantissa < 2 ^ 53 ∧ scale ≤ 2045 := by
  rw [ofBits_eq] at finite ⊢
  split at finite
  · split at finite <;> cases finite
  · next notTop =>
      rw [if_neg notTop]
      split
      · exact ⟨_, _, _, rfl, by omega, by omega⟩
      · exact ⟨_, _, _, rfl, by omega, by omega⟩

theorem exists_ofFloat_eq_finite {x : Float} (finite : x.isFinite = true) :
    ∃ negative mantissa scale, ofFloat x = .finite negative mantissa scale ∧
      mantissa < 2 ^ 53 ∧ scale ≤ 2045 := by
  rw [← isFinite_ofFloat] at finite
  exact exists_ofBits_eq_finite finite

theorem full_of_unpack {bits : BitVec 64} {sign : Sign} {mantissa : Nat} {exponent : Int}
    {positive : 0 < mantissa}
    (unpacked : UnpackedFloat.unpack .binary64 bits = .finite sign mantissa exponent positive) :
    -1074 ≤ exponent ∧ Full mantissa exponent := by
  unfold UnpackedFloat.unpack at unpacked
  simp only [exponentBias_binary64] at unpacked
  split at unpacked
  · split at unpacked <;> cases unpacked
  · split at unpacked
    · next bottom =>
        split at unpacked
        · cases unpacked
        · cases unpacked
          rw [bottom]
          exact ⟨by decide, .inl (by decide)⟩
    · next notBottom =>
        have nonzero : (@unpackExponent .binary64 bits).toNat ≠ 0 := by
          intro zero
          exact notBottom (BitVec.eq_of_toNat_eq zero)
        cases unpacked
        refine ⟨by omega, .inr ?_⟩
        rw [toNat_implicit_append]
        exact Nat.le_add_right _ _

end Unpack

section Pack

theorem fitsIn_unpack_normal {places : Int} {sign : Sign} {mantissa exponent : Nat}
    (full : 2 ^ 52 ≤ mantissa) (short : mantissa < 2 ^ 53) (normal : 0 < exponent)
    (inRange : exponent < 2047) (below : (exponent : Int) - 1075 ≤ places)
    (bounded : mantissa ≤ 2 ^ (places - (exponent - 1075)).toNat) :
    FitsIn places (UnpackedFloat.unpack .binary64
      (packComponents .binary64 sign (.ofNat 11 exponent) (.ofNat 52 mantissa))) := by
  have exponentIs : (BitVec.ofNat 11 exponent).toNat = exponent := by
    rw [BitVec.toNat_ofNat]
    omega
  have notTop : BitVec.ofNat 11 exponent ≠ -1#11 := by
    rw [Ne, ← BitVec.toNat_inj, exponentIs]
    exact inRange.ne
  have notBottom : BitVec.ofNat 11 exponent ≠ 0#11 := by
    rw [Ne, ← BitVec.toNat_inj, exponentIs]
    exact normal.ne'
  have mantissaIs : (1#1 ++ BitVec.ofNat 52 mantissa).toNat = mantissa := by
    rw [toNat_implicit_append, BitVec.toNat_ofNat]
    omega
  unfold UnpackedFloat.unpack
  simp only [unpackExponent_packComponents, unpackMantissa_packComponents, if_neg notTop,
    if_neg notBottom, FitsIn, exponentIs, mantissaIs, exponentBias_binary64]
  refine ⟨?_, ?_, ?_, .inr full⟩
  · omega
  · omega
  · simpa using bounded

theorem fitsIn_unpack_subnormal {places : Int} {sign : Sign} {mantissa : Nat}
    (unit : -1074 ≤ places) (bounded : mantissa ≤ 2 ^ (places + 1074).toNat) :
    FitsIn places (UnpackedFloat.unpack .binary64
      (packComponents .binary64 sign 0#11 (.ofNat 52 mantissa))) := by
  have notTop : 0#11 ≠ -1#11 := by decide
  unfold UnpackedFloat.unpack
  simp only [unpackExponent_packComponents, unpackMantissa_packComponents, if_neg notTop]
  simp only [if_pos, exponentBias_binary64]
  split
  · trivial
  · refine ⟨by simp, by simpa using unit, ?_, .inl (by simp)⟩
    rw [BitVec.toNat_ofNat]
    exact (Nat.mod_le _ _).trans (by simpa using bounded)

theorem fitsIn_unpack_pack {places : Int} {unpacked : UnpackedFloat} (fits : FitsIn places unpacked)
    (inRange : places ≤ 1023) : FitsIn places (Float.Model.pack unpacked).unpack := by
  change FitsIn places (UnpackedFloat.unpack .binary64 (UnpackedFloat.pack .binary64 unpacked))
  obtain ⟨sign, rfl⟩ | ⟨sign, mantissa, exponent, positive, rfl⟩ := fits.cases
  · rw [UnpackedFloat.pack, unpack_packedZero]
    trivial
  · obtain ⟨unit, below, bounded, full⟩ := fits
    have exponentLe : exponent ≤ 971 := by
      rcases full with small | large
      · omega
      · have := (Nat.pow_le_pow_iff_right Nat.one_lt_two).mp (large.trans bounded)
        omega
    have biased : (exponent + Format.binary64.exponentBias +
        Format.binary64.mantissaBitsWithoutImplicit).toNat = (exponent + 1075).toNat := by
      have fractionBits : Format.binary64.mantissaBitsWithoutImplicit = 52 := rfl
      rw [exponentBias_binary64, fractionBits]
      omega
    have noOverflow : ¬ 2 ^ 11 ≤ (exponent + 1075).toNat + 1 := by omega
    simp only [UnpackedFloat.pack, biased, if_neg noOverflow, mantissaBits_binary64]
    by_cases normal : mantissa.log2 + 1 = 53
    · have size := (Nat.log2_eq_iff positive.ne').mp (Nat.succ.inj normal)
      have exponentIs : ((exponent + 1075).toNat : Int) - 1075 = exponent := by omega
      rw [if_pos normal]
      apply fitsIn_unpack_normal size.1 size.2 (by omega) (by omega)
      · omega
      · rwa [exponentIs]
    · rw [if_neg normal]
      apply fitsIn_unpack_subnormal (by omega)
      exact bounded.trans (Nat.pow_le_pow_right (by decide) (by omega))

end Pack

/-- The number is finite and at most `2 ^ places` in absolute value, which is `2 ^ (places + 1074)`
units. -/
def Within (places : Nat) : Binary64 → Prop
  | .finite _ mantissa scale => units mantissa scale ≤ Nat.pow 2 (places + 1074)
  | _ => False

instance (places : Nat) (x : Binary64) : Decidable (x.Within places) :=
  match x with
  | .nan | .infinite _ => inferInstanceAs (Decidable False)
  | .finite .. => inferInstanceAs (Decidable (_ ≤ _))

theorem within_iff_fitsIn {places : Nat} {x : Float} :
    (ofFloat x).Within places ↔ FitsIn places x.toModel.unpack := by
  rw [ofFloat_eq]
  cases unpacked : x.toModel.unpack with
  | notANumber => rfl
  | infinity sign => rfl
  | zero sign => simp [ofUnpacked, Within, FitsIn, units]
  | finite sign mantissa exponent positive =>
      obtain ⟨unit, full⟩ := full_of_unpack unpacked
      have sum (below : exponent ≤ places) :
          places + 1074 = (places - exponent).toNat + (exponent + 1074).toNat := by
        omega
      simp only [ofUnpacked, Within, FitsIn, units, Nat.pow_eq]
      constructor
      · intro le
        have below : exponent ≤ places := by
          have := (Nat.pow_le_pow_iff_right Nat.one_lt_two).mp
            ((Nat.le_mul_of_pos_left _ positive).trans le)
          omega
        rw [sum below, pow_add] at le
        exact ⟨unit, below, Nat.le_of_mul_le_mul_right le (Nat.two_pow_pos _), full⟩
      · rintro ⟨_, below, bounded, _⟩
        rw [sum below, pow_add]
        exact Nat.mul_le_mul_right _ bounded

end TwoPhase.Binary64
