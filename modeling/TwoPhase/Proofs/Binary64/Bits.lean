import TwoPhase.Decimal.Numeral
import TwoPhase.Proofs.Binary64.Nearest
import TwoPhase.Proofs.Binary64.Packing

/-!
# Numbers and their bits

A number whose mantissa and scale have room in the bits is read off them as it was written.  Every
number that is read from text is one of these, so the value that stands in a problem is the one that
the text spells, and finite where that is.
-/

namespace TwoPhase

namespace Rounding

theorem div_le_halfEven (num den : Nat) : num / den ≤ halfEven num den := by
  simp only [halfEven]
  split
  · exact le_rfl
  · exact Nat.le_succ _

theorem halfEven_le_succ (num den : Nat) : halfEven num den ≤ num / den + 1 := by
  simp only [halfEven]
  split
  · exact Nat.le_succ _
  · exact le_rfl

end Rounding

namespace Binary64

open Float.Model (UnpackedFloat)
open Float.Model.UnpackedFloat (isNaNBits unpack_packedNaN)

/-- The mantissa has at most 53 bits, and fewer only at scale zero. -/
def Representable : Binary64 → Prop
  | .finite _ mantissa scale =>
      mantissa < 2 * fullMantissa ∧ scale ≤ 2045 ∧ (mantissa < fullMantissa → scale = 0)
  | _ => True

theorem representable_ofBits (bits : Nat) : (ofBits bits).Representable := by
  rw [ofBits_eq]
  split
  · split <;> trivial
  · split
    · exact ⟨(Nat.mod_lt bits (by decide)).trans (by decide), Nat.zero_le _, fun _ => rfl⟩
    · refine ⟨?_, by omega, fun less => absurd less (not_lt.mpr (Nat.le_add_right _ _))⟩
      rw [fullMantissa, Nat.pow_eq]
      omega

theorem representable_ofFloat (x : Float) : (ofFloat x).Representable :=
  representable_ofBits x.toBits.toNat

theorem fullMantissa_eq : fullMantissa = 4503599627370496 :=
  rfl

theorem magnitudeBits_small {negative : Bool} {mantissa scale : Nat}
    (small : mantissa < fullMantissa) :
    (finite negative mantissa scale).magnitudeBits = mantissa :=
  if_pos small

theorem magnitudeBits_full {negative : Bool} {mantissa scale : Nat}
    (full : fullMantissa ≤ mantissa) :
    (finite negative mantissa scale).magnitudeBits = scale * fullMantissa + mantissa :=
  if_neg (not_lt.mpr full)

theorem magnitudeBits_lt {x : Binary64} (representable : x.Representable) :
    x.magnitudeBits < 2 ^ 63 := by
  cases x with
  | nan => decide
  | infinite negative =>
      change 2047 * fullMantissa < 2 ^ 63
      decide
  | finite negative mantissa scale =>
      obtain ⟨short, inRange, _⟩ := representable
      rcases Nat.lt_or_ge mantissa fullMantissa with small | full
      · rw [magnitudeBits_small small]
        exact small.trans (by decide)
      · rw [magnitudeBits_full full]
        rw [fullMantissa_eq] at short ⊢
        omega

theorem toBits_div {x : Binary64} (representable : x.Representable) :
    x.toBits / 2 ^ 63 = if x.isNegative then 1 else 0 := by
  have below := magnitudeBits_lt representable
  rw [toBits, Nat.pow_eq]
  split <;> omega

theorem toBits_lt {x : Binary64} (representable : x.Representable) : x.toBits < 2 ^ 64 := by
  have sign := toBits_div representable
  split at sign <;> omega

theorem toBits_fraction {x : Binary64} :
    x.toBits % 2 ^ 52 = x.magnitudeBits % 2 ^ 52 := by
  rw [toBits, Nat.pow_eq]
  split <;> omega

theorem toBits_exponent {x : Binary64} (representable : x.Representable) :
    x.toBits / 2 ^ 52 % 2 ^ 11 = x.magnitudeBits / 2 ^ 52 := by
  have below := magnitudeBits_lt representable
  rw [toBits, Nat.pow_eq]
  split <;> omega

theorem ofBits_toBits {x : Binary64} (representable : x.Representable) : ofBits x.toBits = x := by
  have negative : (x.toBits / 2 ^ 63 == 1) = x.isNegative := by
    rw [toBits_div representable]
    cases x.isNegative <;> rfl
  rw [ofBits_eq, toBits_exponent representable, toBits_fraction, negative]
  cases x with
  | nan => rfl
  | infinite sign =>
      have exponent : (infinite sign).magnitudeBits / 2 ^ 52 = 2047 :=
        (by decide : 2047 * fullMantissa / 2 ^ 52 = 2047)
      have fraction : (infinite sign).magnitudeBits % 2 ^ 52 = 0 :=
        (by decide : 2047 * fullMantissa % 2 ^ 52 = 0)
      rw [exponent, fraction]
      rfl
  | finite sign mantissa scale =>
      obtain ⟨short, inRange, subnormal⟩ := representable
      rcases Nat.lt_or_ge mantissa fullMantissa with small | full
      · have atBottom : mantissa / 2 ^ 52 = 0 := Nat.div_eq_of_lt small
        have whole : mantissa % 2 ^ 52 = mantissa := Nat.mod_eq_of_lt small
        rw [magnitudeBits_small small, atBottom, whole, subnormal small]
        rfl
      · rw [magnitudeBits_full full]
        rw [fullMantissa_eq] at short full ⊢
        have exponent : (scale * 4503599627370496 + mantissa) / 2 ^ 52 = scale + 1 := by omega
        have fraction :
            2 ^ 52 + (scale * 4503599627370496 + mantissa) % 2 ^ 52 = mantissa := by omega
        rw [exponent, fraction, if_neg (by omega), if_neg (Nat.succ_ne_zero scale)]
        rfl

theorem unpack_pack_unpack (bits : BitVec 64) :
    UnpackedFloat.unpack .binary64
        (UnpackedFloat.pack .binary64 (UnpackedFloat.unpack .binary64 bits)) =
      UnpackedFloat.unpack .binary64 bits := by
  rw [UnpackedFloat.pack_unpack]
  split
  · next isNaN =>
      obtain ⟨top, nonzero⟩ := of_decide_eq_true isNaN
      rw [unpack_packedNaN, UnpackedFloat.unpack, if_pos top, if_neg nonzero]
  · rfl

theorem ofFloat_toFloat {x : Binary64} (representable : x.Representable) :
    ofFloat x.toFloat = x := by
  have wide : x.toBits.toUInt64.toNat = x.toBits := by
    rw [Nat.toUInt64, UInt64.toNat_ofNat', Nat.mod_eq_of_lt (toBits_lt representable)]
  calc ofFloat x.toFloat
      = ofUnpacked (UnpackedFloat.unpack .binary64 (UnpackedFloat.pack .binary64
          (UnpackedFloat.unpack .binary64 x.toBits.toUInt64.toBitVec))) := ofFloat_eq _
    _ = ofBits x.toBits := by
        rw [unpack_pack_unpack, ← ofBits_eq_ofUnpacked, UInt64.toNat_toBitVec, wide]
    _ = x := ofBits_toBits representable

theorem isFinite_toFloat {x : Binary64} (representable : x.Representable) :
    x.toFloat.isFinite = x.isFinite := by
  rw [← isFinite_ofFloat, ofFloat_toFloat representable]

theorem Representable.negate {x : Binary64} (representable : x.Representable) :
    x.negate.Representable := by
  cases x <;> exact representable

theorem representable_ofRounded {mantissa scale : Nat} (short : mantissa ≤ 2 * fullMantissa)
    (full : mantissa < fullMantissa → scale = 0) : (ofRounded mantissa scale).Representable := by
  unfold ofRounded
  split
  · split
    · refine ⟨?_, by omega, fun less => absurd less (lt_irrefl _)⟩
      decide
    · trivial
  · next noCarry =>
      split
      · next inRange => exact ⟨lt_of_le_of_ne short noCarry, inRange, full⟩
      · trivial

theorem representable_nearest (num den : Nat) : (nearest num den).Representable := by
  simp only [nearest]
  generalize num * unitsPerOne = scaled
  generalize scaleIs : (scaled / den).log2 + 1 - 53 = scale
  have quotient : scaled / (den * Nat.pow 2 scale) = scaled / den / 2 ^ scale :=
    (Nat.div_div_eq_div_mul _ _ _).symm
  have below : scaled / den < 2 ^ 53 * 2 ^ scale := by
    rw [← pow_add]
    exact Nat.lt_log2_self.trans_le (Nat.pow_le_pow_right (by decide) (by omega))
  -- The shift leaves 53 bits of the quotient, and rounding may carry into the next one.
  apply representable_ofRounded
  · calc Rounding.halfEven scaled (den * Nat.pow 2 scale)
        ≤ scaled / (den * Nat.pow 2 scale) + 1 := Rounding.halfEven_le_succ _ _
      _ ≤ 2 ^ 53 := by
          rw [quotient]
          exact Nat.div_lt_of_lt_mul (below.trans_eq (mul_comm _ _))
  · intro small
    by_contra shifted
    have above : 2 ^ 52 * 2 ^ scale ≤ scaled / den := by
      rw [← pow_add]
      apply (Nat.le_log2 _).mp
      · omega
      · intro zero
        rw [zero] at scaleIs
        simp at scaleIs
        omega
    have large : 2 ^ 52 ≤ scaled / den / 2 ^ scale :=
      (Nat.le_div_iff_mul_le (Nat.two_pow_pos scale)).mpr above
    rw [← quotient] at large
    exact absurd small (not_lt.mpr (large.trans (Rounding.div_le_halfEven _ _)))

end Binary64

namespace Decimal

open Binary64 (Representable representable_nearest)

theorem representable_zero : Representable (.finite false 0 0) := by
  refine ⟨?_, by omega, fun _ => rfl⟩
  decide

theorem representable_nearest (digits : Nat) (exponent : Int) :
    (nearest digits exponent).Representable := by
  unfold nearest
  split
  · exact representable_zero
  split
  · trivial
  split
  · exact representable_zero
  · exact Binary64.representable_nearest _ _

theorem representable_of_readWord {text : List Char} {value : Binary64}
    (read : readWord text = some value) : value.Representable := by
  simp only [readWord] at read
  split at read
  · cases read
    trivial
  · split at read
    · cases read
      trivial
    · cases read

theorem representable_of_readMagnitude {text : List Char} {value : Binary64}
    (read : readMagnitude text = some value) : value.Representable := by
  have ofParts {whole : List Char} {parts : List Char × List Char}
      (readParts : (if whole ++ parts.1 = [] then none
        else (readExponent parts.2).map fun exponent =>
          nearest (digitsValue (whole ++ parts.1)) (exponent - parts.1.length)) = some value) :
      value.Representable := by
    split at readParts
    · cases readParts
    · obtain ⟨exponent, _, rfl⟩ := Option.map_eq_some_iff.mp readParts
      exact representable_nearest _ _
  exact ofParts read

theorem representable_of_readNumber {text : List Char} {value : Binary64}
    (read : readNumber text = some value) : value.Representable := by
  simp only [readNumber, Option.map_eq_some_iff] at read
  obtain ⟨magnitude, readRest, rfl⟩ := read
  have representable : magnitude.Representable := by
    rcases Option.or_eq_some_iff.mp readRest with word | ⟨_, decimal⟩
    · exact representable_of_readWord word
    · exact representable_of_readMagnitude decimal
  split
  · exact representable.negate
  · exact representable

end Decimal

end TwoPhase
