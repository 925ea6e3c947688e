import TwoPhase.Proofs.Magnitude

/-!
# Negation and rounding

Rounding to nearest even does not look at the sign, so the operations of binary64 commute with
negation.  Only a sum that cancels is `+0` on both sides, so the laws hold up to the sign of zero.

`Alike` identifies the two zeros, and a NaN with itself.
-/

namespace TwoPhase.Binary64

open Float.Model (UnpackedFloat Format)
open Float.Model.UnpackedFloat (Sign Accuracy roundWithAccuracy packComponents
  unpackExponent_packComponents unpackMantissa_packComponents unpackSign_packComponents
  unpack_packedZero)

section Unpacked

variable {spec : Format} {x y z : UnpackedFloat}

/-- The same number, a zero of either sign being the same. -/
inductive Alike : UnpackedFloat → UnpackedFloat → Prop
  | same (x : UnpackedFloat) : Alike x x
  | zero (left right : Sign) : Alike (.zero left) (.zero right)

theorem Alike.symm (alike : Alike x y) : Alike y x := by
  cases alike with
  | same => exact .same x
  | zero left right => exact .zero right left

theorem Alike.trans (first : Alike x y) (second : Alike y z) : Alike x z := by
  cases first with
  | same => exact second
  | zero left right =>
      cases second with
      | same => exact .zero left right
      | zero _ last => exact .zero left last

theorem Alike.notANumber_iff (alike : Alike x y) : x = .notANumber ↔ y = .notANumber := by
  cases alike with
  | same => rfl
  | zero left right => simp

theorem Alike.neg (alike : Alike x y) : Alike x.neg y.neg := by
  cases alike with
  | same => exact .same x.neg
  | zero left right => exact .zero _ _

theorem Alike.add_right (alike : Alike x y) (z : UnpackedFloat) :
    Alike (UnpackedFloat.add spec x z) (UnpackedFloat.add spec y z) := by
  cases alike with
  | same => exact .same _
  | zero left right =>
      cases z with
      | zero sign =>
          simp only [UnpackedFloat.add]
          split <;> split <;> exact .zero _ _
      | notANumber | infinity | finite => exact .same _

theorem Alike.add_left (alike : Alike x y) (z : UnpackedFloat) :
    Alike (UnpackedFloat.add spec z x) (UnpackedFloat.add spec z y) := by
  cases alike with
  | same => exact .same _
  | zero left right =>
      cases z with
      | zero sign =>
          simp only [UnpackedFloat.add]
          split <;> split <;> exact .zero _ _
      | notANumber | infinity | finite => exact .same _

theorem neg_neg_unpacked (x : UnpackedFloat) : x.neg.neg = x := by
  cases x with
  | notANumber => rfl
  | infinity sign | zero sign | finite sign => cases sign <;> rfl

theorem neg_beq_neg (left right : Sign) : (-left == -right) = (left == right) := by
  cases left <;> cases right <;> rfl

theorem neg_apply (sign : Sign) (magnitude : Int) :
    (-sign).apply magnitude = -sign.apply magnitude := by
  cases sign with
  | negative => exact (neg_neg magnitude).symm
  | positive => rfl

/-- A difference is the sum with the negated subtrahend. -/
theorem sub_eq_add_neg_unpacked (x y : UnpackedFloat) :
    UnpackedFloat.sub spec x y = UnpackedFloat.add spec x y.neg := by
  cases x with
  | notANumber => rfl
  | infinity | zero | finite =>
      cases y <;>
        simp [UnpackedFloat.sub, UnpackedFloat.add, UnpackedFloat.neg, neg_apply, sub_eq_add_neg]

theorem roundWithAccuracy_neg (sign : Sign) (mantissa : Nat) (exponent : Int)
    (accuracy : Accuracy) :
    roundWithAccuracy spec (-sign) mantissa exponent accuracy =
      (roundWithAccuracy spec sign mantissa exponent accuracy).neg := by
  simp only [roundWithAccuracy]
  split <;> rfl

theorem normalize_neg (mantissa exponent : Int) :
    Alike (UnpackedFloat.normalize spec (-mantissa) exponent .positive)
      (UnpackedFloat.normalize spec mantissa exponent .positive).neg := by
  rcases lt_trichotomy mantissa 0 with negative | zero | positive
  · have below : compare mantissa 0 = .lt := Int.compare_eq_lt.mpr negative
    have above : compare (-mantissa) 0 = .gt := Int.compare_eq_gt.mpr (neg_pos.mpr negative)
    simp only [UnpackedFloat.normalize, below, above]
    rw [UnpackedFloat.round, UnpackedFloat.round, ← roundWithAccuracy_neg]
    exact .same _
  · subst zero
    exact .zero _ _
  · have above : compare mantissa 0 = .gt := Int.compare_eq_gt.mpr positive
    have below : compare (-mantissa) 0 = .lt := Int.compare_eq_lt.mpr (neg_lt_zero.mpr positive)
    simp only [UnpackedFloat.normalize, below, above, neg_neg]
    rw [UnpackedFloat.round, UnpackedFloat.round, ← roundWithAccuracy_neg]
    exact .same _

/-- The sum of negated numbers is the negated sum. -/
theorem add_neg_neg (x y : UnpackedFloat) :
    Alike (UnpackedFloat.add spec x.neg y.neg) (UnpackedFloat.add spec x y).neg := by
  cases x with
  | notANumber => exact .same _
  | infinity left =>
      cases y with
      | infinity right =>
          simp only [UnpackedFloat.add, UnpackedFloat.neg, neg_beq_neg]
          split <;> exact .same _
      | notANumber | zero | finite => exact .same _
  | zero left =>
      cases y with
      | zero right =>
          simp only [UnpackedFloat.add, UnpackedFloat.neg, neg_beq_neg]
          split <;> exact .zero _ _
      | notANumber | infinity | finite => exact .same _
  | finite left leftMantissa leftExponent =>
      cases y with
      | finite right rightMantissa rightExponent =>
          simp only [UnpackedFloat.add, UnpackedFloat.neg, neg_apply, ← neg_add]
          exact normalize_neg _ _
      | notANumber | infinity | zero => exact .same _

section Difference

variable {x' y' : UnpackedFloat}

theorem Alike.sub (left : Alike x x') (right : Alike y y') :
    Alike (UnpackedFloat.sub spec x y) (UnpackedFloat.sub spec x' y') := by
  rw [sub_eq_add_neg_unpacked, sub_eq_add_neg_unpacked]
  exact (left.add_right _).trans (right.neg.add_left _)

theorem neg_sub_neg_unpacked (x y : UnpackedFloat) :
    Alike (UnpackedFloat.sub spec x.neg y.neg) (UnpackedFloat.sub spec x y).neg := by
  rw [sub_eq_add_neg_unpacked, sub_eq_add_neg_unpacked]
  exact add_neg_neg x y.neg

theorem zero_sub_neg_unpacked (sign : Sign) (x : UnpackedFloat) :
    Alike (UnpackedFloat.sub spec (.zero sign) x.neg) x := by
  rw [sub_eq_add_neg_unpacked, neg_neg_unpacked]
  cases x with
  | zero =>
      simp only [UnpackedFloat.add]
      split <;> exact .zero _ _
  | notANumber | infinity | finite => exact .same _

end Difference

theorem unpack_packComponents_neg (sign : Sign) (exponent : BitVec spec.exponentBits)
    (mantissa : BitVec spec.mantissaBitsWithoutImplicit) :
    UnpackedFloat.unpack spec (packComponents spec (-sign) exponent mantissa) =
      (UnpackedFloat.unpack spec (packComponents spec sign exponent mantissa)).neg := by
  unfold UnpackedFloat.unpack
  simp only [unpackExponent_packComponents, unpackMantissa_packComponents,
    unpackSign_packComponents, Sign.ofBitVec_toBitVec]
  split
  · split <;> rfl
  · split
    · split <;> rfl
    · rfl

theorem unpack_pack_neg (x : UnpackedFloat) :
    UnpackedFloat.unpack spec (UnpackedFloat.pack spec x.neg) =
      (UnpackedFloat.unpack spec (UnpackedFloat.pack spec x)).neg := by
  cases x with
  | notANumber => simp [UnpackedFloat.neg, UnpackedFloat.pack]
  | infinity | zero => exact unpack_packComponents_neg _ _ _
  | finite sign mantissa exponent =>
      simp only [UnpackedFloat.neg, UnpackedFloat.pack]
      split
      · exact unpack_packComponents_neg _ _ _
      · split <;> exact unpack_packComponents_neg _ _ _

theorem Alike.unpack_pack (alike : Alike x y) :
    Alike (UnpackedFloat.unpack spec (UnpackedFloat.pack spec x))
      (UnpackedFloat.unpack spec (UnpackedFloat.pack spec y)) := by
  cases alike with
  | same => exact .same _
  | zero left right =>
      simp only [UnpackedFloat.pack, unpack_packedZero]
      exact .zero left right

section Known

theorem roundWithAccuracy_ne_notANumber (sign : Sign) (mantissa : Nat) (exponent : Int)
    (accuracy : Accuracy) :
    roundWithAccuracy spec sign mantissa exponent accuracy ≠ .notANumber := by
  simp only [roundWithAccuracy]
  split <;> simp

/-- Adding a finite number to one that is not a NaN does not give a NaN. -/
theorem add_ne_notANumber (known : x ≠ .notANumber) (finite : y.isFinite = true) :
    UnpackedFloat.add spec x y ≠ .notANumber := by
  cases x with
  | notANumber => exact absurd rfl known
  | infinity left => cases y <;> simp [UnpackedFloat.isFinite, UnpackedFloat.add] at finite ⊢
  | zero left =>
      cases y with
      | zero right =>
          simp only [UnpackedFloat.add]
          split <;> simp
      | notANumber | infinity => simp [UnpackedFloat.isFinite] at finite
      | finite => simp [UnpackedFloat.add]
  | finite left leftMantissa leftExponent =>
      cases y with
      | zero right => simp [UnpackedFloat.add]
      | notANumber | infinity => simp [UnpackedFloat.isFinite] at finite
      | finite right rightMantissa rightExponent =>
          simp only [UnpackedFloat.add, UnpackedFloat.normalize, UnpackedFloat.round]
          split
          · exact roundWithAccuracy_ne_notANumber _ _ _ _
          · simp
          · exact roundWithAccuracy_ne_notANumber _ _ _ _

theorem unpack_packComponents_ne_notANumber (sign : Sign) {exponent : BitVec spec.exponentBits}
    {mantissa : BitVec spec.mantissaBitsWithoutImplicit}
    (infinite : exponent = -1#_ → mantissa = 0#_) :
    UnpackedFloat.unpack spec (packComponents spec sign exponent mantissa) ≠ .notANumber := by
  unfold UnpackedFloat.unpack
  simp only [unpackExponent_packComponents, unpackMantissa_packComponents]
  split
  · next top => simp [infinite top]
  · split
    · split <;> simp
    · simp

theorem unpack_pack_ne_notANumber (known : x ≠ .notANumber) :
    UnpackedFloat.unpack spec (UnpackedFloat.pack spec x) ≠ .notANumber := by
  cases x with
  | notANumber => exact absurd rfl known
  | infinity sign => exact unpack_packComponents_ne_notANumber sign fun _ => rfl
  | zero sign => exact unpack_packComponents_ne_notANumber sign fun _ => rfl
  | finite sign mantissa exponent =>
      simp only [UnpackedFloat.pack]
      split
      · exact unpack_packComponents_ne_notANumber sign fun _ => rfl
      next inRange =>
      split
      · apply unpack_packComponents_ne_notANumber
        intro top
        have values := congrArg BitVec.toNat top
        rw [BitVec.neg_one_eq_allOnes, BitVec.toNat_allOnes, BitVec.toNat_ofNat,
          Nat.mod_eq_of_lt (by omega)] at values
        omega
      · apply unpack_packComponents_ne_notANumber
        intro top
        exact absurd (BitVec.zero_eq_neg_one_iff.mp top) spec.he.ne'

end Known

end Unpacked

section Float

variable {x y : Float}

theorem unpack_neg (x : Float) : (-x).toModel.unpack = x.toModel.unpack.neg := by
  calc (-x).toModel.unpack
      = (Float.Model.pack x.toModel.unpack.neg).unpack := rfl
    _ = (Float.Model.pack x.toModel.unpack).unpack.neg := unpack_pack_neg _
    _ = x.toModel.unpack.neg := by rw [pack_unpack_toModel]

theorem isNaN_eq_false_iff : x.isNaN = false ↔ x.toModel.unpack ≠ .notANumber := by
  change x.toModel.unpack.isNaN = false ↔ _
  rw [← Bool.not_eq_true, UnpackedFloat.isNaN_iff]

theorem isNaN_of_isFinite (finite : x.isFinite = true) : x.isNaN = false := by
  rw [isNaN_eq_false_iff]
  intro unknown
  change x.toModel.unpack.isFinite = true at finite
  rw [unknown] at finite
  cases finite

/-- Adding a finite number to one that is not a NaN does not give a NaN, be the sum infinite. -/
theorem isNaN_add (known : x.isNaN = false) (finite : y.isFinite = true) :
    (x + y).isNaN = false := by
  rw [isNaN_eq_false_iff] at known ⊢
  exact unpack_pack_ne_notANumber (add_ne_notANumber known finite)

/-- The second number is the negated first, a zero of either sign being the same. -/
def Mirrored (x y : Float) : Prop :=
  Alike y.toModel.unpack x.toModel.unpack.neg

theorem mirrored_neg (x : Float) : Mirrored x (-x) := by
  rw [Mirrored, unpack_neg]
  exact .same _

theorem mirrored_zero : Mirrored (Zero.zero : Float) (Zero.zero : Float) :=
  .zero _ _

/-- Adding a number on one side and subtracting it on the other keeps the sides mirrored. -/
theorem Mirrored.add_sub (mirrored : Mirrored x y) (z : Float) : Mirrored (x + z) (y - z) := by
  have sums : Alike (UnpackedFloat.sub .binary64 y.toModel.unpack z.toModel.unpack)
      (UnpackedFloat.add .binary64 x.toModel.unpack z.toModel.unpack).neg := by
    rw [sub_eq_add_neg_unpacked]
    exact (mirrored.add_right _).trans (add_neg_neg _ _)
  have packed := @Alike.unpack_pack .binary64 _ _ sums
  rw [unpack_pack_neg] at packed
  exact packed

/-- Mirrored numbers compare as negations of each other, unless they are NaN. -/
theorem Mirrored.beq_neg (mirrored : Mirrored x y) (known : x.isNaN = false) :
    (y == -x) = true := by
  change y.toModel.unpack.beq (-x).toModel.unpack = true
  rw [isNaN_eq_false_iff] at known
  have knownNeg : x.toModel.unpack.neg ≠ .notANumber := by
    cases unpacked : x.toModel.unpack <;> simp [unpacked, UnpackedFloat.neg] at known ⊢
  rw [unpack_neg, UnpackedFloat.beq_iff_ne_notANumber_and_eq]
  unfold Mirrored at mirrored
  generalize y.toModel.unpack = right, x.toModel.unpack.neg = left at mirrored knownNeg
  cases mirrored with
  | same => exact ⟨knownNeg, knownNeg, .inl rfl⟩
  | zero right left => cases right <;> cases left <;> simp

end Float

end TwoPhase.Binary64
