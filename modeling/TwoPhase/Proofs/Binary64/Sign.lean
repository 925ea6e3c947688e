import TwoPhase.Proofs.Binary64.Negation

/-!
# Sign and absolute value

A finite number that is not zero is its absolute value or the negation of it, and its sign tells
which.  So the sign and the absolute value determine the number.
-/

namespace TwoPhase.Binary64

open Float.Model (UnpackedFloat)
open Float.Model.UnpackedFloat (Sign)

variable {x y : Float}

theorem unpack_zero : (0.0 : Float).toModel.unpack = .zero .positive :=
  rfl

theorem eq_of_unpack_eq (equal : x.toModel.unpack = y.toModel.unpack) : x = y := by
  change Float.ofModel x.toModel = Float.ofModel y.toModel
  rw [← pack_unpack_toModel x, ← pack_unpack_toModel y, equal]

theorem neg_neg_float (x : Float) : -(-x) = x := by
  apply eq_of_unpack_eq
  rw [unpack_neg, unpack_neg, neg_neg_unpacked]

theorem neg_left_inj_float : -x = -y ↔ x = y :=
  ⟨fun equal => by rw [← neg_neg_float x, equal, neg_neg_float], congrArg _⟩

theorem beq_iff_unpack : (x == y) = true ↔
    x.toModel.unpack ≠ .notANumber ∧ y.toModel.unpack ≠ .notANumber ∧
      (x.toModel.unpack = y.toModel.unpack ∨
        x.toModel.unpack = .zero .positive ∧ y.toModel.unpack = .zero .negative ∨
        x.toModel.unpack = .zero .negative ∧ y.toModel.unpack = .zero .positive) :=
  UnpackedFloat.beq_iff_ne_notANumber_and_eq _ _

theorem beq_self_of_isFinite (finite : x.isFinite = true) : (x == x) = true := by
  have known := isNaN_eq_false_iff.mp (isNaN_of_isFinite finite)
  exact beq_iff_unpack.mpr ⟨known, known, .inl rfl⟩

theorem beq_zero_iff : (x == 0.0) = true ↔ ∃ sign, x.toModel.unpack = .zero sign := by
  rw [beq_iff_unpack, unpack_zero]
  constructor
  · rintro ⟨_, _, positive | ⟨_, wrong⟩ | ⟨negative, _⟩⟩
    · exact ⟨_, positive⟩
    · cases wrong
    · exact ⟨_, negative⟩
  · rintro ⟨sign | sign, isZero⟩ <;> simp [isZero]

/-- Zeros are equal numbers whatever their signs. -/
theorem beq_of_beq_zero (left : (x == 0.0) = true) (right : (y == 0.0) = true) :
    (x == y) = true := by
  obtain ⟨leftSign, isLeft⟩ := beq_zero_iff.mp left
  obtain ⟨rightSign, isRight⟩ := beq_zero_iff.mp right
  rw [beq_iff_unpack, isLeft, isRight]
  cases leftSign <;> cases rightSign <;> simp

theorem exists_unpack_eq_finite (finite : x.isFinite = true) (nonzero : (x == 0.0) = false) :
    ∃ sign mantissa exponent positive,
      x.toModel.unpack = .finite sign mantissa exponent positive := by
  change x.toModel.unpack.isFinite = true at finite
  rw [← Bool.not_eq_true, beq_zero_iff] at nonzero
  cases unpacked : x.toModel.unpack with
  | notANumber | infinity =>
      rw [unpacked] at finite
      cases finite
  | zero sign => exact absurd ⟨sign, unpacked⟩ nonzero
  | finite sign mantissa exponent positive => exact ⟨_, _, _, _, rfl⟩

section Unpacked

variable {sign : Sign} {mantissa : Nat} {exponent : Int} {positive : 0 < mantissa}

theorem zero_lt_iff_positive
    (unpacked : x.toModel.unpack = .finite sign mantissa exponent positive) :
    0.0 < x ↔ sign = .positive := by
  rw [lt_iff_compare, unpacked, unpack_zero]
  cases sign <;> simp [UnpackedFloat.compare]

theorem zero_le_iff_positive
    (unpacked : x.toModel.unpack = .finite sign mantissa exponent positive) :
    0.0 ≤ x ↔ sign = .positive := by
  change decide ((0.0 : Float).toModel ≤ x.toModel) = true ↔ _
  rw [decide_eq_true_eq]
  change UnpackedFloat.le _ _ = true ↔ _
  rw [UnpackedFloat.le, unpacked, unpack_zero]
  cases sign <;> simp [UnpackedFloat.compare]

end Unpacked

/-- Above zero and not below zero are the same for a number that is not zero. -/
theorem zero_lt_iff_zero_le (finite : x.isFinite = true) (nonzero : (x == 0.0) = false) :
    0.0 < x ↔ 0.0 ≤ x := by
  obtain ⟨_, _, _, _, unpacked⟩ := exists_unpack_eq_finite finite nonzero
  rw [zero_lt_iff_positive unpacked, zero_le_iff_positive unpacked]

theorem abs_eq_ite (finite : x.isFinite = true) (nonzero : (x == 0.0) = false) :
    x.abs = if 0.0 ≤ x then x else -x := by
  obtain ⟨sign, _, _, _, unpacked⟩ := exists_unpack_eq_finite finite nonzero
  have nonneg := zero_le_iff_positive unpacked
  change Float.ofModel (Float.Model.pack x.toModel.unpack.abs) = _
  cases sign with
  | positive =>
      rw [if_pos (nonneg.mpr rfl), unpacked, UnpackedFloat.abs, ← unpacked, pack_unpack_toModel]
  | negative =>
      rw [if_neg (mt nonneg.mp nofun), unpacked]
      change _ = Float.ofModel (Float.Model.pack x.toModel.unpack.neg)
      rw [unpacked]
      rfl

theorem isFinite_neg (x : Float) : (-x).isFinite = x.isFinite := by
  change (-x).toModel.unpack.isFinite = x.toModel.unpack.isFinite
  rw [unpack_neg]
  cases x.toModel.unpack <;> rfl

theorem isFinite_abs (finite : x.isFinite = true) (nonzero : (x == 0.0) = false) :
    x.abs.isFinite = true := by
  rw [abs_eq_ite finite nonzero]
  split
  · exact finite
  · rwa [isFinite_neg]

/-- The sign and the absolute value determine a number that is not zero. -/
theorem eq_of_abs_eq (finite : x.isFinite = true) (nonzero : (x == 0.0) = false)
    (finiteOther : y.isFinite = true) (nonzeroOther : (y == 0.0) = false)
    (sign : 0.0 ≤ x ↔ 0.0 ≤ y) (equal : x.abs = y.abs) : x = y := by
  rw [abs_eq_ite finite nonzero, abs_eq_ite finiteOther nonzeroOther] at equal
  by_cases above : 0.0 ≤ x
  · rwa [if_pos above, if_pos (sign.mp above)] at equal
  · rw [if_neg above, if_neg (mt sign.mpr above)] at equal
    exact neg_left_inj_float.mp equal

end TwoPhase.Binary64
