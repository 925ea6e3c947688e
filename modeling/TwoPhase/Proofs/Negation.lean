import TwoPhase.Proofs.Binary64.Product

/-!
# Arithmetic that commutes with negation

Where negating the operands of a product or a difference negates the result, two computations that
start from opposite numbers stay opposite, however much either of them rounds.  Binary64 is such an
arithmetic if a zero is the same as the zero of the other sign, and a NaN the same as any other.
-/

namespace TwoPhase

namespace Scalar

variable {α : Type} [Scalar α]

/-- The same number, the zeros of both signs being one number and every NaN being one as well. -/
def Agree (x y : α) : Prop :=
  (x == y) = true ∨ (x == x) = false ∧ (y == y) = false

/-- An arithmetic whose operations commute with negation, all of it up to agreement.  Nothing is
asked of division but that the inverse of `-1` is not zero. -/
class LawfulNeg (α : Type) [Scalar α] : Prop extends PartialEquivBEq α where
  neg_congr {x y : α} : Agree x y → Agree (-x) (-y)
  sub_congr {x x' y y' : α} : Agree x x' → Agree y y' → Agree (x - y) (x' - y')
  mul_congr {x x' y y' : α} : Agree x x' → Agree y y' → Agree (x * y) (x' * y')
  neg_zero : (-(0 : α) == 0) = true
  neg_neg (x : α) : Agree (-(-x)) x
  one_mul (x : α) : Agree (1 * x) x
  one_div_neg_one_ne_zero : ((1 / -1 : α) == 0) = false
  zero_sub_neg (x : α) : Agree (0 - -x) x
  neg_mul (x y : α) : Agree (-x * y) (-(x * y))
  mul_neg (x y : α) : Agree (x * -y) (-(x * y))
  neg_sub_neg (x y : α) : Agree (-x - -y) (-(x - y))

namespace Agree

variable {x y z : α}

theorem refl (x : α) : Agree x x := by
  cases reflexive : (x == x) with
  | true => exact .inl reflexive
  | false => exact .inr ⟨reflexive, reflexive⟩

theorem of_eq (equal : x = y) : Agree x y :=
  equal ▸ refl x

section Equivalence

variable [PartialEquivBEq α]

theorem beq_self_left (equal : (x == y) = true) : (x == x) = true :=
  PartialEquivBEq.trans equal (PartialEquivBEq.symm equal)

theorem symm (agree : Agree x y) : Agree y x :=
  agree.imp PartialEquivBEq.symm And.symm

theorem trans (first : Agree x y) (second : Agree y z) : Agree x z := by
  rcases first with equal | ⟨unknown, alsoUnknown⟩
  · rcases second with nextEqual | ⟨unknown, _⟩
    · exact .inl (PartialEquivBEq.trans equal nextEqual)
    · rw [beq_self_left (PartialEquivBEq.symm equal)] at unknown
      cases unknown
  · rcases second with equal | ⟨_, lastUnknown⟩
    · rw [beq_self_left equal] at alsoUnknown
      cases alsoUnknown
    · exact .inr ⟨unknown, lastUnknown⟩

instance : Trans (@Agree α _) (@Agree α _) (@Agree α _) where
  trans := trans

theorem beq_of_beq (agree : Agree x y) (equal : (x == z) = true) : (y == z) = true := by
  rcases agree with same | ⟨unknown, _⟩
  · exact PartialEquivBEq.trans (PartialEquivBEq.symm same) equal
  · rw [beq_self_left equal] at unknown
    cases unknown

theorem beq_eq (agree : Agree x y) (z : α) : (x == z) = (y == z) :=
  Bool.eq_iff_iff.mpr ⟨beq_of_beq agree, beq_of_beq agree.symm⟩

end Equivalence

section Negation

variable [LawfulNeg α]

theorem zero_sub (x : α) : Agree (0 - x) (-x) :=
  (LawfulNeg.sub_congr (.refl 0) (LawfulNeg.neg_neg x).symm).trans (LawfulNeg.zero_sub_neg (-x))

theorem neg_beq_zero_of_beq_zero (isZero : (x == 0) = true) : (-x == 0) = true := by
  rcases LawfulNeg.neg_congr (.inl isZero) with opposite | ⟨_, unknown⟩
  · exact PartialEquivBEq.trans opposite LawfulNeg.neg_zero
  · rw [beq_self_left LawfulNeg.neg_zero] at unknown
    cases unknown

/-- A test for zero does not look at the sign. -/
theorem neg_beq_zero (x : α) : (-x == 0) = (x == 0) := by
  apply Bool.eq_iff_iff.mpr
  refine ⟨fun opposite => ?_, neg_beq_zero_of_beq_zero⟩
  exact (LawfulNeg.neg_neg x).beq_of_beq (neg_beq_zero_of_beq_zero opposite)

end Negation

end Agree

end Scalar

theorem Scalar.agree_rat {x y : ℚ} : Scalar.Agree x y ↔ x = y := by
  have beq (x y : ℚ) : (x == y) = decide (x = y) := rfl
  simp [Scalar.Agree, beq]

instance : Scalar.LawfulNeg ℚ where
  symm equal := beq_iff_eq.mpr (beq_iff_eq.mp equal).symm
  trans first second := beq_iff_eq.mpr ((beq_iff_eq.mp first).trans (beq_iff_eq.mp second))
  neg_congr agree := .of_eq (by rw [Scalar.agree_rat.mp agree])
  sub_congr left right := .of_eq (by rw [Scalar.agree_rat.mp left, Scalar.agree_rat.mp right])
  mul_congr left right := .of_eq (by rw [Scalar.agree_rat.mp left, Scalar.agree_rat.mp right])
  neg_zero := rfl
  neg_neg x := .of_eq (neg_neg x)
  one_mul x := .of_eq (one_mul x)
  one_div_neg_one_ne_zero := by decide +kernel
  zero_sub_neg x := .of_eq (by ring)
  neg_mul x y := .of_eq (neg_mul x y)
  mul_neg x y := .of_eq (mul_neg x y)
  neg_sub_neg x y := .of_eq (by ring)

namespace Binary64

open Float.Model (UnpackedFloat)

variable {x y : Float}

theorem beq_iff_alike : (x == y) = true ↔
    x.toModel.unpack ≠ .notANumber ∧ Alike x.toModel.unpack y.toModel.unpack := by
  rw [beq_iff_unpack]
  generalize x.toModel.unpack = left, y.toModel.unpack = right
  constructor
  · rintro ⟨known, _, rfl | ⟨rfl, rfl⟩ | ⟨rfl, rfl⟩⟩
    · exact ⟨known, .same _⟩
    · exact ⟨known, .zero _ _⟩
    · exact ⟨known, .zero _ _⟩
  · rintro ⟨known, alike⟩
    cases alike with
    | same => exact ⟨known, known, .inl rfl⟩
    | zero left right => cases left <;> cases right <;> simp

theorem beq_self_eq_false_iff : (x == x) = false ↔ x.toModel.unpack = .notANumber := by
  rw [← Bool.not_eq_true, beq_iff_alike]
  simp [Alike.same]

theorem agree_iff_alike : Scalar.Agree x y ↔ Alike x.toModel.unpack y.toModel.unpack := by
  unfold Scalar.Agree
  rw [beq_self_eq_false_iff, beq_self_eq_false_iff, beq_iff_alike]
  constructor
  · rintro (⟨_, alike⟩ | ⟨left, right⟩)
    · exact alike
    · rw [left, right]
      exact .same _
  · intro alike
    by_cases unknown : x.toModel.unpack = .notANumber
    · exact .inr ⟨unknown, alike.notANumber_iff.mp unknown⟩
    · exact .inl ⟨unknown, alike⟩

/-- Packing the results of alike computations gives numbers that agree. -/
theorem agree_of_alike {left right : UnpackedFloat} (alike : Alike left right)
    (isLeft : x.toModel.unpack = (Float.Model.pack left).unpack)
    (isRight : y.toModel.unpack = (Float.Model.pack right).unpack) : Scalar.Agree x y := by
  rw [agree_iff_alike, isLeft, isRight]
  exact alike.unpack_pack

theorem unpack_sub (x y : Float) : (x - y).toModel.unpack =
    (Float.Model.pack (UnpackedFloat.sub .binary64 x.toModel.unpack y.toModel.unpack)).unpack :=
  rfl

theorem agree_zero_sub_neg (x : Float) : Scalar.Agree (0.0 - -x) x := by
  apply agree_of_alike (zero_sub_neg_unpacked .positive x.toModel.unpack)
  · rw [unpack_sub, unpack_neg, unpack_zero]
  · rw [pack_unpack_toModel]

theorem agree_neg_sub_neg (x y : Float) : Scalar.Agree (-x - -y) (-(x - y)) := by
  apply agree_of_alike (neg_sub_neg_unpacked x.toModel.unpack y.toModel.unpack)
  · rw [unpack_sub, unpack_neg, unpack_neg]
  · rw [unpack_neg, unpack_sub]
    exact (unpack_pack_neg _).symm

end Binary64

open Binary64 in
instance : Scalar.LawfulNeg Float where
  symm equal := by
    obtain ⟨known, alike⟩ := beq_iff_alike.mp equal
    exact beq_iff_alike.mpr ⟨mt alike.notANumber_iff.mpr known, alike.symm⟩
  trans first second := by
    obtain ⟨known, alike⟩ := beq_iff_alike.mp first
    obtain ⟨_, nextAlike⟩ := beq_iff_alike.mp second
    exact beq_iff_alike.mpr ⟨known, alike.trans nextAlike⟩
  neg_congr agree := agree_of_alike (agree_iff_alike.mp agree).neg rfl rfl
  sub_congr left right :=
    agree_of_alike ((agree_iff_alike.mp left).sub (agree_iff_alike.mp right)) rfl rfl
  mul_congr left right :=
    agree_of_alike ((agree_iff_alike.mp left).mul (agree_iff_alike.mp right)) rfl rfl
  neg_zero := by decide +kernel
  neg_neg x := .of_eq (neg_neg_float x)
  one_mul x := .of_eq (one_mul_float x)
  one_div_neg_one_ne_zero := by decide +kernel
  zero_sub_neg := agree_zero_sub_neg
  neg_mul x y := .of_eq (neg_mul_float x y)
  mul_neg x y := .of_eq (mul_neg_float x y)
  neg_sub_neg := agree_neg_sub_neg

end TwoPhase
