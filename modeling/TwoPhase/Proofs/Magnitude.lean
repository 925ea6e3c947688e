import TwoPhase.Proofs.Binary64.Arithmetic
import TwoPhase.Proofs.Exact

/-!
# Absolute values above the tolerance

A number above the tolerance is above it in absolute value, too.  This is the one law of arithmetic
that makes a chosen pivot an accepted one, and binary64 has it with its infinities and without any
assumption on numbers that are not finite.
-/

namespace TwoPhase

/-- Numbers whose absolute value lies above the tolerance wherever they do. -/
class Scalar.LawfulAbs (α : Type) [Scalar α] : Prop where
  tolerance_lt_abs {value : α} : (Scalar.tolerance : α) < value →
    (Scalar.tolerance : α) < Scalar.abs value

instance : Scalar.LawfulAbs ℚ where
  tolerance_lt_abs {value} above := by
    rw [Scalar.abs_rat]
    exact above.trans_le (le_abs_self value)

namespace Binary64

open Float.Model (UnpackedFloat)

theorem pack_unpack_toModel (x : Float) : Float.Model.pack x.toModel.unpack = x.toModel := by
  have packed := UnpackedFloat.pack_unpack_of_valid x.toModel.valid
  rw [Float.Model.mk.injEq, ← UInt64.toBitVec_inj]
  exact packed

theorem abs_eq_self_of_tolerance_lt {x : Float} (above : (Scalar.tolerance : Float) < x) :
    x.abs = x := by
  obtain ⟨_, tolerance⟩ := unpack_tolerance
  rw [lt_iff_compare, tolerance] at above
  have positive : x.toModel.unpack.abs = x.toModel.unpack := by
    cases unpacked : x.toModel.unpack with
    | notANumber => rfl
    | infinity sign | zero sign | finite sign =>
        rw [unpacked] at above
        cases sign with
        | positive => rfl
        | negative => cases above
  change Float.ofModel (Float.Model.pack x.toModel.unpack.abs) = x
  rw [positive, pack_unpack_toModel]

end Binary64

instance : Scalar.LawfulAbs Float where
  tolerance_lt_abs above := by
    change _ < Float.abs _
    rwa [Binary64.abs_eq_self_of_tolerance_lt above]

end TwoPhase
