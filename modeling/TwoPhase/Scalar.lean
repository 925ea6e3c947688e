/-!
The numbers a linear program is solved over.

`Scalar` lists what the simplex method asks of its numbers: arithmetic, comparisons and the two
tolerances.  It states no law, so the same definitions run over binary64, where comparisons with a
NaN all fail, and over exact rationals.
-/

namespace TwoPhase

/-- Numbers with the arithmetic, the comparisons and the tolerances of the simplex method. -/
class Scalar (α : Type) extends
    Zero α, One α, Add α, Sub α, Mul α, Div α, Neg α, LT α, LE α, BEq α where
  decidableLT : DecidableLT α
  decidableLE : DecidableLE α
  abs : α → α
  /-- Whether the value may stand in a problem. -/
  isFinite : α → Bool
  /-- The value of an empty sum, from which every sum starts. -/
  emptySum : α
  /-- Values closer to zero than this are taken for zero by the selection rules. -/
  tolerance : α
  /-- The residual, relative to `1 + |rhs|`, that a satisfied constraint may leave. -/
  residualTolerance : α

attribute [reducible, instance] Scalar.decidableLT Scalar.decidableLE

namespace Scalar

/-- Sum from left to right. -/
def sum {α : Type} [Scalar α] (values : List α) : α :=
  values.foldl (fun total value => total + value) emptySum

theorem sum_nil {α : Type} [Scalar α] : sum ([] : List α) = emptySum :=
  rfl

theorem sum_append_singleton {α : Type} [Scalar α] (values : List α) (value : α) :
    sum (values ++ [value]) = sum values + value := by
  simp [sum]

end Scalar

/-- Binary64.  An empty sum is `-0`, the neutral element of binary64 addition. -/
instance : Scalar Float where
  zero := 0.0
  one := 1.0
  toAdd := instAddFloat
  toSub := instSubFloat
  toMul := instMulFloat
  toDiv := instDivFloat
  toNeg := instNegFloat
  toLT := instLTFloat
  toLE := instLEFloat
  toBEq := instBEqFloat
  decidableLT := Float.decLt
  decidableLE := Float.decLe
  abs := Float.abs
  isFinite := Float.isFinite
  emptySum := -0.0
  tolerance := 1e-9
  residualTolerance := 1e-6

end TwoPhase
