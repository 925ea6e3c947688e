import TwoPhase.Scalar

/-!
Exact arithmetic: the rationals as scalars, every one of them finite.
-/

namespace TwoPhase

/-- Exact rationals, with the tolerances read as exact decimals. -/
instance : Scalar Rat where
  zero := 0
  one := 1
  toAdd := Rat.instAdd
  toSub := Rat.instSub
  toMul := Rat.instMul
  toDiv := Rat.instDiv
  toNeg := Rat.instNeg
  toLT := Rat.instLT
  toLE := Rat.instLE
  beq x y := decide (x = y)
  decidableLT := Rat.instDecidableLt
  decidableLE := Rat.instDecidableLe
  abs := Rat.abs
  isFinite _ := true
  emptySum := 0
  tolerance := 1e-9
  residualTolerance := 1e-6

end TwoPhase
