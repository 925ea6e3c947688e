import TwoPhase.Binary64

/-!
The shortest decimal that reads back as a given binary64 number.

A decimal reads back when it lies in the interval of reals that round to the number; the ends
belong to it when the mantissa is even.  Decimal grids are tried from coarse to fine, and on each
grid only the two neighbours of the number can lie in the interval.
-/

namespace TwoPhase

/-- The decimal `digits * 10 ^ exponent`. -/
structure Decimal where
  digits : Nat
  exponent : Int

namespace Decimal

/-- The exponent `e` with `10 ^ (e - 1) ≤ v < 10 ^ e` for `v > 0`, a number of units.  The number
times `10 ^ 350` is above one, and cutting off its fraction keeps its count of digits. -/
def magnitude (units : Nat) : Int :=
  ((units * Nat.pow 10 350 / Binary64.unitsPerOne).repr.length : Int) - 350

/-- Numerator and denominator of `units / 10 ^ exponent`, in ones. -/
def onGrid (units : Nat) (exponent : Int) : Nat × Nat :=
  (units * Nat.pow 10 (-exponent).toNat, Binary64.unitsPerOne * Nat.pow 10 exponent.toNat)

/-- The neighbour on the grid `10 ^ exponent` that reads back as `mantissa * 2 ^ scale` units: the
nearer one if both do, the upper one on a tie. -/
def neighbour? (mantissa scale : Nat) (exponent : Int) : Option Decimal :=
  let (value, one) := onGrid (4 * Binary64.units mantissa scale) exponent
  let one := 4 * one
  let (above, _) := onGrid (2 * Nat.pow 2 scale) exponent
  let below := if mantissa = Binary64.fullMantissa ∧ 0 < scale then above / 2 else above
  let lower := value / one
  let toLower := value - lower * one
  let toUpper := (lower + 1) * one - value
  let inside (distance reach : Nat) : Bool :=
    if mantissa % 2 = 0 then distance ≤ reach else distance < reach
  match inside toLower below, inside toUpper above with
  | true, true => some ⟨if toLower < toUpper then lower else lower + 1, exponent⟩
  | true, false => some ⟨lower, exponent⟩
  | false, true => some ⟨lower + 1, exponent⟩
  | false, false => none

/-- The first grid with a neighbour that reads back, from `10 ^ exponent` on down. -/
def search (mantissa scale : Nat) : Nat → Int → Decimal
  | 0, exponent =>
      let (value, one) := onGrid (Binary64.units mantissa scale) exponent
      ⟨value / one, exponent⟩
  | grids + 1, exponent =>
      match neighbour? mantissa scale exponent with
      | some decimal => decimal
      | none => search mantissa scale grids (exponent - 1)

/-- The decimal of fewest digits that reads back as `mantissa * 2 ^ scale` units, for a positive
mantissa.  Seventeen digits are enough for every binary64 number. -/
def shortest (mantissa scale : Nat) : Decimal :=
  search mantissa scale 18 (magnitude (Binary64.units mantissa scale))

end Decimal

end TwoPhase
