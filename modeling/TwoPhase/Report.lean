import TwoPhase.Decimal.Layout
import TwoPhase.Solver

/-!
The result file: a status line and, for an optimal problem, the objective to three decimals.
-/

namespace TwoPhase.Report

/-- Three decimals without the zeros at their end, but at least the first. -/
def decimalsText (thousandths : Nat) : String :=
  let first := thousandths / 100
  let second := thousandths / 10 % 10
  let third := thousandths % 10
  if third ≠ 0 then s!"{first}{second}{third}"
  else if second ≠ 0 then s!"{first}{second}"
  else s!"{first}"

/-- Thousandths that were rounded up to a full one go over to the whole part. -/
def carry (whole thousandths : Nat) : Nat × Nat :=
  if thousandths < 1000 then (whole, thousandths) else (whole + 1, 0)

/-- The whole part and the thousandths of a number of units.  The fraction times a thousand is
rounded to binary64 before it is rounded to a whole number, a half away from zero. -/
def split (units : Nat) : Nat × Nat :=
  let scaled := Rounding.toWidth 53 (units % Binary64.unitsPerOne * 1000)
  carry (units / Binary64.unitsPerOne) (Rounding.halfUp scaled Binary64.unitsPerOne)

/-- A whole part and thousandths; no minus sign in front of zero. -/
def partsText (negative : Bool) (parts : Nat × Nat) : String :=
  Decimal.signText (negative && (decide (parts.1 ≠ 0) || decide (parts.2 ≠ 0))) ++
    parts.1.repr ++ "." ++ decimalsText parts.2

/-- A value to at most three decimals and at least one. -/
def format : Binary64 → String
  | .nan => "NaN.0"
  | .infinite negative => Decimal.signText negative ++ "inf.0"
  | .finite negative mantissa scale => partsText negative (split (Binary64.units mantissa scale))

def formatValue (x : Float) : String :=
  format (Binary64.ofFloat x)

/-- The content of the result file, none for a capped run. -/
def render : Outcome Float → Option String
  | .optimal solution => some ("otima\n" ++ formatValue solution.objective ++ "\n")
  | .infeasible => some "inviavel\n"
  | .unbounded => some "ilimitada\n"
  | .capped _ => none

end TwoPhase.Report
