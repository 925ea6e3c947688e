import TwoPhase.Decimal.Layout
import TwoPhase.Tableau.Basic

/-!
Pivots: a basic and a nonbasic variable change places.

`exchange` computes the new tableau from the old one, and `pivot` refuses an exchange at a row or a
column that is not there or at an entry that is too small.
-/

namespace TwoPhase

inductive PivotRefusal (α : Type) where
  | rowOutOfRange (row : Nat)
  | columnOutOfRange (column : Nat)
  /-- The entry is within the tolerance of zero, or is no number. -/
  | nearZero (entry : α) (row column : Nat)
deriving DecidableEq

def PivotRefusal.message : PivotRefusal Float → String
  | .rowOutOfRange row => s!"pivot row {row} out of range"
  | .columnOutOfRange column => s!"pivot column {column} out of range"
  | .nearZero entry row column =>
      "pivot on near-zero entry " ++ Decimal.plain entry ++ s!" at ({row}, {column})"

namespace Tableau

variable {α : Type} {n m : Nat} [Scalar α]

/-- The pivot row divided by the pivot; at the pivot's own place stands its inverse. -/
def scaledRow (row : Vector α (m + 2)) (s : Fin (m + 2)) (inverse : α) : Vector α (m + 2) :=
  Vector.ofFn fun j => if j = s then inverse else row.get j * inverse

/-- Another row after the pivot.  A row with nothing in the pivot column keeps its other entries
as they are. -/
def clearedRow (pivotRow row : Vector α (m + 2)) (s : Fin (m + 2)) (inverse : α) :
    Vector α (m + 2) :=
  let factor := row.get s * inverse
  let skip := factor == 0
  Vector.ofFn fun j =>
    if j = s then row.get j * -inverse
    else if skip then row.get j
    else row.get j - pivotRow.get j * factor

/-- Exchange the basic variable at row `r` with the nonbasic variable at column `s`. -/
def exchange (t : Tableau α n m) (r : Fin n) (s : Fin (m + 1)) : Tableau α n m :=
  let inverse := 1 / t.entry (basicRow r) (nonbasicColumn s)
  let pivotRow := t.row (basicRow r)
  { entries := Vector.ofFn fun i =>
      if i = basicRow r then scaledRow pivotRow (nonbasicColumn s) inverse
      else clearedRow pivotRow (t.row i) (nonbasicColumn s) inverse
    basis := t.basis.set r (t.nonbasic s) r.isLt
    nonbasis := t.nonbasis.set s (t.basic r) s.isLt }

/-- Exchange at an entry, unless it is within the tolerance of zero. -/
def pivotAt (t : Tableau α n m) (r : Fin n) (s : Fin (m + 1)) :
    Except (PivotRefusal α) (Tableau α n m) :=
  let value := t.entry (basicRow r) (nonbasicColumn s)
  if Scalar.tolerance < Scalar.abs value then
    .ok (t.exchange r s)
  else
    .error (.nearZero value r s)

def pivot (t : Tableau α n m) (r s : Nat) : Except (PivotRefusal α) (Tableau α n m) :=
  if row : r < n then
    if column : s < m + 1 then t.pivotAt ⟨r, row⟩ ⟨s, column⟩
    else .error (.columnOutOfRange s)
  else
    .error (.rowOutOfRange r)

end Tableau

end TwoPhase
