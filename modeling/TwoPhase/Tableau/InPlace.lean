import TwoPhase.Attempt
import TwoPhase.Tableau.Pivot

/-!
Pivots in place.

All checks come first.  Then the entries are overwritten one at a time, and a later step reads what
the earlier ones have written: the pivot row's multiples are taken from the other rows, the pivot
row and the pivot column are scaled, and last the two labels change places.
-/

namespace TwoPhase

variable {α : Type} {n m : Nat}

abbrev Change (α : Type) (n m : Nat) (β : Type) :=
  Attempt (PivotRefusal α) (Tableau α n m) β

def setAt {β : Type} {size : Nat} (entries : Vector β size) (i : Fin size) (value : β) :
    Vector β size :=
  entries.set i value i.isLt

namespace Tableau

def setEntry (t : Tableau α n m) (i : Fin (n + 2)) (j : Fin (m + 2)) (value : α) :
    Tableau α n m :=
  { t with entries := setAt t.entries i (setAt (t.row i) j value) }

def swapLabels (t : Tableau α n m) (r : Fin n) (s : Fin (m + 1)) : Tableau α n m :=
  { t with
    basis := setAt t.basis r (t.nonbasic s)
    nonbasis := setAt t.nonbasis s (t.basic r) }

/-- All rows but one, in order. -/
def rowsBut (row : Fin (n + 2)) : List (Fin (n + 2)) :=
  (List.finRange (n + 2)).filter fun i => i ≠ row

/-- All columns but one, in order. -/
def columnsBut (column : Fin (m + 2)) : List (Fin (m + 2)) :=
  (List.finRange (m + 2)).filter fun j => j ≠ column

section Loops

variable [Scalar α] (r : Fin (n + 2)) (s : Fin (m + 2))

/-- Take `factor` times row `r` from row `i`, but for the entry in column `s`. -/
def subtractRow (factor : α) (t : Tableau α n m) (i : Fin (n + 2)) : Tableau α n m :=
  (columnsBut s).foldl
    (fun t j => t.setEntry i j (t.entry i j - t.entry r j * factor)) t

/-- Take from row `i` so much of row `r` as it has in column `s`.  A row that has nothing there is
left alone. -/
def clearRow (inverse : α) (t : Tableau α n m) (i : Fin (n + 2)) : Tableau α n m :=
  let factor := t.entry i s * inverse
  if factor == 0 then t else t.subtractRow r s factor i

def clearRows (inverse : α) (t : Tableau α n m) : Tableau α n m :=
  (rowsBut r).foldl (clearRow r s inverse) t

def scaleRow (inverse : α) (t : Tableau α n m) : Tableau α n m :=
  (columnsBut s).foldl (fun t j => t.setEntry r j (t.entry r j * inverse)) t

def scaleColumn (inverse : α) (t : Tableau α n m) : Tableau α n m :=
  (rowsBut r).foldl (fun t i => t.setEntry i s (t.entry i s * -inverse)) t

end Loops

variable [Scalar α]

def pivotInPlace (r s : Nat) : Change α n m Unit := do
  if row : r < n then
    if column : s < m + 1 then
      let pivotRow := basicRow ⟨r, row⟩
      let pivotColumn := nonbasicColumn ⟨s, column⟩
      let value := (← get).entry pivotRow pivotColumn
      unless Scalar.tolerance < Scalar.abs value do
        throw (.nearZero value r s)
      let inverse := 1 / value
      modify fun t => t.clearRows pivotRow pivotColumn inverse
      modify fun t => t.scaleRow pivotRow pivotColumn inverse
      modify fun t => t.scaleColumn pivotRow pivotColumn inverse
      modify fun t => t.setEntry pivotRow pivotColumn inverse
      modify fun t => t.swapLabels ⟨r, row⟩ ⟨s, column⟩
    else
      throw (.columnOutOfRange s)
  else
    throw (.rowOutOfRange r)

end Tableau

end TwoPhase
