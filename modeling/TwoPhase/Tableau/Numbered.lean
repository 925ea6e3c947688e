import TwoPhase.Tableau.Rules

/-!
Tableaux addressed by plain row and column numbers.

Every function answers `none` exactly when it would have to look outside the tableau.
-/

namespace TwoPhase.Tableau

variable {α : Type} {n m : Nat}

def entryAt? (t : Tableau α n m) (i j : Nat) : Option α :=
  if row : i < n + 2 then
    if column : j < m + 2 then some (t.entry ⟨i, row⟩ ⟨j, column⟩) else none
  else
    none

def rhsAt? (t : Tableau α n m) (i : Nat) : Option α :=
  t.entryAt? i (m + 1)

def setEntry? (t : Tableau α n m) (i j : Nat) (value : α) : Option (Tableau α n m) :=
  if row : i < n + 2 then
    if column : j < m + 2 then
      some { t with entries := t.entries.set i (t.entries[i].set j value) }
    else
      none
  else
    none

def setBasis? (t : Tableau α n m) (i : Nat) (label : Label) : Option (Tableau α n m) :=
  if row : i < n then some { t with basis := t.basis.set i label } else none

def swapBasis? (t : Tableau α n m) (i j : Nat) : Option (Tableau α n m) :=
  if first : i < n then
    if second : j < n then some { t with basis := t.basis.swap i j } else none
  else
    none

/-- The entering rule by any row.  The row is not looked at if no column may enter. -/
def enteringAt? [Scalar α] (t : Tableau α n m) (x : Nat) (phase : Phase) :
    Option (Option (Fin (m + 1))) :=
  if row : x < n + 2 then some (t.entering ⟨x, row⟩ phase)
  else if (t.candidates phase).isEmpty then some none
  else none

/-- The leaving rule for any column.  The column is not looked at if there is no row. -/
def leavingAt? [Scalar α] (t : Tableau α n m) (s : Nat) : Option (Option (Fin n)) :=
  if column : s < m + 2 then some (t.leaving ⟨s, column⟩)
  else if n = 0 then some none
  else none

end TwoPhase.Tableau
