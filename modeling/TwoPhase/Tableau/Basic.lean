import TwoPhase.Label
import TwoPhase.StandardForm

/-!
Simplex tableaux.

With `n` inequality rows and `m` decision variables a tableau has `n + 2` rows and `m + 2` columns.
Row `i < n` reads `basis[i] = entry i (m + 1) - Σ_j entry i j * nonbasis[j]`.  Row `n` holds the
objective and row `n + 1` the auxiliary objective, both read the same way.
-/

namespace TwoPhase

variable {α : Type} {n m : Nat}

theorem get_eq_getElem {β : Type} {size : Nat} (entries : Vector β size) (i : Fin size) :
    entries.get i = entries[i.val] := rfl

theorem get_ofFn {β : Type} {size : Nat} (f : Fin size → β) (i : Fin size) :
    (Vector.ofFn f).get i = f i := by
  simp [get_eq_getElem]

theorem toList_eq_ofFn {β : Type} {size : Nat} (entries : Vector β size) :
    entries.toArray.toList = List.ofFn entries.get := by
  apply List.ext_getElem
  · simp
  · intro i inList inOfFn
    rw [List.getElem_ofFn]
    rfl

theorem forall_mem_toArray_iff {β : Type} {size : Nat} (entries : Vector β size) {P : β → Prop} :
    (∀ component ∈ entries.toArray, P component) ↔ ∀ j, P (entries.get j) := by
  constructor
  · intro all j
    exact all _ (Array.getElem_mem (by simp))
  · intro all component member
    obtain ⟨j, inRange, isComponent⟩ := Array.mem_iff_getElem.mp member
    exact isComponent ▸ all ⟨j, by simpa using inRange⟩

/-- The entries of a tableau and the unknowns that stand at its rows and columns. -/
structure Tableau (α : Type) (n m : Nat) where
  entries : Vector (Vector α (m + 2)) (n + 2)
  basis : Vector Label n
  nonbasis : Vector Label (m + 1)

namespace Tableau

def basicRow (i : Fin n) : Fin (n + 2) :=
  i.castAdd 2

def objectiveRow : Fin (n + 2) :=
  ⟨n, by omega⟩

def auxiliaryRow : Fin (n + 2) :=
  ⟨n + 1, by omega⟩

def nonbasicColumn (j : Fin (m + 1)) : Fin (m + 2) :=
  j.castSucc

/-- The column where the auxiliary variable starts out. -/
def auxiliaryColumn : Fin (m + 1) :=
  Fin.last m

def rhsColumn : Fin (m + 2) :=
  Fin.last (m + 1)

def row (t : Tableau α n m) (i : Fin (n + 2)) : Vector α (m + 2) :=
  t.entries.get i

def entry (t : Tableau α n m) (i : Fin (n + 2)) (j : Fin (m + 2)) : α :=
  (t.row i).get j

/-- The right-hand side of a row: the value of its variable at the basic solution. -/
def rhs (t : Tableau α n m) (i : Fin (n + 2)) : α :=
  t.entry i rhsColumn

def basic (t : Tableau α n m) (i : Fin n) : Label :=
  t.basis.get i

def nonbasic (t : Tableau α n m) (j : Fin (m + 1)) : Label :=
  t.nonbasis.get j

/-- The value of the objective at the basic solution. -/
def objective (t : Tableau α n m) : α :=
  t.rhs objectiveRow

/-- The value of the auxiliary objective, the negated auxiliary variable. -/
def auxiliaryObjective (t : Tableau α n m) : α :=
  t.rhs auxiliaryRow

section Start

variable [Scalar α]

/-- An entry of the first tableau: the auxiliary variable is subtracted from every row, and both
objectives are negated. -/
def initialEntry (form : StandardForm α n m) (i : Fin (n + 2)) (j : Fin (m + 2)) : α :=
  if row : i.val < n then
    if column : j.val < m then form.rows[i.val][j.val]
    else if j.val = m then -1
    else form.bounds[i.val]
  else if i.val = n then
    if column : j.val < m then -form.objective[j.val] else 0
  else
    if j.val = m then 1 else 0

/-- The first tableau: slacks are basic, decision variables and the auxiliary one are not. -/
def ofStandardForm (form : StandardForm α n m) : Tableau α n m where
  entries := Vector.ofFn fun i => Vector.ofFn fun j => initialEntry form i j
  basis := Vector.ofFn fun i => .slack i.val
  nonbasis := (Vector.ofFn fun j : Fin m => Label.decision j.val).push .auxiliary

theorem entry_ofStandardForm (form : StandardForm α n m) (i : Fin (n + 2)) (j : Fin (m + 2)) :
    (ofStandardForm form).entry i j = initialEntry form i j := by
  simp only [entry, row, ofStandardForm, get_ofFn]

end Start

/-- The row where the auxiliary variable is basic, the first one if there are several. -/
def auxiliaryBasicRow? (t : Tableau α n m) : Option (Fin n) :=
  (List.finRange n).find? fun i => t.basic i = .auxiliary

/-- Every unknown of a system with `n` rows and `m` decision variables, in order. -/
def unknowns (n m : Nat) : List Label :=
  .auxiliary :: ((List.range m).map .decision ++ (List.range n).map .slack)

/-- Whether every unknown of the system is either basic or nonbasic, and once only. -/
def isPartition (t : Tableau α n m) : Bool :=
  Label.sort (t.basis.toList ++ t.nonbasis.toList) = unknowns n m

/-- The values of the decision variables at the basic solution, zero unless basic.  There are none
if a decision variable is basic that the system does not have. -/
def primal? [Scalar α] (t : Tableau α n m) : Option (Vector α m) :=
  (List.finRange n).foldlM
    (fun point i =>
      match t.basic i with
      | .decision j =>
          if known : j < m then some (point.set j (t.rhs (basicRow i))) else none
      | _ => some point)
    (Vector.replicate m 0)

end Tableau

end TwoPhase
