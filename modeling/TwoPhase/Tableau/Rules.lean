import TwoPhase.Phase
import TwoPhase.Selection
import TwoPhase.Tableau.Basic

/-!
The selection rules: which variable enters the basis and which one leaves it.

Both rules look for a smallest value and let the smaller label win among values that differ by less
than the tolerance.  Being that close is not transitive, so a chain of near-ties can carry the
choice away from the smallest value, and degenerate problems can cycle.
-/

namespace TwoPhase.Tableau

variable {α : Type} {n m : Nat} [Scalar α]

/-- Whether a value beats the holder's: it is smaller, or as good as equal with a smaller label. -/
def wins (value held : α) (label holder : Label) : Bool :=
  decide (value < held) ||
    (decide (Scalar.abs (value - held) < Scalar.tolerance) && label.before holder)

/-- The columns that may enter.  Phase two never lets the auxiliary variable back in. -/
def candidates (t : Tableau α n m) (phase : Phase) : List (Fin (m + 1)) :=
  (List.finRange (m + 1)).filter fun j => phase = .one || t.nonbasic j ≠ .auxiliary

/-- Whether column `j` is preferred to column `s` for entering, by row `x`. -/
def columnWins (t : Tableau α n m) (x : Fin (n + 2)) (j s : Fin (m + 1)) : Bool :=
  wins (t.entry x (nonbasicColumn j)) (t.entry x (nonbasicColumn s)) (t.nonbasic j) (t.nonbasic s)

/-- The column whose entry in row `x` is the most negative; none if the chosen entry is above
`-tolerance`. -/
@[specialize]
def entering (t : Tableau α n m) (x : Fin (n + 2)) (phase : Phase) : Option (Fin (m + 1)) :=
  match survivor (t.columnWins x) (t.candidates phase) with
  | none => none
  | some s => if -Scalar.tolerance < t.entry x (nonbasicColumn s) then none else some s

def boundingRows (t : Tableau α n m) (s : Fin (m + 2)) : List (Fin n) :=
  (List.finRange n).filter fun i => Scalar.tolerance < t.entry (basicRow i) s

/-- How far column `s` can grow before the basic variable of row `i` reaches zero. -/
def ratio (t : Tableau α n m) (s : Fin (m + 2)) (i : Fin n) : α :=
  t.rhs (basicRow i) / t.entry (basicRow i) s

/-- Whether row `i` is preferred to row `r` for leaving, when column `s` enters. -/
def rowWins (t : Tableau α n m) (s : Fin (m + 2)) (i r : Fin n) : Bool :=
  wins (t.ratio s i) (t.ratio s r) (t.basic i) (t.basic r)

/-- The row of the smallest ratio; none if no row bounds column `s`. -/
@[specialize]
def leaving (t : Tableau α n m) (s : Fin (m + 2)) : Option (Fin n) :=
  survivor (t.rowWins s) (t.boundingRows s)

/-- The row whose objective the phase maximizes. -/
def phaseRow : Phase → Fin (n + 2)
  | .one => auxiliaryRow
  | .two => objectiveRow

inductive Choice (n m : Nat) where
  | optimal
  | unlimited (column : Fin (m + 1))
  | pivot (row : Fin n) (column : Fin (m + 1))
deriving DecidableEq

/-- Apply the entering rule, then the leaving rule. -/
def choose (t : Tableau α n m) (phase : Phase) : Choice n m :=
  match t.entering (phaseRow phase) phase with
  | none => .optimal
  | some s =>
      match t.leaving (nonbasicColumn s) with
      | none => .unlimited s
      | some r => .pivot r s

/-- The first row of the smallest right-hand side.  A value that is no number takes the place and
is taken from by any other. -/
def lowestRow (t : Tableau α n m) : Option (Fin n) :=
  survivor (fun i r => !decide (t.rhs (basicRow r) ≤ t.rhs (basicRow i))) (List.finRange n)

/-- The first column with the entry of largest absolute value in row `i`. -/
def largestColumn (t : Tableau α n m) (i : Fin (n + 2)) : Fin (m + 1) :=
  let size (j : Fin (m + 1)) : α := Scalar.abs (t.entry i (nonbasicColumn j))
  ((List.finRange (m + 1)).foldl (duel fun j best => decide (size best < size j)) 0)

end TwoPhase.Tableau
