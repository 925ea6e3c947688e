import TwoPhase.Problem.Basic

/-!
The inequality form: maximize `c·x` subject to `A x ≤ b` and `x ≥ 0`.

Each equality `a·x = β` of a problem becomes two neighbouring rows, `a·x ≤ β` and `-a·x ≤ -β`.
-/

namespace TwoPhase

variable {α : Type}

/-- An inequality form with `n` rows and `m` columns. -/
structure StandardForm (α : Type) (n m : Nat) where
  objective : Vector α m
  rows : Vector (Vector α m) n
  bounds : Vector α n

namespace StandardForm

/-- Collect terms in a dense row of `m` zeros, each by `combine` into the entry at its id. -/
def collect [Scalar α] (m : Nat) (combine : α → α → α) (terms : List (Nat × α)) : Vector α m :=
  terms.foldl
    (fun row term =>
      if known : term.1 < m then row.set term.1 (combine row[term.1] term.2) else row)
    (Vector.replicate m 0)

/-- The row `a·x ≤ β` of an equality if `upper`, the row `-a·x ≤ -β` otherwise. -/
def halfRow [Scalar α] (m : Nat) (constraint : Constraint α) (upper : Bool) : Vector α m :=
  collect m (if upper then (· + ·) else (· - ·)) constraint.terms

def halfBound [Scalar α] (constraint : Constraint α) (upper : Bool) : α :=
  if upper then constraint.rhs else -constraint.rhs

/-- Whether every constraint names variables of the problem only. -/
def wellIndexed (problem : Problem α) : Bool :=
  problem.constraints.all fun constraint =>
    constraint.terms.all fun term => term.1 < problem.vars.size

/-- The inequality form of a problem: constraint `i` gives the rows `2i` and `2i + 1`.  There is
none if a constraint names a missing variable. -/
def ofProblem? [Scalar α] (problem : Problem α) :
    Option (StandardForm α (2 * problem.constraints.size) problem.vars.size) :=
  if wellIndexed problem then
    let source (row : Fin (2 * problem.constraints.size)) : Constraint α :=
      problem.constraints[row.val / 2]
    some {
      objective := Vector.ofFn fun column => problem.vars[column].objective
      rows := Vector.ofFn fun row => halfRow _ (source row) (row.val % 2 == 0)
      bounds := Vector.ofFn fun row => halfBound (source row) (row.val % 2 == 0) }
  else
    none

end StandardForm

end TwoPhase
