import TwoPhase.Problem.Basic

/-!
Values of a problem at a point: its objective, the left-hand sides of its constraints, and whether
the point is feasible up to the tolerances.
-/

namespace TwoPhase

variable {α : Type} [Scalar α]

/-- The value of the left-hand side; none if a term names a component that the point lacks. -/
def Constraint.leftSide? (constraint : Constraint α) (point : Array α) : Option α :=
  (constraint.terms.mapM fun term =>
    point[term.1]?.map fun component => term.2 * component).map Scalar.sum

/-- Whether both sides agree up to a residual that grows with the right-hand side. -/
def Constraint.isSatisfied? (constraint : Constraint α) (point : Array α) : Option Bool :=
  (constraint.leftSide? point).map fun left =>
    decide (Scalar.abs (left - constraint.rhs) ≤
      Scalar.residualTolerance * (1 + Scalar.abs constraint.rhs))

/-- Whether every constraint is satisfied, looking no further than the first that is not. -/
def allSatisfied? (point : Array α) : List (Constraint α) → Option Bool
  | [] => some true
  | constraint :: rest =>
      match constraint.isSatisfied? point with
      | some true => allSatisfied? point rest
      | verdict => verdict

namespace Problem

/-- `c·x`, over the components that have both a coefficient and a value. -/
def objectiveAt (problem : Problem α) (point : Array α) : α :=
  Scalar.sum (List.zipWith (fun unknown component => unknown.objective * component)
    problem.vars.toList point.toList)

/-- Whether the point has one component for each variable, none below `-tolerance`, and satisfies
every constraint.  No answer if a constraint names a missing variable before any other verdict. -/
def isFeasible? (problem : Problem α) (point : Array α) : Option Bool :=
  if point.size ≠ problem.vars.size then
    some false
  else if point.any fun component => component < -Scalar.tolerance then
    some false
  else
    allSatisfied? point problem.constraints.toList

end Problem

end TwoPhase
