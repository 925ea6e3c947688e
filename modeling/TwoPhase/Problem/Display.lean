import TwoPhase.Problem.Basic
import TwoPhase.Decimal.Layout

/-!
The text of a problem: its objective, its constraints and its bounds.

Terms with a zero coefficient are left out.  How a number is written is a parameter of `textWith`;
`text` writes the shortest digits that read back.
-/

namespace TwoPhase

/-- The name of a variable, or `x` and its id. -/
def Variable.label {α : Type} (v : Variable α) : String :=
  match v.name with
  | some name => name
  | none => s!"x{v.id}"

namespace Problem

variable (write : Float → String)

/-- The sign, the magnitude and the variable of a term. -/
def termText (positive : Bool) (coefficient : Float) (label : String) : String :=
  (if positive then "+ " else "- ") ++ write coefficient.abs ++ " " ++ label ++ " "

/-- A term of the objective; anything that is not above zero counts as negative. -/
def objectiveTermText (v : Variable Float) : String :=
  if v.objective == 0.0 then "" else termText write (0.0 < v.objective) v.objective v.label

/-- A term of a constraint; one whose variable is missing names the position instead. -/
def constraintTermText (vars : Array (Variable Float)) (term : Nat × Float) : String :=
  if term.2 == 0.0 then
    ""
  else
    match vars[term.1]? with
    | some v => termText write (0.0 ≤ term.2) term.2 v.label
    | none => Decimal.signed write term.2 ++ s!" id[{term.1}] "

def constraintText (vars : Array (Variable Float)) (constraint : Constraint Float) : String :=
  String.join (constraint.terms.map (constraintTermText write vars)) ++ "= " ++
    write constraint.rhs ++ "\n"

def textWith (problem : Problem Float) : String :=
  "maximize\n" ++ String.join (problem.vars.toList.map (objectiveTermText write)) ++
    "\n\nsubject to\n" ++
    String.join (problem.constraints.toList.map (constraintText write problem.vars)) ++
    "\nwith the bounds\n" ++
    String.join (problem.vars.toList.map fun v => v.label ++ " ≥ 0\n")

def text (problem : Problem Float) : String :=
  problem.textWith Decimal.plain

end Problem

end TwoPhase
