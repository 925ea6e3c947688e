import TwoPhase.Scalar

/-!
Linear programs: maximize `c·x` subject to `A x = b` and `x ≥ 0`.

Variables and constraints are added one at a time, and each addition is checked.  A refused
addition is a `BuildError`, and the problem before it is still the problem.
-/

namespace TwoPhase

variable {α : Type}

/-- A decision variable, never negative.  `id` is its position in the problem. -/
structure Variable (α : Type) where
  id : Nat
  objective : α
  name : Option String

/-- The equality `Σ coefficient · x[id] = rhs`; terms with the same id add up. -/
structure Constraint (α : Type) where
  terms : List (Nat × α)
  rhs : α

/-- A problem under construction.  `names` records every name given to a variable. -/
structure Problem (α : Type) where
  vars : Array (Variable α)
  constraints : Array (Constraint α)
  names : List String

inductive BuildError (α : Type) where
  | objectiveNotFinite (value : α)
  | nameTaken (name : String)
  | unknownVariable (id : Nat)
  | coefficientNotFinite (id : Nat) (value : α)
  | rhsNotFinite (value : α)
  /-- A dense constraint needs one coefficient for each variable. -/
  | coefficientCount (given expected : Nat)

namespace Problem

def empty : Problem α :=
  ⟨#[], #[], []⟩

/-- Append a variable.  Its coefficient is looked at before its name. -/
def addVariable [Scalar α] (problem : Problem α) (objective : α) (name : Option String) :
    Except (BuildError α) (Problem α) :=
  if Scalar.isFinite objective then
    let extended := problem.vars.push ⟨problem.vars.size, objective, name⟩
    match name with
    | none => .ok { problem with vars := extended }
    | some name =>
        if name ∈ problem.names then
          .error (.nameTaken name)
        else
          .ok { problem with vars := extended, names := name :: problem.names }
  else
    .error (.objectiveNotFinite objective)

/-- Append a constraint.  Unknown variables are looked for first, then coefficients that are not
finite, then a right-hand side that is not. -/
def addConstraint [Scalar α] (problem : Problem α) (terms : List (Nat × α)) (rhs : α) :
    Except (BuildError α) (Problem α) :=
  match terms.find? fun term => problem.vars.size ≤ term.1 with
  | some (id, _) => .error (.unknownVariable id)
  | none =>
      match terms.find? fun term => !Scalar.isFinite term.2 with
      | some (id, value) => .error (.coefficientNotFinite id value)
      | none =>
          if Scalar.isFinite rhs then
            .ok { problem with constraints := problem.constraints.push ⟨terms, rhs⟩ }
          else
            .error (.rhsNotFinite rhs)

/-- Append a constraint given by one coefficient for each variable, in order. -/
def addDenseConstraint [Scalar α] (problem : Problem α) (coefficients : List α) (rhs : α) :
    Except (BuildError α) (Problem α) :=
  if coefficients.length = problem.vars.size then
    problem.addConstraint (coefficients.zipIdx.map fun (value, id) => (id, value)) rhs
  else
    .error (.coefficientCount coefficients.length problem.vars.size)

/-- The problem with unnamed variables of the given objective and with the given dense
constraints, or the first refusal. -/
def ofDense [Scalar α] (objective : List α) (rows : List (List α × α)) :
    Except (BuildError α) (Problem α) := do
  let withVariables ← objective.foldlM (fun problem value => problem.addVariable value none) empty
  rows.foldlM (fun problem row => problem.addDenseConstraint row.1 row.2) withVariables

/-- Append a constraint as it is, without any check. -/
def pushConstraint (problem : Problem α) (constraint : Constraint α) : Problem α :=
  { problem with constraints := problem.constraints.push constraint }

/-- Drop the last variable, if there is one.  Its name stays taken. -/
def popVariable (problem : Problem α) : Problem α :=
  { problem with vars := problem.vars.pop }

/-- Replace the objective coefficient of the variable at a position, without any check of the
value.  There is no result if the position is not in the problem. -/
def setObjective? (problem : Problem α) (index : Nat) (value : α) : Option (Problem α) :=
  problem.vars[index]?.map fun old =>
    { problem with
      vars := problem.vars.setIfInBounds index { old with objective := value } }

end Problem

end TwoPhase
