import TwoPhase.Attempt
import TwoPhase.Problem.Basic

/-!
Problems that are edited in place.

A call is an attempt at the problem: what it has changed when it is refused stays changed.  Calls
may follow each other whatever became of those before.
-/

namespace TwoPhase

variable {α : Type}

abbrev Edit (α β : Type) :=
  Attempt (BuildError α) (Problem α) β

namespace Edit

/-- Record a name; `false` if it had been there before. -/
def recordName (name : String) : Edit α Bool := do
  let problem ← get
  if name ∈ problem.names then
    return false
  set { problem with names := name :: problem.names }
  return true

variable [Scalar α]

/-- Append a variable, after its name has been recorded, and give its id. -/
def addVariable (objective : α) (name : Option String) : Edit α Nat := do
  unless Scalar.isFinite objective do
    throw (.objectiveNotFinite objective)
  if let some name := name then
    unless ← recordName name do
      throw (.nameTaken name)
  let problem ← get
  let id := problem.vars.size
  set { problem with vars := problem.vars.push ⟨id, objective, name⟩ }
  return id

def addConstraint (terms : List (Nat × α)) (rhs : α) : Edit α Unit := do
  let problem ← get
  if let some (id, _) := terms.find? fun term => problem.vars.size ≤ term.1 then
    throw (.unknownVariable id)
  if let some (id, value) := terms.find? fun term => !Scalar.isFinite term.2 then
    throw (.coefficientNotFinite id value)
  unless Scalar.isFinite rhs do
    throw (.rhsNotFinite rhs)
  set (problem.pushConstraint ⟨terms, rhs⟩)

def addDenseConstraint (coefficients : List α) (rhs : α) : Edit α Unit := do
  let problem ← get
  unless coefficients.length = problem.vars.size do
    throw (.coefficientCount coefficients.length problem.vars.size)
  addConstraint (coefficients.zipIdx.map fun (value, id) => (id, value)) rhs

end Edit

/-- A call of one of the checked additions, with its arguments. -/
inductive Call (α : Type) where
  | addVariable (objective : α) (name : Option String)
  | addConstraint (terms : List (Nat × α)) (rhs : α)
  | addDenseConstraint (coefficients : List α) (rhs : α)

namespace Call

variable [Scalar α]

/-- What a call does; only a new variable has an id to give. -/
def edit : Call α → Edit α (Option Nat)
  | .addVariable objective name => some <$> Edit.addVariable objective name
  | .addConstraint terms rhs => do
      Edit.addConstraint terms rhs
      return none
  | .addDenseConstraint coefficients rhs => do
      Edit.addDenseConstraint coefficients rhs
      return none

/-- The problem after a call, be it accepted or refused. -/
def after (problem : Problem α) (call : Call α) : Problem α :=
  (call.edit.on problem).2

/-- The problem after one call and then the next, up to the last one. -/
def afterAll (calls : List (Call α)) (problem : Problem α) : Problem α :=
  calls.foldl after problem

end Call

end TwoPhase
