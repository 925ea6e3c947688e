import TwoPhase.Problem.Edit

/-!
# Edits in place are the checked additions

Every edit makes its last check before its first change, except that a name is recorded by the very
step that finds it new.  So an edit that is refused has changed nothing, and an accepted one leaves
the problem that the addition gives.
-/

namespace TwoPhase

variable {α : Type}

/-- What an addition in place comes to: the problem changes only if the addition is accepted. -/
def settled {β : Type} (problem : Problem α) (result : β) :
    Except (BuildError α) (Problem α) → Except (BuildError α) β × Problem α
  | .error refusal => (.error refusal, problem)
  | .ok next => (.ok result, next)

namespace Edit

section Steps

variable {β γ : Type} {problem : Problem α} {first : Edit α β} {name : String}

theorem on_bind_of_settled {value : β} {result : γ} {next : β → Edit α γ}
    {addition : Except (BuildError α) (Problem α)}
    (settles : first.on problem = settled problem value addition)
    (answers : ∀ later, (next value).on later = (.ok result, later)) :
    (first >>= next).on problem = settled problem result addition := by
  cases addition with
  | error refusal => exact Attempt.on_bind_of_error next settles
  | ok later => exact (Attempt.on_bind_of_ok next settles).trans (answers later)

theorem recordName_on_of_mem (taken : name ∈ problem.names) :
    (recordName name).on problem = (.ok false, problem) := by
  change (if name ∈ problem.names then _ else _ : Edit α Bool).on problem = _
  rw [if_pos taken]
  rfl

theorem recordName_on_of_notMem (fresh : name ∉ problem.names) :
    (recordName name).on problem =
      (.ok true, { problem with names := name :: problem.names }) := by
  change (if name ∈ problem.names then _ else _ : Edit α Bool).on problem = _
  rw [if_neg fresh]
  rfl

end Steps

variable [Scalar α] (problem : Problem α)

theorem addVariable_on (objective : α) (name : Option String) :
    (addVariable objective name).on problem =
      settled problem problem.vars.size (problem.addVariable objective name) := by
  unfold addVariable Problem.addVariable
  by_cases finite : Scalar.isFinite objective = true
  · rw [if_pos finite, if_pos finite]
    cases name with
    | none => rfl
    | some name =>
        -- The name is the one thing that changes before the last check, and only if it is new.
        by_cases taken : name ∈ problem.names
        · simp only [if_pos taken]
          exact Attempt.on_bind_of_ok _ (recordName_on_of_mem taken)
        · simp only [if_neg taken]
          exact Attempt.on_bind_of_ok _ (recordName_on_of_notMem taken)
  · rw [if_neg finite, if_neg finite]
    rfl

theorem addConstraint_on (terms : List (Nat × α)) (rhs : α) :
    (addConstraint terms rhs).on problem =
      settled problem () (problem.addConstraint terms rhs) := by
  rw [addConstraint, Attempt.on_bind_of_ok _ (Attempt.on_get problem), Problem.addConstraint]
  cases terms.find? fun term => problem.vars.size ≤ term.1 with
  | some term => rfl
  | none =>
      cases terms.find? fun term => !Scalar.isFinite term.2 with
      | some term => rfl
      | none =>
          by_cases finite : Scalar.isFinite rhs = true
          · simp only [if_pos finite]
            rfl
          · simp only [if_neg finite]
            rfl

theorem addDenseConstraint_on (coefficients : List α) (rhs : α) :
    (addDenseConstraint coefficients rhs).on problem =
      settled problem () (problem.addDenseConstraint coefficients rhs) := by
  rw [addDenseConstraint, Attempt.on_bind_of_ok _ (Attempt.on_get problem),
    Problem.addDenseConstraint]
  by_cases length : coefficients.length = problem.vars.size
  · simp only [if_pos length]
    exact addConstraint_on problem _ rhs
  · simp only [if_neg length]
    rfl

end Edit

namespace Call

variable [Scalar α] {call : Call α} {problem next : Problem α} {refusal : BuildError α}

/-- The checked addition that a call makes. -/
def addition (problem : Problem α) : Call α → Except (BuildError α) (Problem α)
  | .addVariable objective name => problem.addVariable objective name
  | .addConstraint terms rhs => problem.addConstraint terms rhs
  | .addDenseConstraint coefficients rhs => problem.addDenseConstraint coefficients rhs

/-- What an accepted call answers. -/
def answer (problem : Problem α) : Call α → Option Nat
  | .addVariable .. => some problem.vars.size
  | .addConstraint .. | .addDenseConstraint .. => none

theorem edit_on (problem : Problem α) (call : Call α) :
    call.edit.on problem = settled problem (call.answer problem) (call.addition problem) := by
  cases call with
  | addVariable objective name =>
      rw [edit, map_eq_pure_bind]
      exact Edit.on_bind_of_settled (Edit.addVariable_on problem objective name) fun _ => rfl
  | addConstraint terms rhs =>
      exact Edit.on_bind_of_settled (Edit.addConstraint_on problem terms rhs) fun _ => rfl
  | addDenseConstraint coefficients rhs =>
      exact Edit.on_bind_of_settled (Edit.addDenseConstraint_on problem coefficients rhs)
        fun _ => rfl

theorem edit_on_of_refused (refused : call.addition problem = .error refusal) :
    call.edit.on problem = (.error refusal, problem) := by
  rw [edit_on, refused, settled]

theorem edit_on_of_accepted (accepted : call.addition problem = .ok next) :
    call.edit.on problem = (.ok (call.answer problem), next) := by
  rw [edit_on, accepted, settled]

theorem edit_on_eq_error_iff :
    (call.edit.on problem).1 = .error refusal ↔ call.addition problem = .error refusal := by
  cases added : call.addition problem with
  | error other => simp [edit_on_of_refused added]
  | ok next => simp [edit_on_of_accepted added]

theorem edit_on_eq_ok_iff {result : Option Nat} :
    call.edit.on problem = (.ok result, next) ↔
      call.addition problem = .ok next ∧ result = call.answer problem := by
  cases added : call.addition problem with
  | error refusal => simp [edit_on_of_refused added]
  | ok other => simp [edit_on_of_accepted added, and_comm, eq_comm]

end Call

end TwoPhase
