import Mathlib.Data.List.Nodup
import TwoPhase.Proofs.Problem.Edits
import TwoPhase.Proofs.Problem.Reading

/-!
# Problems stay well formed

Whatever is called on a problem, with whatever arguments and in whatever order, its ids, numbers and
names stay as they should be, as long as it comes from one of the constructors.
-/

namespace TwoPhase

variable {α : Type} [Scalar α] {problem : Problem α}

namespace Problem

/-- The variables are numbered by position, all numbers are finite, constraints name variables of
the problem, no two variables have one name, and the recorded names are those of the variables. -/
structure WellFormed (problem : Problem α) : Prop where
  id_eq (i : Nat) (inBounds : i < problem.vars.size) : problem.vars[i].id = i
  objective_finite : ∀ var ∈ problem.vars, Scalar.isFinite var.objective = true
  coefficient_finite : ∀ constraint ∈ problem.constraints, ∀ term ∈ constraint.terms,
    Scalar.isFinite term.2 = true
  rhs_finite : ∀ constraint ∈ problem.constraints, Scalar.isFinite constraint.rhs = true
  known : ∀ constraint ∈ problem.constraints, ∀ term ∈ constraint.terms,
    term.1 < problem.vars.size
  distinct : (problem.vars.toList.filterMap Variable.name).Nodup
  mem_names_iff (name : String) :
    name ∈ problem.names ↔ ∃ var ∈ problem.vars, var.name = some name

theorem wellFormed_empty : (empty : Problem α).WellFormed where
  id_eq i inBounds := absurd inBounds (Nat.not_lt_zero i)
  objective_finite := by simp [empty]
  coefficient_finite := by simp [empty]
  rhs_finite := by simp [empty]
  known := by simp [empty]
  distinct := by simp [empty]
  mem_names_iff := by simp [empty]

theorem WellFormed.mem_names_iff_mem_filterMap (wellFormed : problem.WellFormed) {name : String} :
    name ∈ problem.names ↔ name ∈ problem.vars.toList.filterMap Variable.name := by
  simp [wellFormed.mem_names_iff]

theorem WellFormed.addVariable {next : Problem α} {objective : α} {name : Option String}
    (wellFormed : problem.WellFormed) (added : problem.addVariable objective name = .ok next) :
    next.WellFormed := by
  obtain ⟨finite, fresh, rfl⟩ := addVariable_eq_ok_iff.mp added
  constructor
  · intro i inBounds
    rw [Array.getElem_push]
    split
    · next earlier => exact wellFormed.id_eq i earlier
    · next last =>
        rw [Array.size_push] at inBounds
        exact Nat.le_antisymm (not_lt.mp last) (Nat.le_of_lt_succ inBounds)
  · intro var member
    rcases Array.mem_push.mp member with earlier | rfl
    · exact wellFormed.objective_finite var earlier
    · exact finite
  · exact wellFormed.coefficient_finite
  · exact wellFormed.rhs_finite
  · intro constraint member term inTerms
    rw [Array.size_push]
    exact Nat.lt_succ_of_lt (wellFormed.known constraint member term inTerms)
  · cases name with
    | none => simpa using wellFormed.distinct
    | some new =>
        have notYet : new ∉ problem.vars.toList.filterMap Variable.name := by
          rw [← wellFormed.mem_names_iff_mem_filterMap]
          exact fresh new rfl
        simpa using wellFormed.distinct.concat notYet
  · intro other
    simp [wellFormed.mem_names_iff, or_and_right, exists_or, or_comm]

theorem WellFormed.addConstraint {next : Problem α} {terms : List (Nat × α)} {rhs : α}
    (wellFormed : problem.WellFormed) (added : problem.addConstraint terms rhs = .ok next) :
    next.WellFormed := by
  obtain ⟨known, finite, finiteRhs, rfl⟩ := addConstraint_eq_ok_iff.mp added
  constructor
  · exact wellFormed.id_eq
  · exact wellFormed.objective_finite
  · intro constraint member
    rcases Array.mem_push.mp member with earlier | rfl
    · exact wellFormed.coefficient_finite constraint earlier
    · exact finite
  · intro constraint member
    rcases Array.mem_push.mp member with earlier | rfl
    · exact wellFormed.rhs_finite constraint earlier
    · exact finiteRhs
  · intro constraint member
    rcases Array.mem_push.mp member with earlier | rfl
    · exact wellFormed.known constraint earlier
    · exact known
  · exact wellFormed.distinct
  · exact wellFormed.mem_names_iff

theorem Built.wellFormed (built : problem.Built) : problem.WellFormed := by
  induction built with
  | empty => exact wellFormed_empty
  | addVariable _ added inductionHypothesis => exact inductionHypothesis.addVariable added
  | addConstraint _ added inductionHypothesis => exact inductionHypothesis.addConstraint added

end Problem

namespace Call

variable {call : Call α} {next : Problem α}

theorem built_of_accepted (built : problem.Built) (accepted : call.addition problem = .ok next) :
    next.Built := by
  cases call with
  | addVariable objective name => exact built.addVariable accepted
  | addConstraint terms rhs => exact built.addConstraint accepted
  | addDenseConstraint coefficients rhs => exact built.addDenseConstraint accepted

theorem built_after (built : problem.Built) (call : Call α) : (after problem call).Built := by
  unfold after
  cases added : call.addition problem with
  | error refusal =>
      rw [edit_on_of_refused added]
      exact built
  | ok next =>
      rw [edit_on_of_accepted added]
      exact built_of_accepted built added

theorem built_afterAll (built : problem.Built) (calls : List (Call α)) :
    (afterAll calls problem).Built := by
  induction calls generalizing problem with
  | nil => exact built
  | cons call calls inductionHypothesis => exact inductionHypothesis (built_after built call)

end Call

theorem Call.edit_on_of_eq_error {call : Call α} {refusal : BuildError α}
    (refused : (call.edit.on problem).1 = .error refusal) :
    call.edit.on problem = (.error refusal, problem) :=
  edit_on_of_refused (edit_on_eq_error_iff.mp refused)

theorem Problem.WellFormed.addVariable_refused_iff (wellFormed : problem.WellFormed) {objective : α}
    {name : Option String} :
    (∃ refusal, ((Edit.addVariable objective name).on problem).1 = .error refusal) ↔
      Scalar.isFinite objective = false ∨
        ∃ taken, name = some taken ∧ ∃ var ∈ problem.vars, var.name = some taken := by
  have refusedIff : (∃ refusal, ((Edit.addVariable objective name).on problem).1 = .error refusal) ↔
      ¬∃ next, problem.addVariable objective name = .ok next := by
    rw [Edit.addVariable_on]
    cases problem.addVariable objective name <;> simp [settled]
  simp only [refusedIff, Problem.addVariable_eq_ok_iff, ← wellFormed.mem_names_iff]
  by_cases finite : Scalar.isFinite objective = true <;> simp [finite]

namespace Problem

/-- The constructors of problems, where they succeed. -/
inductive Constructed : Problem Float → Prop
  | empty : Constructed .empty
  | dense {objective : List Float} {rows : List (List Float × Float)} {problem : Problem Float} :
      ofDense objective rows = .ok problem → Constructed problem
  | parsed {text : String} {problem : Problem Float} :
      parse text = .ok problem → Constructed problem

theorem Constructed.built {problem : Problem Float} (constructed : Constructed problem) :
    problem.Built := by
  cases constructed with
  | empty => exact .empty
  | dense made => exact built_of_ofDense made
  | parsed accepted =>
      obtain ⟨words, objective, rows, _, spells, rfl⟩ := parse_eq_ok_iff.mp accepted
      exact built_of_ofDense spells.ofDense_eq

end Problem

/-- After any calls, accepted or refused, on a problem that a constructor gave, the problem is well
formed.  Another call that is refused leaves it as it is, one that is accepted makes its addition,
and a variable is refused exactly for a coefficient that is not finite or for the name of a variable
that is there. -/
theorem Call.afterAll_wellFormed {start : Problem Float} (constructed : start.Constructed)
    (calls : List (Call Float)) :
    let reached := afterAll calls start
    reached.WellFormed ∧
      (∀ (call : Call Float) refusal, (call.edit.on reached).1 = .error refusal →
        call.edit.on reached = (.error refusal, reached)) ∧
      (∀ (call : Call Float) result next, call.edit.on reached = (.ok result, next) →
        call.addition reached = .ok next) ∧
      ∀ objective name,
        (∃ refusal, ((Edit.addVariable objective name).on reached).1 = .error refusal) ↔
          Scalar.isFinite objective = false ∨
            ∃ taken, name = some taken ∧ ∃ var ∈ reached.vars, var.name = some taken := by
  intro reached
  have wellFormed : reached.WellFormed := (built_afterAll constructed.built calls).wellFormed
  exact ⟨wellFormed, fun _ _ => edit_on_of_eq_error,
    fun _ _ _ accepted => (edit_on_eq_ok_iff.mp accepted).1,
    fun _ _ => wellFormed.addVariable_refused_iff⟩

/-- A name that comes with a coefficient that is not finite, and comes again. -/
def repeatedName : List (Call Float) :=
  [.addVariable 1 (some "x"), .addVariable (0 / 0) (some "y"), .addVariable 2 (some "x"),
    .addConstraint [(1, 1)] 1, .addVariable 2 (some "y"), .addConstraint [(0, 1), (0, 2)] 3,
    .addDenseConstraint [1] 2, .addDenseConstraint [1, 1] (1 / 0)]

theorem afterAll_repeatedName :
    Problem.Constructed .empty ∧
      let reached := Call.afterAll repeatedName .empty
      reached.WellFormed ∧ reached.vars.size = 2 ∧ reached.constraints.size = 1 ∧
        reached.names = ["y", "x"] ∧
        ∃ refusal, ((Edit.addVariable 3 (some "y")).on reached).1 = .error refusal := by
  refine ⟨.empty, ?_⟩
  intro reached
  obtain ⟨wellFormed, _, _, refusedIff⟩ := Call.afterAll_wellFormed .empty repeatedName
  have names : reached.names = ["y", "x"] := by decide +kernel
  refine ⟨wellFormed, by decide +kernel, by decide +kernel, names, ?_⟩
  apply (refusedIff 3 (some "y")).mpr
  exact .inr ⟨"y", rfl, (wellFormed.mem_names_iff "y").mp (names ▸ List.mem_cons_self)⟩

end TwoPhase
