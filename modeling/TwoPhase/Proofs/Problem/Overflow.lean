import TwoPhase.Proofs.Problem.Cap
import TwoPhase.Proofs.Problem.Outcome
import TwoPhase.Proofs.Report
import TwoPhase.Proofs.Tableau.Growth
import TwoPhase.Proofs.Tableau.Primal

/-!
# Reported optima over binary64

Checked additions let only finite numbers into a problem, but the arithmetic of a solve can
overflow: the very first pivot subtracts right-hand sides from one another.  A reported optimum is
finite as long as its solve stays within bounds that the pivots left to make cannot carry beyond the
overflow threshold.
-/

namespace TwoPhase

namespace Tableau

variable {n m : Nat} {last : Tableau Float n m} {places : Nat}

theorem isFinite_of_primal (within : last.IsWithin places)
    (distinct : Function.Injective last.label) {point : Vector Float m}
    (primal : last.primal? = some point) (j : Fin m) :
    (point.get j).isFinite = true := by
  by_cases basicSomewhere : ∃ i, last.basic i = .decision j
  · obtain ⟨i, isBasic⟩ := basicSomewhere
    rw [primal_of_basic distinct primal isBasic]
    exact (within (basicRow i) rhsColumn).isFinite
  · rw [primal_of_not_basic primal (not_exists.mp basicSomewhere)]
    exact TwoPhase.IsWithin.zero.isFinite

end Tableau

namespace Problem

/-- The tableaux of a solve; there are none if a constraint names a missing variable. -/
def tableaux {α : Type} [Scalar α] (problem : Problem α) (cap : PivotCap) :
    List (Tableau α (2 * problem.constraints.size) problem.vars.size) :=
  match StandardForm.ofProblem? problem with
  | none => []
  | some form => (Tableau.ofStandardForm form).solveTrail cap.pivots.toNat

variable {problem : Problem Float} {cap : PivotCap} {solution : Solution Float}

theorem isFinite_of_last {places : Nat}
    (returned : (problem.solve cap).result = .ok (.optimal solution))
    (within : ∀ last, (problem.tableaux cap).getLast? = some last → last.IsWithin places) :
    solution.objective.isFinite = true ∧
      ∀ component ∈ solution.point, component.isFinite = true := by
  obtain ⟨form, made, solves⟩ := solves_of_result returned
  rw [tableaux, made] at within
  cases solves with
  | settled restored => cases Tableau.restores_of_result restored
  | @optimal feasible point restored verdict primal =>
      have lastWithin := within _ (Tableau.getLast?_solveTrail restored)
      have reached := (Tableau.reaches_of_maximization restored
        (Tableau.runPhase_final_mem feasible .two _)).1
      refine ⟨(lastWithin Tableau.objectiveRow Tableau.rhsColumn).isFinite, ?_⟩
      rw [forall_mem_toArray_iff]
      exact Tableau.isFinite_of_primal lastWithin reached.label_injective primal

/-- If some tableau of the solve is within `2 ^ places`, and few enough tableaux follow it, then a
reported optimum is finite, and the result file holds a finite decimal number. -/
theorem optimal_finite_and_readable {places : Nat}
    (returned : (problem.solve cap).result = .ok (.optimal solution))
    {t : Tableau Float (2 * problem.constraints.size) problem.vars.size}
    {earlier later : List (Tableau Float (2 * problem.constraints.size) problem.vars.size)}
    (trail : problem.tableaux cap = earlier ++ t :: later) (within : t.IsWithin places)
    (few : 2 ^ later.length * (places + 31) ≤ 1054) :
    solution.objective.isFinite = true ∧
      (∀ component ∈ solution.point, component.isFinite = true) ∧
      ∃ text value, Report.render (.optimal solution) = some ("otima\n" ++ text ++ "\n") ∧
        Decimal.readNumber text.toList = some value ∧ value.isFinite = true := by
  have chain : (problem.tableaux cap).IsChain Tableau.Follows := by
    unfold tableaux
    split
    · exact List.isChain_nil
    · exact Tableau.isChain_solveTrail _ _
  rw [trail] at chain
  have lastWithin (last) (isLast : (problem.tableaux cap).getLast? = some last) :
      last.IsWithin 1023 := by
    rw [trail, List.getLast?_append_cons] at isLast
    exact within.last_of_isChain chain.right_of_append few isLast
  obtain ⟨objective, components⟩ := isFinite_of_last returned lastWithin
  obtain ⟨value, read, finite⟩ := Report.exists_readNumber_formatValue objective
  exact ⟨objective, components, _, value, rfl, read, finite⟩

theorem exists_optimal {α : Type} [Scalar α] {problem : Problem α} {cap : PivotCap}
    {test : Solution α → Bool}
    (found : ((problem.solve cap).result.toOption.bind Outcome.solution?).any test = true) :
    ∃ solution, (problem.solve cap).result = .ok (.optimal solution) ∧ test solution = true := by
  cases returned : (problem.solve cap).result with
  | error fault => simp [returned, Except.toOption] at found
  | ok outcome =>
      rw [returned] at found
      cases outcome with
      | optimal solution => exact ⟨solution, rfl, found⟩
      | infeasible => cases found
      | unbounded => cases found
      | capped objective => cases found

theorem fiveEquality_readable :
    (∃ t later, fiveEquality.tableaux .standard = t :: later ∧ t.IsWithin 3 ∧
      2 ^ later.length * (3 + 31) ≤ 1054) ∧
      ∃ solution, (fiveEquality.solve .standard).result = .ok (.optimal solution) ∧
        solution.objective.isFinite = true ∧
        (∀ component ∈ solution.point, component.isFinite = true) ∧
        ∃ text value, Report.render (.optimal solution) = some ("otima\n" ++ text ++ "\n") ∧
          Decimal.readNumber text.toList = some value ∧ value.isFinite = true := by
  have first : ∀ t ∈ (fiveEquality.tableaux .standard).head?, t.IsWithin 3 := by decide +kernel
  have length : (fiveEquality.tableaux .standard).length = 5 := by decide +kernel
  have found : ((fiveEquality.solve .standard).result.toOption.bind Outcome.solution?).any
      (fun _ => true) = true := by decide +kernel
  obtain ⟨solution, returned, _⟩ := exists_optimal found
  cases trail : fiveEquality.tableaux .standard with
  | nil =>
      rw [trail] at length
      cases length
  | cons t later =>
      rw [trail] at first length
      have within : t.IsWithin 3 := first t rfl
      have few : 2 ^ later.length * (3 + 31) ≤ 1054 := by
        rw [Nat.succ.inj length]
        decide
      exact ⟨⟨t, later, rfl, within, few⟩, solution, returned,
        @optimal_finite_and_readable _ _ _ _ returned t [] later trail within few⟩

/-- Maximize `x` where `x = 1e308`. -/
def hugeEquality : Problem Float where
  vars := #[⟨0, 1, none⟩]
  constraints := #[⟨[(0, 1)], 1e308⟩]
  names := []

/-- The first pivot doubles the right-hand side, which overflows, and a later one subtracts infinity
from infinity. -/
theorem hugeEquality_overflows :
    ofDense [1] [([1], 1e308)] = .ok hugeEquality ∧
      ∃ solution, (hugeEquality.solve .standard).result = .ok (.optimal solution) ∧
        solution.objective.isFinite = false ∧
        (∃ component ∈ solution.point, component.isFinite = false) ∧
        Report.render (.optimal solution) = some "otima\nNaN.0\n" := by
  have one : Scalar.isFinite (1 : Float) = true := by decide +kernel
  have huge : Scalar.isFinite (1e308 : Float) = true := by decide +kernel
  refine ⟨?_, ?_⟩
  · simp [ofDense, addVariable, addDenseConstraint, addConstraint, empty, one, huge]
    rfl
  · have found : ((hugeEquality.solve .standard).result.toOption.bind Outcome.solution?).any
        (fun solution => !solution.objective.isFinite &&
          solution.point.any (fun component => !component.isFinite) &&
          Report.render (.optimal solution) == some "otima\nNaN.0\n") = true := by
      decide +kernel
    obtain ⟨solution, returned, tests⟩ := exists_optimal found
    simp only [Bool.and_eq_true, Bool.not_eq_true', Array.any_eq_true', beq_iff_eq] at tests
    exact ⟨solution, returned, tests.1.1, tests.1.2, tests.2⟩

end Problem

end TwoPhase
