import TwoPhase.Proofs.Optimum
import TwoPhase.Proofs.Problem.Outcome

/-!
# Reported optima

What a reported optimum is worth if nothing is known of the tests of the solve.  Its objective is
that of its point.  A constraint may be violated, by as much as the last tableau has its slacks away
from zero.  No exactly feasible point is better by more than one tolerance for each variable and
each unit of its components.
-/

namespace TwoPhase.Problem

/-- The tableau that a solve ends with. -/
def lastTableau? {α : Type} [Scalar α] (problem : Problem α) (cap : PivotCap) :
    Option (Tableau α (2 * problem.constraints.size) problem.vars.size) :=
  (StandardForm.ofProblem? problem).bind fun form =>
    ((Tableau.ofStandardForm form).solveTrail cap.pivots.toNat).getLast?

variable {problem : Problem ℚ} {cap : PivotCap} {solution : Solution ℚ}
  {form : StandardForm ℚ (2 * problem.constraints.size) problem.vars.size}
  {last : Tableau ℚ (2 * problem.constraints.size) problem.vars.size}

/-- An optimum belongs to the last tableau of its solve, whose basis is feasible if the tests that
keep it so are clear. -/
theorem exists_optimum (returned : (problem.solve cap).result = .ok (.optimal solution)) :
    ∃ form, StandardForm.ofProblem? problem = some form ∧
      ∃ last, problem.lastTableau? cap = some last ∧ Tableau.Optimum form last solution ∧
        ((∀ value ∈ (Tableau.ofStandardForm form).feasibilityTests cap.pivots.toNat,
          Clear value) → last.IsFeasible) := by
  obtain ⟨form, made, solves⟩ := solves_of_result returned
  obtain ⟨last, isLast, optimum⟩ := Tableau.exists_optimum solves
  refine ⟨form, made, last, ?_, optimum⟩
  rw [lastTableau?, made]
  exact isLast

section Optimum

variable (made : StandardForm.ofProblem? problem = some form)
  (optimum : Tableau.Optimum form last solution)

include made optimum

theorem objective_of_optimum : solution.objective = problem.objectiveAt solution.point := by
  obtain ⟨point, isPoint, values⟩ := optimum.exists_point
  rw [← isPoint, ← value_eq_objectiveAt made, values, optimum.reached.value_basicSolution,
    optimum.objective]

/-- The two slacks of a constraint are its residual and the negated residual. -/
theorem residual_of_optimum {i : Nat} (inRange : i < problem.constraints.size) :
    ∃ left, problem.constraints[i].leftSide? solution.point = some left ∧
      problem.constraints[i].rhs - left = last.valueOf (.slack (2 * i)) ∧
      problem.constraints[i].rhs - left = -last.valueOf (.slack (2 * i + 1)) := by
  obtain ⟨point, isPoint, values⟩ := optimum.exists_point
  have holds := optimum.reached.holds_basicSolution
  have upper := holds.upperRow made ⟨i, inRange⟩
  have lower := holds.lowerRow made ⟨i, inRange⟩
  rw [optimum.auxiliary_eq_zero, sub_zero, ← values] at upper lower
  simp only [Fin.getElem_fin] at upper lower
  refine ⟨problem.constraints[i].valueAt point.get, ?_, ?_, ?_⟩
  · rw [← isPoint]
    apply Constraint.leftSide?_eq
    exact StandardForm.known_of_ofProblem? made (Array.getElem_mem inRange)
  · rw [Tableau.valueOf_eq_basicSolution optimum.reached.label_injective]
    linarith
  · rw [Tableau.valueOf_eq_basicSolution optimum.reached.label_injective]
    linarith

theorem objectiveAt_le_of_optimum {other : Array ℚ} (feasible : problem.IsExactlyFeasible other) :
    problem.objectiveAt other ≤
      solution.objective + problem.vars.size * Scalar.tolerance * other.toList.sum := by
  obtain ⟨listed, isOther, admitted⟩ := feasible.admits made
  have equal := (StandardForm.rows_le_iff made listed.get).mp admitted.row
  have bound := optimum.value_le admitted (StandardForm.rows_eq_of_satisfied made equal)
  have total : listed.toArray.toList.sum = ∑ k, listed.get k := by
    rw [toList_eq_ofFn, List.sum_ofFn]
  rwa [← isOther, ← value_eq_objectiveAt made, total]

end Optimum

/-- An optimum has the objective of its point, the slacks of the last tableau are the residuals of
its constraints, and no exactly feasible point is better by more than the tolerance allows. -/
theorem optimal_objective_residuals_and_bound
    (returned : (problem.solve cap).result = .ok (.optimal solution)) :
    solution.objective = problem.objectiveAt solution.point ∧
      (∃ last, problem.lastTableau? cap = some last ∧
        ∀ (i : Nat) (inRange : i < problem.constraints.size),
          ∃ left, problem.constraints[i].leftSide? solution.point = some left ∧
            problem.constraints[i].rhs - left = last.valueOf (.slack (2 * i)) ∧
            problem.constraints[i].rhs - left = -last.valueOf (.slack (2 * i + 1))) ∧
      ∀ other, problem.IsExactlyFeasible other →
        problem.objectiveAt other ≤
          solution.objective + problem.vars.size * (1 / 10 ^ 9) * other.toList.sum := by
  obtain ⟨form, made, last, isLast, optimum, _⟩ := exists_optimum returned
  refine ⟨objective_of_optimum made optimum, ⟨last, isLast, ?_⟩, ?_⟩
  · intro i inRange
    exact residual_of_optimum made optimum inRange
  · intro other feasible
    rw [← Scalar.tolerance_rat]
    exact objectiveAt_le_of_optimum made optimum feasible

/-- Maximize `x` where `x / 2 ^ 30 = 0` and `x + 2 y = 2 ^ 20`: the first coefficient is no larger
than the tolerance. -/
def faintCoefficient : Problem ℚ where
  vars := #[⟨0, 1, none⟩, ⟨1, 0, none⟩]
  constraints := #[⟨[(0, 1 / 2 ^ 30), (1, 0)], 0⟩, ⟨[(0, 1), (1, 2)], 2 ^ 20⟩]
  names := []

theorem faintCoefficient_optimal :
    ofDense [1, 0] [([1 / 2 ^ 30, 0], 0), ([1, 2], 2 ^ 20)] = .ok faintCoefficient ∧
      (faintCoefficient.solve .standard).result = .ok (.optimal ⟨2 ^ 20, #[2 ^ 20, 0]⟩) ∧
      2 ^ 20 = faintCoefficient.objectiveAt #[2 ^ 20, 0] ∧
      (∃ last, faintCoefficient.lastTableau? .standard = some last ∧
        0 - 1 / 2 ^ 10 = last.valueOf (.slack 0) ∧ 0 - 1 / 2 ^ 10 = -last.valueOf (.slack 1)) ∧
      ∀ other, faintCoefficient.IsExactlyFeasible other →
        faintCoefficient.objectiveAt other ≤ 2 ^ 20 + 2 * (1 / 10 ^ 9) * other.toList.sum := by
  have returned : (faintCoefficient.solve .standard).result =
      .ok (.optimal ⟨2 ^ 20, #[2 ^ 20, 0]⟩) := by decide +kernel
  obtain ⟨objective, ⟨last, isLast, residual⟩, greatest⟩ :=
    optimal_objective_residuals_and_bound returned
  obtain ⟨left, isLeft, upper, lower⟩ := residual 0 (by decide)
  have evaluated : faintCoefficient.constraints[0].leftSide? #[2 ^ 20, 0] =
      some (1 / 2 ^ 10) := by decide +kernel
  obtain rfl : (1 / 2 ^ 10 : ℚ) = left := Option.some.inj (evaluated.symm.trans isLeft)
  exact ⟨rfl, returned, objective, ⟨last, isLast, upper, lower⟩, greatest⟩

end TwoPhase.Problem
