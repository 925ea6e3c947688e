import TwoPhase.Proofs.Problem.Equalities
import TwoPhase.Proofs.Verdict

/-!
# Outcomes of clear solves

What the outcome of solving a problem says about its exactly feasible points.  The solve may stop at
any cap; every value that it tests against the tolerance, and every difference that it tests for a
near-tie, has to be zero or farther from zero than the tolerance.
-/

namespace TwoPhase.Problem

/-- Every value that a solve tests against the tolerance, near-ties included. -/
def solveTests {α : Type} [Scalar α] (problem : Problem α) (cap : PivotCap) : List α :=
  match StandardForm.ofProblem? problem with
  | none => []
  | some form => (Tableau.ofStandardForm form).solveTests cap.pivots.toNat

def SolvesClear (problem : Problem ℚ) (cap : PivotCap) : Prop :=
  ∀ value ∈ problem.solveTests cap, Clear value

instance (problem : Problem ℚ) (cap : PivotCap) : Decidable (problem.SolvesClear cap) :=
  inferInstanceAs (Decidable (∀ value ∈ problem.solveTests cap, Clear value))

theorem solves_of_result {α : Type} [Scalar α] {problem : Problem α} {cap : PivotCap}
    {outcome : Outcome α} (returned : (problem.solve cap).result = .ok outcome) :
    ∃ form, StandardForm.ofProblem? problem = some form ∧
      (Tableau.ofStandardForm form).Solves cap.pivots.toNat outcome := by
  unfold solve at returned
  cases made : StandardForm.ofProblem? problem with
  | none => simp [made] at returned
  | some form =>
      simp only [made, Reported.after] at returned
      exact ⟨form, rfl, Tableau.solves_of_result returned⟩

variable {problem : Problem ℚ} {cap : PivotCap}

theorem clear_of_solvesClear (clear : problem.SolvesClear cap)
    {form : StandardForm ℚ (2 * problem.constraints.size) problem.vars.size}
    (made : StandardForm.ofProblem? problem = some form) :
    ∀ value ∈ (Tableau.ofStandardForm form).solveTests cap.pivots.toNat, Clear value := by
  intro value tested
  apply clear
  rw [solveTests, made]
  exact tested

theorem IsExactlyFeasible.admits {point : Array ℚ} (feasible : problem.IsExactlyFeasible point)
    {form : StandardForm ℚ (2 * problem.constraints.size) problem.vars.size}
    (made : StandardForm.ofProblem? problem = some form) :
    ∃ listed : Vector ℚ problem.vars.size,
      listed.toArray = point ∧ form.Admits listed.get :=
  ⟨⟨point, feasible.size⟩, rfl, (admits_iff made ⟨point, feasible.size⟩).mpr feasible⟩

/-- An optimum is exactly feasible, has the objective that is reported, and no exactly feasible
point has a larger one. -/
theorem optimal_feasible_and_greatest {solution : Solution ℚ} (clear : problem.SolvesClear cap)
    (returned : (problem.solve cap).result = .ok (.optimal solution)) :
    problem.IsExactlyFeasible solution.point ∧
      solution.objective = problem.objectiveAt solution.point ∧
      ∀ other, problem.IsExactlyFeasible other →
        problem.objectiveAt other ≤ solution.objective := by
  obtain ⟨form, made, solves⟩ := solves_of_result returned
  have formClear := clear_of_solvesClear clear made
  cases solves with
  | settled restored => cases Tableau.restores_of_result restored
  | optimal restored verdict primal =>
      obtain ⟨admitted, value, greatest⟩ :=
        Tableau.optimal_of_maximization formClear restored verdict primal
      refine ⟨(admits_iff made _).mp admitted, ?_, ?_⟩
      · rw [← value_eq_objectiveAt made, value]
      · intro other feasible
        obtain ⟨listed, isOther, otherAdmitted⟩ := feasible.admits made
        rw [← isOther, ← value_eq_objectiveAt made]
        exact greatest _ otherAdmitted

/-- Maximize `x + y` where `x + y = 4` and `x - y = 2`. -/
def crossingLines : Problem ℚ where
  vars := #[⟨0, 1, none⟩, ⟨1, 1, none⟩]
  constraints := #[⟨[(0, 1), (1, 1)], 4⟩, ⟨[(0, 1), (1, -1)], 2⟩]
  names := []

theorem crossingLines_optimal :
    ofDense [1, 1] [([1, 1], 4), ([1, -1], 2)] = .ok crossingLines ∧
      crossingLines.SolvesClear .standard ∧
      (crossingLines.solve .standard).result = .ok (.optimal ⟨4, #[3, 1]⟩) ∧
      crossingLines.IsExactlyFeasible #[3, 1] ∧ 4 = crossingLines.objectiveAt #[3, 1] ∧
      ∀ other, crossingLines.IsExactlyFeasible other → crossingLines.objectiveAt other ≤ 4 := by
  have clear : crossingLines.SolvesClear .standard := by decide +kernel
  have returned : (crossingLines.solve .standard).result = .ok (.optimal ⟨4, #[3, 1]⟩) := by
    decide +kernel
  exact ⟨rfl, clear, returned, optimal_feasible_and_greatest clear returned⟩

/-- A problem that is found infeasible has no exactly feasible point. -/
theorem not_feasible_of_infeasible (clear : problem.SolvesClear cap)
    (returned : (problem.solve cap).result = .ok .infeasible) (point : Array ℚ) :
    ¬ problem.IsExactlyFeasible point := by
  intro feasible
  obtain ⟨form, made, solves⟩ := solves_of_result returned
  obtain ⟨listed, _, admitted⟩ := feasible.admits made
  cases solves with
  | settled restored =>
      exact Tableau.not_admits_of_infeasible (clear_of_solvesClear clear made)
        (Tableau.restores_of_result restored) _ admitted

/-- Maximize `x` where `x = 1` and `x = 2`. -/
def parallelLines : Problem ℚ where
  vars := #[⟨0, 1, none⟩]
  constraints := #[⟨[(0, 1)], 1⟩, ⟨[(0, 1)], 2⟩]
  names := []

theorem parallelLines_infeasible :
    ofDense [1] [([1], 1), ([1], 2)] = .ok parallelLines ∧
      parallelLines.SolvesClear .standard ∧
      (parallelLines.solve .standard).result = .ok .infeasible ∧
      ∀ point, ¬ parallelLines.IsExactlyFeasible point := by
  have clear : parallelLines.SolvesClear .standard := by decide +kernel
  have returned : (parallelLines.solve .standard).result = .ok .infeasible := by decide +kernel
  exact ⟨rfl, clear, returned, not_feasible_of_infeasible clear returned⟩

/-- A problem that is found unbounded has exactly feasible points beyond every objective. -/
theorem exists_feasible_gt_of_unbounded (clear : problem.SolvesClear cap)
    (returned : (problem.solve cap).result = .ok .unbounded) (bound : ℚ) :
    ∃ point, problem.IsExactlyFeasible point ∧ bound < problem.objectiveAt point := by
  obtain ⟨form, made, solves⟩ := solves_of_result returned
  cases solves with
  | settled restored => cases Tableau.restores_of_result restored
  | unbounded restored verdict =>
      obtain ⟨point, admitted, above⟩ := Tableau.exists_admits_gt_of_unbounded
        (clear_of_solvesClear clear made) restored verdict bound
      have listed : point = (Vector.ofFn point).get := funext fun j => (get_ofFn point j).symm
      rw [listed] at admitted above
      refine ⟨(Vector.ofFn point).toArray, (admits_iff made _).mp admitted, ?_⟩
      rwa [← value_eq_objectiveAt made]

/-- Maximize `x` where `x - y = 1`. -/
def openRay : Problem ℚ where
  vars := #[⟨0, 1, none⟩, ⟨1, 0, none⟩]
  constraints := #[⟨[(0, 1), (1, -1)], 1⟩]
  names := []

theorem openRay_unbounded :
    ofDense [1, 0] [([1, -1], 1)] = .ok openRay ∧
      openRay.SolvesClear .standard ∧ (openRay.solve .standard).result = .ok .unbounded ∧
      ∀ bound, ∃ point, openRay.IsExactlyFeasible point ∧ bound < openRay.objectiveAt point := by
  have clear : openRay.SolvesClear .standard := by decide +kernel
  have returned : (openRay.solve .standard).result = .ok .unbounded := by decide +kernel
  exact ⟨rfl, clear, returned, exists_feasible_gt_of_unbounded clear returned⟩

end TwoPhase.Problem
