import TwoPhase.Proofs.Problem.Cap
import TwoPhase.Proofs.Problem.Outcome
import TwoPhase.Proofs.Progress

/-!
# What a capped solve has reached

A solve that its cap stops in phase two has come to a feasible point, whose objective it reports.
Every larger cap lets it come at least as far.
-/

namespace TwoPhase.Problem

variable {problem : Problem ℚ} {cap : PivotCap} {objective : ℚ}

/-- A larger cap changes nothing before phase two, and there it ends no lower. -/
theorem reported_of_larger
    {form : StandardForm ℚ (2 * problem.constraints.size) problem.vars.size}
    {feasible : Tableau ℚ (2 * problem.constraints.size) problem.vars.size} {larger : PivotCap}
    {outcome : Outcome ℚ} (clear : problem.SolvesClear larger)
    (made : StandardForm.ofProblem? problem = some form)
    (restored : ((Tableau.ofStandardForm form).restoreFeasibility cap.pivots.toNat).result =
      .ok (.feasible feasible))
    (capped : (feasible.runPhase .two cap.pivots.toNat).verdict = .ok .capped)
    (within : cap.pivots ≤ larger.pivots)
    (returned : (problem.solve larger).result = .ok outcome) :
    outcome = .unbounded ∨
      ∃ reported, (feasible.runPhase .two cap.pivots.toNat).final.objective ≤ reported ∧
        (outcome = .capped (some reported) ∨ ∃ point, outcome = .optimal ⟨reported, point⟩) := by
  obtain ⟨form', made', solves⟩ := solves_of_result returned
  obtain rfl : form = form' := Option.some.inj (made.symm.trans made')
  have withinNat := UInt64.le_iff_toNat_le.mp within
  have finished (objective : Option ℚ) :
      ((Tableau.ofStandardForm form).restoreFeasibility cap.pivots.toNat).result ≠
        .ok (.settled (.capped objective)) := by
    simp [restored]
  have same := Tableau.restoreFeasibility_of_finished finished withinNat
  rw [← same] at restored
  have rises := Tableau.objective_le_of_capped
    (Tableau.clear_feasibilityTests (clear_of_solvesClear clear made)) restored capped withinNat
  cases solves with
  | settled settled => simp [restored] at settled
  | @optimal other point restoredOther _ _ =>
      obtain rfl : feasible = other := by simpa [restored] using restoredOther
      exact .inr ⟨_, rises, .inr ⟨_, rfl⟩⟩
  | unbounded => exact .inl rfl
  | @capped other restoredOther _ =>
      obtain rfl : feasible = other := by simpa [restored] using restoredOther
      exact .inr ⟨_, rises, .inl rfl⟩

/-- A solve that its cap stops in phase two reports the objective of a feasible point.  Under a
larger cap it comes to an objective at least as large, or to there being no largest. -/
theorem capped_feasible_and_rising (clear : problem.SolvesClear cap)
    (returned : (problem.solve cap).result = .ok (.capped (some objective))) :
    (∃ point, problem.IsExactlyFeasible point ∧ objective = problem.objectiveAt point) ∧
      ∀ larger outcome, cap.pivots ≤ larger.pivots → problem.SolvesClear larger →
        (problem.solve larger).result = .ok outcome →
          outcome = .unbounded ∨
            ∃ reported, objective ≤ reported ∧
              (outcome = .capped (some reported) ∨
                ∃ point, outcome = .optimal ⟨reported, point⟩) := by
  obtain ⟨form, made, solves⟩ := solves_of_result returned
  cases solves with
  | settled restored => cases Tableau.restores_of_result restored
  | @capped feasible restored capped =>
      constructor
      · obtain ⟨point, admitted, value⟩ := Tableau.exists_admits_of_maximization
          (Tableau.clear_feasibilityTests (clear_of_solvesClear clear made)) restored
        have listed : point = (Vector.ofFn point).get := funext fun j => (get_ofFn point j).symm
        rw [listed] at admitted value
        refine ⟨(Vector.ofFn point).toArray, (admits_iff made _).mp admitted, ?_⟩
        rw [← value, value_eq_objectiveAt made]
      · intro larger outcome within largerClear largerReturned
        exact reported_of_larger largerClear made restored capped within largerReturned

/-- Maximize `3 y + 2 z` where `3 x + 2 y + z = 6`. -/
def slowClimb : Problem ℚ where
  vars := #[⟨0, 0, none⟩, ⟨1, 3, none⟩, ⟨2, 2, none⟩]
  constraints := #[⟨[(0, 3), (1, 2), (2, 1)], 6⟩]
  names := []

theorem slowClimb_rising :
    ofDense [0, 3, 2] [([3, 2, 1], 6)] = .ok slowClimb ∧
      slowClimb.SolvesClear ⟨1⟩ ∧ (slowClimb.solve ⟨1⟩).result = .ok (.capped (some 9)) ∧
      slowClimb.SolvesClear .standard ∧
      (slowClimb.solve .standard).result = .ok (.optimal ⟨12, #[0, 0, 6]⟩) ∧
      (∃ point, slowClimb.IsExactlyFeasible point ∧ 9 = slowClimb.objectiveAt point) ∧
      ∀ outcome, (slowClimb.solve .standard).result = .ok outcome →
        outcome = .unbounded ∨
          ∃ reported, 9 ≤ reported ∧
            (outcome = .capped (some reported) ∨
              ∃ point, outcome = .optimal ⟨reported, point⟩) := by
  have clear : slowClimb.SolvesClear ⟨1⟩ := by decide +kernel
  have returned : (slowClimb.solve ⟨1⟩).result = .ok (.capped (some 9)) := by decide +kernel
  have largerClear : slowClimb.SolvesClear .standard := by decide +kernel
  obtain ⟨feasible, rising⟩ := capped_feasible_and_rising clear returned
  refine ⟨rfl, clear, returned, largerClear, by decide +kernel, feasible, ?_⟩
  exact fun outcome => rising .standard outcome (by decide) largerClear

end TwoPhase.Problem
