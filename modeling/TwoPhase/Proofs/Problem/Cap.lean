import Mathlib.Order.Basic
import TwoPhase.Solver

/-!
# Larger caps

The cap on pivots is looked at only where a phase would otherwise go on.  So a solve that ends
before its cap, be it with an outcome or with a fault, is the same solve under every larger cap, the
events on its way included.
-/

namespace TwoPhase

variable {α : Type} {n m : Nat} [Scalar α]

namespace Tableau

theorem runFrom_add_of_finished {phase : Phase} {remaining pivots : Nat}
    {events : Array (Event α)} {t : Tableau α n m}
    (finished : (t.runFrom phase remaining pivots events).verdict ≠ .ok .capped) (more : Nat) :
    t.runFrom phase (remaining + more) pivots events =
      t.runFrom phase remaining pivots events := by
  induction remaining generalizing t pivots events with
  | zero =>
      unfold runFrom at finished ⊢
      cases choice : t.choose phase with
      | optimal => rfl
      | unlimited s => rfl
      | pivot r s => simp [choice] at finished
  | succ remaining inductionHypothesis =>
      rw [Nat.succ_add_eq_add_succ]
      unfold runFrom at finished ⊢
      cases choice : t.choose phase with
      | optimal => rfl
      | unlimited s => rfl
      | pivot r s =>
          simp only [choice] at finished ⊢
          cases accepted : t.pivotAt r s with
          | error refusal => rfl
          | ok next =>
              simp only [accepted] at finished ⊢
              exact inductionHypothesis finished

theorem runPhase_of_finished {phase : Phase} {cap larger : Nat} {t : Tableau α n m}
    (finished : (t.runPhase phase cap).verdict ≠ .ok .capped) (within : cap ≤ larger) :
    t.runPhase phase larger = t.runPhase phase cap := by
  obtain ⟨more, isLarger⟩ := Nat.exists_eq_add_of_le within
  rw [isLarger]
  exact runFrom_add_of_finished finished more

theorem phaseOneFrom_of_finished {r : Fin n} {cap larger : Nat} {t : Tableau α n m}
    (finished : ∀ objective, (t.phaseOneFrom r cap).result ≠ .ok (.settled (.capped objective)))
    (within : cap ≤ larger) : t.phaseOneFrom r larger = t.phaseOneFrom r cap := by
  unfold phaseOneFrom at finished ⊢
  cases accepted : t.pivotAt r auxiliaryColumn with
  | error refusal => rfl
  | ok entered =>
      simp only [accepted] at finished ⊢
      have phaseFinished : (entered.runPhase .one cap).verdict ≠ .ok .capped := by
        intro capped
        apply finished none
        simp [Reported.after, concludePhaseOne, capped]
      rw [runPhase_of_finished phaseFinished within]

theorem restoreFeasibility_of_finished {cap larger : Nat} {t : Tableau α n m}
    (finished : ∀ objective,
      (t.restoreFeasibility cap).result ≠ .ok (.settled (.capped objective)))
    (within : cap ≤ larger) : t.restoreFeasibility larger = t.restoreFeasibility cap := by
  unfold restoreFeasibility at finished ⊢
  cases lowest : t.lowestRow with
  | none => rfl
  | some r =>
      simp only [lowest] at finished ⊢
      by_cases below : t.rhs (basicRow r) < -Scalar.tolerance
      · simp only [if_pos below] at finished ⊢
        rw [phaseOneFrom_of_finished finished within]
      · simp only [if_neg below]

theorem solve_of_finished {cap larger : Nat} {t : Tableau α n m}
    (finished : ∀ objective, (t.solve cap).result ≠ .ok (.capped objective))
    (within : cap ≤ larger) : t.solve larger = t.solve cap := by
  have restorationFinished (objective : Option α) :
      (t.restoreFeasibility cap).result ≠ .ok (.settled (.capped objective)) := by
    intro capped
    apply finished objective
    simp [solve, capped]
  unfold solve at finished ⊢
  rw [restoreFeasibility_of_finished restorationFinished within]
  cases restored : (t.restoreFeasibility cap).result with
  | error refusal => simp only [restored]
  | ok restoration =>
      cases restoration with
      | settled outcome => simp only [restored]
      | feasible feasible =>
          simp only [restored] at finished ⊢
          have phaseFinished : (feasible.runPhase .two cap).verdict ≠ .ok .capped := by
            intro capped
            apply finished (some (feasible.runPhase .two cap).final.objective)
            simp [Reported.after, concludePhaseTwo, capped]
          rw [runPhase_of_finished phaseFinished within]

end Tableau

namespace Problem

/-- A solve that its cap does not stop is the same under every larger cap. -/
theorem solve_eq_of_finished {problem : Problem α} {cap larger : PivotCap}
    (finished : ∀ objective, (problem.solve cap).result ≠ .ok (.capped objective))
    (within : cap.pivots ≤ larger.pivots) : problem.solve larger = problem.solve cap := by
  unfold solve at finished ⊢
  cases made : StandardForm.ofProblem? problem with
  | none => rfl
  | some form =>
      simp only [made] at finished ⊢
      rw [Tableau.solve_of_finished finished (UInt64.le_iff_toNat_le.mp within)]

/-- Maximize `x` where `x = 5`, over binary64. -/
def fiveEquality : Problem Float where
  vars := #[⟨0, 1, none⟩]
  constraints := #[⟨[(0, 1)], 5⟩]
  names := []

theorem fiveEquality_solve_standard :
    ((fiveEquality.solve ⟨1⟩).result.toOption.bind Outcome.solution?).map Solution.objective =
        some 5 ∧
      fiveEquality.solve .standard = fiveEquality.solve ⟨1⟩ := by
  have optimal : ((fiveEquality.solve ⟨1⟩).result.toOption.bind Outcome.solution?).map
      Solution.objective = some 5 := by decide +kernel
  refine ⟨optimal, solve_eq_of_finished ?_ (by decide)⟩
  intro objective capped
  rw [capped] at optimal
  cases optimal

end Problem

end TwoPhase
