import TwoPhase.Proofs.Feasibility
import TwoPhase.Proofs.Tableau.Primal

/-!
# The verdicts of a clear solve

What a solve of a standard form says about its admissible points, if every value that the solve
tests is clear of the tolerance.
-/

namespace TwoPhase.Tableau

variable {n m : Nat}

theorem primal?_eq_basicSolution {t : Tableau ℚ n m} {point : Vector ℚ m}
    (distinct : Function.Injective t.label) (result : t.primal? = some point) :
    point.get = StandardForm.pointOf t.basicSolution := by
  funext j
  rw [StandardForm.pointOf]
  by_cases somewhere : ∃ i, t.basic i = .decision j
  · obtain ⟨i, isBasic⟩ := somewhere
    rw [primal_of_basic distinct result isBasic, ← isBasic, basicSolution_basic distinct]
  · have notBasic (i : Fin n) : t.basic i ≠ .decision j := fun isBasic => somewhere ⟨i, isBasic⟩
    rw [primal_of_not_basic result notBasic, basicSolution_eq_zero notBasic distinct]

section Verdict

variable {form : StandardForm ℚ n m} {cap : Nat}
  (clear : ∀ value ∈ (ofStandardForm form).solveTests cap, Clear value)

include clear

theorem optimal_of_maximization {feasible : Tableau ℚ n m} {point : Vector ℚ m}
    (restored : ((ofStandardForm form).restoreFeasibility cap).result = .ok (.feasible feasible))
    (verdict : (feasible.runPhase .two cap).verdict = .ok .optimal)
    (primal : (feasible.runPhase .two cap).final.primal? = some point) :
    form.Admits point.get ∧
      form.value point.get = (feasible.runPhase .two cap).final.objective ∧
      ∀ other, form.Admits other →
        form.value other ≤ (feasible.runPhase .two cap).final.objective := by
  have member := runPhase_final_mem feasible .two cap
  obtain ⟨reached, out⟩ := reaches_of_maximization restored member
  have isFeasible := isFeasible_of_maximization (clear_feasibilityTests clear) restored member
  rw [primal?_eq_basicSolution reached.label_injective primal]
  refine ⟨reached.admits_basicSolution isFeasible out, reached.value_basicSolution, ?_⟩
  intro other admitted
  apply reached.value_le_objective _ admitted
  intro j otherLabel
  apply entry_nonneg_of_optimal (clear_maximization clear restored member)
    (choose_final_of_optimal verdict)
  exact mem_candidates_iff.mpr (.inr otherLabel)

theorem restoration_not_unlimited {entered : Tableau ℚ n m}
    (started : (ofStandardForm form).restorationStart? = some entered) :
    (entered.runPhase .one cap).verdict ≠ .ok .unbounded := by
  intro verdict
  have member := runPhase_final_mem entered .one cap
  obtain ⟨s, choice⟩ := choose_final_of_unbounded verdict
  have falling := entry_nonpos_of_unlimited
    (clear_blockingTests (clear_restoration clear started member)) choice
  have nonneg := (reaches_of_restoration started member).entry_auxiliaryRow_nonneg
    (isFeasible_of_restoration (clear_feasibilityTests clear) started member) falling
  have negative := entry_neg_of_entering (choose_eq_unlimited_iff.mp choice).1
  exact absurd nonneg (not_le.mpr negative)

theorem not_admits_of_infeasible
    (restored : (ofStandardForm form).Restores cap (.settled .infeasible)) (point : Fin m → ℚ) :
    ¬ form.Admits point := by
  intro admitted
  cases restored with
  | unlimited started verdict => exact restoration_not_unlimited clear started verdict
  | @positive entered started verdict large =>
      have member := runPhase_final_mem entered .one cap
      have reached := reaches_of_restoration started member
      have certified (j : Fin (m + 1)) :
          0 ≤ (entered.runPhase .one cap).final.entry auxiliaryRow (nonbasicColumn j) := by
        apply entry_nonneg_of_optimal (clear_restoration clear started member)
          (choose_final_of_optimal verdict)
        exact mem_candidates_iff.mpr (.inl rfl)
      have zero : (entered.runPhase .one cap).final.auxiliaryObjective = 0 :=
        le_antisymm
          (reached.auxiliaryObjective_nonpos
            (isFeasible_of_restoration (clear_feasibilityTests clear) started member))
          (reached.auxiliaryObjective_nonneg certified admitted)
      rw [zero] at large
      exact Scalar.ne_zero_of_large large rfl

theorem exists_admits_gt_of_unbounded {feasible : Tableau ℚ n m}
    (restored : ((ofStandardForm form).restoreFeasibility cap).result = .ok (.feasible feasible))
    (verdict : (feasible.runPhase .two cap).verdict = .ok .unbounded) (bound : ℚ) :
    ∃ point, form.Admits point ∧ bound < form.value point := by
  have member := runPhase_final_mem feasible .two cap
  obtain ⟨reached, out⟩ := reaches_of_maximization restored member
  have isFeasible := isFeasible_of_maximization (clear_feasibilityTests clear) restored member
  obtain ⟨s, choice⟩ := choose_final_of_unbounded verdict
  have enters := (choose_eq_unlimited_iff.mp choice).1
  have candidate := mem_candidates_iff.mp (mem_candidates_of_entering enters)
  apply reached.exists_admits_gt isFeasible out (candidate.resolve_left (by simp))
  · exact entry_nonpos_of_unlimited
      (clear_blockingTests (clear_maximization clear restored member)) choice
  · exact entry_neg_of_entering enters

end Verdict

end TwoPhase.Tableau
