import TwoPhase.Proofs.Problem.PhaseOne

/-!
# Solves that always return

Solving a problem that checked additions built comes to an outcome.  No pivot is refused: the rules
choose entries above the tolerance, and a basic auxiliary variable leaves at an entry of at least
`1 / (m + 1)`, so phase two starts without it.
-/

namespace TwoPhase.Problem

theorem exists_result {problem : Problem ℚ}
    {form : StandardForm ℚ (2 * problem.constraints.size) problem.vars.size}
    (made : StandardForm.ofProblem? problem = some form)
    (few : problem.vars.size + 1 < 10 ^ 9) (cap : PivotCap) :
    ∃ outcome, (problem.solve cap).result = .ok outcome := by
  unfold solve
  simp only [made, Reported.after]
  exact Tableau.exists_outcome form few _

/-- A solve returns an outcome.  On its way the iterations of a phase are numbered below `2 ^ 64`,
the rules never choose an entry near zero, driving out the auxiliary variable uses an entry of at
least `1 / (m + 1)`, and a feasible basis does not hold the auxiliary variable. -/
theorem solve_returns {problem : Problem ℚ} {cap : PivotCap} (built : problem.Built)
    (few : problem.vars.size + 1 < 10 ^ 9) (limited : cap.pivots.toNat < 2 ^ 64 - 1) :
    (∃ outcome, (problem.solve cap).result = .ok outcome) ∧
      ∃ form, StandardForm.ofProblem? problem = some form ∧
        (∀ (t : Tableau ℚ (2 * problem.constraints.size) problem.vars.size) phase,
          (t.runPhase phase cap.pivots.toNat).pivots + 1 < 2 ^ 64) ∧
        (∀ t ∈ (Tableau.ofStandardForm form).solveTrail cap.pivots.toNat, ∀ phase r s,
          t.choose phase = .pivot r s →
            Scalar.tolerance < |t.entry (Tableau.basicRow r) (Tableau.nonbasicColumn s)|) ∧
        (∀ entered, (Tableau.ofStandardForm form).restorationStart? = some entered →
          ∀ last, last = (entered.runPhase .one cap.pivots.toNat).final →
            ∀ r, last.basic r = .auxiliary →
              1 / ((problem.vars.size : ℚ) + 1) ≤
                |last.entry (Tableau.basicRow r)
                  (Tableau.nonbasicColumn (last.largestColumn (Tableau.basicRow r)))|) ∧
        ∀ feasible, ((Tableau.ofStandardForm form).restoreFeasibility cap.pivots.toNat).result =
            .ok (.feasible feasible) →
          ∀ i, feasible.basic i ≠ .auxiliary := by
  obtain ⟨form, made⟩ := built.exists_form
  refine ⟨exists_result made few cap, form, made, ?_, ?_, ?_, ?_⟩
  · intro t phase
    have within := t.runPhase_pivots_le phase cap.pivots.toNat
    omega
  · intro t _ phase r s choice
    exact Tableau.entry_large_of_choose choice
  · intro entered started last isLast r isAuxiliary
    subst isLast
    have reached := Tableau.reaches_of_restoration started
      (Tableau.runPhase_final_mem entered .one cap.pivots.toNat)
    exact reached.largestColumn_large isAuxiliary
  · intro feasible restored
    exact Tableau.auxiliary_not_basic_of_restored (Tableau.restores_of_result restored)

theorem faintEquality_returns :
    ofDense [1] [([1 / 10 ^ 9], 1)] = .ok faintEquality ∧
      (∃ outcome, (faintEquality.solve .standard).result = .ok outcome) ∧
      ∃ entered last, (Tableau.ofStandardForm faintForm).restorationStart? = some entered ∧
        last = (entered.runPhase .one PivotCap.standard.pivots.toNat).final ∧
        last.basic 1 = .auxiliary ∧
        1 / ((faintEquality.vars.size : ℚ) + 1) ≤
          |last.entry (Tableau.basicRow 1)
            (Tableau.nonbasicColumn (last.largestColumn (Tableau.basicRow 1)))| := by
  have dense : ofDense [1] [([1 / 10 ^ 9], 1)] = .ok faintEquality := by rfl
  have made : StandardForm.ofProblem? faintEquality = some faintForm := by
    with_unfolding_all rfl
  have limited : PivotCap.standard.pivots.toNat < 2 ^ 64 - 1 := by decide
  obtain ⟨returns, form, isForm, _, _, drivenOut, _⟩ :=
    solve_returns (built_of_ofDense dense) (by decide) limited
  obtain rfl : faintForm = form := Option.some.inj (made.symm.trans isForm)
  have started : (Tableau.ofStandardForm faintForm).restorationStart? =
      some ((Tableau.ofStandardForm faintForm).exchange 1 Tableau.auxiliaryColumn) :=
    Tableau.restorationStart?_eq_some_iff.mpr
      ⟨1, by decide +kernel, by decide +kernel, Tableau.pivotAt_auxiliaryColumn faintForm 1⟩
  have isAuxiliary : (((Tableau.ofStandardForm faintForm).exchange 1
      Tableau.auxiliaryColumn).runPhase .one PivotCap.standard.pivots.toNat).final.basic 1 =
        .auxiliary := by
    decide +kernel
  exact ⟨dense, returns, _, _, started, rfl, isAuxiliary,
    drivenOut _ started _ rfl (1 : Fin 2) isAuxiliary⟩

end TwoPhase.Problem
