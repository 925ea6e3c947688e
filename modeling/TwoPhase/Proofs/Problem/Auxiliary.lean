import Mathlib.LinearAlgebra.Matrix.Notation
import TwoPhase.Proofs.Acceptance
import TwoPhase.Proofs.Auxiliary
import TwoPhase.Proofs.Problem.Built
import TwoPhase.Proofs.Problem.Outcome

/-!
# Phase one of a problem

What phase one does with the auxiliary variable, for a problem that was built by checked additions:
it stops once the variable is nonbasic, and on a clear solve nothing is left to drive out.
-/

namespace TwoPhase.Problem

variable {problem : Problem ℚ}

/-- Once the auxiliary variable is nonbasic, the auxiliary row is one in its column and zero
elsewhere, the right-hand side included, and phase one stops there as optimal.  On a clear solve the
variable leaves the basis by the pivot that brings it from a positive value to zero, so that driving
it out makes no pivot. -/
theorem auxiliary_leaves_at_zero (built : problem.Built) (cap : PivotCap) :
    ∃ form, StandardForm.ofProblem? problem = some form ∧
      ∀ entered, (Tableau.ofStandardForm form).restorationStart? = some entered →
        let run := entered.runPhase .one cap.pivots.toNat
        let trail := entered.phaseTrail .one cap.pivots.toNat
        (∀ t ∈ trail, ∀ s, t.nonbasic s = .auxiliary →
          (∀ j, t.entry Tableau.auxiliaryRow j = if j = Tableau.nonbasicColumn s then 1 else 0) ∧
            run.final = t ∧ run.verdict = .ok .optimal) ∧
        (problem.SolvesClear cap →
          (∀ t ∈ trail, ∀ r s next, t.choose .one = .pivot r s → t.pivotAt r s = .ok next →
            0 < t.valueOf .auxiliary ∧
              (t.basic r = .auxiliary ↔ next.valueOf .auxiliary = 0)) ∧
          (run.verdict = .ok .optimal →
            ¬ Scalar.tolerance < Scalar.abs run.final.auxiliaryObjective →
              run.final.driveOut = ⟨.ok run.final, #[]⟩)) := by
  obtain ⟨form, made⟩ := built.exists_form
  refine ⟨form, made, ?_⟩
  intro entered started run trail
  constructor
  · intro t member s isAuxiliary
    have reached := Tableau.reaches_of_restoration started member
    exact ⟨reached.entry_auxiliaryRow_of_nonbasic isAuxiliary,
      Tableau.runPhase_of_auxiliary_nonbasic reached member isAuxiliary⟩
  intro solvesClear
  have clear := Tableau.clear_feasibilityTests (clear_of_solvesClear solvesClear made)
  constructor
  · intro t member r s next choice accepted
    obtain ⟨_, equality⟩ := Tableau.pivotAt_eq_ok_iff.mp accepted
    rw [equality]
    exact Tableau.auxiliary_leaves_iff clear started member choice
  · intro verdict small
    exact Tableau.driveOut_of_restoration clear started verdict (by simpa using small)

/-- The inequality form of `crossingLines`. -/
def crossingForm : StandardForm ℚ 4 2 where
  objective := #v[1, 1]
  rows := .ofFn fun i => .ofFn (!![1, 1; -1, -1; 1, -1; -1, 1] i)
  bounds := #v[4, -4, 2, -2]

/-- The tableau on which phase one of `crossingLines` starts. -/
def crossingEntered : Tableau ℚ 4 2 :=
  (Tableau.ofStandardForm crossingForm).exchange 1 Tableau.auxiliaryColumn

theorem crossingLines_auxiliary_leaves :
    ofDense [1, 1] [([1, 1], 4), ([1, -1], 2)] = .ok crossingLines ∧
      StandardForm.ofProblem? crossingLines = some crossingForm ∧
      crossingLines.SolvesClear .standard ∧
      (Tableau.ofStandardForm crossingForm).restorationStart? = some crossingEntered ∧
      0 < crossingEntered.valueOf .auxiliary ∧
      (crossingEntered.exchange 2 0).valueOf .auxiliary ≠ 0 ∧
      let run := crossingEntered.runPhase .one 100000
      run.pivots = 2 ∧ run.verdict = .ok .optimal ∧
        (∀ j, run.final.entry Tableau.auxiliaryRow j =
          if j = Tableau.nonbasicColumn 1 then 1 else 0) ∧
        run.final.driveOut = ⟨.ok run.final, #[]⟩ := by
  have dense : ofDense [1, 1] [([1, 1], 4), ([1, -1], 2)] = .ok crossingLines := by rfl
  have made : StandardForm.ofProblem? crossingLines = some crossingForm := by
    with_unfolding_all rfl
  have clear : crossingLines.SolvesClear .standard := by decide +kernel
  have started : (Tableau.ofStandardForm crossingForm).restorationStart? = some crossingEntered :=
    Tableau.restorationStart?_eq_some_iff.mpr
      ⟨1, by decide +kernel, by decide +kernel, Tableau.pivotAt_auxiliaryColumn crossingForm 1⟩
  obtain ⟨form, isForm, leaves⟩ := auxiliary_leaves_at_zero (built_of_ofDense dense) .standard
  obtain rfl : crossingForm = form := Option.some.inj (made.symm.trans isForm)
  obtain ⟨stops, onClear⟩ := leaves crossingEntered started
  obtain ⟨pivots, nothingLeft⟩ := onClear clear
  have choice : crossingEntered.choose .one = .pivot 2 0 := by decide +kernel
  obtain ⟨positive, leavesIff⟩ := pivots _ (Tableau.start_mem_phaseTrail _ _ _) (2 : Fin 4) 0 _
    choice (Tableau.pivotAt_of_choose choice)
  have stays : crossingEntered.basic 2 ≠ .auxiliary := by decide +kernel
  obtain ⟨row, _, verdict⟩ := stops _ (Tableau.runPhase_final_mem crossingEntered .one _) 1
    (by decide +kernel)
  refine ⟨dense, made, clear, started, positive, fun zero => stays (leavesIff.mpr zero),
    by decide +kernel, verdict, row, ?_⟩
  exact nothingLeft verdict (by decide +kernel)

end TwoPhase.Problem
