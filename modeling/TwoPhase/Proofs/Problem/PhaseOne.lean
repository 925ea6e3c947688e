import TwoPhase.Proofs.Acceptance
import TwoPhase.Proofs.Problem.Equalities

/-!
# Phase one is bounded

The two slacks of a constraint add up to twice the auxiliary variable.  So where the auxiliary
variable falls along a column, each nonbasic slack has an opposite slack that falls twice as fast,
and the row of that slack bounds the column.  Phase one therefore never finds a column unlimited,
even if the row of the auxiliary variable itself is refused.
-/

namespace TwoPhase

section Opposite

variable {problem : Problem ℚ}
  {form : StandardForm ℚ (2 * problem.constraints.size) problem.vars.size}
  (made : StandardForm.ofProblem? problem = some form)

include made

theorem StandardForm.exists_opposite_slack {row : Nat}
    (known : row < 2 * problem.constraints.size) :
    ∃ opposite < 2 * problem.constraints.size, ∀ values z w, form.Holds values z w →
      values (.slack row) + values (.slack opposite) = 2 * values .auxiliary := by
  obtain ⟨i, isUpper | isLower⟩ :
      ∃ i : Fin problem.constraints.size, row = 2 * i ∨ row = 2 * i + 1 :=
    ⟨⟨row / 2, by omega⟩, by simp only; omega⟩
  · subst isUpper
    refine ⟨2 * i + 1, by omega, ?_⟩
    intro values z w holds
    exact holds.slack_add_slack made i
  · subst isLower
    refine ⟨2 * i, by omega, ?_⟩
    intro values z w holds
    rw [add_comm]
    exact holds.slack_add_slack made i

namespace Tableau

variable {t : Tableau ℚ (2 * problem.constraints.size) problem.vars.size}
  {s : Fin (problem.vars.size + 1)}

/-- Along every column a nonbasic slack has an opposite one, which alone makes up for the change of
the auxiliary variable. -/
theorem Reaches.exists_opposite_rate (reached : Reaches (ofStandardForm form) t)
    {j : Fin (problem.vars.size + 1)} {row : Nat} (isSlack : t.nonbasic j = .slack row) :
    ∃ opposite, .slack opposite ∈ unknowns (2 * problem.constraints.size) problem.vars.size ∧
      t.rate s (.slack opposite) ≤ 2 * t.rate s .auxiliary := by
  have unknown := reached.exists_label_iff.mp ⟨.inr j, isSlack⟩
  have known : row < 2 * problem.constraints.size := by simpa [mem_unknowns_iff] using unknown
  obtain ⟨opposite, oppositeKnown, opposed⟩ := StandardForm.exists_opposite_slack made known
  refine ⟨opposite, by simpa [mem_unknowns_iff] using oppositeKnown, ?_⟩
  have along := opposed _ _ _ (reached.holds_ray s 1)
  have before := opposed _ _ _ reached.holds_basicSolution
  have still := isSlack ▸ rate_nonbasic_nonneg (s := s) reached.label_injective j
  simp only [rate] at still ⊢
  linarith

/-- A column that lowers the auxiliary variable is bounded by some row. -/
theorem Reaches.exists_leaving (reached : Reaches (ofStandardForm form) t) {phase : Phase}
    (enters : t.entering auxiliaryRow phase = some s) :
    ∃ r, t.leaving (nonbasicColumn s) = some r := by
  have low := not_lt.mp (entering_eq_some_iff.mp enters).2
  rw [reached.entry_auxiliaryRow] at low
  have positive := Scalar.tolerance_pos
  obtain ⟨r, isAuxiliary, _⟩ :=
    reached.exists_basic_of_rate_neg (mem_unknowns_iff.mpr (.inl rfl)) (by linarith)
  obtain ⟨j, row, isSlack⟩ := reached.exists_nonbasic_slack isAuxiliary
  obtain ⟨opposite, known, falls⟩ := reached.exists_opposite_rate made (s := s) isSlack
  obtain ⟨i, _, entry⟩ := reached.exists_basic_of_rate_neg known (by linarith)
  have bounding : i ∈ t.boundingRows (nonbasicColumn s) := by
    rw [mem_boundingRows_iff, entry]
    linarith
  cases leaves : t.leaving (nonbasicColumn s) with
  | none =>
      rw [boundingRows_eq_nil_of_leaving leaves] at bounding
      cases bounding
  | some r => exact ⟨r, rfl⟩

theorem verdict_ne_unbounded
    {entered : Tableau ℚ (2 * problem.constraints.size) problem.vars.size}
    (reached : Reaches (ofStandardForm form) entered) (cap : Nat) :
    (entered.runPhase .one cap).verdict ≠ .ok .unbounded := by
  intro verdict
  have finalReached :=
    reached.trans (reaches_of_mem_phaseTrail (runPhase_final_mem entered .one cap))
  obtain ⟨s, choice⟩ := choose_final_of_unbounded verdict
  obtain ⟨enters, leaves⟩ := choose_eq_unlimited_iff.mp choice
  obtain ⟨r, bounded⟩ := finalReached.exists_leaving made enters
  rw [leaves] at bounded
  cases bounded

end Tableau

end Opposite

namespace Problem

/-- Where phase one starts, it never ends unbounded: at each of its tableaux, a column that may
enter, be its entry no lower than `-tolerance` itself, is bounded by a row. -/
theorem phaseOne_bounded {problem : Problem ℚ} (built : problem.Built) (cap : PivotCap) :
    ∃ form, StandardForm.ofProblem? problem = some form ∧
      ∀ i, (Tableau.ofStandardForm form).rhs (Tableau.basicRow i) < -Scalar.tolerance →
        ∃ entered, (Tableau.ofStandardForm form).restorationStart? = some entered ∧
          (entered.runPhase .one cap.pivots.toNat).verdict ≠ .ok .unbounded ∧
          ∀ t ∈ entered.phaseTrail .one cap.pivots.toNat, ∀ s,
            t.entering Tableau.auxiliaryRow .one = some s →
              ∃ r, t.leaving (Tableau.nonbasicColumn s) = some r := by
  obtain ⟨form, made⟩ := built.exists_form
  refine ⟨form, made, ?_⟩
  intro i below
  obtain ⟨entered, started⟩ := Tableau.exists_restorationStart below
  have reached := Tableau.reaches_of_restorationStart? started
  refine ⟨entered, started, Tableau.verdict_ne_unbounded made reached _, ?_⟩
  intro t member s enters
  exact (reached.trans (Tableau.reaches_of_mem_phaseTrail member)).exists_leaving made enters

/-- Maximize `x` where `x / 10 ^ 9 = 1`: the coefficient is no larger than the tolerance. -/
def faintEquality : Problem ℚ where
  vars := #[⟨0, 1, none⟩]
  constraints := #[⟨[(0, 1 / 10 ^ 9)], 1⟩]
  names := []

/-- The inequality form of `faintEquality`. -/
def faintForm : StandardForm ℚ 2 1 where
  objective := .replicate 1 1
  rows := #v[#v[1 / 10 ^ 9], #v[-1 / 10 ^ 9]]
  bounds := #v[1, -1]

theorem faintEquality_phaseOne_bounded :
    ofDense [1] [([1 / 10 ^ 9], 1)] = .ok faintEquality ∧
      StandardForm.ofProblem? faintEquality = some faintForm ∧
      ∃ entered, (Tableau.ofStandardForm faintForm).restorationStart? = some entered ∧
        entered.entering Tableau.auxiliaryRow .one = some 0 ∧
        entered.entry Tableau.auxiliaryRow (Tableau.nonbasicColumn 0) = -Scalar.tolerance ∧
        (entered.runPhase .one PivotCap.standard.pivots.toNat).verdict ≠ .ok .unbounded ∧
        ∃ r, entered.leaving (Tableau.nonbasicColumn 0) = some r := by
  have dense : ofDense [1] [([1 / 10 ^ 9], 1)] = .ok faintEquality := by rfl
  have made : StandardForm.ofProblem? faintEquality = some faintForm := by
    with_unfolding_all rfl
  obtain ⟨form, isForm, bounded⟩ := phaseOne_bounded (built_of_ofDense dense) .standard
  obtain rfl : faintForm = form := Option.some.inj (made.symm.trans isForm)
  obtain ⟨entered, started, verdict, leaves⟩ := bounded (1 : Fin 2) (by decide +kernel)
  have isEntered : (Tableau.ofStandardForm faintForm).restorationStart? =
      some ((Tableau.ofStandardForm faintForm).exchange 1 Tableau.auxiliaryColumn) :=
    Tableau.restorationStart?_eq_some_iff.mpr
      ⟨1, by decide +kernel, by decide +kernel, Tableau.pivotAt_auxiliaryColumn faintForm 1⟩
  obtain rfl := Option.some.inj (isEntered.symm.trans started)
  have enters : ((Tableau.ofStandardForm faintForm).exchange 1 Tableau.auxiliaryColumn).entering
      Tableau.auxiliaryRow .one = some 0 := by decide +kernel
  refine ⟨dense, made, _, started, enters, by decide +kernel, verdict, ?_⟩
  exact leaves _ (Tableau.start_mem_phaseTrail _ _ _) 0 enters

end Problem

end TwoPhase
