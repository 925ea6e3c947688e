import TwoPhase.Proofs.Tableau.Certificate

/-!
# Rates along a column

The rate of an unknown along a column is what it gains when the column's variable grows by one and
the other nonbasic variables stay at zero.  The basic rows hold the negated rates of their
variables, the auxiliary row holds the rates of the auxiliary variable, and an unknown with a
negative rate is basic.

Raising all slacks and the auxiliary variable by the same amount keeps the system.  So in the row of
a basic auxiliary variable the entries of the nonbasic slacks add up to `-1`, and some entry is not
small.
-/

namespace TwoPhase

variable {n m : Nat}

namespace Tableau

/-- What an unknown gains when the variable of column `s` grows by one. -/
noncomputable def rate (t : Tableau ℚ n m) (s : Fin (m + 1)) (label : Label) : ℚ :=
  t.ray s 1 label - t.basicSolution label

section Rate

variable {form : StandardForm ℚ n m} {t : Tableau ℚ n m} {r : Fin n} {s : Fin (m + 1)}

theorem rate_basic (distinct : Function.Injective t.label) (i : Fin n) :
    t.rate s (t.basic i) = -t.entry (basicRow i) (nonbasicColumn s) := by
  rw [rate, ray, completion_basic distinct, sum_entry_mul_single, basicSolution_basic distinct]
  ring

theorem rate_nonbasic (distinct : Function.Injective t.label) (j : Fin (m + 1)) :
    t.rate s (t.nonbasic j) = if j = s then 1 else 0 := by
  rw [rate, ray, basicSolution, completion_nonbasic distinct, completion_nonbasic distinct,
    Pi.single_apply, Pi.zero_apply, sub_zero]

theorem rate_nonbasic_nonneg (distinct : Function.Injective t.label) (j : Fin (m + 1)) :
    0 ≤ t.rate s (t.nonbasic j) := by
  rw [rate_nonbasic distinct]
  split <;> simp

theorem Reaches.entry_auxiliaryRow (reached : Reaches (ofStandardForm form) t) :
    t.entry auxiliaryRow (nonbasicColumn s) = t.rate s .auxiliary := by
  have along := (reached.holds_ray s 1).auxiliary
  rw [reached.auxiliaryObjective_eq] at along
  rw [rate]
  linarith

/-- Only the rows of the tableau can make an unknown fall. -/
theorem Reaches.exists_basic_of_rate_neg (reached : Reaches (ofStandardForm form) t)
    {label : Label} (known : label ∈ unknowns n m) (falling : t.rate s label < 0) :
    ∃ i, t.basic i = label ∧ t.entry (basicRow i) (nonbasicColumn s) = -t.rate s label := by
  obtain ⟨i | j, isLabel⟩ := reached.exists_label_iff.mpr known
  · refine ⟨i, isLabel, ?_⟩
    rw [← isLabel, label_inl, rate_basic reached.label_injective, neg_neg]
  · rw [← isLabel, label_inr] at falling
    exact absurd (rate_nonbasic_nonneg reached.label_injective j) (not_le.mpr falling)

end Rate

end Tableau

namespace StandardForm

/-- One for each unknown but the decision variables. -/
def lift : Label → ℚ
  | .auxiliary => 1
  | .decision _ => 0
  | .slack _ => 1

@[simp]
theorem lift_auxiliary : lift .auxiliary = 1 := rfl

@[simp]
theorem lift_decision (index : Nat) : lift (.decision index) = 0 := rfl

@[simp]
theorem lift_slack (row : Nat) : lift (.slack row) = 1 := rfl

theorem Holds.add_lift {form : StandardForm ℚ n m} {values : Label → ℚ} {z w : ℚ}
    (holds : form.Holds values z w) : form.Holds (values + lift) z (w - 1) := by
  refine ⟨fun i => ?_, ?_, ?_⟩
  · rw [← holds.row i]
    simp only [Pi.add_apply, lift_decision, lift_slack, lift_auxiliary, add_zero]
    ring
  · rw [holds.objective]
    simp only [Pi.add_apply, lift_decision, add_zero]
  · rw [holds.auxiliary, Pi.add_apply, lift_auxiliary]
    ring

end StandardForm

namespace Tableau

section AuxiliaryBasic

variable {form : StandardForm ℚ n m} {t : Tableau ℚ n m} {r : Fin n}
  (reached : Reaches (ofStandardForm form) t) (isAuxiliary : t.basic r = .auxiliary)

include reached isAuxiliary

/-- In the row of a basic auxiliary variable the entries of the nonbasic slacks add up to `-1`. -/
theorem Reaches.sum_entry_mul_lift :
    ∑ j, t.entry (basicRow r) (nonbasicColumn j) * StandardForm.lift (t.nonbasic j) = -1 := by
  have distinct := reached.label_injective
  have lifted := (reached.form_holds_iff _ _ _).mpr reached.holds_basicSolution.add_lift
  have row := lifted.basic r
  have before := (Tableau.holds_basicSolution distinct).basic r
  simp only [reading, Pi.add_apply, mul_add, Finset.sum_add_distrib] at row before
  rw [before, isAuxiliary, StandardForm.lift_auxiliary] at row
  linarith

theorem Reaches.exists_nonbasic_slack : ∃ j row, t.nonbasic j = .slack row := by
  have nonzero : ∑ j, t.entry (basicRow r) (nonbasicColumn j) *
      StandardForm.lift (t.nonbasic j) ≠ 0 := by
    rw [reached.sum_entry_mul_lift isAuxiliary]
    norm_num
  obtain ⟨j, _, contributes⟩ := Finset.exists_ne_zero_of_sum_ne_zero nonzero
  cases isLabel : t.nonbasic j with
  | auxiliary =>
      have samePlace : t.label (.inr j) = t.label (.inl r) := by
        rw [label_inr, label_inl, isLabel, isAuxiliary]
      cases reached.label_injective samePlace
  | decision k => simp [isLabel] at contributes
  | slack row => exact ⟨j, row, isLabel⟩

/-- The row of a basic auxiliary variable has an entry of absolute value `1 / (m + 1)` or more. -/
theorem Reaches.exists_entry_large :
    ∃ j, 1 / ((m : ℚ) + 1) ≤ |t.entry (basicRow r) (nonbasicColumn j)| := by
  have total : ∑ _j : Fin (m + 1), 1 / ((m : ℚ) + 1) ≤
      ∑ j, |t.entry (basicRow r) (nonbasicColumn j)| := by
    calc ∑ _j : Fin (m + 1), 1 / ((m : ℚ) + 1)
        = |∑ j, t.entry (basicRow r) (nonbasicColumn j) * StandardForm.lift (t.nonbasic j)| := by
          rw [reached.sum_entry_mul_lift isAuxiliary, Finset.sum_const, Finset.card_univ,
            Fintype.card_fin, nsmul_eq_mul, Nat.cast_succ, mul_one_div_cancel (by positivity)]
          norm_num
      _ ≤ ∑ j, |t.entry (basicRow r) (nonbasicColumn j) * StandardForm.lift (t.nonbasic j)| :=
          Finset.abs_sum_le_sum_abs _ _
      _ ≤ ∑ j, |t.entry (basicRow r) (nonbasicColumn j)| := by
          apply Finset.sum_le_sum
          intro j _
          cases t.nonbasic j <;> simp
  obtain ⟨j, _, large⟩ := Finset.exists_le_of_sum_le Finset.univ_nonempty total
  exact ⟨j, large⟩

end AuxiliaryBasic

end Tableau

end TwoPhase
