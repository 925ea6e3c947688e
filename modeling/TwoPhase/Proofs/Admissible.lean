import TwoPhase.Proofs.Tableau.System

/-!
# Admissible points

The points that satisfy the inequalities of a form are those that some nonnegative solution of its
system has, with the auxiliary variable at zero.
-/

namespace TwoPhase.StandardForm

variable {n m : Nat}

/-- The point satisfies `A x ≤ b` and `x ≥ 0`. -/
structure Admits (form : StandardForm ℚ n m) (point : Fin m → ℚ) : Prop where
  nonneg (j : Fin m) : 0 ≤ point j
  row (i : Fin n) : ∑ j : Fin m, (form.rows.get i).get j * point j ≤ form.bounds.get i

/-- The objective `c·x` at a point. -/
def value (form : StandardForm ℚ n m) (point : Fin m → ℚ) : ℚ :=
  ∑ j : Fin m, form.objective.get j * point j

/-- The decision variables' part of some values. -/
def pointOf (values : Label → ℚ) (j : Fin m) : ℚ :=
  values (.decision j)

/-- The values of all unknowns at a point, the auxiliary variable at zero. -/
def valuesAt (form : StandardForm ℚ n m) (point : Fin m → ℚ) : Label → ℚ
  | .auxiliary => 0
  | .decision index => if known : index < m then point ⟨index, known⟩ else 0
  | .slack row =>
      if known : row < n then
        form.bounds.get ⟨row, known⟩ - ∑ j : Fin m, (form.rows.get ⟨row, known⟩).get j * point j
      else 0

variable {form : StandardForm ℚ n m} {point : Fin m → ℚ}

@[simp]
theorem valuesAt_decision (j : Fin m) : form.valuesAt point (.decision j) = point j := by
  simp [valuesAt]

theorem holds_valuesAt (form : StandardForm ℚ n m) (point : Fin m → ℚ) :
    form.Holds (form.valuesAt point) (form.value point) 0 := by
  refine ⟨fun i => ?_, ?_, ?_⟩
  · simp [valuesAt]
  · simp [value]
  · simp [valuesAt]

/-- Where a point satisfies the rows with equality, only decision variables have a value. -/
theorem exists_decision_of_valuesAt_ne_zero
    (equal : ∀ i, ∑ j : Fin m, (form.rows.get i).get j * point j = form.bounds.get i)
    {label : Label} (present : form.valuesAt point label ≠ 0) :
    ∃ k : Fin m, .decision k.val = label := by
  cases label with
  | auxiliary => exact absurd rfl present
  | decision index =>
      by_cases known : index < m
      · exact ⟨⟨index, known⟩, rfl⟩
      · exact absurd (dif_neg known) present
  | slack row =>
      by_cases known : row < n
      · rw [valuesAt, dif_pos known, equal, sub_self] at present
        exact absurd rfl present
      · exact absurd (dif_neg known) present

theorem Admits.valuesAt_nonneg (admitted : form.Admits point) (label : Label) :
    0 ≤ form.valuesAt point label := by
  cases label with
  | auxiliary => exact le_rfl
  | decision index =>
      by_cases known : index < m
      · rw [valuesAt, dif_pos known]
        exact admitted.nonneg _
      · rw [valuesAt, dif_neg known]
  | slack row =>
      by_cases known : row < n
      · rw [valuesAt, dif_pos known]
        exact sub_nonneg.mpr (admitted.row ⟨row, known⟩)
      · rw [valuesAt, dif_neg known]

theorem Holds.admits {values : Label → ℚ} {z w : ℚ} (holds : form.Holds values z w)
    (nonneg : ∀ label, 0 ≤ values label) (out : values .auxiliary = 0) :
    form.Admits (pointOf values) := by
  refine ⟨fun j => nonneg _, fun i => ?_⟩
  have row := holds.row i
  rw [out, sub_zero] at row
  rw [← row]
  exact le_add_of_nonneg_right (nonneg _)

theorem Holds.value_eq {values : Label → ℚ} {z w : ℚ} (holds : form.Holds values z w) :
    form.value (pointOf values) = z :=
  holds.objective.symm

end TwoPhase.StandardForm
