import TwoPhase.Proofs.Admissible
import TwoPhase.Proofs.Tableau.Completion

/-!
# What a last tableau certifies

A tableau that pivots reach certifies by the signs of its entries: that its basic solution is
optimal, that no point is admissible, or that a ray of admissible points raises the objective
without limit.  Entries that are only a margin below zero certify how far from optimal the basic
solution can be.
-/

namespace TwoPhase.Tableau

variable {n m : Nat} {form : StandardForm ℚ n m} {t : Tableau ℚ n m} {point : Fin m → ℚ}

theorem reading_le_rhs {values : Label → ℚ} {i : Fin (n + 2)}
    (terms : ∀ j, 0 ≤ t.entry i (nonbasicColumn j) * values (t.nonbasic j)) :
    t.reading values i ≤ t.rhs i :=
  sub_le_self _ (Finset.sum_nonneg fun j _ => terms j)

/-- Where no column but the auxiliary variable's has an entry below `-margin` in the objective row,
an admissible point has at most `margin` more than the objective for each unit of its nonbasic
unknowns. -/
theorem Reaches.value_le_objective_add (reached : Reaches (ofStandardForm form) t) (margin : ℚ)
    (certified : ∀ j, t.nonbasic j ≠ .auxiliary →
      -margin ≤ t.entry objectiveRow (nonbasicColumn j))
    (admitted : form.Admits point) :
    form.value point ≤ t.objective + margin * ∑ j, form.valuesAt point (t.nonbasic j) := by
  have holds := (reached.form_holds_iff _ _ _).mpr (form.holds_valuesAt point)
  have terms (j : Fin (m + 1)) : -margin * form.valuesAt point (t.nonbasic j) ≤
      t.entry objectiveRow (nonbasicColumn j) * form.valuesAt point (t.nonbasic j) := by
    by_cases out : t.nonbasic j = .auxiliary
    · rw [out]
      exact (mul_zero _).trans_le (mul_zero _).ge
    · exact mul_le_mul_of_nonneg_right (certified j out) (admitted.valuesAt_nonneg _)
  have summed := Finset.sum_le_sum fun j (_ : j ∈ Finset.univ) => terms j
  rw [← Finset.mul_sum] at summed
  rw [holds.objective, reading, objective]
  linarith

/-- Where no column but the auxiliary variable's has a negative entry in the objective row, no
admissible point has a larger objective. -/
theorem Reaches.value_le_objective (reached : Reaches (ofStandardForm form) t)
    (certified : ∀ j, t.nonbasic j ≠ .auxiliary → 0 ≤ t.entry objectiveRow (nonbasicColumn j))
    (admitted : form.Admits point) : form.value point ≤ t.objective := by
  have bound := reached.value_le_objective_add 0
    (fun j out => neg_zero.trans_le (certified j out)) admitted
  rwa [zero_mul, add_zero] at bound

/-- Where a point satisfies the rows with equality, the nonbasic unknowns have no more than its
components in total. -/
theorem Reaches.sum_valuesAt_nonbasic_le (reached : Reaches (ofStandardForm form) t)
    (admitted : form.Admits point)
    (equal : ∀ i, ∑ j : Fin m, (form.rows.get i).get j * point j = form.bounds.get i) :
    ∑ j, form.valuesAt point (t.nonbasic j) ≤ ∑ k, point k := by
  have distinct : Function.Injective t.nonbasic :=
    reached.label_injective.comp Sum.inr_injective
  have decisions : Function.Injective fun k : Fin m => Label.decision k := by
    intro k l same
    exact Fin.ext (Label.decision.inj same)
  calc ∑ j, form.valuesAt point (t.nonbasic j)
      = ∑ label ∈ Finset.univ.image t.nonbasic with form.valuesAt point label ≠ 0,
          form.valuesAt point label := by
        rw [Finset.sum_filter_ne_zero, Finset.sum_image distinct.injOn]
    _ ≤ ∑ label ∈ Finset.univ.image fun k : Fin m => Label.decision k,
          form.valuesAt point label := by
        apply Finset.sum_le_sum_of_subset_of_nonneg
        · intro label member
          obtain ⟨k, isLabel⟩ := StandardForm.exists_decision_of_valuesAt_ne_zero equal
            (Finset.mem_filter.mp member).2
          exact Finset.mem_image.mpr ⟨k, Finset.mem_univ k, isLabel⟩
        · intro label _ _
          exact admitted.valuesAt_nonneg label
    _ = ∑ k, point k := by
        rw [Finset.sum_image decisions.injOn]
        simp only [StandardForm.valuesAt_decision]

/-- Where the auxiliary row has no negative entry, its objective is not negative if any point is
admissible. -/
theorem Reaches.auxiliaryObjective_nonneg (reached : Reaches (ofStandardForm form) t)
    (certified : ∀ j, 0 ≤ t.entry auxiliaryRow (nonbasicColumn j))
    (admitted : form.Admits point) : 0 ≤ t.auxiliaryObjective := by
  have holds := (reached.form_holds_iff _ _ _).mpr (form.holds_valuesAt point)
  rw [holds.auxiliary]
  apply reading_le_rhs
  intro j
  exact mul_nonneg (certified j) (admitted.valuesAt_nonneg _)

theorem Reaches.holds_basicSolution (reached : Reaches (ofStandardForm form) t) :
    form.Holds t.basicSolution t.objective t.auxiliaryObjective :=
  (reached.form_holds_iff _ _ _).mp (Tableau.holds_basicSolution reached.label_injective)

theorem Reaches.auxiliaryObjective_eq (reached : Reaches (ofStandardForm form) t) :
    t.auxiliaryObjective = -t.basicSolution .auxiliary :=
  reached.holds_basicSolution.auxiliary

theorem Reaches.auxiliaryObjective_nonpos (reached : Reaches (ofStandardForm form) t)
    (feasible : t.IsFeasible) : t.auxiliaryObjective ≤ 0 := by
  rw [reached.auxiliaryObjective_eq]
  exact neg_nonpos.mpr (basicSolution_nonneg feasible _)

theorem Reaches.admits_basicSolution (reached : Reaches (ofStandardForm form) t)
    (feasible : t.IsFeasible) (out : ∀ i, t.basic i ≠ .auxiliary) :
    form.Admits (StandardForm.pointOf t.basicSolution) := by
  apply reached.holds_basicSolution.admits (basicSolution_nonneg feasible)
  exact basicSolution_eq_zero out reached.label_injective

theorem Reaches.value_basicSolution (reached : Reaches (ofStandardForm form) t) :
    form.value (StandardForm.pointOf t.basicSolution) = t.objective :=
  reached.holds_basicSolution.value_eq

theorem Reaches.holds_ray (reached : Reaches (ofStandardForm form) t) (s : Fin (m + 1))
    (amount : ℚ) :
    form.Holds (t.ray s amount)
      (t.objective - t.entry objectiveRow (nonbasicColumn s) * amount)
      (t.auxiliaryObjective - t.entry auxiliaryRow (nonbasicColumn s) * amount) :=
  (reached.form_holds_iff _ _ _).mp (Tableau.holds_ray reached.label_injective s amount)

theorem exists_nonneg_sub_mul_gt (start bound : ℚ) {slope : ℚ} (negative : slope < 0) :
    ∃ amount, 0 ≤ amount ∧ bound < start - slope * amount := by
  refine ⟨(|bound - start| + 1) / -slope, ?_, ?_⟩
  · exact div_nonneg (by positivity) (neg_nonneg.mpr negative.le)
  · have grown : slope * ((|bound - start| + 1) / -slope) = -(|bound - start| + 1) := by
      field_simp [negative.ne]
    rw [grown]
    linarith [le_abs_self (bound - start)]

/-- The auxiliary variable cannot fall without limit: of a column with a negative entry in the
auxiliary row, some basic row has a positive one. -/
theorem Reaches.entry_auxiliaryRow_nonneg (reached : Reaches (ofStandardForm form) t)
    (feasible : t.IsFeasible) {s : Fin (m + 1)}
    (falling : ∀ i, t.entry (basicRow i) (nonbasicColumn s) ≤ 0) :
    0 ≤ t.entry auxiliaryRow (nonbasicColumn s) := by
  by_contra negative
  obtain ⟨amount, growing, above⟩ :=
    exists_nonneg_sub_mul_gt t.auxiliaryObjective 0 (not_le.mp negative)
  have holds := reached.holds_ray s amount
  have auxiliaryNonneg := ray_nonneg feasible falling growing .auxiliary
  rw [holds.auxiliary] at above
  linarith

/-- A column with a negative entry in the objective row and no positive one in the basic rows gives
admissible points of any objective. -/
theorem Reaches.exists_admits_gt (reached : Reaches (ofStandardForm form) t)
    (feasible : t.IsFeasible) (out : ∀ i, t.basic i ≠ .auxiliary) {s : Fin (m + 1)}
    (other : t.nonbasic s ≠ .auxiliary)
    (falling : ∀ i, t.entry (basicRow i) (nonbasicColumn s) ≤ 0)
    (rising : t.entry objectiveRow (nonbasicColumn s) < 0) (bound : ℚ) :
    ∃ point, form.Admits point ∧ bound < form.value point := by
  obtain ⟨amount, growing, above⟩ := exists_nonneg_sub_mul_gt t.objective bound rising
  have holds := reached.holds_ray s amount
  refine ⟨StandardForm.pointOf (t.ray s amount), ?_, ?_⟩
  · apply holds.admits (ray_nonneg feasible falling growing)
    exact ray_eq_zero out other amount reached.label_injective
  · rw [holds.value_eq]
    exact above

end TwoPhase.Tableau
