import TwoPhase.Proofs.Trail

/-!
# The system behind a tableau

The rows of a tableau are equations between the unknowns, the objective and the auxiliary
objective.  An exchange solves the pivot row for the entering variable and puts the result into the
other rows, so it keeps the solutions, and every tableau that pivots reach has those of the system
`A x + s - a = b`, `z = c·x`, `w = -a`.
-/

namespace TwoPhase

variable {n m : Nat}

/-- The values solve the system of the form, with `z` for the objective and `w` for the auxiliary
objective. -/
structure StandardForm.Holds (form : StandardForm ℚ n m) (values : Label → ℚ) (z w : ℚ) :
    Prop where
  row (i : Fin n) :
    ∑ j : Fin m, (form.rows.get i).get j * values (.decision j) + values (.slack i) - values .auxiliary =
      form.bounds.get i
  objective : z = ∑ j : Fin m, form.objective.get j * values (.decision j)
  auxiliary : w = -values .auxiliary

namespace Tableau

/-- What row `i` gives for its variable, out of the values of the nonbasic variables. -/
def reading (t : Tableau ℚ n m) (values : Label → ℚ) (i : Fin (n + 2)) : ℚ :=
  t.rhs i - ∑ j, t.entry i (nonbasicColumn j) * values (t.nonbasic j)

/-- The values solve all rows of the tableau, with `z` and `w` for its two objectives. -/
structure Holds (t : Tableau ℚ n m) (values : Label → ℚ) (z w : ℚ) : Prop where
  basic (i : Fin n) : values (t.basic i) = t.reading values (basicRow i)
  objective : z = t.reading values objectiveRow
  auxiliary : w = t.reading values auxiliaryRow

section Exchange

variable {t : Tableau ℚ n m} {r : Fin n} {s : Fin (m + 1)}

theorem reading_exchange_pivotRow (nonzero : t.entry (basicRow r) (nonbasicColumn s) ≠ 0)
    (values : Label → ℚ) :
    (t.exchange r s).reading values (basicRow r) =
      values (t.nonbasic s) +
        (t.reading values (basicRow r) - values (t.basic r)) /
          t.entry (basicRow r) (nonbasicColumn s) := by
  have term (j : Fin (m + 1)) :
      (t.exchange r s).entry (basicRow r) (nonbasicColumn j) *
          values ((t.exchange r s).nonbasic j) =
        t.entry (basicRow r) (nonbasicColumn j) * values (t.nonbasic j) /
            t.entry (basicRow r) (nonbasicColumn s) +
          if j = s then
            values (t.basic r) / t.entry (basicRow r) (nonbasicColumn s) - values (t.nonbasic s)
          else 0 := by
    rw [nonbasic_exchange]
    by_cases entering : j = s
    · subst entering
      rw [exchange_entry_pivot, if_pos rfl, if_pos rfl]
      field_simp
      ring
    · rw [exchange_entry_pivotRow t r s (nonbasicColumn_injective.ne entering), if_neg entering,
        if_neg entering]
      ring
  simp only [reading, term, Finset.sum_add_distrib, Finset.sum_ite_eq', Finset.mem_univ, if_true,
    ← Finset.sum_div, exchange_rhs_pivotRow]
  ring

/-- Another row after the exchange gives what it gave before, as far as the pivot row holds. -/
theorem reading_exchange_otherRow (nonzero : t.entry (basicRow r) (nonbasicColumn s) ≠ 0)
    (values : Label → ℚ) {i : Fin (n + 2)} (other : i ≠ basicRow r) :
    (t.exchange r s).reading values i =
      t.reading values i +
        t.factor r s i * (values (t.basic r) - t.reading values (basicRow r)) := by
  have term (j : Fin (m + 1)) :
      (t.exchange r s).entry i (nonbasicColumn j) * values ((t.exchange r s).nonbasic j) =
        t.entry i (nonbasicColumn j) * values (t.nonbasic j) -
            t.factor r s i * (t.entry (basicRow r) (nonbasicColumn j) * values (t.nonbasic j)) -
          if j = s then t.factor r s i * values (t.basic r) else 0 := by
    rw [nonbasic_exchange]
    by_cases entering : j = s
    · subst entering
      rw [exchange_entry_pivotColumn t r j other, if_pos rfl, if_pos rfl, factor]
      field_simp
      ring
    · rw [exchange_entry_other t r s other (nonbasicColumn_injective.ne entering),
        if_neg entering, if_neg entering]
      ring
  simp only [reading, term, Finset.sum_sub_distrib, Finset.sum_ite_eq', Finset.mem_univ, if_true,
    ← Finset.mul_sum, exchange_rhs_other t r s other]
  ring

theorem exchange_pivotRow_holds_iff (nonzero : t.entry (basicRow r) (nonbasicColumn s) ≠ 0)
    (values : Label → ℚ) :
    values ((t.exchange r s).basic r) = (t.exchange r s).reading values (basicRow r) ↔
      values (t.basic r) = t.reading values (basicRow r) := by
  rw [basic_exchange, if_pos rfl, reading_exchange_pivotRow nonzero, left_eq_add, div_eq_zero_iff,
    or_iff_left nonzero, sub_eq_zero, eq_comm]

theorem holds_exchange_iff (nonzero : t.entry (basicRow r) (nonbasicColumn s) ≠ 0)
    (values : Label → ℚ) (z w : ℚ) :
    (t.exchange r s).Holds values z w ↔ t.Holds values z w := by
  have pivotRow := exchange_pivotRow_holds_iff nonzero values
  have otherRow (solved : values (t.basic r) = t.reading values (basicRow r)) {i : Fin (n + 2)}
      (other : i ≠ basicRow r) : (t.exchange r s).reading values i = t.reading values i := by
    rw [reading_exchange_otherRow nonzero values other, solved, sub_self, mul_zero, add_zero]
  constructor
  · intro holds
    have solved := pivotRow.mp (holds.basic r)
    refine ⟨fun i => ?_, ?_, ?_⟩
    · by_cases leaving : i = r
      · exact leaving ▸ solved
      · have rowHolds := holds.basic i
        rwa [basic_exchange, if_neg leaving,
          otherRow solved (basicRow_injective.ne leaving)] at rowHolds
    · exact holds.objective.trans (otherRow solved (objectiveRow_ne_basicRow r))
    · exact holds.auxiliary.trans (otherRow solved (auxiliaryRow_ne_basicRow r))
  · intro holds
    have solved := holds.basic r
    refine ⟨fun i => ?_, ?_, ?_⟩
    · by_cases leaving : i = r
      · exact leaving ▸ pivotRow.mpr solved
      · rw [basic_exchange, if_neg leaving, otherRow solved (basicRow_injective.ne leaving)]
        exact holds.basic i
    · exact holds.objective.trans (otherRow solved (objectiveRow_ne_basicRow r)).symm
    · exact holds.auxiliary.trans (otherRow solved (auxiliaryRow_ne_basicRow r)).symm

end Exchange

section Start

variable (form : StandardForm ℚ n m) (values : Label → ℚ)

theorem reading_ofStandardForm_basic (i : Fin n) :
    (ofStandardForm form).reading values (basicRow i) =
      form.bounds.get i - (∑ j : Fin m, (form.rows.get i).get j * values (.decision j) -
        values .auxiliary) := by
  rw [reading, Fin.sum_univ_castSucc, rhs_ofStandardForm_basic,
    entry_ofStandardForm_basic_auxiliary form i, nonbasic_ofStandardForm_last]
  simp only [entry_ofStandardForm_basic, nonbasic_ofStandardForm_castSucc]
  ring

theorem reading_ofStandardForm_objective :
    (ofStandardForm form).reading values objectiveRow =
      ∑ j : Fin m, form.objective.get j * values (.decision j) := by
  rw [reading, Fin.sum_univ_castSucc, rhs_ofStandardForm_objective,
    entry_ofStandardForm_objective_auxiliary form, nonbasic_ofStandardForm_last]
  simp only [entry_ofStandardForm_objective, nonbasic_ofStandardForm_castSucc, neg_mul,
    Finset.sum_neg_distrib]
  ring

theorem reading_ofStandardForm_auxiliary :
    (ofStandardForm form).reading values auxiliaryRow = -values .auxiliary := by
  rw [reading, Fin.sum_univ_castSucc, rhs_ofStandardForm_auxiliary,
    entry_ofStandardForm_auxiliary_auxiliary form, nonbasic_ofStandardForm_last]
  simp only [entry_ofStandardForm_auxiliary, zero_mul, Finset.sum_const_zero]
  ring

theorem holds_ofStandardForm_iff (z w : ℚ) :
    (ofStandardForm form).Holds values z w ↔ form.Holds values z w := by
  constructor
  · intro holds
    refine ⟨fun i => ?_, ?_, ?_⟩
    · have rowHolds := holds.basic i
      rw [basic_ofStandardForm, reading_ofStandardForm_basic] at rowHolds
      rw [rowHolds]
      ring
    · rw [holds.objective, reading_ofStandardForm_objective]
    · rw [holds.auxiliary, reading_ofStandardForm_auxiliary]
  · intro holds
    refine ⟨fun i => ?_, ?_, ?_⟩
    · rw [basic_ofStandardForm, reading_ofStandardForm_basic, ← holds.row i]
      ring
    · rw [holds.objective, reading_ofStandardForm_objective]
    · rw [holds.auxiliary, reading_ofStandardForm_auxiliary]

end Start

theorem Reaches.holds_iff {start t : Tableau ℚ n m} (reached : Reaches start t)
    (values : Label → ℚ) (z w : ℚ) : t.Holds values z w ↔ start.Holds values z w := by
  apply reached.preserves (P := fun u => u.Holds values z w ↔ start.Holds values z w) Iff.rfl
  intro u r s same large
  exact (holds_exchange_iff (Scalar.ne_zero_of_large large) values z w).trans same

theorem Reaches.form_holds_iff {form : StandardForm ℚ n m} {t : Tableau ℚ n m}
    (reached : Reaches (ofStandardForm form) t) (values : Label → ℚ) (z w : ℚ) :
    t.Holds values z w ↔ form.Holds values z w :=
  (reached.holds_iff values z w).trans (holds_ofStandardForm_iff form values z w)

/-- However the pivots were chosen, and so at every tableau of every solve, the rows of a tableau
have the solutions of the system that the form states. -/
theorem holds_iff_form_holds (form : StandardForm ℚ n m) :
    (∀ t, Reaches (ofStandardForm form) t →
      ∀ values z w, t.Holds values z w ↔ form.Holds values z w) ∧
    ∀ cap, ∀ t ∈ (ofStandardForm form).solveTrail cap,
      ∀ values z w, t.Holds values z w ↔ form.Holds values z w := by
  constructor
  · intro t reached
    exact reached.form_holds_iff
  · intro cap t member
    exact (reaches_of_mem_solveTrail member).form_holds_iff

/-- The equality `x = 5` as two inequalities, with `x` for the objective. -/
def fiveForm : StandardForm ℚ 2 1 where
  objective := #v[1]
  rows := #v[#v[1], #v[-1]]
  bounds := #v[5, -5]

theorem holds_iff_fiveForm_holds :
    (∃ t, Reaches (ofStandardForm fiveForm) t ∧ t.basis = #v[.decision 0, .slack 1] ∧
      ∀ values z w, t.Holds values z w ↔ fiveForm.Holds values z w) ∧
    ∃ t ∈ (ofStandardForm fiveForm).solveTrail 5, t.basis = #v[.slack 0, .decision 0] ∧
      ∀ values z w, t.Holds values z w ↔ fiveForm.Holds values z w := by
  constructor
  · have accepted : (ofStandardForm fiveForm).pivot 0 0 =
        .ok ((ofStandardForm fiveForm).exchange 0 0) := by
      refine pivot_eq_ok_iff.mpr ⟨by decide, by decide, ?_⟩
      exact pivotAt_eq_ok_iff.mpr ⟨by decide +kernel, rfl⟩
    have reached := Reaches.start.pivot accepted
    exact ⟨_, reached, by decide +kernel, (holds_iff_form_holds fiveForm).1 _ reached⟩
  · have third : ((ofStandardForm fiveForm).solveTrail 5)[2]?.map Tableau.basis =
        some #v[.slack 0, .decision 0] := by decide +kernel
    obtain ⟨t, isThird, isBasis⟩ := Option.map_eq_some_iff.mp third
    have member := List.mem_of_getElem? isThird
    exact ⟨t, member, isBasis, (holds_iff_form_holds fiveForm).2 5 t member⟩

end Tableau

end TwoPhase
