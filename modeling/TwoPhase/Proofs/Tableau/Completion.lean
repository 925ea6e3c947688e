import TwoPhase.Proofs.Tableau.System

/-!
# Solutions with chosen nonbasic values

The nonbasic variables of a tableau can be chosen freely, and the rows then give the values of the
basic ones.  With all of them zero this is the basic solution, with a single one that grows it is a
ray out of the basic solution.
-/

namespace TwoPhase.Tableau

variable {n m : Nat}

/-- The values of all unknowns once the nonbasic ones are chosen, zero for labels that the tableau
does not have. -/
noncomputable def completion (t : Tableau ℚ n m) (chosen : Fin (m + 1) → ℚ) : Label → ℚ :=
  Function.extend t.label
    (Sum.elim
      (fun i => t.rhs (basicRow i) - ∑ j, t.entry (basicRow i) (nonbasicColumn j) * chosen j)
      chosen)
    0

section Completion

variable {t : Tableau ℚ n m} (distinct : Function.Injective t.label) (chosen : Fin (m + 1) → ℚ)

include distinct

theorem completion_basic (i : Fin n) :
    t.completion chosen (t.basic i) =
      t.rhs (basicRow i) - ∑ j, t.entry (basicRow i) (nonbasicColumn j) * chosen j :=
  distinct.extend_apply _ _ (.inl i)

theorem completion_nonbasic (j : Fin (m + 1)) : t.completion chosen (t.nonbasic j) = chosen j :=
  distinct.extend_apply _ _ (.inr j)

theorem reading_completion (i : Fin (n + 2)) :
    t.reading (t.completion chosen) i =
      t.rhs i - ∑ j, t.entry i (nonbasicColumn j) * chosen j := by
  simp only [reading, completion_nonbasic distinct]

theorem holds_completion :
    t.Holds (t.completion chosen)
      (t.objective - ∑ j, t.entry objectiveRow (nonbasicColumn j) * chosen j)
      (t.auxiliaryObjective - ∑ j, t.entry auxiliaryRow (nonbasicColumn j) * chosen j) := by
  refine ⟨fun i => ?_, ?_, ?_⟩
  · rw [completion_basic distinct, reading_completion distinct]
  · rw [reading_completion distinct]
    rfl
  · rw [reading_completion distinct]
    rfl

end Completion

theorem completion_eq_zero {t : Tableau ℚ n m} {label : Label} (chosen : Fin (m + 1) → ℚ)
    (notBasic : ∀ i, t.basic i ≠ label) (unchosen : ∀ j, t.nonbasic j = label → chosen j = 0)
    (distinct : Function.Injective t.label) : t.completion chosen label = 0 := by
  by_cases present : ∃ j, t.nonbasic j = label
  · obtain ⟨j, isLabel⟩ := present
    rw [← isLabel, completion_nonbasic distinct, unchosen j isLabel]
  · apply Function.extend_apply'
    rintro ⟨i | j, isLabel⟩
    · exact notBasic i isLabel
    · exact present ⟨j, isLabel⟩

theorem completion_nonneg {t : Tableau ℚ n m} {chosen : Fin (m + 1) → ℚ}
    (rows : ∀ i, 0 ≤ t.rhs (basicRow i) -
      ∑ j, t.entry (basicRow i) (nonbasicColumn j) * chosen j)
    (columns : ∀ j, 0 ≤ chosen j) (label : Label) : 0 ≤ t.completion chosen label := by
  unfold completion
  rw [Function.extend_def]
  split
  · next present =>
      rcases Classical.choose present with i | j
      · exact rows i
      · exact columns j
  · exact le_rfl

/-- All basic variables are nonnegative in the basic solution. -/
def IsFeasible (t : Tableau ℚ n m) : Prop :=
  ∀ i, 0 ≤ t.rhs (basicRow i)

/-- The values in the basic solution. -/
noncomputable def basicSolution (t : Tableau ℚ n m) : Label → ℚ :=
  t.completion 0

/-- The right-hand side of the row where an unknown is basic, zero if there is none. -/
def valueOf (t : Tableau ℚ n m) (label : Label) : ℚ :=
  match (List.finRange n).find? fun i => t.basic i = label with
  | none => 0
  | some r => t.rhs (basicRow r)

/-- The values once the variable of column `s` has grown to some amount. -/
noncomputable def ray (t : Tableau ℚ n m) (s : Fin (m + 1)) (amount : ℚ) : Label → ℚ :=
  t.completion (Pi.single s amount)

section Rays

variable {t : Tableau ℚ n m}

theorem sum_entry_mul_single (t : Tableau ℚ n m) (i : Fin (n + 2)) (s : Fin (m + 1))
    (amount : ℚ) :
    ∑ j, t.entry i (nonbasicColumn j) * Pi.single (M := fun _ => ℚ) s amount j =
      t.entry i (nonbasicColumn s) * amount := by
  simp only [Pi.single_apply, mul_ite, mul_zero, Finset.sum_ite_eq', Finset.mem_univ, if_true]

theorem basicSolution_basic (distinct : Function.Injective t.label) (i : Fin n) :
    t.basicSolution (t.basic i) = t.rhs (basicRow i) := by
  simp [basicSolution, completion_basic distinct]

theorem holds_basicSolution (distinct : Function.Injective t.label) :
    t.Holds t.basicSolution t.objective t.auxiliaryObjective := by
  simpa [basicSolution] using holds_completion distinct 0

theorem basicSolution_nonneg (feasible : t.IsFeasible) (label : Label) :
    0 ≤ t.basicSolution label := by
  apply completion_nonneg
  · intro i
    simpa using feasible i
  · intro j
    exact le_rfl

theorem basicSolution_eq_zero {label : Label} (notBasic : ∀ i, t.basic i ≠ label)
    (distinct : Function.Injective t.label) : t.basicSolution label = 0 :=
  completion_eq_zero 0 notBasic (fun _ _ => rfl) distinct

theorem valueOf_eq_basicSolution (distinct : Function.Injective t.label) (label : Label) :
    t.valueOf label = t.basicSolution label := by
  unfold valueOf
  cases found : (List.finRange n).find? fun i => t.basic i = label with
  | none =>
      have notBasic (i : Fin n) : t.basic i ≠ label := by
        simpa using List.find?_eq_none.mp found i (List.mem_finRange i)
      exact (basicSolution_eq_zero notBasic distinct).symm
  | some r =>
      have isLabel : t.basic r = label := by simpa using List.find?_some found
      rw [← isLabel, basicSolution_basic distinct]

theorem holds_ray (distinct : Function.Injective t.label) (s : Fin (m + 1)) (amount : ℚ) :
    t.Holds (t.ray s amount)
      (t.objective - t.entry objectiveRow (nonbasicColumn s) * amount)
      (t.auxiliaryObjective - t.entry auxiliaryRow (nonbasicColumn s) * amount) := by
  have holds := holds_completion distinct (Pi.single s amount)
  rwa [sum_entry_mul_single, sum_entry_mul_single] at holds

theorem ray_nonneg (feasible : t.IsFeasible) {s : Fin (m + 1)}
    (falling : ∀ i, t.entry (basicRow i) (nonbasicColumn s) ≤ 0) {amount : ℚ}
    (growing : 0 ≤ amount) (label : Label) : 0 ≤ t.ray s amount label := by
  apply completion_nonneg
  · intro i
    rw [sum_entry_mul_single]
    exact sub_nonneg.mpr
      ((mul_nonpos_of_nonpos_of_nonneg (falling i) growing).trans (feasible i))
  · intro j
    rw [Pi.single_apply]
    split
    · exact growing
    · exact le_rfl

theorem ray_eq_zero {label : Label} (notBasic : ∀ i, t.basic i ≠ label) {s : Fin (m + 1)}
    (other : t.nonbasic s ≠ label) (amount : ℚ) (distinct : Function.Injective t.label) :
    t.ray s amount label = 0 := by
  apply completion_eq_zero _ notBasic _ distinct
  intro j isLabel
  apply Pi.single_eq_of_ne
  intro same
  exact other (same ▸ isLabel)

end Rays

end TwoPhase.Tableau
