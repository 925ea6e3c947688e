import TwoPhase.Proofs.Tableau.Completion

/-!
# Tableaux with the same basic variables

The values of the nonbasic variables can be chosen freely, and the rows of a tableau then give the
other values, which the system behind it fixes.  So two tableaux of one system whose basic variables
are the same hold the same numbers, up to the order of their rows and columns.
-/

namespace TwoPhase

/-- Two ways to number the same elements differ by a permutation. -/
theorem exists_perm_of_range_eq {ι β : Type} {first second : ι → β}
    (firstDistinct : Function.Injective first) (secondDistinct : Function.Injective second)
    (same : Set.range first = Set.range second) :
    ∃ order : Equiv.Perm ι, ∀ i, second (order i) = first i := by
  refine ⟨(Equiv.ofInjective first firstDistinct).trans
    ((Equiv.setCongr same).trans (Equiv.ofInjective second secondDistinct).symm), ?_⟩
  intro i
  exact Equiv.apply_ofInjective_symm secondDistinct _

namespace Tableau

variable {n m : Nat}

/-- The second tableau holds what the first one does, in another order of the rows and of the
columns. -/
structure Rearranged (t u : Tableau ℚ n m) (rows : Equiv.Perm (Fin n))
    (columns : Equiv.Perm (Fin (m + 1))) : Prop where
  basic (i : Fin n) : u.basic (rows i) = t.basic i
  nonbasic (j : Fin (m + 1)) : u.nonbasic (columns j) = t.nonbasic j
  entry (i : Fin n) (j : Fin (m + 1)) :
    u.entry (basicRow (rows i)) (nonbasicColumn (columns j)) =
      t.entry (basicRow i) (nonbasicColumn j)
  rhs (i : Fin n) : u.rhs (basicRow (rows i)) = t.rhs (basicRow i)
  objectiveEntry (j : Fin (m + 1)) :
    u.entry objectiveRow (nonbasicColumn (columns j)) = t.entry objectiveRow (nonbasicColumn j)
  auxiliaryEntry (j : Fin (m + 1)) :
    u.entry auxiliaryRow (nonbasicColumn (columns j)) = t.entry auxiliaryRow (nonbasicColumn j)
  objective : u.objective = t.objective
  auxiliaryObjective : u.auxiliaryObjective = t.auxiliaryObjective

section Rows

variable {t u : Tableau ℚ n m} {columns : Equiv.Perm (Fin (m + 1))}
  (distinct : Function.Injective t.label)
  (reordered : ∀ j, u.nonbasic (columns j) = t.nonbasic j)

include distinct reordered

theorem reading_completion_reordered (chosen : Fin (m + 1) → ℚ) (i : Fin (n + 2)) :
    u.reading (t.completion chosen) i =
      u.rhs i - ∑ j, u.entry i (nonbasicColumn (columns j)) * chosen j := by
  rw [reading, ← Equiv.sum_comp columns]
  simp only [reordered, completion_nonbasic distinct]

/-- Rows that give the same on all solutions hold the same numbers. -/
theorem row_eq_of_reading_eq {i k : Fin (n + 2)}
    (agree : ∀ values z w, t.Holds values z w → u.reading values k = t.reading values i) :
    u.rhs k = t.rhs i ∧
      ∀ j, u.entry k (nonbasicColumn (columns j)) = t.entry i (nonbasicColumn j) := by
  have chosenAgree (chosen : Fin (m + 1) → ℚ) :
      u.rhs k - ∑ j, u.entry k (nonbasicColumn (columns j)) * chosen j =
        t.rhs i - ∑ j, t.entry i (nonbasicColumn j) * chosen j := by
    rw [← reading_completion_reordered distinct reordered, ← reading_completion distinct]
    exact agree _ _ _ (holds_completion distinct chosen)
  have sameRhs : u.rhs k = t.rhs i := by simpa using chosenAgree 0
  refine ⟨sameRhs, ?_⟩
  intro j
  have single := chosenAgree (Pi.single j 1)
  simp only [Pi.single_apply, mul_ite, mul_one, mul_zero, Finset.sum_ite_eq', Finset.mem_univ,
    if_true, sameRhs] at single
  linarith

end Rows

/-- Tableaux with the same solutions and the same unknowns at their rows and columns hold the same
numbers. -/
theorem rearranged_of_holds_iff {t u : Tableau ℚ n m} {rows : Equiv.Perm (Fin n)}
    {columns : Equiv.Perm (Fin (m + 1))} (distinct : Function.Injective t.label)
    (sameBasic : ∀ i, u.basic (rows i) = t.basic i)
    (sameNonbasic : ∀ j, u.nonbasic (columns j) = t.nonbasic j)
    (sameSolutions : ∀ values z w, t.Holds values z w → u.Holds values z w) :
    Rearranged t u rows columns := by
  have basicRows (i : Fin n) := row_eq_of_reading_eq distinct sameNonbasic
    (i := basicRow i) (k := basicRow (rows i)) fun values z w holds => by
      rw [← holds.basic, ← (sameSolutions values z w holds).basic, sameBasic]
  have objectiveRows := row_eq_of_reading_eq distinct sameNonbasic
    (i := objectiveRow) (k := objectiveRow) fun values z w holds => by
      rw [← holds.objective, ← (sameSolutions values z w holds).objective]
  have auxiliaryRows := row_eq_of_reading_eq distinct sameNonbasic
    (i := auxiliaryRow) (k := auxiliaryRow) fun values z w holds => by
      rw [← holds.auxiliary, ← (sameSolutions values z w holds).auxiliary]
  exact {
    basic := sameBasic
    nonbasic := sameNonbasic
    entry := fun i => (basicRows i).2
    rhs := fun i => (basicRows i).1
    objectiveEntry := objectiveRows.2
    auxiliaryEntry := auxiliaryRows.2
    objective := objectiveRows.1
    auxiliaryObjective := auxiliaryRows.1 }

section Reaches

variable {form : StandardForm ℚ n m} {t u : Tableau ℚ n m}

theorem Reaches.mem_range_nonbasic_iff (reached : Reaches (ofStandardForm form) t)
    {label : Label} :
    label ∈ Set.range t.nonbasic ↔ label ∈ unknowns n m ∧ label ∉ Set.range t.basic := by
  rw [← reached.exists_label_iff]
  constructor
  · rintro ⟨j, isNonbasic⟩
    refine ⟨⟨.inr j, isNonbasic⟩, ?_⟩
    rintro ⟨i, isBasic⟩
    have place : (Sum.inl i : Fin n ⊕ Fin (m + 1)) = .inr j :=
      reached.label_injective (isBasic.trans isNonbasic.symm)
    cases place
  · rintro ⟨⟨i | j, isLabel⟩, notBasic⟩
    · exact absurd ⟨i, isLabel⟩ notBasic
    · exact ⟨j, isLabel⟩

/-- However two sequences of accepted pivots choose their pivots, if the same variables are basic
after them, the tableaux differ in the order of their rows and columns only. -/
theorem rearranged_of_same_basic (first : Reaches (ofStandardForm form) t)
    (second : Reaches (ofStandardForm form) u) (same : Set.range t.basic = Set.range u.basic) :
    ∃ rows columns, Rearranged t u rows columns := by
  have sameNonbasic : Set.range t.nonbasic = Set.range u.nonbasic := by
    ext label
    rw [first.mem_range_nonbasic_iff, second.mem_range_nonbasic_iff, same]
  obtain ⟨rows, rowsReordered⟩ := exists_perm_of_range_eq
    (first.label_injective.comp Sum.inl_injective)
    (second.label_injective.comp Sum.inl_injective) same
  obtain ⟨columns, columnsReordered⟩ := exists_perm_of_range_eq
    (first.label_injective.comp Sum.inr_injective)
    (second.label_injective.comp Sum.inr_injective) sameNonbasic
  refine ⟨rows, columns, rearranged_of_holds_iff first.label_injective rowsReordered
    columnsReordered ?_⟩
  intro values z w holds
  exact (second.form_holds_iff values z w).mpr ((first.form_holds_iff values z w).mp holds)

end Reaches

/-- One pivot of `fiveForm`, and two pivots that leave the same variables basic in other rows. -/
theorem rearranged_fiveForm :
    ∃ t u, Reaches (ofStandardForm fiveForm) t ∧ Reaches (ofStandardForm fiveForm) u ∧
      t.basis = #v[.decision 0, .slack 1] ∧ u.basis = #v[.slack 1, .decision 0] ∧
      ∃ rows columns, Rearranged t u rows columns := by
  have pivoted {t : Tableau ℚ 2 1} (reached : Reaches (ofStandardForm fiveForm) t) (r : Fin 2)
      (s : Fin 2)
      (large : Scalar.tolerance < Scalar.abs (t.entry (basicRow r) (nonbasicColumn s))) :
      Reaches (ofStandardForm fiveForm) (t.exchange r s) :=
    reached.pivotAt (pivotAt_eq_ok_iff.mpr ⟨large, rfl⟩)
  have first := pivoted .start 0 0 (by decide +kernel)
  have second := pivoted (pivoted .start 1 0 (by decide +kernel)) 0 0 (by decide +kernel)
  have swapped : ((ofStandardForm fiveForm).exchange 0 0).basic =
      (((ofStandardForm fiveForm).exchange 1 0).exchange 0 0).basic ∘ Equiv.swap 0 1 := by
    decide +kernel
  refine ⟨_, _, first, second, by decide +kernel, by decide +kernel, ?_⟩
  apply rearranged_of_same_basic first second
  rw [swapped, EquivLike.range_comp]

end Tableau

end TwoPhase
