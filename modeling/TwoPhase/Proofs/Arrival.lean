import TwoPhase.Proofs.Acceptance
import TwoPhase.Proofs.Tableau.Ties

/-!
# The auxiliary variable comes in

The row of the pivot that brings in the auxiliary variable is the first one with the smallest
right-hand side.  As every row of the first tableau has the entry `-1` in the auxiliary column, the
pivot takes this smallest value from all other right-hand sides, and none of them is negative
afterwards.
-/

namespace TwoPhase.Tableau

variable {n m : Nat}

section Lowest

variable {t : Tableau ℚ n m} {r : Fin n}

/-- Among equal right-hand sides the one that is met first holds the place. -/
theorem lowestRow_precedes (lowest : t.lowestRow = some r) (i : Fin n) :
    Precedes (fun k => t.rhs (basicRow k)) (fun k => .slack k) r i := by
  apply survivor_prefers _ lowest (List.mem_finRange i)
  intro pair duelled
  have inOrder : pair.1 < pair.2 := rel_of_mem_duels (List.pairwise_lt_finRange n) pair duelled
  unfold duel
  by_cases keeps : t.rhs (basicRow pair.1) ≤ t.rhs (basicRow pair.2)
  · simp only [keeps, decide_true, Bool.not_true, Bool.false_eq_true, if_false]
    refine ⟨refl_of _ _, keeps.lt_or_eq.imp_right fun equal => ⟨equal, ?_⟩⟩
    exact decide_eq_false inOrder.asymm
  · simp only [keeps, decide_false, Bool.not_false, if_true]
    exact ⟨.inl (not_le.mp keeps), refl_of _ _⟩

theorem lowestRow_eq_some_iff :
    t.lowestRow = some r ↔
      (∀ i, t.rhs (basicRow r) ≤ t.rhs (basicRow i)) ∧
        ∀ i < r, t.rhs (basicRow r) < t.rhs (basicRow i) := by
  have first {k : Fin n} (lowest : t.lowestRow = some k) {i : Fin n} (before : i < k) :
      t.rhs (basicRow k) < t.rhs (basicRow i) := by
    rcases lowestRow_precedes lowest i with less | ⟨_, notBefore⟩
    · exact less
    · exact absurd before (of_decide_eq_false notBefore)
  constructor
  · intro lowest
    exact ⟨lowestRow_le lowest, fun _ => first lowest⟩
  · rintro ⟨least, firstLeast⟩
    obtain ⟨k, lowest⟩ := exists_lowestRow t r
    rcases lt_trichotomy k r with before | same | after
    · exact absurd (lowestRow_le lowest r) (not_le.mpr (firstLeast k before))
    · exact same ▸ lowest
    · exact absurd (least k) (not_le.mpr (first lowest after))

end Lowest

theorem auxiliaryBasicRow?_eq_some {α : Type} {t : Tableau α n m} {r : Fin n}
    (distinct : Function.Injective t.label) (isAuxiliary : t.basic r = .auxiliary) :
    t.auxiliaryBasicRow? = some r := by
  cases found : t.auxiliaryBasicRow? with
  | none => exact absurd isAuxiliary (auxiliary_not_basic_of_none found r)
  | some k =>
      have samePlace : t.label (.inl k) = t.label (.inl r) := by
        rw [label_inl, label_inl, basic_auxiliaryBasicRow found, isAuxiliary]
      rw [Sum.inl_injective (distinct samePlace)]

section Pivot

variable (form : StandardForm ℚ n m) (r : Fin n)

theorem auxiliaryObjective_entered :
    ((ofStandardForm form).exchange r auxiliaryColumn).auxiliaryObjective =
      form.bounds.get r := by
  rw [auxiliaryObjective, exchange_rhs_other _ _ _ (auxiliaryRow_ne_basicRow r), factor,
    auxiliaryColumn, entry_ofStandardForm_auxiliary_auxiliary,
    entry_ofStandardForm_basic_auxiliary, rhs_ofStandardForm_auxiliary, rhs_ofStandardForm_basic]
  ring

/-- The auxiliary variable does not occur in the objective. -/
theorem objectiveRow_entered :
    ((ofStandardForm form).exchange r auxiliaryColumn).row objectiveRow =
      (ofStandardForm form).row objectiveRow := by
  have noFactor : (ofStandardForm form).factor r auxiliaryColumn objectiveRow = 0 := by
    rw [factor, auxiliaryColumn, entry_ofStandardForm_objective_auxiliary, zero_div]
  apply Vector.ext
  intro j inRow
  change ((ofStandardForm form).exchange r auxiliaryColumn).entry objectiveRow ⟨j, inRow⟩ =
    (ofStandardForm form).entry objectiveRow ⟨j, inRow⟩
  by_cases pivotColumn : (⟨j, inRow⟩ : Fin (m + 2)) = nonbasicColumn auxiliaryColumn
  · rw [pivotColumn, exchange_entry_pivotColumn _ _ _ (objectiveRow_ne_basicRow r), noFactor,
      neg_zero, auxiliaryColumn, entry_ofStandardForm_objective_auxiliary]
  · rw [exchange_entry_other _ _ _ (objectiveRow_ne_basicRow r) pivotColumn, noFactor, mul_zero,
      sub_zero]

theorem auxiliaryBasicRow?_entered :
    ((ofStandardForm form).exchange r auxiliaryColumn).auxiliaryBasicRow? = some r := by
  apply auxiliaryBasicRow?_eq_some
  · exact label_exchange_injective (label_ofStandardForm_injective form) r auxiliaryColumn
  · exact basic_entered form r

end Pivot

/-- The row for the auxiliary variable is the first one of the smallest right-hand side.  If that is
below the tolerance, the pivot in this row is accepted and phase one starts from it: the smallest
value is taken from all other right-hand sides and negated in its own row, so that none is negative
and the auxiliary variable is positive.  The objective stays as it is, and the auxiliary objective
becomes the smallest value. -/
theorem auxiliary_arrives_at_lowest (form : StandardForm ℚ n m) :
    let first := ofStandardForm form
    (∀ r, first.lowestRow = some r ↔
      (∀ i, form.bounds.get r ≤ form.bounds.get i) ∧
        ∀ i < r, form.bounds.get r < form.bounds.get i) ∧
    (0 < n → ∃ r, first.lowestRow = some r) ∧
    ∀ r, first.lowestRow = some r → form.bounds.get r < -Scalar.tolerance →
      ∃ entered, first.pivotAt r auxiliaryColumn = .ok entered ∧
        first.restorationStart? = some entered ∧
        (∀ i, i ≠ r → entered.rhs (basicRow i) = form.bounds.get i - form.bounds.get r ∧
          0 ≤ entered.rhs (basicRow i)) ∧
        entered.rhs (basicRow r) = -form.bounds.get r ∧ 0 < entered.rhs (basicRow r) ∧
        entered.row objectiveRow = first.row objectiveRow ∧
        entered.auxiliaryBasicRow? = some r ∧
        entered.auxiliaryObjective = form.bounds.get r := by
  intro first
  have isBound (i : Fin n) : first.rhs (basicRow i) = form.bounds.get i :=
    rhs_ofStandardForm_basic form i
  refine ⟨fun r => ?_, fun some_row => exists_lowestRow first ⟨0, some_row⟩, ?_⟩
  · simp only [lowestRow_eq_some_iff, isBound]
  intro r lowest below
  have accepted : first.pivotAt r auxiliaryColumn = _ := pivotAt_auxiliaryColumn form r
  have started := restorationStart?_eq_some_iff.mpr ⟨r, lowest, by rwa [isBound], accepted⟩
  refine ⟨_, accepted, started, ?_, rhs_entered_pivotRow form r, ?_, objectiveRow_entered form r,
    auxiliaryBasicRow?_entered form r, auxiliaryObjective_entered form r⟩
  · intro i other
    have least := lowestRow_le lowest i
    rw [isBound, isBound] at least
    rw [rhs_entered_otherRow form r other]
    exact ⟨rfl, sub_nonneg.mpr least⟩
  · rw [rhs_entered_pivotRow]
    linarith [Scalar.tolerance_pos]

/-- Three rows, of which the last two have the smallest right-hand side. -/
def tiedBounds : StandardForm ℚ 3 1 where
  objective := #v[8]
  rows := #v[#v[7], #v[-4], #v[9]]
  bounds := #v[2, -5, -5]

theorem tiedBounds_auxiliary_arrives :
    (ofStandardForm tiedBounds).lowestRow = some 1 ∧ tiedBounds.bounds.get 1 < -Scalar.tolerance ∧
      ∃ entered, (ofStandardForm tiedBounds).restorationStart? = some entered ∧
        entered.rhs (basicRow 0) = 7 ∧ entered.rhs (basicRow 1) = 5 ∧
        entered.rhs (basicRow 2) = 0 ∧ entered.auxiliaryBasicRow? = some 1 ∧
        entered.auxiliaryObjective = -5 := by
  obtain ⟨lowestIff, _, arrives⟩ := auxiliary_arrives_at_lowest tiedBounds
  have lowest : (ofStandardForm tiedBounds).lowestRow = some 1 :=
    (lowestIff 1).mpr ⟨by decide +kernel, by decide +kernel⟩
  have below : tiedBounds.bounds.get 1 < -Scalar.tolerance := by decide +kernel
  obtain ⟨entered, _, started, others, atRow, _, _, isBasic, objective⟩ := arrives 1 lowest below
  refine ⟨lowest, below, entered, started, ?_, ?_, ?_, isBasic, objective⟩
  · exact (others 0 (by decide)).1.trans (by decide +kernel)
  · exact atRow.trans (by decide +kernel)
  · exact (others 2 (by decide)).1.trans (by decide +kernel)

end TwoPhase.Tableau
