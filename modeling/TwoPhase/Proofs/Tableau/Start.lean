import TwoPhase.Proofs.Tableau.Exchange

/-!
# The first tableau

The labels and the entries of the tableau that a standard form gives, and what becomes of them in
the pivot that brings in the auxiliary variable.
-/

namespace TwoPhase.Tableau

variable {α : Type} {n m : Nat} [Scalar α] (form : StandardForm α n m)

@[simp]
theorem basic_ofStandardForm (i : Fin n) : (ofStandardForm form).basic i = .slack i := by
  simp only [basic, ofStandardForm, get_ofFn]

@[simp]
theorem nonbasic_ofStandardForm_castSucc (j : Fin m) :
    (ofStandardForm form).nonbasic j.castSucc = .decision j := by
  change ((Vector.ofFn fun j : Fin m => Label.decision j.val).push .auxiliary)[j.val] = _
  rw [Vector.getElem_push_lt j.isLt, Vector.getElem_ofFn]

@[simp]
theorem nonbasic_ofStandardForm_last :
    (ofStandardForm form).nonbasic (Fin.last m) = .auxiliary := by
  change ((Vector.ofFn fun j : Fin m => Label.decision j.val).push .auxiliary)[m] = _
  rw [Vector.getElem_push_eq]

theorem nonbasic_ofStandardForm_ne_slack (j : Fin (m + 1)) (row : Nat) :
    (ofStandardForm form).nonbasic j ≠ .slack row := by
  induction j using Fin.lastCases with
  | last => simp
  | cast j => simp

theorem label_ofStandardForm_injective : Function.Injective (ofStandardForm form).label := by
  apply Function.Injective.sumElim
  · intro i k same
    simpa [Fin.ext_iff] using same
  · intro j k same
    induction j using Fin.lastCases with
    | last =>
        induction k using Fin.lastCases with
        | last => rfl
        | cast k => simp at same
    | cast j =>
        induction k using Fin.lastCases with
        | last => simp at same
        | cast k => simpa [Fin.ext_iff] using same
  · intro i j same
    exact nonbasic_ofStandardForm_ne_slack form j i (by simpa using same.symm)

theorem mem_unknowns_iff {label : Label} :
    label ∈ unknowns n m ↔
      label = .auxiliary ∨ (∃ j < m, label = .decision j) ∨ ∃ i < n, label = .slack i := by
  simp [unknowns, eq_comm]

/-- The first tableau has a place for each unknown of the system, and for nothing else. -/
theorem exists_label_ofStandardForm_iff {label : Label} :
    (∃ place, (ofStandardForm form).label place = label) ↔ label ∈ unknowns n m := by
  rw [mem_unknowns_iff]
  constructor
  · rintro ⟨i | j, isLabel⟩
    · exact .inr (.inr ⟨i, i.isLt, by simpa using isLabel.symm⟩)
    · induction j using Fin.lastCases with
      | last => exact .inl (by simpa using isLabel.symm)
      | cast j => exact .inr (.inl ⟨j, j.isLt, by simpa using isLabel.symm⟩)
  · rintro (isAuxiliary | ⟨j, known, isDecision⟩ | ⟨i, known, isSlack⟩)
    · exact ⟨.inr (Fin.last m), by simp [isAuxiliary]⟩
    · refine ⟨.inr (Fin.castSucc ⟨j, known⟩), ?_⟩
      rw [label_inr, nonbasic_ofStandardForm_castSucc, isDecision]
    · exact ⟨.inl ⟨i, known⟩, by simp [isSlack]⟩

section Entries

variable (i : Fin n) (j : Fin m)

theorem entry_ofStandardForm_basic :
    (ofStandardForm form).entry (basicRow i) (nonbasicColumn j.castSucc) =
      (form.rows.get i).get j := by
  simp [entry_ofStandardForm, initialEntry, basicRow, nonbasicColumn, get_eq_getElem]

theorem entry_ofStandardForm_basic_auxiliary :
    (ofStandardForm form).entry (basicRow i) (nonbasicColumn (Fin.last m)) = -1 := by
  simp [entry_ofStandardForm, initialEntry, basicRow, nonbasicColumn]

theorem rhs_ofStandardForm_basic : (ofStandardForm form).rhs (basicRow i) = form.bounds.get i := by
  simp [rhs, entry_ofStandardForm, initialEntry, basicRow, rhsColumn, get_eq_getElem]

theorem entry_ofStandardForm_objective :
    (ofStandardForm form).entry objectiveRow (nonbasicColumn j.castSucc) =
      -form.objective.get j := by
  simp [entry_ofStandardForm, initialEntry, objectiveRow, nonbasicColumn, get_eq_getElem]

theorem entry_ofStandardForm_objective_auxiliary :
    (ofStandardForm form).entry objectiveRow (nonbasicColumn (Fin.last m)) = 0 := by
  simp [entry_ofStandardForm, initialEntry, objectiveRow, nonbasicColumn]

theorem rhs_ofStandardForm_objective : (ofStandardForm form).rhs objectiveRow = 0 := by
  simp [rhs, entry_ofStandardForm, initialEntry, objectiveRow, rhsColumn]

theorem entry_ofStandardForm_auxiliary :
    (ofStandardForm form).entry auxiliaryRow (nonbasicColumn j.castSucc) = 0 := by
  simp [entry_ofStandardForm, initialEntry, auxiliaryRow, nonbasicColumn, j.isLt.ne]

theorem entry_ofStandardForm_auxiliary_auxiliary :
    (ofStandardForm form).entry auxiliaryRow (nonbasicColumn (Fin.last m)) = 1 := by
  simp [entry_ofStandardForm, initialEntry, auxiliaryRow, nonbasicColumn]

theorem rhs_ofStandardForm_auxiliary : (ofStandardForm form).rhs auxiliaryRow = 0 := by
  simp [rhs, entry_ofStandardForm, initialEntry, auxiliaryRow, rhsColumn]

/-- The auxiliary row is zero outside the auxiliary column. -/
theorem entry_ofStandardForm_auxiliary_other {j : Fin (m + 2)}
    (other : j ≠ nonbasicColumn auxiliaryColumn) :
    (ofStandardForm form).entry auxiliaryRow j = 0 := by
  induction j using Fin.lastCases with
  | last => exact rhs_ofStandardForm_auxiliary form
  | cast j =>
      induction j using Fin.lastCases with
      | last => exact absurd rfl other
      | cast j => exact entry_ofStandardForm_auxiliary form j

end Entries

theorem basic_entered (r : Fin n) :
    ((ofStandardForm form).exchange r auxiliaryColumn).basic r = .auxiliary := by
  rw [basic_exchange, if_pos rfl, auxiliaryColumn, nonbasic_ofStandardForm_last]

section Entered

variable (form : StandardForm ℚ n m) (r : Fin n)

theorem factor_auxiliaryColumn_basic (i : Fin n) :
    (ofStandardForm form).factor r auxiliaryColumn (basicRow i) = 1 := by
  rw [factor, auxiliaryColumn, entry_ofStandardForm_basic_auxiliary,
    entry_ofStandardForm_basic_auxiliary, div_self (by norm_num)]

theorem rhs_entered_pivotRow :
    ((ofStandardForm form).exchange r auxiliaryColumn).rhs (basicRow r) =
      -form.bounds.get r := by
  rw [exchange_rhs_pivotRow, auxiliaryColumn, entry_ofStandardForm_basic_auxiliary,
    rhs_ofStandardForm_basic, div_neg, div_one]

theorem rhs_entered_otherRow {i : Fin n} (other : i ≠ r) :
    ((ofStandardForm form).exchange r auxiliaryColumn).rhs (basicRow i) =
      form.bounds.get i - form.bounds.get r := by
  rw [exchange_rhs_other _ _ _ (basicRow_injective.ne other), factor_auxiliaryColumn_basic,
    mul_one, rhs_ofStandardForm_basic, rhs_ofStandardForm_basic]

end Entered

end TwoPhase.Tableau
