import TwoPhase.Proofs.Exact
import TwoPhase.Tableau.Pivot

/-!
# The exchange of one basic and one nonbasic variable

What an exchange does to the labels and to each entry, and when a pivot is accepted.  Over exact
arithmetic the row that is skipped because its factor is zero follows the same formula as the
others.
-/

namespace TwoPhase.Tableau

variable {α : Type} {n m : Nat}

/-- The unknown of a row or of a column. -/
def label (t : Tableau α n m) : Fin n ⊕ Fin (m + 1) → Label :=
  Sum.elim t.basic t.nonbasic

@[simp]
theorem label_inl (t : Tableau α n m) (i : Fin n) : t.label (.inl i) = t.basic i := rfl

@[simp]
theorem label_inr (t : Tableau α n m) (j : Fin (m + 1)) : t.label (.inr j) = t.nonbasic j := rfl

theorem entries_eq_of_entry_eq {t u : Tableau α n m}
    (same : ∀ i j, t.entry i j = u.entry i j) :
    t.entries = u.entries := by
  apply Vector.ext
  intro i inRows
  apply Vector.ext
  intro j inColumns
  exact same ⟨i, inRows⟩ ⟨j, inColumns⟩

theorem basicRow_injective : Function.Injective (basicRow : Fin n → Fin (n + 2)) :=
  Fin.castAdd_injective n 2

theorem objectiveRow_ne_basicRow (i : Fin n) : objectiveRow ≠ basicRow i := by
  intro same
  have values := congrArg Fin.val same
  simp only [objectiveRow, basicRow, Fin.val_castAdd] at values
  omega

theorem auxiliaryRow_ne_basicRow (i : Fin n) : auxiliaryRow ≠ basicRow i := by
  intro same
  have values := congrArg Fin.val same
  simp only [auxiliaryRow, basicRow, Fin.val_castAdd] at values
  omega

theorem rhsColumn_ne_nonbasicColumn (j : Fin (m + 1)) : rhsColumn ≠ nonbasicColumn j :=
  (Fin.castSucc_lt_last j).ne'

theorem nonbasicColumn_injective :
    Function.Injective (nonbasicColumn : Fin (m + 1) → Fin (m + 2)) :=
  Fin.castSucc_injective (m + 1)

section Exchange

variable [Scalar α]

theorem basic_exchange (t : Tableau α n m) (r : Fin n) (s : Fin (m + 1)) (i : Fin n) :
    (t.exchange r s).basic i = if i = r then t.nonbasic s else t.basic i := by
  change (t.basis.set r (t.nonbasic s) r.isLt)[i.val] = if i = r then _ else t.basis[i.val]
  rw [Vector.getElem_set]
  exact if_congr (by rw [Fin.ext_iff, eq_comm]) rfl rfl

theorem nonbasic_exchange (t : Tableau α n m) (r : Fin n) (s j : Fin (m + 1)) :
    (t.exchange r s).nonbasic j = if j = s then t.basic r else t.nonbasic j := by
  change (t.nonbasis.set s (t.basic r) s.isLt)[j.val] = if j = s then _ else t.nonbasis[j.val]
  rw [Vector.getElem_set]
  exact if_congr (by rw [Fin.ext_iff, eq_comm]) rfl rfl

/-- An exchange swaps the unknowns of one row and one column. -/
theorem label_exchange (t : Tableau α n m) (r : Fin n) (s : Fin (m + 1)) :
    (t.exchange r s).label = t.label ∘ Equiv.swap (.inl r) (.inr s) := by
  funext place
  rcases place with i | j
  · rw [label_inl, basic_exchange, Function.comp_apply]
    by_cases atRow : i = r
    · rw [if_pos atRow, atRow, Equiv.swap_apply_left, label_inr]
    · rw [if_neg atRow, Equiv.swap_apply_of_ne_of_ne (by simpa using atRow) (by simp), label_inl]
  · rw [label_inr, nonbasic_exchange, Function.comp_apply]
    by_cases atColumn : j = s
    · rw [if_pos atColumn, atColumn, Equiv.swap_apply_right, label_inl]
    · rw [if_neg atColumn, Equiv.swap_apply_of_ne_of_ne (by simp) (by simpa using atColumn),
        label_inr]

theorem label_exchange_injective {t : Tableau α n m} (distinct : Function.Injective t.label)
    (r : Fin n) (s : Fin (m + 1)) : Function.Injective (t.exchange r s).label := by
  rw [label_exchange]
  exact distinct.comp (Equiv.injective _)

theorem entry_exchange_pivotRow (t : Tableau α n m) (r : Fin n) (s : Fin (m + 1))
    (j : Fin (m + 2)) :
    (t.exchange r s).entry (basicRow r) j =
      if j = nonbasicColumn s then 1 / t.entry (basicRow r) (nonbasicColumn s)
      else t.entry (basicRow r) j * (1 / t.entry (basicRow r) (nonbasicColumn s)) := by
  simp only [exchange, entry, row, get_ofFn, scaledRow, if_true]

theorem entry_exchange_otherRow (t : Tableau α n m) (r : Fin n) (s : Fin (m + 1))
    {i : Fin (n + 2)} (other : i ≠ basicRow r) (j : Fin (m + 2)) :
    (t.exchange r s).entry i j =
      let inverse := 1 / t.entry (basicRow r) (nonbasicColumn s)
      let factor := t.entry i (nonbasicColumn s) * inverse
      if j = nonbasicColumn s then t.entry i j * -inverse
      else if factor == 0 then t.entry i j
      else t.entry i j - t.entry (basicRow r) j * factor := by
  simp only [exchange, entry, row, get_ofFn, clearedRow, other, if_false]
  rfl

theorem pivotAt_eq_ok_iff {t next : Tableau α n m} {r : Fin n} {s : Fin (m + 1)} :
    t.pivotAt r s = .ok next ↔
      Scalar.tolerance < Scalar.abs (t.entry (basicRow r) (nonbasicColumn s)) ∧
        next = t.exchange r s := by
  unfold pivotAt
  by_cases large : Scalar.tolerance < Scalar.abs (t.entry (basicRow r) (nonbasicColumn s))
  · simp [large, eq_comm]
  · simp [large]

theorem pivot_eq_ok_iff {t next : Tableau α n m} {r s : Nat} :
    t.pivot r s = .ok next ↔
      ∃ (row : r < n) (column : s < m + 1), t.pivotAt ⟨r, row⟩ ⟨s, column⟩ = .ok next := by
  unfold pivot
  by_cases row : r < n
  · by_cases column : s < m + 1
    · simp [row, column]
    · simp [row, column]
  · simp [row]

end Exchange

section Exact

variable (t : Tableau ℚ n m) (r : Fin n) (s : Fin (m + 1))

/-- The entries that a row takes over the pivot row's, for each unit of the entering variable. -/
def factor (i : Fin (n + 2)) : ℚ :=
  t.entry i (nonbasicColumn s) / t.entry (basicRow r) (nonbasicColumn s)

theorem exchange_entry_pivot :
    (t.exchange r s).entry (basicRow r) (nonbasicColumn s) =
      1 / t.entry (basicRow r) (nonbasicColumn s) := by
  rw [entry_exchange_pivotRow, if_pos rfl]

theorem exchange_entry_pivotRow {j : Fin (m + 2)} (other : j ≠ nonbasicColumn s) :
    (t.exchange r s).entry (basicRow r) j =
      t.entry (basicRow r) j / t.entry (basicRow r) (nonbasicColumn s) := by
  rw [entry_exchange_pivotRow, if_neg other, mul_one_div]

theorem exchange_entry_pivotColumn {i : Fin (n + 2)} (other : i ≠ basicRow r) :
    (t.exchange r s).entry i (nonbasicColumn s) = -t.factor r s i := by
  rw [entry_exchange_otherRow t r s other]
  simp only [if_true, factor]
  ring

theorem exchange_entry_other {i : Fin (n + 2)} {j : Fin (m + 2)} (otherRow : i ≠ basicRow r)
    (otherColumn : j ≠ nonbasicColumn s) :
    (t.exchange r s).entry i j = t.entry i j - t.entry (basicRow r) j * t.factor r s i := by
  rw [entry_exchange_otherRow t r s otherRow]
  simp only [otherColumn, if_false, mul_one_div, factor]
  split
  · next skipped =>
      have zero : t.entry i (nonbasicColumn s) / t.entry (basicRow r) (nonbasicColumn s) = 0 :=
        of_decide_eq_true skipped
      rw [zero, mul_zero, sub_zero]
  · rfl

theorem exchange_rhs_pivotRow :
    (t.exchange r s).rhs (basicRow r) =
      t.rhs (basicRow r) / t.entry (basicRow r) (nonbasicColumn s) :=
  t.exchange_entry_pivotRow r s (rhsColumn_ne_nonbasicColumn s)

theorem exchange_rhs_other {i : Fin (n + 2)} (other : i ≠ basicRow r) :
    (t.exchange r s).rhs i = t.rhs i - t.rhs (basicRow r) * t.factor r s i :=
  t.exchange_entry_other r s other (rhsColumn_ne_nonbasicColumn s)

end Exact

end TwoPhase.Tableau
