import Mathlib.Algebra.Order.Field.Basic
import TwoPhase.Proofs.Tableau.InPlace

/-!
# Pivots undone

Over exact arithmetic a pivot in place leaves what one formula for each kind of entry gives from the
old entries.  A second pivot at the same place takes everything back, as long as the first entry was
not so large that its inverse is too small to pivot on.
-/

namespace TwoPhase.Tableau

variable {n m : Nat}

/-- The second tableau has every entry computed from entries of the first, and the labels of one row
and one column exchanged. -/
structure UpdatedAt (t next : Tableau ℚ n m) (r : Fin n) (s : Fin (m + 1)) : Prop where
  pivot :
    next.entry (basicRow r) (nonbasicColumn s) = 1 / t.entry (basicRow r) (nonbasicColumn s)
  pivotRow {j : Fin (m + 2)} : j ≠ nonbasicColumn s →
    next.entry (basicRow r) j = t.entry (basicRow r) j / t.entry (basicRow r) (nonbasicColumn s)
  pivotColumn {i : Fin (n + 2)} : i ≠ basicRow r →
    next.entry i (nonbasicColumn s) =
      -t.entry i (nonbasicColumn s) / t.entry (basicRow r) (nonbasicColumn s)
  other {i : Fin (n + 2)} {j : Fin (m + 2)} : i ≠ basicRow r → j ≠ nonbasicColumn s →
    next.entry i j =
      t.entry i j -
        t.entry (basicRow r) j * t.entry i (nonbasicColumn s) /
          t.entry (basicRow r) (nonbasicColumn s)
  enters : next.basic r = t.nonbasic s
  leaves : next.nonbasic s = t.basic r
  basic {i : Fin n} : i ≠ r → next.basic i = t.basic i
  nonbasic {j : Fin (m + 1)} : j ≠ s → next.nonbasic j = t.nonbasic j

section Exchange

variable (t : Tableau ℚ n m) (r : Fin n) (s : Fin (m + 1))

theorem updatedAt_exchange : t.UpdatedAt (t.exchange r s) r s where
  pivot := t.exchange_entry_pivot r s
  pivotRow := t.exchange_entry_pivotRow r s
  pivotColumn other := by rw [exchange_entry_pivotColumn t r s other, factor, neg_div]
  other otherRow otherColumn := by
    rw [exchange_entry_other t r s otherRow otherColumn, factor, mul_div_assoc]
  enters := by rw [basic_exchange, if_pos rfl]
  leaves := by rw [nonbasic_exchange, if_pos rfl]
  basic other := by rw [basic_exchange, if_neg other]
  nonbasic other := by rw [nonbasic_exchange, if_neg other]

variable {t r s} (nonzero : t.entry (basicRow r) (nonbasicColumn s) ≠ 0)

include nonzero

/-- To undo a pivot a row takes back as many pivot rows as it had given. -/
theorem factor_exchange {i : Fin (n + 2)} (other : i ≠ basicRow r) :
    (t.exchange r s).factor r s i = -t.entry i (nonbasicColumn s) := by
  rw [factor, exchange_entry_pivotColumn t r s other, exchange_entry_pivot, factor]
  field_simp

theorem entry_exchange_exchange (i : Fin (n + 2)) (j : Fin (m + 2)) :
    ((t.exchange r s).exchange r s).entry i j = t.entry i j := by
  by_cases pivotRow : i = basicRow r
  · subst pivotRow
    by_cases pivotColumn : j = nonbasicColumn s
    · rw [pivotColumn, exchange_entry_pivot, exchange_entry_pivot, one_div_one_div]
    · rw [exchange_entry_pivotRow _ r s pivotColumn, exchange_entry_pivotRow t r s pivotColumn,
        exchange_entry_pivot, div_div_div_cancel_right₀ nonzero, div_one]
  · by_cases pivotColumn : j = nonbasicColumn s
    · rw [pivotColumn, exchange_entry_pivotColumn _ r s pivotRow, factor_exchange nonzero pivotRow,
        neg_neg]
    · rw [exchange_entry_other _ r s pivotRow pivotColumn, factor_exchange nonzero pivotRow,
        exchange_entry_other t r s pivotRow pivotColumn, exchange_entry_pivotRow t r s pivotColumn,
        factor]
      field_simp
      ring

theorem exchange_exchange : (t.exchange r s).exchange r s = t := by
  apply eq_of_entry_eq_of_label_eq (entry_exchange_exchange nonzero)
  rw [label_exchange, label_exchange, Function.comp_assoc, ← Equiv.coe_trans, Equiv.swap_swap]
  rfl

end Exchange

/-- The inverse of an entry is large enough for a pivot unless the entry is too large. -/
theorem tolerance_lt_abs_one_div_iff {value : ℚ} (nonzero : value ≠ 0) :
    Scalar.tolerance < Scalar.abs (1 / value) ↔ |value| < 10 ^ 9 := by
  rw [Scalar.abs_rat, Scalar.tolerance_rat, abs_one_div]
  exact one_div_lt_one_div (by norm_num) (abs_pos.mpr nonzero)

theorem pivotAt_exchange_eq_ok_iff {t : Tableau ℚ n m} {r : Fin n} {s : Fin (m + 1)}
    (nonzero : t.entry (basicRow r) (nonbasicColumn s) ≠ 0) :
    (t.exchange r s).pivotAt r s = .ok t ↔
      |t.entry (basicRow r) (nonbasicColumn s)| < 10 ^ 9 := by
  rw [pivotAt_eq_ok_iff, exchange_entry_pivot, exchange_exchange nonzero, and_iff_left rfl,
    tolerance_lt_abs_one_div_iff nonzero]

/-- Over exact arithmetic the loops of an accepted pivot leave every entry as if all had been
computed at once from the old ones, and exchange two labels.  Exactly if the entry was below
`10 ^ 9` in absolute value, a second pivot at the same place is accepted and restores the tableau. -/
theorem pivotInPlace_updates_and_undoes {t next : Tableau ℚ n m} {r s : Nat}
    (accepted : (pivotInPlace r s).on t = (.ok (), next)) :
    ∃ (row : r < n) (column : s < m + 1),
      t.UpdatedAt next ⟨r, row⟩ ⟨s, column⟩ ∧
        ((pivotInPlace r s).on next = (.ok (), t) ↔
          |t.entry (basicRow ⟨r, row⟩) (nonbasicColumn ⟨s, column⟩)| < 10 ^ 9) := by
  rw [pivotInPlace_on_eq_ok_iff, pivot_eq_ok_iff] at accepted
  obtain ⟨row, column, acceptedAt⟩ := accepted
  obtain ⟨large, rfl⟩ := pivotAt_eq_ok_iff.mp acceptedAt
  refine ⟨row, column, updatedAt_exchange t _ _, ?_⟩
  rw [pivotInPlace_on_eq_ok_iff, pivot_eq_ok_iff,
    ← pivotAt_exchange_eq_ok_iff (Scalar.ne_zero_of_large large)]
  exact ⟨fun ⟨_, _, back⟩ => back, fun back => ⟨row, column, back⟩⟩

/-- Two rows, one of them without the entering variable. -/
def skippedRow : Tableau ℚ 2 1 where
  entries := #v[#v[2, -1, 4], #v[0, -1, 3], #v[-3, 0, 6], #v[0, 1, -2]]
  basis := #v[.decision 0, .slack 1]
  nonbasis := #v[.slack 0, .auxiliary]

theorem pivotInPlace_undone_skippedRow :
    let next := skippedRow.exchange 0 0
    (pivotInPlace 0 0).on skippedRow = (.ok (), next) ∧
      next.entry objectiveRow (nonbasicColumn auxiliaryColumn) = -3 / 2 ∧
      next.entry 1 rhsColumn = 3 ∧ (pivotInPlace 0 0).on next = (.ok (), skippedRow) := by
  intro next
  have accepted : (pivotInPlace 0 0).on skippedRow = (.ok (), next) := by
    refine pivotInPlace_on_eq_ok_iff.mpr (pivot_eq_ok_iff.mpr ⟨by decide, by decide, ?_⟩)
    exact pivotAt_eq_ok_iff.mpr ⟨by decide +kernel, rfl⟩
  obtain ⟨_, _, updated, undone⟩ := pivotInPlace_updates_and_undoes accepted
  have updated : skippedRow.UpdatedAt next 0 0 := updated
  have small : |skippedRow.entry (basicRow 0) (nonbasicColumn 0)| < 10 ^ 9 := by decide +kernel
  refine ⟨accepted, ?_, ?_, undone.mpr small⟩
  · exact (updated.other (by decide) (by decide)).trans (by decide +kernel)
  · exact (updated.other (by decide) (by decide)).trans (by decide +kernel)

end TwoPhase.Tableau
