import TwoPhase.Proofs.Tableau.Start

/-!
# Tableaux that pivots reach

An accepted pivot is an exchange, so what exchanges at large enough entries keep holds of every
tableau that a sequence of accepted pivots reaches.  The first such properties are that no unknown
stands at two places and that each one stands somewhere.
-/

namespace TwoPhase.Tableau

variable {α : Type} {n m : Nat} [Scalar α]

/-- The tableaux to which finite sequences of accepted pivots lead. -/
inductive Reaches (start : Tableau α n m) : Tableau α n m → Prop
  | start : Reaches start start
  | pivot {t next : Tableau α n m} {r s : Nat} :
      Reaches start t → t.pivot r s = .ok next → Reaches start next

namespace Reaches

variable {start t next : Tableau α n m}

theorem pivotAt (reached : Reaches start t) {r : Fin n} {s : Fin (m + 1)}
    (accepted : t.pivotAt r s = .ok next) : Reaches start next :=
  reached.pivot (pivot_eq_ok_iff.mpr ⟨r.isLt, s.isLt, accepted⟩)

theorem trans (first : Reaches start t) (second : Reaches t next) : Reaches start next := by
  induction second with
  | start => exact first
  | pivot _ accepted inductionHypothesis => exact inductionHypothesis.pivot accepted

/-- What every exchange at an accepted entry keeps holds along all accepted pivots. -/
theorem preserves {P : Tableau α n m → Prop} (reached : Reaches start t) (initially : P start)
    (step : ∀ (u : Tableau α n m) (r : Fin n) (s : Fin (m + 1)), P u →
      Scalar.tolerance < Scalar.abs (u.entry (basicRow r) (nonbasicColumn s)) →
      P (u.exchange r s)) : P t := by
  induction reached with
  | start => exact initially
  | pivot _ accepted inductionHypothesis =>
      obtain ⟨row, column, acceptedAt⟩ := pivot_eq_ok_iff.mp accepted
      obtain ⟨large, equality⟩ := pivotAt_eq_ok_iff.mp acceptedAt
      subst equality
      exact step _ _ _ inductionHypothesis large

end Reaches

theorem Reaches.label_injective {form : StandardForm α n m} {t : Tableau α n m}
    (reached : Reaches (ofStandardForm form) t) : Function.Injective t.label := by
  apply reached.preserves (P := fun u => Function.Injective u.label)
    (label_ofStandardForm_injective form)
  intro u r s distinct _
  exact label_exchange_injective distinct r s

theorem range_label_exchange (t : Tableau α n m) (r : Fin n) (s : Fin (m + 1)) :
    Set.range (t.exchange r s).label = Set.range t.label := by
  rw [label_exchange, EquivLike.range_comp]

/-- Pivots move the unknowns of the system about, and lose none. -/
theorem Reaches.exists_label_iff {form : StandardForm α n m} {t : Tableau α n m}
    (reached : Reaches (ofStandardForm form) t) {label : Label} :
    (∃ place, t.label place = label) ↔ label ∈ unknowns n m := by
  have sameRange : Set.range t.label = Set.range (ofStandardForm form).label := by
    apply reached.preserves
      (P := fun u => Set.range u.label = Set.range (ofStandardForm form).label) rfl
    intro u r s same _
    rw [range_label_exchange, same]
  rw [← Set.mem_range, sameRange, Set.mem_range, exists_label_ofStandardForm_iff]

end TwoPhase.Tableau
