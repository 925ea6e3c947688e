import TwoPhase.Proofs.Arrival
import TwoPhase.Proofs.Cycle
import TwoPhase.Proofs.Negation

/-!
# The auxiliary row and the row of the auxiliary variable

The pivot that brings in the auxiliary variable leaves two opposite rows, that of the auxiliary
objective and that of the auxiliary variable.  Every later pivot updates each of them by itself,
with opposite factors, so that they are skipped together and rounded alike.  The two rows are
opposite until the auxiliary variable leaves, whatever was rounded on the way.
-/

namespace TwoPhase.Tableau

open Scalar (Agree LawfulNeg)

variable {α : Type} {n m : Nat} [Scalar α]

/-- The auxiliary row is the negation of row `r`, entry by entry. -/
def AuxiliaryOpposes (t : Tableau α n m) (r : Fin n) : Prop :=
  ∀ j, Agree (t.entry auxiliaryRow j) (-t.entry (basicRow r) j)

/-- The auxiliary variable stays basic in row `r` over the first pivots of phase one. -/
def KeepsAuxiliary (t : Tableau α n m) (r : Fin n) (pivots : Nat) : Prop :=
  ∀ made ≤ pivots, ∀ u, t.after .one made = some u → u.basic r = .auxiliary

section Pivot

variable [LawfulNeg α] {t : Tableau α n m} {r p : Fin n}

/-- A pivot in another row keeps the two rows opposite. -/
theorem AuxiliaryOpposes.exchange (opposes : t.AuxiliaryOpposes r) (other : r ≠ p)
    (s : Fin (m + 1)) : (t.exchange p s).AuxiliaryOpposes r := by
  intro j
  rw [entry_exchange_otherRow t p s (auxiliaryRow_ne_basicRow p),
    entry_exchange_otherRow t p s (basicRow_injective.ne other)]
  dsimp only
  generalize 1 / t.entry (basicRow p) (nonbasicColumn s) = inverse
  have opposite (k : Fin (m + 2)) (x : α) :
      Agree (t.entry auxiliaryRow k * x) (-(t.entry (basicRow r) k * x)) :=
    (LawfulNeg.mul_congr (opposes k) (.refl x)).trans (LawfulNeg.neg_mul _ x)
  -- The factors are opposite, so that either both rows are skipped or none.
  have factors := opposite (nonbasicColumn s) inverse
  rw [factors.beq_eq, Agree.neg_beq_zero]
  split_ifs with pivotColumn skipped
  · exact opposite j (-inverse)
  · exact opposes j
  · generalize t.entry auxiliaryRow (nonbasicColumn s) * inverse = auxiliaryFactor,
      t.entry (basicRow r) (nonbasicColumn s) * inverse = factor at factors
    calc Agree (t.entry auxiliaryRow j - t.entry (basicRow p) j * auxiliaryFactor)
          (-t.entry (basicRow r) j - t.entry (basicRow p) j * -factor) :=
        LawfulNeg.sub_congr (opposes j) (LawfulNeg.mul_congr (.refl _) factors)
      Agree _ (-t.entry (basicRow r) j - -(t.entry (basicRow p) j * factor)) :=
        LawfulNeg.sub_congr (.refl _) (LawfulNeg.mul_neg _ _)
      Agree _ (-(t.entry (basicRow r) j - t.entry (basicRow p) j * factor)) :=
        LawfulNeg.neg_sub_neg _ _

end Pivot

theorem auxiliaryOpposes_entered [LawfulNeg α] (form : StandardForm α n m) (r : Fin n) :
    ((ofStandardForm form).exchange r auxiliaryColumn).AuxiliaryOpposes r := by
  intro j
  rw [entry_exchange_otherRow _ _ _ (auxiliaryRow_ne_basicRow r), entry_exchange_pivotRow]
  have pivot : (ofStandardForm form).entry (basicRow r) (nonbasicColumn auxiliaryColumn) = -1 :=
    entry_ofStandardForm_basic_auxiliary form r
  have auxiliary : (ofStandardForm form).entry auxiliaryRow (nonbasicColumn auxiliaryColumn) = 1 :=
    entry_ofStandardForm_auxiliary_auxiliary form
  rw [pivot, auxiliary]
  dsimp only
  have factor : Agree (1 * (1 / -1) : α) (1 / -1) := LawfulNeg.one_mul _
  have notSkipped : ((1 * (1 / -1) : α) == 0) = false := by
    rw [factor.beq_eq, LawfulNeg.one_div_neg_one_ne_zero]
  by_cases pivotColumn : j = nonbasicColumn auxiliaryColumn
  · rw [if_pos pivotColumn, if_pos pivotColumn, pivotColumn, auxiliary]
    exact LawfulNeg.one_mul _
  · rw [if_neg pivotColumn, if_neg pivotColumn, if_neg (ne_true_of_eq_false notSkipped),
      entry_ofStandardForm_auxiliary_other form pivotColumn]
    calc Agree (0 - (ofStandardForm form).entry (basicRow r) j * (1 * (1 / -1)))
          (0 - (ofStandardForm form).entry (basicRow r) j * (1 / -1)) :=
        LawfulNeg.sub_congr (.refl 0) (LawfulNeg.mul_congr (.refl _) factor)
      Agree _ (-((ofStandardForm form).entry (basicRow r) j * (1 / -1))) := Agree.zero_sub _

section Run

variable {form : StandardForm α n m} {entered t : Tableau α n m} {r : Fin n} {pivots : Nat}

theorem KeepsAuxiliary.basic (keeps : entered.KeepsAuxiliary r pivots)
    (comes : entered.after .one pivots = some t) : t.basic r = .auxiliary :=
  keeps pivots le_rfl t comes

theorem KeepsAuxiliary.of_succ (keeps : entered.KeepsAuxiliary r (pivots + 1)) :
    entered.KeepsAuxiliary r pivots :=
  fun made within => keeps made (Nat.le_succ_of_le within)

theorem AuxiliaryOpposes.after [LawfulNeg α] (opposes : entered.AuxiliaryOpposes r)
    (reached : Reaches (ofStandardForm form) entered) (keeps : entered.KeepsAuxiliary r pivots)
    (comes : entered.after .one pivots = some t) : t.AuxiliaryOpposes r := by
  induction pivots generalizing t with
  | zero =>
      obtain rfl := Option.some.inj comes
      exact opposes
  | succ pivots inductionHypothesis =>
      obtain ⟨u, earlier, chosen⟩ := Option.bind_eq_some_iff.mp comes
      obtain ⟨p, s, _, accepted⟩ := step?_eq_some_iff.mp chosen
      obtain ⟨_, rfl⟩ := pivotAt_eq_ok_iff.mp accepted
      have distinct := (reached.trans (reaches_of_after earlier)).label_injective
      -- A pivot in row `r` itself would have taken the auxiliary variable out.
      have other : r ≠ p := by
        rintro rfl
        exact auxiliary_not_basic_exchange distinct (keeps.of_succ.basic earlier) s r
          (keeps.basic comes)
      exact (inductionHypothesis keeps.of_succ earlier).exchange other s

end Run

/-- From the pivot that brings in the auxiliary variable and for as long as phase one leaves it in
its row, the auxiliary row is the negation of that row, entry by entry.  So the auxiliary objective,
where phase one stops too, is the negated value of the auxiliary variable, and no rounding comes
between the two.  The numbers may be those of any arithmetic that commutes with negation. -/
theorem auxiliaryRow_opposes_basicRow [LawfulNeg α] {form : StandardForm α n m}
    {entered : Tableau α n m} (started : (ofStandardForm form).restorationStart? = some entered) :
    ∃ r, (ofStandardForm form).lowestRow = some r ∧ entered.basic r = .auxiliary ∧
      (∀ pivots t, entered.after .one pivots = some t → entered.KeepsAuxiliary r pivots →
        (∀ j, Agree (t.entry auxiliaryRow j) (-t.entry (basicRow r) j)) ∧
          t.auxiliaryBasicRow? = some r ∧ Agree t.auxiliaryObjective (-t.rhs (basicRow r))) ∧
      ∀ cap, let run := entered.runPhase .one cap
        entered.KeepsAuxiliary r run.pivots →
          Agree run.final.auxiliaryObjective (-run.final.rhs (basicRow r)) := by
  obtain ⟨r, lowest, _, accepted⟩ := restorationStart?_eq_some_iff.mp started
  obtain ⟨_, isEntered⟩ := pivotAt_eq_ok_iff.mp accepted
  have reached := reaches_of_restorationStart? started
  have opposes : entered.AuxiliaryOpposes r := isEntered ▸ auxiliaryOpposes_entered form r
  have isAuxiliary : entered.basic r = .auxiliary := isEntered ▸ basic_entered form r
  refine ⟨r, lowest, isAuxiliary, ?_, ?_⟩
  · intro pivots t comes keeps
    have still := opposes.after reached keeps comes
    have distinct := (reached.trans (reaches_of_after comes)).label_injective
    exact ⟨still, auxiliaryBasicRow?_eq_some distinct (keeps.basic comes), still rhsColumn⟩
  · intro cap run keeps
    obtain ⟨_, comes, _⟩ := after_runPhase entered .one cap
    exact opposes.after reached keeps comes rhsColumn

/-- Maximize `x + y` where `3 x + 0.1 y ≥ 0.5` and `0.1 x + 0.3 y ≥ 0.7`, over binary64. -/
def roundedForm : StandardForm Float 2 2 where
  objective := #v[1, 1]
  rows := #v[#v[-3, -0.1], #v[-0.1, -0.3]]
  bounds := #v[-0.5, -0.7]

/-- Exactly, the first entry of the row after one pivot would be `4.45`. -/
theorem roundedForm_rows_oppose :
    LawfulNeg Float ∧ ∃ entered t,
      (ofStandardForm roundedForm).restorationStart? = some entered ∧
        entered.after .one 1 = some t ∧ entered.KeepsAuxiliary 1 1 ∧
        t.entry (basicRow 1) 0 = 4.449999999999999 ∧
        (∀ j, Agree (t.entry auxiliaryRow j) (-t.entry (basicRow 1) j)) ∧
        t.auxiliaryBasicRow? = some 1 ∧ Agree t.auxiliaryObjective (-t.rhs (basicRow 1)) := by
  let entered := (ofStandardForm roundedForm).exchange 1 auxiliaryColumn
  have isLowest : (ofStandardForm roundedForm).lowestRow = some 1 := by decide +kernel
  have accepted : (ofStandardForm roundedForm).pivotAt 1 auxiliaryColumn = .ok entered :=
    pivotAt_eq_ok_iff.mpr ⟨by decide +kernel, rfl⟩
  have started : (ofStandardForm roundedForm).restorationStart? = some entered :=
    restorationStart?_eq_some_iff.mpr ⟨1, isLowest, by decide +kernel, accepted⟩
  have choice : entered.choose .one = .pivot 0 1 :=
    choose_eq_pivot_iff.mpr ⟨by decide +kernel, by decide +kernel⟩
  have comes : entered.after .one 1 = some (entered.exchange 0 1) :=
    step?_eq_some_iff.mpr ⟨0, 1, choice, pivotAt_eq_ok_iff.mpr ⟨by decide +kernel, rfl⟩⟩
  have keeps : entered.KeepsAuxiliary 1 1 := by
    intro made within u there
    rcases Nat.le_one_iff_eq_zero_or_eq_one.mp within with rfl | rfl
    · obtain rfl := Option.some.inj there
      decide +kernel
    · obtain rfl := Option.some.inj (comes.symm.trans there)
      decide +kernel
  obtain ⟨r, lowest, _, opposes, _⟩ := auxiliaryRow_opposes_basicRow started
  obtain rfl := Option.some.inj (isLowest.symm.trans lowest)
  exact ⟨inferInstance, entered, _, started, comes, keeps, by decide +kernel,
    opposes 1 _ comes keeps⟩

end TwoPhase.Tableau
