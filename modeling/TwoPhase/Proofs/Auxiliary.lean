import TwoPhase.Proofs.Feasibility
import TwoPhase.Proofs.Sequence
import TwoPhase.Proofs.Tableau.Rate
import TwoPhase.Proofs.Tableau.Ties

/-!
# The auxiliary variable in phase one

Along phase one the auxiliary row follows the auxiliary variable: it negates the row where the
variable is basic, and once the variable is nonbasic it holds a one in its column and nothing else,
so that no column may enter.

The auxiliary variable comes in at a positive value.  If all tests are clear its row bounds every
column that enters, and it wins every tie.  So another row leaves only with a smaller ratio, which
keeps the auxiliary variable positive, and the variable gets to zero by leaving itself.
-/

namespace TwoPhase.Tableau

variable {n m : Nat} {form : StandardForm ℚ n m}

section Row

variable {t : Tableau ℚ n m} {r : Fin n} {s : Fin (m + 1)}

theorem valueOf_basic (distinct : Function.Injective t.label) (i : Fin n) :
    t.valueOf (t.basic i) = t.rhs (basicRow i) := by
  rw [valueOf_eq_basicSolution distinct, basicSolution_basic distinct]

variable (reached : Reaches (ofStandardForm form) t)

include reached

theorem Reaches.auxiliaryObjective_eq_valueOf :
    t.auxiliaryObjective = -t.valueOf .auxiliary := by
  rw [valueOf_eq_basicSolution reached.label_injective, reached.auxiliaryObjective_eq]

theorem Reaches.entry_auxiliaryRow_of_basic (isAuxiliary : t.basic r = .auxiliary) :
    t.entry auxiliaryRow (nonbasicColumn s) = -t.entry (basicRow r) (nonbasicColumn s) := by
  rw [reached.entry_auxiliaryRow, ← isAuxiliary, rate_basic reached.label_injective]

theorem Reaches.auxiliary_not_basic (isAuxiliary : t.nonbasic s = .auxiliary) (i : Fin n) :
    t.basic i ≠ .auxiliary := by
  intro alsoBasic
  have samePlace : t.label (.inr s) = t.label (.inl i) := by
    rw [label_inr, label_inl, isAuxiliary, alsoBasic]
  cases reached.label_injective samePlace

theorem Reaches.valueOf_auxiliary_of_nonbasic (isAuxiliary : t.nonbasic s = .auxiliary) :
    t.valueOf .auxiliary = 0 := by
  rw [valueOf_eq_basicSolution reached.label_injective]
  exact basicSolution_eq_zero (reached.auxiliary_not_basic isAuxiliary) reached.label_injective

/-- Once the auxiliary variable is nonbasic, the auxiliary row is one in its column and zero
elsewhere. -/
theorem Reaches.entry_auxiliaryRow_of_nonbasic (isAuxiliary : t.nonbasic s = .auxiliary)
    (j : Fin (m + 2)) : t.entry auxiliaryRow j = if j = nonbasicColumn s then 1 else 0 := by
  induction j using Fin.lastCases with
  | last =>
      change t.auxiliaryObjective = if rhsColumn = nonbasicColumn s then 1 else 0
      rw [reached.auxiliaryObjective_eq_valueOf, reached.valueOf_auxiliary_of_nonbasic isAuxiliary,
        neg_zero, if_neg (rhsColumn_ne_nonbasicColumn s)]
  | cast j =>
      change t.entry auxiliaryRow (nonbasicColumn j) = _
      rw [reached.entry_auxiliaryRow, ← isAuxiliary, rate_nonbasic reached.label_injective]
      apply if_congr _ rfl rfl
      exact eq_comm.trans nonbasicColumn_injective.eq_iff.symm

theorem Reaches.choose_of_nonbasic (isAuxiliary : t.nonbasic s = .auxiliary) :
    t.choose .one = .optimal := by
  apply choose_eq_optimal_iff.mpr
  cases enters : t.entering auxiliaryRow .one with
  | none => exact enters
  | some j =>
      have negative := entry_neg_of_entering enters
      rw [reached.entry_auxiliaryRow_of_nonbasic isAuxiliary] at negative
      split at negative <;> norm_num at negative

/-- Where phase one pivots, the auxiliary variable is basic. -/
theorem Reaches.exists_auxiliary_basic_of_pivot (choice : t.choose .one = .pivot r s) :
    ∃ i, t.basic i = .auxiliary := by
  have known : Label.auxiliary ∈ unknowns n m := mem_unknowns_iff.mpr (.inl rfl)
  obtain ⟨i | j, isAuxiliary⟩ := reached.exists_label_iff.mpr known
  · exact ⟨i, isAuxiliary⟩
  · rw [reached.choose_of_nonbasic (show t.nonbasic j = _ from isAuxiliary)] at choice
    cases choice

end Row

/-- Phase one stops where the auxiliary variable is nonbasic. -/
theorem runPhase_of_auxiliary_nonbasic {entered t : Tableau ℚ n m} {s : Fin (m + 1)} {cap : Nat}
    (reached : Reaches (ofStandardForm form) t) (member : t ∈ entered.phaseTrail .one cap)
    (isAuxiliary : t.nonbasic s = .auxiliary) :
    (entered.runPhase .one cap).final = t ∧ (entered.runPhase .one cap).verdict = .ok .optimal := by
  have choice := reached.choose_of_nonbasic isAuxiliary
  have stops : t.step? .one = none := by rw [step?, choice]
  have final := runPhase_final_of_step? member stops
  refine ⟨final, ?_⟩
  rw [verdict_runPhase, final, choice, Choice.verdict]

section Value

/-- Wherever the auxiliary variable is basic, its value is positive. -/
def AuxiliaryPositive (t : Tableau ℚ n m) : Prop :=
  ∀ i, t.basic i = .auxiliary → 0 < t.rhs (basicRow i)

theorem auxiliaryPositive_of_restorationStart? {entered : Tableau ℚ n m}
    (started : (ofStandardForm form).restorationStart? = some entered) :
    entered.AuxiliaryPositive := by
  obtain ⟨r, lowest, below, accepted⟩ := restorationStart?_eq_some_iff.mp started
  obtain ⟨_, equality⟩ := pivotAt_eq_ok_iff.mp accepted
  intro i isAuxiliary
  rw [equality, basic_exchange] at isAuxiliary
  split at isAuxiliary
  · next atRow =>
      rw [equality, atRow, rhs_entered_pivotRow, ← rhs_ofStandardForm_basic]
      linarith [Scalar.tolerance_pos]
  · simp at isAuxiliary

/-- After a pivot of phase one the auxiliary variable is positive or nonbasic: its row bounds the
entering column and would have won a tie, so that another row leaves only with a smaller ratio. -/
theorem auxiliaryPositive_of_step? {t next : Tableau ℚ n m}
    (reached : Reaches (ofStandardForm form) t)
    (clear : ∀ value ∈ t.blockingTests .one, Clear value) (chosen : t.step? .one = some next) :
    next.AuxiliaryPositive := by
  obtain ⟨r, s, choice, accepted⟩ := step?_eq_some_iff.mp chosen
  obtain ⟨_, equality⟩ := pivotAt_eq_ok_iff.mp accepted
  obtain ⟨enters, leaves⟩ := choose_eq_pivot_iff.mp choice
  obtain ⟨k, isAuxiliary⟩ := reached.exists_auxiliary_basic_of_pivot choice
  intro i stillAuxiliary
  rw [equality, basic_exchange] at stillAuxiliary
  split at stillAuxiliary
  · next atRow => exact absurd isAuxiliary (reached.auxiliary_not_basic stillAuxiliary k)
  next other =>
  have rising : 0 < t.entry (basicRow i) (nonbasicColumn s) := by
    have falling := entry_neg_of_entering enters
    rw [phaseRow, reached.entry_auxiliaryRow_of_basic stillAuxiliary] at falling
    exact neg_neg_iff_pos.mp falling
  have bounding : i ∈ t.boundingRows (nonbasicColumn s) := by
    apply mem_boundingRows_iff.mpr
    by_contra notBounding
    exact absurd ((clear_entry clear enters i).nonpos notBounding) (not_le.mpr rising)
  have smaller : t.ratio (nonbasicColumn s) r < t.ratio (nonbasicColumn s) i := by
    rcases leaving_precedes clear enters leaves bounding with smaller | ⟨_, notAfter⟩
    · exact smaller
    · rw [stillAuxiliary] at notAfter
      have first := Label.eq_auxiliary_of_not_before notAfter
      have samePlace : t.label (.inl i) = t.label (.inl r) := by
        rw [label_inl, label_inl, stillAuxiliary, first]
      exact absurd (Sum.inl_injective (reached.label_injective samePlace)) other
  rw [equality, exchange_rhs_eq_sub t s (basicRow_injective.ne other), sub_pos]
  calc t.entry (basicRow i) (nonbasicColumn s) * t.ratio (nonbasicColumn s) r
      < t.entry (basicRow i) (nonbasicColumn s) * t.ratio (nonbasicColumn s) i :=
        mul_lt_mul_of_pos_left smaller rising
    _ = t.rhs (basicRow i) := mul_div_cancel₀ _ rising.ne'

end Value

section PhaseOne

variable {entered t : Tableau ℚ n m} {cap : Nat}
  (clear : ∀ value ∈ (ofStandardForm form).feasibilityTests cap, Clear value)
  (started : (ofStandardForm form).restorationStart? = some entered)

include clear started

theorem auxiliaryPositive_of_mem_phaseTrail (member : t ∈ entered.phaseTrail .one cap) :
    t.AuxiliaryPositive := by
  apply phaseTrail_induction (auxiliaryPositive_of_restorationStart? started) _ member
  intro u inPhase next _ chosen
  exact auxiliaryPositive_of_step? (reaches_of_restoration started inPhase)
    (clear_blocking_of_restoration clear started inPhase) chosen

/-- On clear tests a pivot of phase one brings the auxiliary variable from a positive value to zero
exactly if it takes it out of the basis. -/
theorem auxiliary_leaves_iff (member : t ∈ entered.phaseTrail .one cap) {r : Fin n}
    {s : Fin (m + 1)} (choice : t.choose .one = .pivot r s) :
    0 < t.valueOf .auxiliary ∧
      (t.basic r = .auxiliary ↔ (t.exchange r s).valueOf .auxiliary = 0) := by
  have reached := reaches_of_restoration started member
  have distinct := reached.label_injective
  have positive := auxiliaryPositive_of_mem_phaseTrail clear started member
  obtain ⟨i, isAuxiliary⟩ := reached.exists_auxiliary_basic_of_pivot choice
  have nextDistinct := label_exchange_injective distinct r s
  constructor
  · rw [← isAuxiliary, valueOf_basic distinct]
    exact positive i isAuxiliary
  constructor
  · intro leaves
    rw [valueOf_eq_basicSolution nextDistinct]
    exact basicSolution_eq_zero (auxiliary_not_basic_exchange distinct leaves s) nextDistinct
  · intro zero
    by_contra stays
    have stillAuxiliary : (t.exchange r s).basic i = .auxiliary := by
      rw [basic_exchange, if_neg, isAuxiliary]
      exact fun atRow => stays (atRow ▸ isAuxiliary)
    have nextPositive := auxiliaryPositive_of_step? reached
      (clear_blocking_of_restoration clear started member)
      (step?_eq_some_iff.mpr ⟨r, s, choice, pivotAt_of_choose choice⟩)
    have valueIs := valueOf_basic nextDistinct i
    rw [stillAuxiliary, zero] at valueIs
    exact absurd (nextPositive i stillAuxiliary) (not_lt.mpr valueIs.ge)

/-- On clear tests nothing is left to drive out after phase one. -/
theorem driveOut_of_restoration (verdict : (entered.runPhase .one cap).verdict = .ok .optimal)
    (small : ¬ Scalar.tolerance < |(entered.runPhase .one cap).final.auxiliaryObjective|) :
    (entered.runPhase .one cap).final.driveOut = ⟨.ok (entered.runPhase .one cap).final, #[]⟩ := by
  have member := runPhase_final_mem entered .one cap
  have reached := reaches_of_restoration started member
  have zero := (clear_auxiliary clear started verdict).eq_zero small
  unfold driveOut
  cases found : (entered.runPhase .one cap).final.auxiliaryBasicRow? with
  | none => rfl
  | some r =>
      have isAuxiliary := basic_auxiliaryBasicRow found
      have positive := auxiliaryPositive_of_mem_phaseTrail clear started member r isAuxiliary
      rw [← valueOf_basic reached.label_injective, isAuxiliary] at positive
      rw [reached.auxiliaryObjective_eq_valueOf, neg_eq_zero] at zero
      exact absurd zero positive.ne'

end PhaseOne

end TwoPhase.Tableau
