import TwoPhase.Proofs.Departure
import TwoPhase.Proofs.Tableau.Certificate

/-!
# Feasible bases along a solve

The auxiliary pivot makes the basis feasible, and on a run whose tests are clear of the tolerance,
those of the entering rule apart, every pivot of the phases keeps it feasible.
-/

namespace TwoPhase.Tableau

variable {α : Type} {n m : Nat}

section Tests

variable [Scalar α]

/-- The smallest right-hand side of a first tableau. -/
def lowestTests (t : Tableau α n m) : List α :=
  t.lowestRow.toList.map fun r => t.rhs (basicRow r)

/-- The auxiliary objective that phase one leaves, if it ends at an optimum. -/
def auxiliaryTests (t : Tableau α n m) (cap : Nat) : List α :=
  match t.restorationStart? with
  | none => []
  | some entered =>
      match (entered.runPhase .one cap).verdict with
      | .ok .optimal => [(entered.runPhase .one cap).final.auxiliaryObjective]
      | _ => []

/-- The values whose tests decide whether a solve keeps its bases feasible: those of the entering
rule are not among them. -/
def feasibilityTests (t : Tableau α n m) (cap : Nat) : List α :=
  t.lowestTests ++ (t.restorationTrail cap).flatMap (fun u => u.blockingTests .one) ++
    t.auxiliaryTests cap ++ (t.maximizationTrail cap).flatMap fun u => u.blockingTests .two

/-- Every value that a solve tests against the tolerance, near-ties included. -/
def solveTests (t : Tableau α n m) (cap : Nat) : List α :=
  t.lowestTests ++ (t.restorationTrail cap).flatMap (fun u => u.choiceTests .one) ++
    t.auxiliaryTests cap ++ (t.maximizationTrail cap).flatMap fun u => u.choiceTests .two

end Tests

section Exchange

variable {t : Tableau ℚ n m} {r : Fin n} {s : Fin (m + 1)}

/-- A pivot takes from a right-hand side its row's entry times the ratio of the pivot row. -/
theorem exchange_rhs_eq_sub (t : Tableau ℚ n m) (s : Fin (m + 1)) {i : Fin (n + 2)}
    (other : i ≠ basicRow r) :
    (t.exchange r s).rhs i =
      t.rhs i - t.entry i (nonbasicColumn s) * t.ratio (nonbasicColumn s) r := by
  rw [exchange_rhs_other t r s other, factor, ratio]
  ring

/-- A pivot in the row of the smallest ratio keeps the basis feasible. -/
theorem IsFeasible.exchange (feasible : t.IsFeasible)
    (positive : 0 < t.entry (basicRow r) (nonbasicColumn s))
    (smallest : ∀ i, 0 < t.entry (basicRow i) (nonbasicColumn s) →
      t.ratio (nonbasicColumn s) r ≤ t.ratio (nonbasicColumn s) i) :
    (t.exchange r s).IsFeasible := by
  intro i
  by_cases leaving : i = r
  · rw [leaving, exchange_rhs_pivotRow]
    exact div_nonneg (feasible r) positive.le
  rw [exchange_rhs_eq_sub t s (basicRow_injective.ne leaving), sub_nonneg]
  have ratioNonneg : 0 ≤ t.ratio (nonbasicColumn s) r := div_nonneg (feasible r) positive.le
  rcases le_or_gt (t.entry (basicRow i) (nonbasicColumn s)) 0 with falling | rising
  · exact (mul_nonpos_of_nonpos_of_nonneg falling ratioNonneg).trans (feasible i)
  · calc t.entry (basicRow i) (nonbasicColumn s) * t.ratio (nonbasicColumn s) r
        ≤ t.entry (basicRow i) (nonbasicColumn s) * t.ratio (nonbasicColumn s) i :=
          mul_le_mul_of_nonneg_left (smallest i rising) rising.le
      _ = t.rhs (basicRow i) := mul_div_cancel₀ _ rising.ne'

theorem IsFeasible.exchange_of_rhs_eq_zero (feasible : t.IsFeasible)
    (zero : t.rhs (basicRow r) = 0) : (t.exchange r s).IsFeasible := by
  intro i
  by_cases leaving : i = r
  · rw [leaving, exchange_rhs_pivotRow, zero, zero_div]
  · rw [exchange_rhs_other t r s (basicRow_injective.ne leaving), zero, zero_mul, sub_zero]
    exact feasible i

theorem lowestRow_le (lowest : t.lowestRow = some r) (i : Fin n) :
    t.rhs (basicRow r) ≤ t.rhs (basicRow i) := by
  apply survivor_le (fun k => t.rhs (basicRow k)) _ lowest (List.mem_finRange i)
  intro pair _
  unfold duel
  by_cases ordered : t.rhs (basicRow pair.1) ≤ t.rhs (basicRow pair.2)
  · simp [ordered]
  · simp [ordered, (not_le.mp ordered).le]

theorem exists_lowestRow (t : Tableau ℚ n m) (i : Fin n) : ∃ r, t.lowestRow = some r := by
  cases lowest : t.lowestRow with
  | none =>
      rw [lowestRow, survivor_eq_none_iff] at lowest
      exact absurd (List.mem_finRange i) (by simp [lowest])
  | some r => exact ⟨r, rfl⟩

theorem isFeasible_exchange_auxiliary {form : StandardForm ℚ n m}
    (lowest : (ofStandardForm form).lowestRow = some r)
    (below : (ofStandardForm form).rhs (basicRow r) < 0) :
    ((ofStandardForm form).exchange r auxiliaryColumn).IsFeasible := by
  intro i
  by_cases leaving : i = r
  · rw [leaving, rhs_entered_pivotRow, ← rhs_ofStandardForm_basic]
    exact neg_nonneg.mpr below.le
  · rw [rhs_entered_otherRow form r leaving, ← rhs_ofStandardForm_basic,
      ← rhs_ofStandardForm_basic]
    exact sub_nonneg.mpr (lowestRow_le lowest i)

end Exchange

section Phases

variable {phase : Phase} {remaining : Nat}

/-- One pivot of a phase keeps the basis feasible if the tests before it are clear. -/
theorem IsFeasible.step {t next : Tableau ℚ n m} (feasible : t.IsFeasible)
    (clear : ∀ value ∈ t.blockingTests phase, Clear value) (chosen : t.step? phase = some next) :
    next.IsFeasible := by
  obtain ⟨r, s, choice, accepted⟩ := step?_eq_some_iff.mp chosen
  obtain ⟨_, equality⟩ := pivotAt_eq_ok_iff.mp accepted
  obtain ⟨enters, leaves⟩ := choose_eq_pivot_iff.mp choice
  have bounding := mem_boundingRows_iff.mp (mem_boundingRows_of_leaving leaves)
  rw [equality]
  apply feasible.exchange (Scalar.tolerance_pos.trans bounding)
  intro i positive
  apply leaving_ratio_le clear enters leaves
  apply mem_boundingRows_iff.mpr
  by_contra notBounding
  exact absurd ((clear_entry clear enters i).nonpos notBounding) (not_le.mpr positive)

theorem isFeasible_of_mem_phaseTrail {t u : Tableau ℚ n m} (feasible : t.IsFeasible)
    (clear : ∀ v ∈ t.phaseTrail phase remaining, ∀ value ∈ v.blockingTests phase, Clear value)
    (member : u ∈ t.phaseTrail phase remaining) : u.IsFeasible := by
  apply phaseTrail_induction feasible _ member
  intro v inTrail next vFeasible chosen
  exact vFeasible.step (clear v inTrail) chosen

end Phases

section DriveOut

theorem IsFeasible.driveOut {form : StandardForm ℚ n m} {t driven : Tableau ℚ n m}
    (feasible : t.IsFeasible) (reached : Reaches (ofStandardForm form) t)
    (zero : t.auxiliaryObjective = 0) (out : t.driveOut.result = .ok driven) :
    driven.IsFeasible := by
  rcases driveOut_cases out with ⟨_, same⟩ | ⟨r, found, accepted⟩
  · exact same ▸ feasible
  · obtain ⟨_, equality⟩ := pivotAt_eq_ok_iff.mp accepted
    rw [equality]
    apply feasible.exchange_of_rhs_eq_zero
    have value := basicSolution_basic reached.label_injective r
    rw [basic_auxiliaryBasicRow found] at value
    rw [← value, ← neg_eq_zero, ← reached.auxiliaryObjective_eq, zero]

end DriveOut

section Solve

variable {form : StandardForm ℚ n m} {cap : Nat}

theorem isFeasible_of_restorationStart? {entered : Tableau ℚ n m}
    (started : (ofStandardForm form).restorationStart? = some entered) : entered.IsFeasible := by
  obtain ⟨r, lowest, below, accepted⟩ := restorationStart?_eq_some_iff.mp started
  obtain ⟨_, equality⟩ := pivotAt_eq_ok_iff.mp accepted
  rw [equality]
  exact isFeasible_exchange_auxiliary lowest (below.trans (neg_neg_of_pos Scalar.tolerance_pos))

section Kept

variable (clear : ∀ value ∈ (ofStandardForm form).feasibilityTests cap, Clear value)

include clear

theorem clear_lowest {r : Fin n} (lowest : (ofStandardForm form).lowestRow = some r) :
    Clear ((ofStandardForm form).rhs (basicRow r)) := by
  apply clear
  simp [feasibilityTests, lowestTests, lowest]

theorem clear_auxiliary {entered : Tableau ℚ n m}
    (started : (ofStandardForm form).restorationStart? = some entered)
    (verdict : (entered.runPhase .one cap).verdict = .ok .optimal) :
    Clear (entered.runPhase .one cap).final.auxiliaryObjective := by
  apply clear
  simp [feasibilityTests, auxiliaryTests, started, verdict]

theorem clear_blocking_of_restoration {entered u : Tableau ℚ n m}
    (started : (ofStandardForm form).restorationStart? = some entered)
    (member : u ∈ entered.phaseTrail .one cap) :
    ∀ value ∈ u.blockingTests .one, Clear value := by
  intro value tested
  apply clear
  have inTrail := mem_restorationTrail started member
  simp only [feasibilityTests, List.mem_append, List.mem_flatMap]
  exact .inl (.inl (.inr ⟨u, inTrail, tested⟩))

theorem clear_blocking_of_maximization {feasible u : Tableau ℚ n m}
    (restored : ((ofStandardForm form).restoreFeasibility cap).result = .ok (.feasible feasible))
    (member : u ∈ feasible.phaseTrail .two cap) :
    ∀ value ∈ u.blockingTests .two, Clear value := by
  intro value tested
  apply clear
  have inTrail := mem_maximizationTrail restored member
  simp only [feasibilityTests, List.mem_append, List.mem_flatMap]
  exact .inr ⟨u, inTrail, tested⟩

theorem isFeasible_of_restoration {entered u : Tableau ℚ n m}
    (started : (ofStandardForm form).restorationStart? = some entered)
    (member : u ∈ entered.phaseTrail .one cap) : u.IsFeasible := by
  apply isFeasible_of_mem_phaseTrail (isFeasible_of_restorationStart? started) _ member
  intro v inPhase
  exact clear_blocking_of_restoration clear started inPhase

theorem isFeasible_of_restored {feasible : Tableau ℚ n m}
    (restored : (ofStandardForm form).Restores cap (.feasible feasible)) :
    feasible.IsFeasible := by
  cases restored with
  | skipped high =>
      intro i
      obtain ⟨r, lowest⟩ := exists_lowestRow (ofStandardForm form) i
      exact ((clear_lowest clear lowest).nonneg (high r lowest)).trans (lowestRow_le lowest i)
  | @driven entered _ started verdict small out =>
      have member := runPhase_final_mem entered .one cap
      have zero := (clear_auxiliary clear started verdict).eq_zero (by simpa using small)
      exact (isFeasible_of_restoration clear started member).driveOut
        (reaches_of_restoration started member) zero out

theorem isFeasible_of_maximization {feasible u : Tableau ℚ n m}
    (restored : ((ofStandardForm form).restoreFeasibility cap).result = .ok (.feasible feasible))
    (member : u ∈ feasible.phaseTrail .two cap) : u.IsFeasible := by
  have startFeasible := isFeasible_of_restored clear (restores_of_result restored)
  apply isFeasible_of_mem_phaseTrail startFeasible _ member
  intro v inPhase
  exact clear_blocking_of_maximization clear restored inPhase

end Kept

section Clear

variable (clear : ∀ value ∈ (ofStandardForm form).solveTests cap, Clear value)

include clear

theorem clear_feasibilityTests :
    ∀ value ∈ (ofStandardForm form).feasibilityTests cap, Clear value := by
  intro value tested
  apply clear
  simp only [feasibilityTests, solveTests, List.mem_append, List.mem_flatMap] at tested ⊢
  rcases tested with ((lowest | ⟨u, inTrail, blocking⟩) | auxiliary) | ⟨u, inTrail, blocking⟩
  · exact .inl (.inl (.inl lowest))
  · exact .inl (.inl (.inr ⟨u, inTrail, List.mem_append_right _ blocking⟩))
  · exact .inl (.inr auxiliary)
  · exact .inr ⟨u, inTrail, List.mem_append_right _ blocking⟩

theorem clear_restoration {entered u : Tableau ℚ n m}
    (started : (ofStandardForm form).restorationStart? = some entered)
    (member : u ∈ entered.phaseTrail .one cap) :
    ∀ value ∈ u.choiceTests .one, Clear value := by
  intro value tested
  apply clear
  have inTrail := mem_restorationTrail started member
  simp only [solveTests, List.mem_append, List.mem_flatMap]
  exact .inl (.inl (.inr ⟨u, inTrail, tested⟩))

theorem clear_maximization {feasible u : Tableau ℚ n m}
    (restored : ((ofStandardForm form).restoreFeasibility cap).result = .ok (.feasible feasible))
    (member : u ∈ feasible.phaseTrail .two cap) :
    ∀ value ∈ u.choiceTests .two, Clear value := by
  intro value tested
  apply clear
  have inTrail := mem_maximizationTrail restored member
  simp only [solveTests, List.mem_append, List.mem_flatMap]
  exact .inr ⟨u, inTrail, tested⟩

end Clear

end Solve

end TwoPhase.Tableau
