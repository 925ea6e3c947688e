import Mathlib.Algebra.Order.Field.Basic
import TwoPhase.Proofs.Sequence
import TwoPhase.Proofs.Tableau.Rate
import TwoPhase.Proofs.Verdict

/-!
# Accepted pivots

The rules choose pivots above the tolerance, the auxiliary variable enters the first tableau at an
entry of `-1`, and it leaves the basis at an entry that is not smaller than `1 / (m + 1)`.  So no
pivot of a solve is refused and, as only decision variables of the system become basic, every solve
comes to an outcome.
-/

namespace TwoPhase.Tableau

variable {n m : Nat} {form : StandardForm ℚ n m} {t : Tableau ℚ n m} {r : Fin n} {s : Fin (m + 1)}
  {phase : Phase}

theorem pivotAt_of_large
    (large : Scalar.tolerance < |t.entry (basicRow r) (nonbasicColumn s)|) :
    t.pivotAt r s = .ok (t.exchange r s) :=
  pivotAt_eq_ok_iff.mpr ⟨by rwa [Scalar.abs_rat], rfl⟩

theorem entry_large_of_choose (choice : t.choose phase = .pivot r s) :
    Scalar.tolerance < |t.entry (basicRow r) (nonbasicColumn s)| :=
  (tolerance_lt_of_choose choice).trans_le (le_abs_self _)

theorem exists_verdict (t : Tableau ℚ n m) (phase : Phase) (cap : Nat) :
    ∃ verdict, (t.runPhase phase cap).verdict = .ok verdict :=
  ⟨_, verdict_runPhase t phase cap⟩

theorem pivotAt_auxiliaryColumn (form : StandardForm ℚ n m) (r : Fin n) :
    (ofStandardForm form).pivotAt r auxiliaryColumn =
      .ok ((ofStandardForm form).exchange r auxiliaryColumn) := by
  apply pivotAt_of_large
  rw [auxiliaryColumn, entry_ofStandardForm_basic_auxiliary form r, Scalar.tolerance_rat]
  norm_num

/-- Phase one starts if some right-hand side is below the tolerance. -/
theorem exists_restorationStart {i : Fin n}
    (below : (ofStandardForm form).rhs (basicRow i) < -Scalar.tolerance) :
    ∃ entered, (ofStandardForm form).restorationStart? = some entered := by
  obtain ⟨r, lowest⟩ := exists_lowestRow (ofStandardForm form) i
  refine ⟨_, restorationStart?_eq_some_iff.mpr ⟨r, lowest, ?_, pivotAt_auxiliaryColumn form r⟩⟩
  exact (lowestRow_le lowest i).trans_lt below

/-- Where the auxiliary variable is basic, driving it out uses an entry of at least
`1 / (m + 1)`. -/
theorem Reaches.largestColumn_large (reached : Reaches (ofStandardForm form) t)
    (isAuxiliary : t.basic r = .auxiliary) :
    1 / ((m : ℚ) + 1) ≤
      |t.entry (basicRow r) (nonbasicColumn (t.largestColumn (basicRow r)))| := by
  obtain ⟨j, large⟩ := reached.exists_entry_large isAuxiliary
  exact large.trans (abs_entry_le_largestColumn t (basicRow r) j)

theorem tolerance_lt_one_div (few : m + 1 < 10 ^ 9) : Scalar.tolerance < 1 / ((m : ℚ) + 1) := by
  rw [Scalar.tolerance_rat]
  apply one_div_lt_one_div_of_lt (by positivity)
  exact_mod_cast few

theorem Reaches.exists_driveOut (reached : Reaches (ofStandardForm form) t)
    (few : m + 1 < 10 ^ 9) : ∃ driven, t.driveOut.result = .ok driven := by
  unfold driveOut
  cases basicAt : t.auxiliaryBasicRow? with
  | none => exact ⟨t, rfl⟩
  | some r =>
      have large := reached.largestColumn_large (basic_auxiliaryBasicRow basicAt)
      have accepted := pivotAt_of_large ((tolerance_lt_one_div few).trans_le large)
      simp only [accepted]
      exact ⟨_, rfl⟩

theorem exists_concludePhaseOne {run : PhaseRun ℚ n m} {verdict : PhaseVerdict}
    (ended : run.verdict = .ok verdict) (reached : Reaches (ofStandardForm form) run.final)
    (few : m + 1 < 10 ^ 9) : ∃ restoration, (concludePhaseOne run).result = .ok restoration := by
  unfold concludePhaseOne
  cases verdict with
  | unbounded => exact ⟨.settled .infeasible, by simp [ended]⟩
  | capped => exact ⟨.settled (.capped none), by simp [ended]⟩
  | optimal =>
      simp only [ended]
      split
      · exact ⟨_, rfl⟩
      · obtain ⟨driven, out⟩ := reached.exists_driveOut few
        simp only [out]
        exact ⟨_, rfl⟩

theorem exists_restoration (form : StandardForm ℚ n m) (few : m + 1 < 10 ^ 9) (cap : Nat) :
    ∃ restoration, ((ofStandardForm form).restoreFeasibility cap).result = .ok restoration := by
  unfold restoreFeasibility
  cases lowest : (ofStandardForm form).lowestRow with
  | none => exact ⟨_, rfl⟩
  | some r =>
      simp only
      split
      · next below =>
          obtain ⟨verdict, ended⟩ :=
            exists_verdict ((ofStandardForm form).exchange r auxiliaryColumn) .one cap
          have accepted := pivotAt_auxiliaryColumn form r
          have started := restorationStart?_eq_some_iff.mpr ⟨r, lowest, below, accepted⟩
          simp only [Reported.after, phaseOneFrom, accepted]
          exact exists_concludePhaseOne ended
            (reaches_of_restoration started (runPhase_final_mem _ .one cap)) few
      · exact ⟨_, rfl⟩

theorem exists_outcome (form : StandardForm ℚ n m) (few : m + 1 < 10 ^ 9) (cap : Nat) :
    ∃ outcome, ((ofStandardForm form).solve cap).result = .ok outcome := by
  obtain ⟨restoration, restored⟩ := exists_restoration form few cap
  unfold solve
  simp only [restored]
  cases restoration with
  | settled outcome => exact ⟨outcome, rfl⟩
  | feasible feasible =>
      obtain ⟨verdict, ended⟩ := exists_verdict feasible .two cap
      have reached := (restores_of_result restored).reaches.trans
        (reaches_of_mem_phaseTrail (runPhase_final_mem feasible .two cap))
      simp only [Reported.after, concludePhaseTwo, ended]
      cases verdict with
      | unbounded => exact ⟨_, rfl⟩
      | capped => exact ⟨_, rfl⟩
      | optimal =>
          obtain ⟨point, primal⟩ := reached.exists_primal
          simp only [primal]
          exact ⟨_, rfl⟩

end TwoPhase.Tableau
