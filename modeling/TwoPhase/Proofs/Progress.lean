import TwoPhase.Proofs.Sequence
import TwoPhase.Proofs.Verdict

/-!
# The objective of a phase never falls

A pivot adds to the objective of its phase the negated entry of the entering column times the ratio
of the leaving row.  On a feasible basis neither is negative, so as long as the ratio tests keep the
bases feasible the objective rises or stays, and a run with a larger cap, which goes on from where
the smaller cap stopped it, ends no lower.
-/

namespace TwoPhase.Tableau

section Suffix

variable {α : Type} {n m : Nat} [Scalar α] {t u : Tableau α n m} {phase : Phase} {k : Nat}

/-- The tableaux of a phase from one of them on are those of a phase that starts there. -/
theorem phaseTrail_isSuffix (comes : t.after phase k = some u) (more : Nat) :
    u.phaseTrail phase more <:+ t.phaseTrail phase (k + more) := by
  induction k generalizing t with
  | zero =>
      obtain rfl := Option.some.inj comes
      rw [Nat.zero_add]
  | succ k inductionHypothesis =>
      rw [Nat.add_comm, after_add] at comes
      obtain ⟨next, first, later⟩ := Option.bind_eq_some_iff.mp comes
      have chosen : t.step? phase = some next := by simpa [after] using first
      rw [Nat.succ_add, phaseTrail, chosen]
      exact (inductionHypothesis later).trans (List.suffix_cons t _)

theorem runPhase_add_final (comes : t.after phase k = some u) (more : Nat) :
    (t.runPhase phase (k + more)).final = (u.runPhase phase more).final := by
  obtain ⟨earlier, whole⟩ := phaseTrail_isSuffix comes more
  have last := t.getLast?_phaseTrail phase (k + more) 0 #[.phaseStarted phase, .iterationsHeaded]
  rw [← whole, List.getLast?_append,
    u.getLast?_phaseTrail phase more 0 #[.phaseStarted phase, .iterationsHeaded]] at last
  exact (Option.some.inj last).symm

end Suffix

section Objective

variable {n m : Nat} {t u next : Tableau ℚ n m} {phase : Phase} {remaining : Nat}

theorem phaseRow_ne_basicRow (phase : Phase) (i : Fin n) : phaseRow phase ≠ basicRow i := by
  cases phase with
  | one => exact auxiliaryRow_ne_basicRow i
  | two => exact objectiveRow_ne_basicRow i

/-- One pivot on a feasible basis does not lower the objective of its phase. -/
theorem IsFeasible.objective_le_step (feasible : t.IsFeasible)
    (chosen : t.step? phase = some next) :
    t.rhs (phaseRow phase) ≤ next.rhs (phaseRow phase) := by
  obtain ⟨r, s, choice, accepted⟩ := step?_eq_some_iff.mp chosen
  obtain ⟨_, equality⟩ := pivotAt_eq_ok_iff.mp accepted
  have falling := entry_neg_of_entering (choose_eq_pivot_iff.mp choice).1
  have positive := Scalar.tolerance_pos.trans (tolerance_lt_of_choose choice)
  have ratioNonneg : 0 ≤ t.ratio (nonbasicColumn s) r := div_nonneg (feasible r) positive.le
  rw [equality, exchange_rhs_eq_sub t s (phaseRow_ne_basicRow phase r)]
  linarith [mul_nonpos_of_nonpos_of_nonneg falling.le ratioNonneg]

theorem objective_le_of_mem_phaseTrail (feasible : t.IsFeasible)
    (clear : ∀ v ∈ t.phaseTrail phase remaining, ∀ value ∈ v.blockingTests phase, Clear value)
    (member : u ∈ t.phaseTrail phase remaining) :
    t.rhs (phaseRow phase) ≤ u.rhs (phaseRow phase) := by
  apply phaseTrail_induction (P := fun v => t.rhs (phaseRow phase) ≤ v.rhs (phaseRow phase))
    le_rfl _ member
  intro v inTrail next soFar chosen
  have vFeasible := isFeasible_of_mem_phaseTrail feasible clear inTrail
  exact soFar.trans (vFeasible.objective_le_step chosen)

end Objective

section Capped

variable {n m : Nat} {form : StandardForm ℚ n m} {feasible : Tableau ℚ n m} {cap larger : Nat}

/-- Where phase two is stopped by its cap, the basic solution of its last tableau is admissible and
has the objective that was reached. -/
theorem exists_admits_of_maximization
    (clear : ∀ value ∈ (ofStandardForm form).feasibilityTests cap, Clear value)
    (restored : ((ofStandardForm form).restoreFeasibility cap).result =
      .ok (.feasible feasible)) :
    ∃ point, form.Admits point ∧ form.value point = (feasible.runPhase .two cap).final.objective := by
  have member := runPhase_final_mem feasible .two cap
  obtain ⟨reached, out⟩ := reaches_of_maximization restored member
  exact ⟨_, reached.admits_basicSolution (isFeasible_of_maximization clear restored member) out,
    reached.value_basicSolution⟩

/-- Under a larger cap phase two goes on from the tableau where the smaller cap stopped it, and ends
no lower. -/
theorem objective_le_of_capped
    (clear : ∀ value ∈ (ofStandardForm form).feasibilityTests larger, Clear value)
    (restored : ((ofStandardForm form).restoreFeasibility larger).result =
      .ok (.feasible feasible))
    (capped : (feasible.runPhase .two cap).verdict = .ok .capped) (within : cap ≤ larger) :
    (feasible.runPhase .two cap).final.objective ≤
      (feasible.runPhase .two larger).final.objective := by
  obtain ⟨more, rfl⟩ := Nat.exists_eq_add_of_le within
  obtain ⟨_, comes, atCap⟩ := feasible.after_runPhase .two cap
  rw [atCap capped] at comes
  have later := (phaseTrail_isSuffix comes more).subset
  rw [runPhase_add_final comes]
  have member := runPhase_final_mem (feasible.runPhase .two cap).final .two more
  apply objective_le_of_mem_phaseTrail _ _ member
  · exact isFeasible_of_maximization clear restored (later (start_mem_phaseTrail _ _ _))
  · intro v inTrail
    exact clear_blocking_of_maximization clear restored (later inTrail)

end Capped

end TwoPhase.Tableau
