import TwoPhase.Proofs.Verdict

/-!
# Optima of any solve

Whether or not the tests of a solve are clear, an optimum that it reports is the basic solution of a
tableau where the entering rule found no column.  That basic solution solves the system with the
auxiliary variable at zero, though it may have negative values.  The objective row has no entry
below minus one tolerance for each candidate column, which bounds the objective of every admissible
point that leaves no slack.
-/

namespace TwoPhase.Tableau

variable {n m : Nat} {form : StandardForm ℚ n m} {last : Tableau ℚ n m} {cap : Nat}

/-- The solution is that of a last tableau of phase two, where no column enters. -/
structure Optimum (form : StandardForm ℚ n m) (last : Tableau ℚ n m) (solution : Solution ℚ) :
    Prop where
  reached : Reaches (ofStandardForm form) last
  out : ∀ i, last.basic i ≠ .auxiliary
  stopped : last.choose .two = .optimal
  objective : solution.objective = last.objective
  listed : last.primal?.map Vector.toArray = some solution.point

theorem exists_optimum {solution : Solution ℚ}
    (solves : (ofStandardForm form).Solves cap (.optimal solution)) :
    ∃ last, ((ofStandardForm form).solveTrail cap).getLast? = some last ∧
      Optimum form last solution ∧
      ((∀ value ∈ (ofStandardForm form).feasibilityTests cap, Clear value) → last.IsFeasible) := by
  cases solves with
  | settled restored => cases restores_of_result restored
  | @optimal feasible point restored verdict primal =>
      have member := runPhase_final_mem feasible .two cap
      obtain ⟨reached, out⟩ := reaches_of_maximization restored member
      refine ⟨_, getLast?_solveTrail restored, ?_, ?_⟩
      · exact ⟨reached, out, choose_final_of_optimal verdict, rfl, by rw [primal]; rfl⟩
      · intro clear
        exact isFeasible_of_maximization clear restored member

/-- Where the auxiliary variable is not basic, phase two has at most `m` candidates. -/
theorem Reaches.length_candidates_le (reached : Reaches (ofStandardForm form) last)
    (out : ∀ i, last.basic i ≠ .auxiliary) : (last.candidates .two).length ≤ m := by
  obtain ⟨i | s, isAuxiliary⟩ := reached.exists_label_iff.mpr (mem_unknowns_iff.mpr (.inl rfl))
  · exact absurd isAuxiliary (out i)
  · have isNonbasic : last.nonbasic s = .auxiliary := isAuxiliary
    have fewer : (last.candidates .two).length < (List.finRange (m + 1)).length := by
      apply List.length_filter_lt_length_iff_exists.mpr
      exact ⟨s, List.mem_finRange s, by simp [isNonbasic]⟩
    rw [List.length_finRange] at fewer
    omega

namespace Optimum

variable {solution : Solution ℚ} (optimum : Optimum form last solution)

include optimum

theorem exists_point : ∃ point : Vector ℚ m, point.toArray = solution.point ∧
    point.get = StandardForm.pointOf last.basicSolution := by
  obtain ⟨point, primal, isPoint⟩ := Option.map_eq_some_iff.mp optimum.listed
  exact ⟨point, isPoint, primal?_eq_basicSolution optimum.reached.label_injective primal⟩

theorem auxiliary_eq_zero : last.basicSolution .auxiliary = 0 :=
  basicSolution_eq_zero optimum.out optimum.reached.label_injective

theorem entry_ge {j : Fin (m + 1)} (other : last.nonbasic j ≠ .auxiliary) :
    -(m * Scalar.tolerance) ≤ last.entry objectiveRow (nonbasicColumn j) := by
  have few : ((last.candidates .two).length : ℚ) ≤ m :=
    Nat.cast_le.mpr (optimum.reached.length_candidates_le optimum.out)
  calc -((m : ℚ) * Scalar.tolerance)
      ≤ -(((last.candidates .two).length : ℚ) * Scalar.tolerance) :=
        neg_le_neg (mul_le_mul_of_nonneg_right few Scalar.tolerance_pos.le)
    _ ≤ last.entry objectiveRow (nonbasicColumn j) :=
        entry_ge_of_optimal optimum.stopped (mem_candidates_iff.mpr (.inr other))

/-- A point that satisfies the rows with equality has at most `m` tolerances more than the optimum
for each unit of its components. -/
theorem value_le {point : Fin m → ℚ} (admitted : form.Admits point)
    (equal : ∀ i, ∑ j : Fin m, (form.rows.get i).get j * point j = form.bounds.get i) :
    form.value point ≤ solution.objective + m * Scalar.tolerance * ∑ k, point k := by
  have margin : 0 ≤ (m : ℚ) * Scalar.tolerance :=
    mul_nonneg (Nat.cast_nonneg m) Scalar.tolerance_pos.le
  calc form.value point
      ≤ last.objective + m * Scalar.tolerance * ∑ j, form.valuesAt point (last.nonbasic j) :=
        optimum.reached.value_le_objective_add _ (fun _ other => optimum.entry_ge other) admitted
    _ ≤ last.objective + m * Scalar.tolerance * ∑ k, point k := by
        gcongr
        exact optimum.reached.sum_valuesAt_nonbasic_le admitted equal
    _ = solution.objective + m * Scalar.tolerance * ∑ k, point k := by
        rw [optimum.objective]

end Optimum

end TwoPhase.Tableau
