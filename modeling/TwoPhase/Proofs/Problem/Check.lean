import TwoPhase.Proofs.Problem.Optimum

/-!
# The feasibility check of reported optima

The feasibility check of a problem accepts a reported optimum exactly if the last tableau has its
decision variables and its slacks within the tolerances of the check.  Clear ratio tests make sure
of that.  Without them the check may fail: the leaving rule passes over rows whose entry is positive
but no larger than the tolerance, and a large ratio multiplies what is passed over.
-/

namespace TwoPhase

theorem Constraint.isSatisfied?_eq_some_true_iff {constraint : Constraint ℚ} {point : Array ℚ} :
    constraint.isSatisfied? point = some true ↔
      ∃ left, constraint.leftSide? point = some left ∧
        |left - constraint.rhs| ≤ 1 / 10 ^ 6 * (1 + |constraint.rhs|) := by
  rw [isSatisfied?, Option.map_eq_some_iff]
  simp only [decide_eq_true_eq, Scalar.abs_rat, Scalar.residualTolerance_rat]

theorem allSatisfied?_eq_some_true_iff {α : Type} [Scalar α] {point : Array α}
    {constraints : List (Constraint α)} :
    allSatisfied? point constraints = some true ↔
      ∀ constraint ∈ constraints, constraint.isSatisfied? point = some true := by
  induction constraints with
  | nil => simp [allSatisfied?]
  | cons constraint rest inductionHypothesis =>
      rw [allSatisfied?, List.forall_mem_cons, ← inductionHypothesis]
      cases verdict : constraint.isSatisfied? point with
      | none => simp
      | some satisfied => cases satisfied <;> simp

namespace Problem

theorem isFeasible?_eq_some_true_iff {problem : Problem ℚ} {point : Array ℚ} :
    problem.isFeasible? point = some true ↔
      point.size = problem.vars.size ∧ (∀ component ∈ point, -Scalar.tolerance ≤ component) ∧
        ∀ constraint ∈ problem.constraints, constraint.isSatisfied? point = some true := by
  unfold isFeasible?
  by_cases sized : point.size = problem.vars.size
  · rw [if_neg (not_not.mpr sized)]
    by_cases below : (point.any fun component => component < -Scalar.tolerance) = true
    · obtain ⟨component, member, low⟩ := Array.any_eq_true'.mp below
      rw [if_pos below]
      simp only [Option.some.injEq, Bool.false_eq_true, false_iff]
      intro accepted
      exact absurd (accepted.2.1 component member) (not_le.mpr (of_decide_eq_true low))
    · have above (component : ℚ) (member : component ∈ point) : -Scalar.tolerance ≤ component := by
        apply not_lt.mp
        intro low
        exact below (Array.any_eq_true'.mpr ⟨component, member, decide_eq_true low⟩)
      rw [if_neg below, allSatisfied?_eq_some_true_iff]
      simp only [Array.mem_toList_iff]
      exact ⟨fun satisfied => ⟨sized, above, satisfied⟩, fun accepted => accepted.2.2⟩
  · rw [if_pos sized]
    simp [sized]

/-- The values whose tests decide whether a solve keeps its bases feasible. -/
def feasibilityTests {α : Type} [Scalar α] (problem : Problem α) (cap : PivotCap) : List α :=
  match StandardForm.ofProblem? problem with
  | none => []
  | some form => (Tableau.ofStandardForm form).feasibilityTests cap.pivots.toNat

/-- The decision variables and the slacks of a tableau are within the tolerances of the feasibility
check. -/
structure Passes (problem : Problem ℚ)
    (last : Tableau ℚ (2 * problem.constraints.size) problem.vars.size) : Prop where
  component (j : Fin problem.vars.size) : -Scalar.tolerance ≤ last.valueOf (.decision j)
  residual (i : Nat) (inRange : i < problem.constraints.size) :
    |last.valueOf (.slack (2 * i))| ≤ 1 / 10 ^ 6 * (1 + |problem.constraints[i].rhs|)

variable {problem : Problem ℚ} {cap : PivotCap} {solution : Solution ℚ}

section Optimum

variable {form : StandardForm ℚ (2 * problem.constraints.size) problem.vars.size}
  {last : Tableau ℚ (2 * problem.constraints.size) problem.vars.size}
  (made : StandardForm.ofProblem? problem = some form)
  (optimum : Tableau.Optimum form last solution)

include optimum in
theorem components_of_optimum_iff :
    (∀ component ∈ solution.point, -Scalar.tolerance ≤ component) ↔
      ∀ j : Fin problem.vars.size, -Scalar.tolerance ≤ last.valueOf (.decision j) := by
  obtain ⟨point, isPoint, values⟩ := optimum.exists_point
  have component (j : Fin problem.vars.size) : last.valueOf (.decision j) = point.get j := by
    rw [Tableau.valueOf_eq_basicSolution optimum.reached.label_injective, values]
    rfl
  simp only [component]
  rw [← isPoint]
  exact forall_mem_toArray_iff point

include made optimum

theorem isSatisfied?_of_optimum_iff {i : Nat} (inRange : i < problem.constraints.size) :
    problem.constraints[i].isSatisfied? solution.point = some true ↔
      |last.valueOf (.slack (2 * i))| ≤ 1 / 10 ^ 6 * (1 + |problem.constraints[i].rhs|) := by
  obtain ⟨left, isLeft, upper, _⟩ := residual_of_optimum made optimum inRange
  rw [Constraint.isSatisfied?_eq_some_true_iff, ← upper, isLeft, abs_sub_comm]
  simp only [Option.some.injEq, exists_eq_left']

theorem isFeasible?_of_optimum_iff :
    problem.isFeasible? solution.point = some true ↔ problem.Passes last := by
  obtain ⟨point, isPoint, _⟩ := optimum.exists_point
  have sized : solution.point.size = problem.vars.size := isPoint ▸ point.size_toArray
  rw [isFeasible?_eq_some_true_iff, components_of_optimum_iff optimum,
    Array.forall_mem_iff_forall_getElem]
  constructor
  · rintro ⟨_, components, satisfied⟩
    refine ⟨components, ?_⟩
    intro i inRange
    exact (isSatisfied?_of_optimum_iff made optimum inRange).mp (satisfied i inRange)
  · intro passes
    refine ⟨sized, passes.component, ?_⟩
    intro i inRange
    exact (isSatisfied?_of_optimum_iff made optimum inRange).mpr (passes.residual i inRange)

theorem passes_of_isFeasible (feasible : last.IsFeasible) : problem.Passes last := by
  have nonneg (label : Label) : 0 ≤ last.valueOf label := by
    rw [Tableau.valueOf_eq_basicSolution optimum.reached.label_injective]
    exact Tableau.basicSolution_nonneg feasible label
  refine ⟨?_, ?_⟩
  · intro j
    exact (neg_nonpos.mpr Scalar.tolerance_pos.le).trans (nonneg _)
  · intro i inRange
    obtain ⟨left, _, upper, lower⟩ := residual_of_optimum made optimum inRange
    have zero : last.valueOf (.slack (2 * i)) = 0 := by
      linarith [nonneg (.slack (2 * i)), nonneg (.slack (2 * i + 1))]
    rw [zero, abs_zero]
    positivity

end Optimum

/-- The feasibility check accepts an optimum exactly if the last tableau is within its tolerances,
which is so if the tests that keep the bases feasible are clear. -/
theorem optimal_isFeasible?_iff
    (returned : (problem.solve cap).result = .ok (.optimal solution)) :
    ∃ last, problem.lastTableau? cap = some last ∧
      (problem.isFeasible? solution.point = some true ↔ problem.Passes last) ∧
      ((∀ value ∈ problem.feasibilityTests cap, Clear value) →
        problem.isFeasible? solution.point = some true) := by
  obtain ⟨form, made, last, isLast, optimum, kept⟩ := exists_optimum returned
  have accepted := isFeasible?_of_optimum_iff made optimum
  refine ⟨last, isLast, accepted, ?_⟩
  intro clear
  rw [feasibilityTests, made] at clear
  exact accepted.mpr (passes_of_isFeasible made optimum (kept clear))

theorem crossingLines_isFeasible? :
    (crossingLines.solve .standard).result = .ok (.optimal ⟨4, #[3, 1]⟩) ∧
      (∀ value ∈ crossingLines.feasibilityTests .standard, Clear value) ∧
      crossingLines.isFeasible? #[3, 1] = some true ∧
      ∃ last, crossingLines.lastTableau? .standard = some last ∧ crossingLines.Passes last := by
  have returned : (crossingLines.solve .standard).result = .ok (.optimal ⟨4, #[3, 1]⟩) := by
    decide +kernel
  have clear : ∀ value ∈ crossingLines.feasibilityTests .standard, Clear value := by
    decide +kernel
  obtain ⟨last, isLast, accepted, accepts⟩ := optimal_isFeasible?_iff returned
  exact ⟨returned, clear, accepts clear, last, isLast, accepted.mp (accepts clear)⟩

/-- The ratio test passes over the row of the faint coefficient, and the reported optimum violates
its constraint. -/
theorem faintCoefficient_rejected :
    ofDense [1, 0] [([1 / 2 ^ 30, 0], 0), ([1, 2], 2 ^ 20)] = .ok faintCoefficient ∧
      (faintCoefficient.solve .standard).result = .ok (.optimal ⟨2 ^ 20, #[2 ^ 20, 0]⟩) ∧
      faintCoefficient.isFeasible? #[2 ^ 20, 0] = some false := by
  exact ⟨rfl, by decide +kernel, by decide +kernel⟩

end Problem

end TwoPhase
