import TwoPhase.Proofs.Binary64.Negation
import TwoPhase.Proofs.Problem.Equalities
import TwoPhase.Proofs.Problem.WellFormed

/-!
# The two rows of an equality

Terms are added up in the upper row of an equality and subtracted in the lower one.  So the lower
row is the negated upper row, entry by entry, however often an id comes among the terms: exactly
over the rationals and, up to the sign of zero, over binary64, where every sum is rounded.

In exact arithmetic the rows are then satisfied by the solutions of the equalities.
-/

namespace TwoPhase.StandardForm

section Rows

variable {α : Type} [Scalar α] {m : Nat}

/-- What two ways of collecting the same terms keep between their entries. -/
theorem collect_related {R : α → α → Prop} {terms : List (Nat × α)} {combine other : α → α → α}
    (start : R 0 0)
    (step : ∀ term ∈ terms, ∀ x y, R x y → R (combine x term.2) (other y term.2)) (j : Fin m) :
    R ((collect m combine terms).get j) ((collect m other terms).get j) := by
  revert j
  apply List.foldl_rel (r := fun row lower : Vector α m => ∀ j, R (row.get j) (lower.get j))
  · intro j
    simpa [get_eq_getElem] using start
  · intro term member row lower related j
    by_cases known : term.1 < m
    · simp only [dif_pos known, get_eq_getElem, Vector.getElem_set]
      split
      · exact step term member _ _ (related ⟨term.1, known⟩)
      · exact related j
    · simp only [dif_neg known]
      exact related j

variable {problem : Problem α}
  {form : StandardForm α (2 * problem.constraints.size) problem.vars.size}
  (made : ofProblem? problem = some form) (i : Fin problem.constraints.size)

include made

theorem get_row_of_half {row : Fin (2 * problem.constraints.size)} (half : row.val / 2 = i) :
    form.rows.get row = halfRow _ problem.constraints[i] (row.val % 2 == 0) ∧
      form.bounds.get row = halfBound problem.constraints[i] (row.val % 2 == 0) := by
  unfold ofProblem? at made
  split at made
  · cases made
    simp only [get_ofFn, half]
    exact ⟨rfl, rfl⟩
  · cases made

theorem get_upperRow :
    form.rows.get (upperRow i) = collect _ (· + ·) problem.constraints[i].terms ∧
      form.bounds.get (upperRow i) = problem.constraints[i].rhs := by
  have half : (upperRow i).val / 2 = i := by simp [upperRow]
  obtain ⟨row, bound⟩ := get_row_of_half made i half
  rw [upperRow_even] at row bound
  exact ⟨row, bound⟩

theorem get_lowerRow :
    form.rows.get (lowerRow i) = collect _ (· - ·) problem.constraints[i].terms ∧
      form.bounds.get (lowerRow i) = -problem.constraints[i].rhs := by
  have half : (lowerRow i).val / 2 = i := by
    simp only [lowerRow]
    omega
  obtain ⟨row, bound⟩ := get_row_of_half made i half
  rw [lowerRow_odd] at row bound
  exact ⟨row, bound⟩

end Rows

section Exact

variable {problem : Problem ℚ}
  {form : StandardForm ℚ (2 * problem.constraints.size) problem.vars.size}
  (made : ofProblem? problem = some form) (i : Fin problem.constraints.size)

include made

theorem lowerRow_eq_neg (j : Fin problem.vars.size) :
    (form.rows.get (lowerRow i)).get j = -(form.rows.get (upperRow i)).get j := by
  rw [(get_upperRow made i).1, (get_lowerRow made i).1]
  apply collect_related (R := fun upper lower : ℚ => lower = -upper)
  · exact neg_zero.symm
  · intro term _ upper lower mirrored
    rw [mirrored, neg_add']

theorem lowerBound_eq_neg : form.bounds.get (lowerRow i) = -form.bounds.get (upperRow i) := by
  rw [(get_upperRow made i).2, (get_lowerRow made i).2]

end Exact

section Binary64

open Binary64 (Mirrored mirrored_zero mirrored_neg isNaN_add)

variable {problem : Problem Float}
  {form : StandardForm Float (2 * problem.constraints.size) problem.vars.size}
  (made : ofProblem? problem = some form) (wellFormed : problem.WellFormed)
  (i : Fin problem.constraints.size)

include made wellFormed

/-- No entry of a row is a NaN, as only finite numbers are added up, and the lower row mirrors the
upper one. -/
theorem lowerRow_mirrored (j : Fin problem.vars.size) :
    ((form.rows.get (upperRow i)).get j).isNaN = false ∧
      Mirrored ((form.rows.get (upperRow i)).get j) ((form.rows.get (lowerRow i)).get j) := by
  rw [(get_upperRow made i).1, (get_lowerRow made i).1]
  apply collect_related (R := fun upper lower : Float =>
    upper.isNaN = false ∧ Mirrored upper lower)
  · exact ⟨by decide, mirrored_zero⟩
  · rintro term member upper lower ⟨known, mirrored⟩
    have finite := wellFormed.coefficient_finite _ (Array.getElem_mem i.isLt) term member
    exact ⟨isNaN_add known finite, mirrored.add_sub term.2⟩

theorem lowerBound_mirrored :
    (form.bounds.get (upperRow i)).isNaN = false ∧
      Mirrored (form.bounds.get (upperRow i)) (form.bounds.get (lowerRow i)) := by
  rw [(get_upperRow made i).2, (get_lowerRow made i).2]
  have finite := wellFormed.rhs_finite _ (Array.getElem_mem i.isLt)
  exact ⟨Binary64.isNaN_of_isFinite finite, mirrored_neg _⟩

end Binary64

/-- Over exact arithmetic, the form of a problem with `k` constraints and `m` variables has `2 k`
rows and `m` columns.  Its row `2 i + 1` is the negated row `2 i`, which reads the left side of
constraint `i` at every point, its objective is the problem's, and its rows hold exactly where all
equalities do.  The rows mirror each other over binary64, too. -/
theorem rows_mirror_equalities :
    (∀ problem : Problem ℚ, problem.Built →
      ∃ form : StandardForm ℚ (2 * problem.constraints.size) problem.vars.size,
        ofProblem? problem = some form ∧
        (∀ i, (∀ j, (form.rows.get (lowerRow i)).get j = -(form.rows.get (upperRow i)).get j) ∧
          form.bounds.get (lowerRow i) = -form.bounds.get (upperRow i)) ∧
        ∀ point : Vector ℚ problem.vars.size,
          (∀ (i : Nat) (inRange : i < problem.constraints.size),
            problem.constraints[i].leftSide? point.toArray =
              some (∑ j, (form.rows.get (upperRow ⟨i, inRange⟩)).get j * point.get j)) ∧
          problem.objectiveAt point.toArray = ∑ j, form.objective.get j * point.get j ∧
          ((∀ row, ∑ j, (form.rows.get row).get j * point.get j ≤ form.bounds.get row) ↔
            ∀ constraint ∈ problem.constraints,
              constraint.leftSide? point.toArray = some constraint.rhs)) ∧
    ∀ problem : Problem Float, problem.Built →
      ∃ form : StandardForm Float (2 * problem.constraints.size) problem.vars.size,
        ofProblem? problem = some form ∧
        ∀ i, (∀ j, ((form.rows.get (lowerRow i)).get j ==
            -(form.rows.get (upperRow i)).get j) = true) ∧
          (form.bounds.get (lowerRow i) == -form.bounds.get (upperRow i)) = true := by
  constructor
  · intro problem built
    obtain ⟨form, made⟩ := built.exists_form
    refine ⟨form, made, fun i => ⟨lowerRow_eq_neg made i, lowerBound_eq_neg made i⟩, ?_⟩
    intro point
    have left {constraint : Constraint ℚ} (member : constraint ∈ problem.constraints) :
        constraint.leftSide? point.toArray = some (constraint.valueAt point.get) :=
      constraint.leftSide?_eq point (known_of_ofProblem? made member)
    refine ⟨?_, (Problem.value_eq_objectiveAt made point).symm, ?_⟩
    · intro i inRange
      rw [left (Array.getElem_mem inRange), sum_upperRow_mul made]
      rfl
    · rw [rows_le_iff made]
      apply forall₂_congr
      intro constraint member
      rw [left member, Option.some.injEq]
  · intro problem built
    obtain ⟨form, made⟩ := built.exists_form
    refine ⟨form, made, fun i => ⟨?_, ?_⟩⟩
    · intro j
      obtain ⟨known, mirrored⟩ := lowerRow_mirrored made built.wellFormed i j
      exact mirrored.beq_neg known
    · obtain ⟨known, mirrored⟩ := lowerBound_mirrored made built.wellFormed i
      exact mirrored.beq_neg known

/-- Maximize `x` where `x + 2 x = 6`, the term of `x` given twice, and `0 = 0`. -/
def repeatedTerm : Problem ℚ where
  vars := #[⟨0, 1, none⟩]
  constraints := #[⟨[(0, 1), (0, 2)], 6⟩, ⟨[], 0⟩]
  names := []

/-- Maximize `x` where `1e308 x + 1e308 x - 1e308 x = 1`, over binary64: the collected coefficient
overflows. -/
def repeatedHugeTerm : Problem Float where
  vars := #[⟨0, 1, none⟩]
  constraints := #[⟨[(0, 1e308), (0, 1e308), (0, -1e308)], 1⟩]
  names := []

/-- The inequality form of `repeatedTerm`. -/
def repeatedForm : StandardForm ℚ 4 1 where
  objective := .replicate 1 1
  rows := #v[#v[3], #v[-3], #v[0], #v[0]]
  bounds := #v[6, -6, 0, 0]

theorem rows_mirror_repeatedTerm :
    (repeatedTerm.Built ∧ ofProblem? repeatedTerm = some repeatedForm ∧
      (∀ i : Fin 2, (repeatedForm.rows.get (lowerRow i)).get 0 =
        -(repeatedForm.rows.get (upperRow i)).get 0) ∧
      repeatedTerm.constraints[0].leftSide? #[2] = some 6 ∧
      ∀ row, ∑ j, (repeatedForm.rows.get row).get j * (#v[2] : Vector ℚ 1).get j ≤
        repeatedForm.bounds.get row) ∧
    repeatedHugeTerm.Built ∧
      ∃ form : StandardForm Float 2 1, ofProblem? repeatedHugeTerm = some form ∧
        ((form.rows.get 0).get 0 == 1 / 0) = true ∧
        ((form.rows.get 1).get 0 == -(form.rows.get 0).get 0) = true := by
  obtain ⟨exact, binary⟩ := rows_mirror_equalities
  constructor
  · have withVariable : Problem.Built (α := ℚ) ⟨#[⟨0, 1, none⟩], #[], []⟩ :=
      Problem.Built.empty.addVariable (Problem.addVariable_eq_ok_iff.mpr ⟨rfl, by simp, rfl⟩)
    have withTerms : Problem.Built (α := ℚ) ⟨#[⟨0, 1, none⟩], #[⟨[(0, 1), (0, 2)], 6⟩], []⟩ :=
      withVariable.addConstraint
        (Problem.addConstraint_eq_ok_iff.mpr ⟨by decide, fun _ _ => rfl, rfl, rfl⟩)
    have built : repeatedTerm.Built := withTerms.addConstraint
      (Problem.addConstraint_eq_ok_iff.mpr ⟨by simp, fun _ _ => rfl, rfl, rfl⟩)
    have made : ofProblem? repeatedTerm = some repeatedForm := by
      with_unfolding_all rfl
    obtain ⟨form, isForm, mirrored, holds⟩ := exact repeatedTerm built
    obtain rfl : repeatedForm = form := Option.some.inj (made.symm.trans isForm)
    obtain ⟨left, _, holdsIff⟩ := holds #v[2]
    refine ⟨built, made, fun i => (mirrored i).1 (0 : Fin 1), by decide +kernel, holdsIff.mpr ?_⟩
    decide +kernel
  · have one : Scalar.isFinite (1 : Float) = true := by decide +kernel
    have withVariable : Problem.Built (α := Float) ⟨#[⟨0, 1, none⟩], #[], []⟩ :=
      Problem.Built.empty.addVariable (Problem.addVariable_eq_ok_iff.mpr ⟨one, by simp, rfl⟩)
    have built : repeatedHugeTerm.Built := withVariable.addConstraint
      (Problem.addConstraint_eq_ok_iff.mpr ⟨by decide, by decide +kernel, one, rfl⟩)
    obtain ⟨form, made, mirrored⟩ := binary repeatedHugeTerm built
    have row := (get_upperRow made (0 : Fin 1)).1
    have infinite : ((collect 1 (· + ·) repeatedHugeTerm.constraints[0].terms).get 0 == 1 / 0) =
        true := by decide +kernel
    refine ⟨built, form, made, ?_, (mirrored (0 : Fin 1)).1 (0 : Fin 1)⟩
    exact (congrArg (fun upper : Vector Float 1 => upper.get 0 == 1 / 0) row).trans infinite

end TwoPhase.StandardForm
