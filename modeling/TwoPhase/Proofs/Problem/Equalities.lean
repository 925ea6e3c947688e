import Mathlib.Algebra.BigOperators.Fin
import TwoPhase.Problem.Evaluation
import TwoPhase.Proofs.Admissible
import TwoPhase.Proofs.Problem.Built

/-!
# Equalities as pairs of inequalities

The two rows of a constraint give its left side and the negated left side at every point, however
the terms are ordered or repeated.  So the admissible points of the form of a problem are the points
that satisfy the equalities of the problem.
-/

namespace TwoPhase

variable {m : Nat}

/-- The value of a term at a point, zero if the point lacks its variable. -/
def termValue (point : Fin m → ℚ) (term : Nat × ℚ) : ℚ :=
  if known : term.1 < m then term.2 * point ⟨term.1, known⟩ else 0

namespace Constraint

/-- The left-hand side at a point. -/
def valueAt (constraint : Constraint ℚ) (point : Fin m → ℚ) : ℚ :=
  (constraint.terms.map (termValue point)).sum

theorem mapM_terms_eq (point : Vector ℚ m) (terms : List (Nat × ℚ))
    (known : ∀ term ∈ terms, term.1 < m) :
    (terms.mapM fun term => point.toArray[term.1]?.map fun component => term.2 * component) =
      some (terms.map (termValue point.get)) := by
  induction terms with
  | nil => rfl
  | cons term rest inductionHypothesis =>
      have first : term.1 < m := known term List.mem_cons_self
      have later := inductionHypothesis fun other member =>
        known other (List.mem_cons_of_mem term member)
      rw [List.mapM_cons, later]
      simp [termValue, first, get_eq_getElem]

theorem leftSide?_eq (constraint : Constraint ℚ) (point : Vector ℚ m)
    (known : ∀ term ∈ constraint.terms, term.1 < m) :
    constraint.leftSide? point.toArray = some (constraint.valueAt point.get) := by
  rw [leftSide?, mapM_terms_eq point constraint.terms known, Option.map_some, Scalar.sum_rat]
  rfl

end Constraint

namespace StandardForm

theorem sum_set_mul (row : Vector ℚ m) (i : Fin m) (value : ℚ) (point : Fin m → ℚ) :
    ∑ j : Fin m, (row.set i value i.isLt).get j * point j =
      ∑ j : Fin m, row.get j * point j + (value - row.get i) * point i := by
  have term (j : Fin m) : (row.set i value i.isLt).get j * point j =
      row.get j * point j + if j = i then (value - row.get i) * point i else 0 := by
    by_cases same : j = i
    · subst same
      simp [get_eq_getElem]
      ring
    · have apart : i.val ≠ j.val := fun equal => same (Fin.ext equal.symm)
      simp [same, get_eq_getElem, Vector.getElem_set_ne _ _ apart]
  simp only [term, Finset.sum_add_distrib, Finset.sum_ite_eq', Finset.mem_univ, if_true]

theorem sum_foldl_collect_mul {combine : ℚ → ℚ → ℚ} {sign : ℚ}
    (signed : ∀ entry coefficient, combine entry coefficient = entry + sign * coefficient)
    (point : Fin m → ℚ) (terms : List (Nat × ℚ)) (start : Vector ℚ m) :
    ∑ j : Fin m, (terms.foldl
        (fun row term =>
          if known : term.1 < m then row.set term.1 (combine row[term.1] term.2) else row)
        start).get j * point j =
      ∑ j : Fin m, start.get j * point j + sign * (terms.map (termValue point)).sum := by
  induction terms generalizing start with
  | nil => simp
  | cons term rest inductionHypothesis =>
      rw [List.foldl_cons, inductionHypothesis, List.map_cons, List.sum_cons]
      by_cases known : term.1 < m
      · have written := sum_set_mul start ⟨term.1, known⟩ (combine start[term.1] term.2) point
        rw [dif_pos known, written, signed, termValue, dif_pos known]
        rw [get_eq_getElem]
        ring
      · rw [dif_neg known, termValue, dif_neg known]
        ring

theorem sum_collect_mul {combine : ℚ → ℚ → ℚ} {sign : ℚ}
    (signed : ∀ entry coefficient, combine entry coefficient = entry + sign * coefficient)
    (point : Fin m → ℚ) (terms : List (Nat × ℚ)) :
    ∑ j : Fin m, (collect m combine terms).get j * point j =
      sign * (terms.map (termValue point)).sum := by
  rw [collect, sum_foldl_collect_mul signed]
  simp [get_eq_getElem]

/-- The sign with which a constraint stands in one of its rows. -/
def halfSign : Bool → ℚ
  | true => 1
  | false => -1

theorem sum_halfRow_mul (constraint : Constraint ℚ) (upper : Bool) (point : Fin m → ℚ) :
    ∑ j : Fin m, (halfRow m constraint upper).get j * point j =
      halfSign upper * constraint.valueAt point := by
  apply sum_collect_mul
  intro entry coefficient
  cases upper with
  | true => exact (congrArg (entry + ·) (one_mul coefficient)).symm
  | false =>
      rw [halfSign, neg_one_mul]
      exact sub_eq_add_neg entry coefficient

theorem halfBound_eq (constraint : Constraint ℚ) (upper : Bool) :
    halfBound constraint upper = halfSign upper * constraint.rhs := by
  cases upper with
  | true => exact (one_mul constraint.rhs).symm
  | false => exact (neg_one_mul constraint.rhs).symm

/-- The constraint that a row of the form comes from. -/
def source (problem : Problem ℚ) (row : Fin (2 * problem.constraints.size)) : Constraint ℚ :=
  problem.constraints[row.val / 2]

/-- The row `a·x ≤ β` of a constraint. -/
def upperRow {size : Nat} (i : Fin size) : Fin (2 * size) :=
  ⟨2 * i, by omega⟩

/-- The row `-a·x ≤ -β` of a constraint. -/
def lowerRow {size : Nat} (i : Fin size) : Fin (2 * size) :=
  ⟨2 * i + 1, by omega⟩

theorem upperRow_even {size : Nat} (i : Fin size) : ((upperRow i).val % 2 == 0) = true := by
  simp [upperRow]

theorem lowerRow_odd {size : Nat} (i : Fin size) : ((lowerRow i).val % 2 == 0) = false := by
  simp [lowerRow]

section Source

variable (problem : Problem ℚ) (i : Fin problem.constraints.size)

theorem source_upperRow : source problem (upperRow i) = problem.constraints[i] := by
  have half : 2 * i.val / 2 = i := by omega
  simp [source, upperRow, half]

theorem source_lowerRow : source problem (lowerRow i) = problem.constraints[i] := by
  have half : (2 * i.val + 1) / 2 = i := by omega
  simp [source, lowerRow, half]

end Source

section OfProblem

variable {problem : Problem ℚ}
  {form : StandardForm ℚ (2 * problem.constraints.size) problem.vars.size}
  (made : ofProblem? problem = some form)

include made

theorem known_of_ofProblem? {constraint : Constraint ℚ}
    (member : constraint ∈ problem.constraints) :
    ∀ term ∈ constraint.terms, term.1 < problem.vars.size := by
  have indexed : wellIndexed problem = true := by
    by_contra notIndexed
    simp [ofProblem?, notIndexed] at made
  exact wellIndexed_iff.mp indexed constraint member

theorem eq_of_ofProblem? :
    form = {
      objective := Vector.ofFn fun column => problem.vars[column].objective
      rows := Vector.ofFn fun row => halfRow _ (source problem row) (row.val % 2 == 0)
      bounds := Vector.ofFn fun row => halfBound (source problem row) (row.val % 2 == 0) } := by
  unfold ofProblem? at made
  split at made
  · exact (Option.some.inj made).symm
  · cases made

theorem sum_row_mul (point : Fin problem.vars.size → ℚ)
    (row : Fin (2 * problem.constraints.size)) :
    ∑ j : Fin problem.vars.size, (form.rows.get row).get j * point j =
      halfSign (row.val % 2 == 0) * (source problem row).valueAt point := by
  rw [eq_of_ofProblem? made]
  simp only [get_ofFn]
  exact sum_halfRow_mul _ _ point

theorem bound_eq (row : Fin (2 * problem.constraints.size)) :
    form.bounds.get row = halfSign (row.val % 2 == 0) * (source problem row).rhs := by
  rw [eq_of_ofProblem? made]
  simp only [get_ofFn]
  exact halfBound_eq _ _

theorem objective_eq (j : Fin problem.vars.size) :
    form.objective.get j = problem.vars[j].objective := by
  rw [eq_of_ofProblem? made, get_ofFn]

section Halves

variable (i : Fin problem.constraints.size) (point : Fin problem.vars.size → ℚ)

theorem sum_upperRow_mul :
    ∑ j : Fin problem.vars.size, (form.rows.get (upperRow i)).get j * point j =
      problem.constraints[i].valueAt point := by
  rw [sum_row_mul made, source_upperRow, upperRow_even, halfSign, one_mul]

theorem bound_upperRow : form.bounds.get (upperRow i) = problem.constraints[i].rhs := by
  rw [bound_eq made, source_upperRow, upperRow_even, halfSign, one_mul]

theorem sum_lowerRow_mul :
    ∑ j : Fin problem.vars.size, (form.rows.get (lowerRow i)).get j * point j =
      -problem.constraints[i].valueAt point := by
  rw [sum_row_mul made, source_lowerRow, lowerRow_odd, halfSign, neg_one_mul]

theorem bound_lowerRow : form.bounds.get (lowerRow i) = -problem.constraints[i].rhs := by
  rw [bound_eq made, source_lowerRow, lowerRow_odd, halfSign, neg_one_mul]

end Halves

theorem rows_eq_of_satisfied {point : Fin problem.vars.size → ℚ}
    (equal : ∀ constraint ∈ problem.constraints, constraint.valueAt point = constraint.rhs)
    (row : Fin (2 * problem.constraints.size)) :
    ∑ j : Fin problem.vars.size, (form.rows.get row).get j * point j = form.bounds.get row := by
  have sourced : source problem row ∈ problem.constraints := Array.getElem_mem _
  rw [sum_row_mul made, bound_eq made, equal _ sourced]

/-- The rows of a form hold as inequalities exactly if all constraints hold as equalities. -/
theorem rows_le_iff (point : Fin problem.vars.size → ℚ) :
    (∀ row : Fin (2 * problem.constraints.size),
        ∑ j : Fin problem.vars.size, (form.rows.get row).get j * point j ≤ form.bounds.get row) ↔
      ∀ constraint ∈ problem.constraints, constraint.valueAt point = constraint.rhs := by
  constructor
  · intro below constraint member
    obtain ⟨i, inRange, isConstraint⟩ := Array.mem_iff_getElem.mp member
    have upper := below (upperRow ⟨i, inRange⟩)
    have lower := below (lowerRow ⟨i, inRange⟩)
    rw [sum_upperRow_mul made, bound_upperRow made] at upper
    rw [sum_lowerRow_mul made, bound_lowerRow made, neg_le_neg_iff] at lower
    subst isConstraint
    exact le_antisymm upper lower
  · intro equal row
    exact (rows_eq_of_satisfied made equal row).le

section Holds

variable {values : Label → ℚ} {z w : ℚ} (holds : form.Holds values z w)
  (i : Fin problem.constraints.size)

include holds

theorem Holds.upperRow :
    problem.constraints[i].valueAt (pointOf (m := problem.vars.size) values) +
        values (.slack (2 * i)) - values .auxiliary = problem.constraints[i].rhs := by
  rw [← sum_upperRow_mul made, ← bound_upperRow made]
  exact holds.row (StandardForm.upperRow i)

theorem Holds.lowerRow :
    -problem.constraints[i].valueAt (pointOf (m := problem.vars.size) values) +
        values (.slack (2 * i + 1)) - values .auxiliary = -problem.constraints[i].rhs := by
  rw [← sum_lowerRow_mul made, ← bound_lowerRow made]
  exact holds.row (StandardForm.lowerRow i)

/-- The two slacks of a constraint add up to twice the auxiliary variable. -/
theorem Holds.slack_add_slack :
    values (.slack (2 * i)) + values (.slack (2 * i + 1)) = 2 * values .auxiliary := by
  linarith [holds.upperRow made i, holds.lowerRow made i]

end Holds

end OfProblem

end StandardForm

namespace Problem

/-- The point has one component for each variable, none of them negative, and satisfies every
equality. -/
structure IsExactlyFeasible (problem : Problem ℚ) (point : Array ℚ) : Prop where
  size : point.size = problem.vars.size
  nonneg : ∀ component ∈ point, 0 ≤ component
  satisfied : ∀ constraint ∈ problem.constraints,
    constraint.leftSide? point = some constraint.rhs

variable {problem : Problem ℚ}
  {form : StandardForm ℚ (2 * problem.constraints.size) problem.vars.size}
  (made : StandardForm.ofProblem? problem = some form)

include made

theorem admits_iff (point : Vector ℚ problem.vars.size) :
    form.Admits point.get ↔ problem.IsExactlyFeasible point.toArray := by
  have left {constraint : Constraint ℚ} (member : constraint ∈ problem.constraints) :
      constraint.leftSide? point.toArray = some (constraint.valueAt point.get) :=
    constraint.leftSide?_eq point (StandardForm.known_of_ofProblem? made member)
  have rows := StandardForm.rows_le_iff made point.get
  constructor
  · intro admitted
    refine ⟨point.size_toArray, (forall_mem_toArray_iff point).mpr admitted.nonneg, ?_⟩
    intro constraint member
    rw [left member, rows.mp admitted.row constraint member]
  · intro feasible
    refine ⟨(forall_mem_toArray_iff point).mp feasible.nonneg, rows.mpr ?_⟩
    intro constraint member
    have satisfied := feasible.satisfied constraint member
    rwa [left member, Option.some.injEq] at satisfied

theorem value_eq_objectiveAt (point : Vector ℚ problem.vars.size) :
    form.value point.get = problem.objectiveAt point.toArray := by
  have listed : List.zipWith (fun unknown component => unknown.objective * component)
      problem.vars.toList point.toArray.toList =
      List.ofFn fun j : Fin problem.vars.size => problem.vars[j].objective * point.get j := by
    rw [toList_eq_ofFn]
    apply List.ext_getElem
    · simp
    · intro j inZip inOfFn
      simp
  rw [objectiveAt, listed, Scalar.sum_rat, List.sum_ofFn, StandardForm.value]
  simp only [StandardForm.objective_eq made]

end Problem

end TwoPhase
