import TwoPhase.Problem.Display
import TwoPhase.Proofs.Decimal.Reading
import TwoPhase.Proofs.Problem.WellFormed

/-!
# The labels of variables

A variable without a name is labelled by its position: `x0`, `x1` and so on.  Names are kept apart
from each other when they are given, and positions are apart anyway.  So two variables share a label
exactly where the name of one spells the position of the other, which has no name; no check keeps
such a name out.  Where there is none, every term of the displayed text names one variable.
-/

namespace TwoPhase

variable {α : Type}

theorem Variable.label_of_named {v : Variable α} {name : String} (named : v.name = some name) :
    v.label = name := by
  rw [label, named]

theorem Variable.label_of_unnamed {v : Variable α} (unnamed : v.name = none) :
    v.label = s!"x{v.id}" := by
  rw [label, unnamed]

theorem positionLabel_inj {i j : Nat} : s!"x{i}" = s!"x{j}" ↔ i = j := by
  constructor
  · intro same
    have digits : i.repr = j.repr := (String.append_right_inj "x").mp same
    rw [← Decimal.digitsValue_repr i, digits, Decimal.digitsValue_repr]
  · exact congrArg fun k : Nat => s!"x{k}"

namespace Problem

/-- Variable `i` has no name, and the name of variable `j` is the label that its position gives. -/
def SpellsPosition (problem : Problem Float) (j i : Fin problem.vars.size) : Prop :=
  problem.vars[i].name = none ∧ problem.vars[j].name = some s!"x{i.val}"

instance (problem : Problem Float) (j i : Fin problem.vars.size) :
    Decidable (problem.SpellsPosition j i) :=
  inferInstanceAs (Decidable (_ ∧ _))

/-- The label is that of variable `i` and of no other. -/
def Names (problem : Problem Float) (label : String) (i : Nat) : Prop :=
  ∀ j : Fin problem.vars.size, problem.vars[j].label = label ↔ j.val = i

section Labels

variable {problem : Problem Float} (wellFormed : problem.WellFormed)
  {i j : Fin problem.vars.size}

include wellFormed

theorem WellFormed.eq_of_name_eq {name : String} (first : problem.vars[i].name = some name)
    (second : problem.vars[j].name = some name) : i = j := by
  have apart := List.pairwise_iff_getElem.mp (List.pairwise_filterMap.mp wellFormed.distinct)
  rcases lt_trichotomy i j with before | same | after
  · exact absurd rfl (apart i j i.isLt j.isLt before name first name second)
  · exact same
  · exact absurd rfl (apart j i j.isLt i.isLt after name second name first)

theorem WellFormed.label_of_unnamed (unnamed : problem.vars[i].name = none) :
    problem.vars[i].label = s!"x{i.val}" := by
  rw [Variable.label_of_unnamed unnamed, Fin.getElem_fin, wellFormed.id_eq i i.isLt]

/-- Two variables share a label exactly where the name of one spells the position of the other. -/
theorem WellFormed.label_eq_iff (other : i ≠ j) :
    problem.vars[i].label = problem.vars[j].label ↔
      problem.SpellsPosition i j ∨ problem.SpellsPosition j i := by
  unfold SpellsPosition
  cases first : problem.vars[i].name with
  | none =>
      rw [wellFormed.label_of_unnamed first]
      cases second : problem.vars[j].name with
      | none =>
          rw [wellFormed.label_of_unnamed second, positionLabel_inj, ← Fin.ext_iff]
          simp [other]
      | some name =>
          rw [Variable.label_of_named second]
          simp [eq_comm]
  | some name =>
      rw [Variable.label_of_named first]
      cases second : problem.vars[j].name with
      | none =>
          rw [wellFormed.label_of_unnamed second]
          simp
      | some otherName =>
          rw [Variable.label_of_named second]
          have apart : name ≠ otherName := by
            rintro rfl
            exact other (wellFormed.eq_of_name_eq first second)
          simp [apart]

variable (unspelled : ∀ i j, ¬ problem.SpellsPosition i j)

include unspelled

theorem WellFormed.names_label (i : Fin problem.vars.size) :
    problem.Names problem.vars[i].label i := by
  intro j
  rw [← Fin.ext_iff]
  constructor
  · intro same
    by_contra other
    rcases (wellFormed.label_eq_iff other).mp same with spells | spells
    · exact unspelled _ _ spells
    · exact unspelled _ _ spells
  · rintro rfl
    rfl

end Labels

section Display

variable (write : Float → String)

/-- Every displayed term of the objective and of the constraints names one variable, the one whose
coefficient it shows. -/
structure DisplaysApart (problem : Problem Float) : Prop where
  objective (i : Fin problem.vars.size) : (problem.vars[i].objective == 0.0) = false →
    ∃ label, objectiveTermText write problem.vars[i] =
        termText write (0.0 < problem.vars[i].objective) problem.vars[i].objective label ∧
      problem.Names label i
  constraint : ∀ constraint ∈ problem.constraints, ∀ term ∈ constraint.terms,
    (term.2 == 0.0) = false →
      ∃ label, constraintTermText write problem.vars term =
          termText write (0.0 ≤ term.2) term.2 label ∧
        problem.Names label term.1

theorem WellFormed.displaysApart {problem : Problem Float} (wellFormed : problem.WellFormed)
    (unspelled : ∀ i j, ¬ problem.SpellsPosition i j) : problem.DisplaysApart write where
  objective i nonzero := by
    refine ⟨problem.vars[i].label, ?_, wellFormed.names_label unspelled i⟩
    rw [objectiveTermText, nonzero]
    rfl
  constraint constraint member term inTerms nonzero := by
    have known := wellFormed.known constraint member term inTerms
    refine ⟨problem.vars[term.1].label, ?_, wellFormed.names_label unspelled ⟨term.1, known⟩⟩
    rw [constraintTermText, nonzero, Array.getElem?_eq_getElem known]
    rfl

end Display

end Problem

/-- After any calls on the empty problem, accepted or refused, two variables share a label exactly
where the name of one spells the position of the other, which has no name.  Where no name does so,
each displayed term names one variable. -/
theorem Call.afterAll_labels (calls : List (Call Float)) (write : Float → String) :
    let reached := afterAll calls .empty
    (∀ i j : Fin reached.vars.size, i ≠ j →
        (reached.vars[i].label = reached.vars[j].label ↔
          reached.SpellsPosition i j ∨ reached.SpellsPosition j i)) ∧
      ((∀ i j, ¬ reached.SpellsPosition i j) → reached.DisplaysApart write) := by
  intro reached
  have wellFormed : reached.WellFormed := (built_afterAll .empty calls).wellFormed
  exact ⟨fun _ _ => wellFormed.label_eq_iff, wellFormed.displaysApart write⟩

/-- Two variables that are named like each other's positions, and additions that are refused. -/
def crossedNames : List (Call Float) :=
  [.addVariable 3 (some "x1"), .addVariable (0 / 0) none, .addVariable 2 (some "x1"),
    .addVariable (-1) (some "x0"), .addVariable 0 none, .addConstraint [(0, 1), (1, -2)] 5]

theorem afterAll_crossedNames :
    let reached := Call.afterAll crossedNames .empty
    reached.vars.toList.map Variable.label = ["x1", "x0", "x2"] ∧
      (∀ i j, ¬ reached.SpellsPosition i j) ∧
      (∀ i j : Fin reached.vars.size, i ≠ j → reached.vars[i].label ≠ reached.vars[j].label) ∧
      reached.DisplaysApart Decimal.plain := by
  intro reached
  obtain ⟨labelsIff, apart⟩ := Call.afterAll_labels crossedNames Decimal.plain
  have unspelled : ∀ i j, ¬ reached.SpellsPosition i j := by decide +kernel
  refine ⟨by decide +kernel, unspelled, ?_, apart unspelled⟩
  intro i j other same
  rcases (labelsIff i j other).mp same with spells | spells
  · exact unspelled _ _ spells
  · exact unspelled _ _ spells

/-- A variable without a name, and one that is named like its position. -/
def positionAsName : List (Call Float) :=
  [.addVariable 1 none, .addVariable 2 (some "x0")]

/-- Labels do not tell variables apart: the name of a later variable may be the label of an earlier
one, and then both of their terms in the displayed objective name the same. -/
theorem labels_not_apart :
    (¬ ∀ calls : List (Call Float),
      (∀ call ∈ calls, ∃ objective name, call = .addVariable objective name) →
        let reached := Call.afterAll calls .empty
        ∀ i j : Fin reached.vars.size, i ≠ j → reached.vars[i].label ≠ reached.vars[j].label) ∧
      ∀ write, let reached := Call.afterAll positionAsName .empty
        reached.vars.toList.map (Problem.objectiveTermText write) =
          [Problem.termText write true 1 "x0", Problem.termText write true 2 "x0"] := by
  constructor
  · intro apart
    have additions : ∀ call ∈ positionAsName, ∃ objective name,
        call = .addVariable objective name := by
      simp [positionAsName]
    apply apart positionAsName additions ⟨0, by decide +kernel⟩ ⟨1, by decide +kernel⟩ (by simp)
    decide +kernel
  · intro write
    rfl

end TwoPhase
