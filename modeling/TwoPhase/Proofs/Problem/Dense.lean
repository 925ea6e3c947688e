import Mathlib.Data.List.Enum
import Mathlib.Data.List.Induction
import TwoPhase.Proofs.Problem.Built

/-!
# Problems given by rows of numbers

The problem that a dense objective and dense rows describe, written out, and that the additions
come to it whenever its numbers are finite and no row is too short or too long.
-/

namespace TwoPhase.Problem

variable {α : Type}

/-- The variables of an objective, unnamed and numbered in order. -/
def denseVariables (objective : List α) : List (Variable α) :=
  objective.mapIdx fun id value => ⟨id, value, none⟩

/-- The numbers of a row in order, its right-hand side last. -/
def rowValues (row : List α × α) : List α :=
  row.1 ++ [row.2]

/-- The variables of a row in order, each with its coefficient, and the right-hand side. -/
def denseConstraint (row : List α × α) : Constraint α :=
  ⟨row.1.mapIdx fun id value => (id, value), row.2⟩

def dense (objective : List α) (rows : List (List α × α)) : Problem α where
  vars := (denseVariables objective).toArray
  constraints := (rows.map denseConstraint).toArray
  names := []

theorem length_denseVariables (objective : List α) :
    (denseVariables objective).length = objective.length :=
  List.length_mapIdx

theorem foldlM_concat_of_ok {ε σ β : Type} {add : σ → β → Except ε σ} {start middle : σ}
    {items : List β} {item : β} (before : items.foldlM add start = .ok middle) :
    (items ++ [item]).foldlM add start = add middle item := by
  rw [List.foldlM_append, before]
  change List.foldlM add middle [item] = _
  rw [List.foldlM_cons]
  exact bind_pure (add middle item)

theorem bind_eq_ok_iff {ε β γ : Type} {first : Except ε β} {next : β → Except ε γ} {result : γ} :
    first >>= next = .ok result ↔ ∃ value, first = .ok value ∧ next value = .ok result := by
  cases first with
  | error failure =>
      change Except.error failure = .ok result ↔ _
      simp
  | ok value =>
      change next value = .ok result ↔ _
      simp

theorem foldlM_concat_eq_ok_iff {ε σ β : Type} {add : σ → β → Except ε σ} {start last : σ}
    {items : List β} {item : β} :
    (items ++ [item]).foldlM add start = .ok last ↔
      ∃ middle, items.foldlM add start = .ok middle ∧ add middle item = .ok last := by
  rw [List.foldlM_append, bind_eq_ok_iff]
  refine exists_congr fun middle => and_congr_right fun _ => ?_
  change (add middle item >>= pure) = _ ↔ _
  rw [bind_pure]

variable [Scalar α]

theorem addVariable_dense (objective : List α) {value : α}
    (finite : Scalar.isFinite value = true) :
    (dense objective []).addVariable value none = .ok (dense (objective ++ [value]) []) := by
  rw [addVariable_eq_ok_iff]
  exact ⟨finite, by simp, by simp [dense, denseVariables]⟩

theorem foldlM_addVariable_dense {objective : List α}
    (finite : ∀ value ∈ objective, Scalar.isFinite value = true) :
    objective.foldlM (fun problem value => problem.addVariable value none) (dense [] []) =
      .ok (dense objective []) := by
  induction objective using List.reverseRecOn with
  | nil => rfl
  | append_singleton first last inductionHypothesis =>
      have before := inductionHypothesis fun value member => finite value (by simp [member])
      rw [foldlM_concat_of_ok before]
      exact addVariable_dense first (finite last (by simp))

/-- A row that describes a constraint of a problem with `m` variables. -/
def FitsRow (m : Nat) (row : List α × α) : Prop :=
  row.1.length = m ∧ ∀ value ∈ rowValues row, Scalar.isFinite value = true

theorem addDenseConstraint_dense {objective : List α} {rows : List (List α × α)}
    {row : List α × α} (fits : FitsRow objective.length row) :
    (dense objective rows).addDenseConstraint row.1 row.2 =
      .ok (dense objective (rows ++ [row])) := by
  obtain ⟨length, finite⟩ := fits
  have size : (dense objective rows).vars.size = objective.length := length_denseVariables objective
  rw [addDenseConstraint, size, if_pos length, addConstraint_eq_ok_iff]
  refine ⟨?_, ?_, finite _ (by simp [rowValues]), ?_⟩
  · rw [List.forall_mem_map, List.forall_mem_zipIdx']
    intro id below
    rwa [size, ← length]
  · rw [List.forall_mem_map, List.forall_mem_zipIdx']
    intro id below
    exact finite _ (by simp [rowValues])
  · simp [dense, pushConstraint, denseConstraint, List.mapIdx_eq_zipIdx_map]

theorem foldlM_addDenseConstraint_dense {objective : List α} {rows : List (List α × α)}
    (fits : ∀ row ∈ rows, FitsRow objective.length row) :
    rows.foldlM (fun problem row => problem.addDenseConstraint row.1 row.2) (dense objective []) =
      .ok (dense objective rows) := by
  induction rows using List.reverseRecOn with
  | nil => rfl
  | append_singleton first last inductionHypothesis =>
      have before := inductionHypothesis fun row member => fits row (by simp [member])
      rw [foldlM_concat_of_ok before]
      exact addDenseConstraint_dense (fits last (by simp))

theorem ofDense_eq {objective : List α} {rows : List (List α × α)}
    (finite : ∀ value ∈ objective, Scalar.isFinite value = true)
    (fits : ∀ row ∈ rows, FitsRow objective.length row) :
    ofDense objective rows = .ok (dense objective rows) := by
  rw [ofDense]
  change (objective.foldlM _ (dense [] []) >>= _) = _
  rw [foldlM_addVariable_dense finite]
  exact foldlM_addDenseConstraint_dense fits

theorem finite_of_foldlM_addVariable {objective : List α} {start problem : Problem α}
    (added : objective.foldlM (fun problem value => problem.addVariable value none) start =
      .ok problem) : ∀ value ∈ objective, Scalar.isFinite value = true := by
  induction objective using List.reverseRecOn generalizing problem with
  | nil => exact nofun
  | append_singleton first last inductionHypothesis =>
      obtain ⟨middle, before, after⟩ := foldlM_concat_eq_ok_iff.mp added
      rw [List.forall_mem_append, List.forall_mem_singleton]
      exact ⟨inductionHypothesis before, (addVariable_eq_ok_iff.mp after).1⟩

theorem fitsRow_of_addDenseConstraint {objective : List α} {rows : List (List α × α)}
    {row : List α × α} {problem : Problem α}
    (added : (dense objective rows).addDenseConstraint row.1 row.2 = .ok problem) :
    FitsRow objective.length row := by
  have size : (dense objective rows).vars.size = objective.length := length_denseVariables objective
  rw [addDenseConstraint, size] at added
  split at added
  · next length =>
      obtain ⟨_, finite, finiteRhs, _⟩ := addConstraint_eq_ok_iff.mp added
      rw [List.forall_mem_map, List.forall_mem_zipIdx'] at finite
      refine ⟨length, ?_⟩
      rw [rowValues, List.forall_mem_append, List.forall_mem_singleton, List.forall_mem_iff_getElem]
      exact ⟨finite, finiteRhs⟩
  · cases added

theorem fits_of_foldlM_addDenseConstraint {objective : List α} {rows : List (List α × α)}
    {problem : Problem α}
    (added : rows.foldlM (fun problem row => problem.addDenseConstraint row.1 row.2)
      (dense objective []) = .ok problem) : ∀ row ∈ rows, FitsRow objective.length row := by
  induction rows using List.reverseRecOn generalizing problem with
  | nil => exact nofun
  | append_singleton first last inductionHypothesis =>
      obtain ⟨middle, before, after⟩ := foldlM_concat_eq_ok_iff.mp added
      have fits := inductionHypothesis before
      rw [foldlM_addDenseConstraint_dense fits] at before
      cases before
      rw [List.forall_mem_append, List.forall_mem_singleton]
      exact ⟨fits, fitsRow_of_addDenseConstraint after⟩

/-- Rows of numbers make a problem exactly if its numbers are finite and no row is too short or too
long. -/
theorem ofDense_eq_ok_iff {objective : List α} {rows : List (List α × α)} {problem : Problem α} :
    ofDense objective rows = .ok problem ↔
      (∀ value ∈ objective, Scalar.isFinite value = true) ∧
        (∀ row ∈ rows, FitsRow objective.length row) ∧ problem = dense objective rows := by
  constructor
  · intro made
    obtain ⟨_, extended, constrained⟩ := bind_eq_ok_iff.mp made
    have finite := finite_of_foldlM_addVariable extended
    cases extended.symm.trans (foldlM_addVariable_dense finite)
    have fits := fits_of_foldlM_addDenseConstraint constrained
    exact ⟨finite, fits, Except.ok.inj (made.symm.trans (ofDense_eq finite fits))⟩
  · rintro ⟨finite, fits, rfl⟩
    exact ofDense_eq finite fits

end TwoPhase.Problem
