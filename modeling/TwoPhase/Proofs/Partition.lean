import TwoPhase.Proofs.Departure
import TwoPhase.Proofs.Tableau.Primal

/-!
# Basic and nonbasic unknowns

Whatever numbers a tableau holds, accepted pivots leave each unknown of the system at exactly one
place, which is what `isPartition` checks.  In phase two the auxiliary variable stands at a column,
and the point of a tableau takes each component from at most one row.
-/

namespace TwoPhase

namespace Label

theorem before_asymm {a b : Label} (first : a.before b = true) : b.before a = false := by
  by_contra second
  have circular := before_trans first (by simpa using second)
  rw [before_irrefl] at circular
  cases circular

theorem not_before_trans {a b c : Label} (first : b.before a = false)
    (second : c.before b = false) : c.before a = false := by
  cases a <;> cases b <;> cases c <;> simp_all [before] <;> omega

/-- No label of a sorted list stands after one that it comes before. -/
theorem pairwise_sort (labels : List Label) :
    (sort labels).Pairwise fun a b => b.before a = false := by
  have ordered : (sort labels).Pairwise fun a b => (!b.before a) = true := by
    apply List.pairwise_mergeSort
    · intro a b c first second
      rw [Bool.not_eq_true'] at first second ⊢
      exact not_before_trans first second
    · intro a b
      cases below : b.before a with
      | false => rfl
      | true => simp [before_asymm below]
  exact ordered.imp fun notBelow => by simpa using notBelow

/-- Sorting gives an increasing list exactly if that lists the same labels. -/
theorem sort_eq_iff_perm {labels increasing : List Label}
    (ordered : increasing.Pairwise fun a b => a.before b = true) :
    sort labels = increasing ↔ labels.Perm increasing := by
  have perm : (sort labels).Perm labels := List.mergeSort_perm _ _
  constructor
  · intro sorted
    exact sorted ▸ perm.symm
  · intro same
    apply List.Perm.eq_of_pairwise _ (pairwise_sort labels) _ (perm.trans same)
    · intro a b _ _ first second
      exact eq_of_not_before second first
    · exact ordered.imp before_asymm

end Label

namespace Tableau

variable {α : Type} {n m : Nat}

theorem pairwise_unknowns (n m : Nat) :
    (unknowns n m).Pairwise fun a b => a.before b = true := by
  have decisions : ((List.range m).map Label.decision).Pairwise
      fun a b => a.before b = true := by
    rw [List.pairwise_map]
    exact List.pairwise_lt_range.imp fun less => decide_eq_true less
  have slacks : ((List.range n).map Label.slack).Pairwise fun a b => a.before b = true := by
    rw [List.pairwise_map]
    exact List.pairwise_lt_range.imp fun less => decide_eq_true less
  apply List.pairwise_cons.mpr
  constructor
  · intro later member
    simp only [List.mem_append, List.mem_map] at member
    rcases member with ⟨j, _, isLabel⟩ | ⟨i, _, isLabel⟩ <;> rw [← isLabel] <;> rfl
  · apply List.pairwise_append.mpr ⟨decisions, slacks, _⟩
    intro a inDecisions b inSlacks
    obtain ⟨j, _, isDecision⟩ := List.mem_map.mp inDecisions
    obtain ⟨i, _, isSlack⟩ := List.mem_map.mp inSlacks
    rw [← isDecision, ← isSlack]
    rfl

theorem nodup_unknowns (n m : Nat) : (unknowns n m).Nodup := by
  apply (pairwise_unknowns n m).imp
  intro a b first same
  rw [same, Label.before_irrefl] at first
  cases first

/-- The unknowns at the rows of a tableau, and then those at its columns. -/
def arrangement (t : Tableau α n m) : List Label :=
  t.basis.toList ++ t.nonbasis.toList

theorem isPartition_iff_perm (t : Tableau α n m) :
    t.isPartition = true ↔ t.arrangement.Perm (unknowns n m) := by
  rw [isPartition, decide_eq_true_eq]
  exact Label.sort_eq_iff_perm (pairwise_unknowns n m)

theorem arrangement_eq_ofFn (t : Tableau α n m) :
    t.arrangement = List.ofFn t.basic ++ List.ofFn t.nonbasic := by
  rw [arrangement, Vector.toList, Vector.toList, toList_eq_ofFn, toList_eq_ofFn]
  rfl

theorem mem_arrangement_iff {t : Tableau α n m} {label : Label} :
    label ∈ t.arrangement ↔ ∃ place, t.label place = label := by
  rw [arrangement_eq_ofFn, List.mem_append, List.mem_ofFn, List.mem_ofFn,
    Sum.exists]
  rfl

theorem nodup_arrangement {t : Tableau α n m} (distinct : Function.Injective t.label) :
    t.arrangement.Nodup := by
  rw [arrangement_eq_ofFn, List.nodup_append]
  refine ⟨?_, ?_, ?_⟩
  · exact List.nodup_ofFn.mpr (distinct.comp Sum.inl_injective)
  · exact List.nodup_ofFn.mpr (distinct.comp Sum.inr_injective)
  · intro a inBasis b inNonbasis same
    obtain ⟨i, isBasic⟩ := List.mem_ofFn.mp inBasis
    obtain ⟨j, isNonbasic⟩ := List.mem_ofFn.mp inNonbasis
    have place : (Sum.inl i : Fin n ⊕ Fin (m + 1)) = .inr j :=
      distinct (isBasic.trans (same.trans isNonbasic.symm))
    cases place

/-- The components that the point of a tableau takes from the rows, in their order. -/
def written (t : Tableau α n m) : List Nat :=
  (List.finRange n).filterMap fun i =>
    match t.basic i with
    | .decision j => some j
    | _ => none

theorem mem_written_iff {t : Tableau α n m} {j : Nat} :
    j ∈ t.written ↔ ∃ i, t.basic i = .decision j := by
  simp only [written, List.mem_filterMap, List.mem_finRange, true_and]
  apply exists_congr
  intro i
  cases t.basic i <;> simp

theorem nodup_written {t : Tableau α n m} (distinct : Function.Injective t.label) :
    t.written.Nodup := by
  apply List.Nodup.filterMap _ (List.nodup_finRange n)
  intro i k j fromFirst fromSecond
  have writes {row : Fin n} (from_ : j ∈ (match t.basic row with
      | .decision j => some j
      | _ => none : Option Nat)) : t.label (.inl row) = .decision j := by
    rw [label_inl]
    cases isBasic : t.basic row <;> simp_all
  exact Sum.inl_injective (distinct ((writes fromFirst).trans (writes fromSecond).symm))

section Reaches

variable [Scalar α] {form : StandardForm α n m} {t : Tableau α n m}

theorem Reaches.perm_unknowns (reached : Reaches (ofStandardForm form) t) :
    t.arrangement.Perm (unknowns n m) := by
  apply (List.perm_ext_iff_of_nodup (nodup_arrangement reached.label_injective)
    (nodup_unknowns n m)).mpr
  intro label
  rw [mem_arrangement_iff, reached.exists_label_iff]

theorem Reaches.auxiliary_mem_nonbasis (reached : Reaches (ofStandardForm form) t)
    (out : ∀ i, t.basic i ≠ .auxiliary) : .auxiliary ∈ t.nonbasis.toList := by
  obtain ⟨i | j, isAuxiliary⟩ := reached.exists_label_iff.mpr (mem_unknowns_iff.mpr (.inl rfl))
  · exact absurd isAuxiliary (out i)
  · rw [← isAuxiliary]
    exact Vector.mem_toList_iff.mpr (Vector.getElem_mem j.isLt)

theorem reaches_of_mem_maximizationTrail {cap : Nat}
    (member : t ∈ (ofStandardForm form).maximizationTrail cap) :
    Reaches (ofStandardForm form) t ∧ ∀ i, t.basic i ≠ .auxiliary := by
  unfold maximizationTrail at member
  split at member
  · next feasible restored => exact reaches_of_maximization restored member
  · cases member

end Reaches

/-- Accepted pivots keep the shape of a tableau and leave each unknown at one place, `isPartition`
checks the latter, and in phase two the auxiliary variable stands at a column, so that the point of
a tableau takes each component from at most one row. -/
theorem partition_of_pivots [Scalar α] (form : StandardForm α n m) :
    (∀ t, Reaches (ofStandardForm form) t →
      t.entries.toList.length = n + 2 ∧ (∀ row ∈ t.entries.toList, row.toList.length = m + 2) ∧
        t.basis.toList.length = n ∧ t.nonbasis.toList.length = m + 1 ∧
        t.arrangement.Perm (unknowns n m) ∧ t.arrangement.Nodup) ∧
    (∀ t : Tableau α n m, t.isPartition = true ↔ t.arrangement.Perm (unknowns n m)) ∧
    ∀ cap, ∀ t ∈ (ofStandardForm form).maximizationTrail cap,
      .auxiliary ∈ t.nonbasis.toList ∧ t.written.Nodup ∧ (∀ j ∈ t.written, j < m) ∧
        ∃ point, t.primal? = some point ∧ ∀ j : Fin m,
          (∀ i, t.basic i = .decision j → point.get j = t.rhs (basicRow i)) ∧
            (j.val ∉ t.written → point.get j = 0) := by
  refine ⟨?_, isPartition_iff_perm, ?_⟩
  · intro t reached
    have perm := reached.perm_unknowns
    refine ⟨Vector.length_toList, fun row _ => Vector.length_toList, Vector.length_toList,
      Vector.length_toList, perm, ?_⟩
    exact perm.nodup_iff.mpr (nodup_unknowns n m)
  · intro cap t member
    obtain ⟨reached, out⟩ := reaches_of_mem_maximizationTrail member
    have distinct := reached.label_injective
    obtain ⟨point, primal⟩ := reached.exists_primal
    refine ⟨reached.auxiliary_mem_nonbasis out, nodup_written distinct, ?_, point, primal, ?_⟩
    · intro j isWritten
      obtain ⟨i, isDecision⟩ := mem_written_iff.mp isWritten
      exact reached.decision_lt isDecision
    · intro j
      refine ⟨fun i isBasic => primal_of_basic distinct primal isBasic, ?_⟩
      intro notWritten
      apply primal_of_not_basic primal
      intro i isBasic
      exact notWritten (mem_written_iff.mpr ⟨i, isBasic⟩)

/-- The equality `x = 5` as two inequalities over binary64, with an objective that is no number. -/
def noObjectiveForm : StandardForm Float 2 1 where
  objective := #v[0 / 0]
  rows := #v[#v[1], #v[-1]]
  bounds := #v[5, -5]

theorem partition_of_noObjectiveForm :
    (∃ t, Reaches (ofStandardForm noObjectiveForm) t ∧
      t.arrangement = [.decision 0, .slack 1, .slack 0, .auxiliary] ∧
      t.arrangement.Perm (unknowns 2 1)) ∧
    ∃ t ∈ (ofStandardForm noObjectiveForm).maximizationTrail 5,
      t.objective.isNaN = true ∧ t.nonbasis.toList = [.auxiliary, .slack 1] ∧
        t.written = [0] ∧ ∃ point, t.primal? = some point := by
  obtain ⟨along, _, maximizing⟩ := partition_of_pivots noObjectiveForm
  constructor
  · have accepted : (ofStandardForm noObjectiveForm).pivot 0 0 =
        .ok ((ofStandardForm noObjectiveForm).exchange 0 0) := by
      refine pivot_eq_ok_iff.mpr ⟨by decide, by decide, ?_⟩
      exact pivotAt_eq_ok_iff.mpr ⟨by decide +kernel, rfl⟩
    have reached := Reaches.start.pivot accepted
    obtain ⟨_, _, _, _, perm, _⟩ := along _ reached
    exact ⟨_, reached, by decide +kernel, perm⟩
  · have first : ((ofStandardForm noObjectiveForm).maximizationTrail 5)[0]?.map (fun t =>
        (t.objective.isNaN, t.nonbasis.toList, t.written)) =
          some (true, [.auxiliary, .slack 1], [0]) := by decide +kernel
    obtain ⟨t, isFirst, shape⟩ := Option.map_eq_some_iff.mp first
    obtain ⟨noNumber, columns, components⟩ : t.objective.isNaN = true ∧
        t.nonbasis.toList = [.auxiliary, .slack 1] ∧ t.written = [0] := by simpa using shape
    have member := List.mem_of_getElem? isFirst
    obtain ⟨_, _, _, point, primal, _⟩ := maximizing 5 t member
    exact ⟨t, member, noNumber, columns, components, point, primal⟩

end Tableau

end TwoPhase
