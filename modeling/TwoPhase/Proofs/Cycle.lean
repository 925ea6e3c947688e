import Mathlib.Data.Fintype.Pigeonhole
import Mathlib.Data.List.Permutation
import TwoPhase.Proofs.Partition
import TwoPhase.Proofs.Sequence
import TwoPhase.Proofs.Tableau.Rearrangement

/-!
# Phases that cycle

A tableau of a system is determined by the unknowns at its rows and columns, and there are
`(n + m + 1)!` ways to arrange them.  So a phase that makes more pivots comes to an arrangement a
second time, with the same numbers as before, and from there on it repeats itself: no cap lets it
come to another verdict.
-/

namespace TwoPhase.Tableau

open Nat (factorial)

section Arrangement

variable {n m : Nat} {form : StandardForm ℚ n m} {t u : Tableau ℚ n m}

theorem length_unknowns (n m : Nat) : (unknowns n m).length = n + m + 1 := by
  simp [unknowns, Nat.add_comm]

theorem Rearranged.entry_eq (same : Rearranged t u (Equiv.refl _) (Equiv.refl _))
    (i : Fin (n + 2)) (j : Fin (m + 2)) : u.entry i j = t.entry i j := by
  induction j using Fin.lastCases with
  | last =>
      induction i using Fin.lastCases with
      | last => exact same.auxiliaryObjective
      | cast i =>
          induction i using Fin.lastCases with
          | last => exact same.objective
          | cast i => exact same.rhs i
  | cast j =>
      induction i using Fin.lastCases with
      | last => exact same.auxiliaryEntry j
      | cast i =>
          induction i using Fin.lastCases with
          | last => exact same.objectiveEntry j
          | cast i => exact same.entry i j

/-- A tableau that pivots reach holds the numbers that its arrangement determines. -/
theorem Reaches.eq_of_arrangement_eq (first : Reaches (ofStandardForm form) t)
    (second : Reaches (ofStandardForm form) u) (same : t.arrangement = u.arrangement) : t = u := by
  obtain ⟨sameBasis, sameNonbasis⟩ := List.append_inj same (by simp)
  rw [Vector.toList_inj] at sameBasis sameNonbasis
  -- Both have the solutions of the form, and with the same unknowns these fix every number.
  have rearranged : Rearranged t u (Equiv.refl _) (Equiv.refl _) := by
    apply rearranged_of_holds_iff first.label_injective
    · intro i
      rw [basic, basic, sameBasis, Equiv.refl_apply]
    · intro j
      rw [nonbasic, nonbasic, sameNonbasis, Equiv.refl_apply]
    · intro values z w holds
      exact (second.form_holds_iff values z w).mpr ((first.form_holds_iff values z w).mp holds)
  have sameEntries : t.entries = u.entries :=
    entries_eq_of_entry_eq fun i j => (rearranged.entry_eq i j).symm
  cases t
  cases u
  congr

end Arrangement

section Return

variable {α : Type} {n m : Nat} [Scalar α] {t u : Tableau α n m} {phase : Phase}
  {first period k : Nat}

theorem reaches_of_after (comes : t.after phase k = some u) : Reaches t u := by
  induction k generalizing u with
  | zero =>
      obtain rfl := Option.some.inj comes
      exact .start
  | succ k inductionHypothesis =>
      obtain ⟨v, earlier, chosen⟩ := Option.bind_eq_some_iff.mp comes
      obtain ⟨r, s, _, accepted⟩ := step?_eq_some_iff.mp chosen
      exact (inductionHypothesis earlier).pivotAt accepted

theorem after_mul_of_return (returns : t.after phase period = some t) (rounds : Nat) :
    t.after phase (rounds * period) = some t := by
  induction rounds with
  | zero => rw [Nat.zero_mul, after]
  | succ rounds inductionHypothesis =>
      rw [Nat.succ_mul, after_add, inductionHypothesis, Option.bind_some, returns]

/-- A phase that comes to one tableau twice goes round for ever. -/
theorem exists_after_of_return (leaves : t.after phase first = some u)
    (returns : u.after phase period = some u) (positive : 0 < period) (k : Nat) :
    ∃ v, t.after phase k = some v := by
  have later : t.after phase (first + k * period) = some u := by
    rw [after_add, leaves, Option.bind_some, after_mul_of_return returns]
  exact exists_after_of_le later ((Nat.le_mul_of_pos_right k positive).trans (Nat.le_add_left _ _))

theorem after_add_period (leaves : t.after phase first = some u)
    (returns : u.after phase period = some u) (since : first ≤ k) :
    t.after phase (k + period) = t.after phase k := by
  obtain ⟨more, rfl⟩ := Nat.exists_eq_add_of_le since
  rw [Nat.add_right_comm, after_add, after_add t phase first more, after_add, leaves,
    Option.bind_some, returns, Option.bind_some]

end Return

variable {n m : Nat} {form : StandardForm ℚ n m} {t : Tableau ℚ n m} {phase : Phase}

/-- Of more tableaux than there are arrangements, two are arranged alike. -/
theorem exists_same_arrangement {comes : Nat → Tableau ℚ n m}
    (reached : ∀ k ≤ factorial (n + m + 1), Reaches (ofStandardForm form) (comes k)) :
    ∃ first last, first < last ∧ last ≤ factorial (n + m + 1) ∧
      (comes first).arrangement = (comes last).arrangement := by
  have fewer : (unknowns n m).permutations.toFinset.card <
      (Finset.range (factorial (n + m + 1) + 1)).card := by
    rw [Finset.card_range, Nat.lt_succ_iff, ← length_unknowns, ← List.length_permutations]
    exact List.toFinset_card_le _
  have arranges : ∀ k ∈ Finset.range (factorial (n + m + 1) + 1),
      (comes k).arrangement ∈ (unknowns n m).permutations.toFinset := by
    intro k within
    rw [Finset.mem_range, Nat.lt_succ_iff] at within
    rw [List.mem_toFinset, List.mem_permutations]
    exact (reached k within).perm_unknowns
  -- The arrangements are the orders of the unknowns, one fewer than there are tableaux.
  obtain ⟨i, iWithin, j, jWithin, differ, same⟩ :=
    Finset.exists_ne_map_eq_of_card_lt_of_maps_to fewer arranges
  rw [Finset.mem_range, Nat.lt_succ_iff] at iWithin jWithin
  rcases Nat.lt_or_gt_of_ne differ with before | before
  · exact ⟨i, j, before, jWithin, same⟩
  · exact ⟨j, i, before, iWithin, same.symm⟩

/-- A phase that makes as many pivots as there are arrangements comes to a tableau twice. -/
theorem exists_return (reached : Reaches (ofStandardForm form) t) {last : Tableau ℚ n m}
    (comes : t.after phase (factorial (n + m + 1)) = some last) :
    ∃ first period u, 0 < period ∧ first + period ≤ factorial (n + m + 1) ∧
      t.after phase first = some u ∧ u.after phase period = some u := by
  have there : ∀ k ≤ factorial (n + m + 1),
      t.after phase k = some ((t.after phase k).getD t) := by
    intro k within
    obtain ⟨v, atV⟩ := exists_after_of_le comes within
    rw [atV, Option.getD_some]
  have reachedThere : ∀ k ≤ factorial (n + m + 1),
      Reaches (ofStandardForm form) ((t.after phase k).getD t) :=
    fun k within => reached.trans (reaches_of_after (there k within))
  obtain ⟨first, second, before, within, sameArrangement⟩ := exists_same_arrangement reachedThere
  have firstWithin := before.le.trans within
  have same := (reachedThere first firstWithin).eq_of_arrangement_eq
    (reachedThere second within) sameArrangement
  obtain ⟨period, isSecond⟩ := Nat.exists_eq_add_of_lt before
  refine ⟨first, period + 1, _, Nat.succ_pos period, by omega, there first firstWithin, ?_⟩
  have back := there second within
  rw [← same, isSecond, Nat.add_assoc, after_add, there first firstWithin] at back
  exact back

/-- More than `(n + m + 1)!` pivots show that a phase cycles: it comes to a tableau twice within
that many, repeats the pivots between for ever, and no cap brings it to another verdict. -/
theorem cycles_of_capped (reached : Reaches (ofStandardForm form) t) {cap : Nat}
    (long : factorial (n + m + 1) ≤ cap) (capped : (t.runPhase phase cap).verdict = .ok .capped) :
    (∀ other, (t.runPhase phase other).verdict = .ok .capped) ∧
      ∃ first period, 0 < period ∧ first + period ≤ factorial (n + m + 1) ∧
        ∀ k, first ≤ k →
          ∃ u, t.after phase k = some u ∧ t.after phase (k + period) = some u := by
  obtain ⟨last, comes⟩ := (capped_iff_after t phase cap).mp capped
  obtain ⟨here, comesHere⟩ := exists_after_of_le comes (long.trans (Nat.le_succ cap))
  obtain ⟨first, period, u, positive, within, leaves, returns⟩ := exists_return reached comesHere
  have endless := exists_after_of_return leaves returns positive
  refine ⟨fun other => (capped_iff_after t phase other).mpr (endless (other + 1)), first,
    period, positive, within, ?_⟩
  intro k since
  obtain ⟨v, atV⟩ := endless k
  exact ⟨v, atV, (after_add_period leaves returns since).trans atV⟩

/-- Beale's example, its constraints written as upper bounds. -/
def bealeForm : StandardForm ℚ 3 4 where
  objective := #v[10, -57, -9, -24]
  rows := #v[#v[1 / 2, -11 / 2, -5 / 2, 9], #v[1 / 2, -3 / 2, -1 / 2, 1], #v[1, 0, 0, 0]]
  bounds := #v[0, 0, 1]

theorem bealeForm_after_twelve :
    (ofStandardForm bealeForm).after .two 12 = some (ofStandardForm bealeForm) := by
  have back : ((ofStandardForm bealeForm).after .two 12).map arrangement =
      some (ofStandardForm bealeForm).arrangement := by decide +kernel
  obtain ⟨u, comes, sameArrangement⟩ := Option.map_eq_some_iff.mp back
  rw [comes, (reaches_of_after comes).eq_of_arrangement_eq .start sameArrangement]

theorem bealeForm_cycles :
    (∀ cap, ((ofStandardForm bealeForm).runPhase .two cap).verdict = .ok .capped) ∧
      ∃ first period, 0 < period ∧ first + period ≤ factorial (3 + 4 + 1) ∧
        ∀ k, first ≤ k → ∃ u, (ofStandardForm bealeForm).after .two k = some u ∧
          (ofStandardForm bealeForm).after .two (k + period) = some u := by
  have starts : (ofStandardForm bealeForm).after .two 0 = some (ofStandardForm bealeForm) := rfl
  have endless := exists_after_of_return starts bealeForm_after_twelve (Nat.succ_pos 11)
  exact cycles_of_capped .start le_rfl
    ((capped_iff_after _ _ _).mpr (endless (factorial (3 + 4 + 1) + 1)))

end TwoPhase.Tableau
