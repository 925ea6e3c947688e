import TwoPhase.Proofs.Exact
import TwoPhase.Tableau.Rules

/-!
# The duels of a choice

A choice by duels finds a smallest element if each single duel is won by the smaller one.  The
rules' duels are, as long as the differences that they test are clear of the tolerance.  In any
case a duel raises the value of the holder by less than the tolerance, and a chain of them by no
more than their number allows.
-/

namespace TwoPhase

variable {β : Type}

/-- The duels in order, each with its holder and its newcomer. -/
def duelsFrom (beats : β → β → Bool) : β → List β → List (β × β)
  | _, [] => []
  | holder, newcomer :: rest =>
      (holder, newcomer) :: duelsFrom beats (duel beats holder newcomer) rest

def duels (beats : β → β → Bool) : List β → List (β × β)
  | [] => []
  | first :: rest => duelsFrom beats first rest

section Order

variable {beats : β → β → Bool} {relation : β → β → Prop}

/-- The newcomer of a duel stands after its holder in the list. -/
theorem rel_of_mem_duelsFrom {holder : β} {rest : List β}
    (ordered : (holder :: rest).Pairwise relation) :
    ∀ pair ∈ duelsFrom beats holder rest, relation pair.1 pair.2 := by
  induction rest generalizing holder with
  | nil => simp [duelsFrom]
  | cons newcomer rest inductionHypothesis =>
      obtain ⟨fromHolder, later⟩ := List.pairwise_cons.mp ordered
      have withoutNewcomer : (holder :: rest).Pairwise relation :=
        List.pairwise_cons.mpr ⟨fun element member => fromHolder element (by simp [member]),
          (List.pairwise_cons.mp later).2⟩
      rw [duelsFrom, List.forall_mem_cons]
      refine ⟨fromHolder newcomer List.mem_cons_self, inductionHypothesis ?_⟩
      unfold duel
      split
      · exact later
      · exact withoutNewcomer

theorem rel_of_mem_duels {elements : List β} (ordered : elements.Pairwise relation) :
    ∀ pair ∈ duels beats elements, relation pair.1 pair.2 := by
  cases elements with
  | nil => simp [duels]
  | cons first rest => exact rel_of_mem_duelsFrom ordered

end Order

section Drift

variable {beats : β → β → Bool} {value : β → ℚ} {drift : ℚ}

/-- Where no duel ends above its newcomer or raises the holder's value by more than `drift`, the
winner exceeds each element by at most one drift for each duel. -/
theorem foldl_duel_le_add (nonneg : 0 ≤ drift) {holder : β} {rest : List β}
    (decided : ∀ pair ∈ duelsFrom beats holder rest,
      value (duel beats pair.1 pair.2) ≤ min (value pair.1 + drift) (value pair.2)) :
    ∀ element ∈ holder :: rest,
      value (rest.foldl (duel beats) holder) ≤ value element + rest.length * drift := by
  induction rest generalizing holder with
  | nil => simp
  | cons newcomer rest inductionHypothesis =>
      have first := decided (holder, newcomer) List.mem_cons_self
      have later := inductionHypothesis
        fun pair member => decided pair (List.mem_cons_of_mem _ member)
      have belowDuel := later _ List.mem_cons_self
      have oneMore : ((newcomer :: rest).length : ℚ) * drift = rest.length * drift + drift := by
        rw [List.length_cons, Nat.cast_succ]
        ring
      rw [List.foldl_cons, oneMore]
      intro element member
      rcases List.mem_cons.mp member with same | newcomerOrLater
      · subst same
        linarith [first.trans (min_le_left _ _)]
      rcases List.mem_cons.mp newcomerOrLater with same | inRest
      · subst same
        linarith [first.trans (min_le_right _ _)]
      · linarith [later element (List.mem_cons_of_mem _ inRest)]

theorem survivor_le_add (value : β → ℚ) (nonneg : 0 ≤ drift) {elements : List β}
    {winner element : β}
    (decided : ∀ pair ∈ duels beats elements,
      value (duel beats pair.1 pair.2) ≤ min (value pair.1 + drift) (value pair.2))
    (result : survivor beats elements = some winner) (member : element ∈ elements) :
    value winner ≤ value element + (elements.length - 1 : ℕ) * drift := by
  cases elements with
  | nil => simp at member
  | cons first rest =>
      rw [survivor, Option.some.injEq] at result
      rw [← result]
      exact foldl_duel_le_add nonneg decided element member

theorem foldl_duel_le (value : β → ℚ) {holder : β} {rest : List β}
    (decided : ∀ pair ∈ duelsFrom beats holder rest,
      value (duel beats pair.1 pair.2) = min (value pair.1) (value pair.2)) :
    ∀ element ∈ holder :: rest, value (rest.foldl (duel beats) holder) ≤ value element := by
  have withoutDrift : ∀ pair ∈ duelsFrom beats holder rest,
      value (duel beats pair.1 pair.2) ≤ min (value pair.1 + 0) (value pair.2) := by
    intro pair duelled
    rw [add_zero, decided pair duelled]
  intro element member
  simpa using foldl_duel_le_add le_rfl withoutDrift element member

theorem survivor_le (value : β → ℚ) {elements : List β} {winner element : β}
    (decided : ∀ pair ∈ duels beats elements,
      value (duel beats pair.1 pair.2) = min (value pair.1) (value pair.2))
    (result : survivor beats elements = some winner) (member : element ∈ elements) :
    value winner ≤ value element := by
  cases elements with
  | nil => simp at member
  | cons first rest =>
      rw [survivor, Option.some.injEq] at result
      rw [← result]
      exact foldl_duel_le value decided element member

end Drift

namespace Tableau

/-- The difference that a duel tests for a near-tie; a smaller newcomer wins without that test. -/
def testedDifference {α : Type} [Scalar α] (value held : α) : List α :=
  if value < held then [] else [value - held]

theorem eq_of_mem_testedDifference {α : Type} [Scalar α] {value held difference : α}
    (tested : difference ∈ testedDifference value held) : difference = value - held := by
  unfold testedDifference at tested
  split at tested
  · cases tested
  · exact List.mem_singleton.mp tested

theorem duel_wins_eq_min {value : β → ℚ} {label : β → Label} {holder newcomer : β}
    (clear : ∀ difference ∈ testedDifference (value newcomer) (value holder), Clear difference) :
    value (duel (fun i k => wins (value i) (value k) (label i) (label k)) holder newcomer) =
      min (value holder) (value newcomer) := by
  unfold duel wins
  by_cases smaller : value newcomer < value holder
  · simp [smaller, smaller.le]
  · have notSmaller : value holder ≤ value newcomer := not_lt.mp smaller
    have clearDifference : Clear (value newcomer - value holder) := by
      apply clear
      simp [testedDifference, smaller]
    rw [min_eq_left notSmaller]
    rcases clearDifference with tie | apart
    · split
      · exact sub_eq_zero.mp tie
      · rfl
    · simp [smaller, not_lt.mpr apart.le]

theorem duel_wins_le {value : β → ℚ} {label : β → Label} (holder newcomer : β) :
    value (duel (fun i k => wins (value i) (value k) (label i) (label k)) holder newcomer) ≤
      min (value holder + Scalar.tolerance) (value newcomer) := by
  unfold duel wins
  by_cases smaller : value newcomer < value holder
  · simp [smaller, (smaller.trans (lt_add_of_pos_right _ Scalar.tolerance_pos)).le]
  · have notSmaller : value holder ≤ value newcomer := not_lt.mp smaller
    by_cases close : |value newcomer - value holder| < Scalar.tolerance
    · have below : value newcomer ≤ value holder + Scalar.tolerance := by
        linarith [(abs_lt.mp close).2]
      split
      · exact le_min below le_rfl
      · exact le_min (le_add_of_nonneg_right Scalar.tolerance_pos.le) notSmaller
    · simp [smaller, close, notSmaller, Scalar.tolerance_pos.le]

/-- Whatever near-ties there are, the rules choose a value that exceeds the smallest by at most one
tolerance for each duel. -/
theorem survivor_wins_le_add (value : β → ℚ) (label : β → Label) {elements : List β}
    {winner element : β}
    (result : survivor (fun i k => wins (value i) (value k) (label i) (label k)) elements =
      some winner)
    (member : element ∈ elements) :
    value winner ≤ value element + (elements.length - 1 : ℕ) * Scalar.tolerance := by
  apply survivor_le_add value Scalar.tolerance_pos.le _ result member
  intro pair _
  exact duel_wins_le pair.1 pair.2

/-- Clear of the tolerance, the rules choose a smallest value. -/
theorem survivor_wins_le (value : β → ℚ) (label : β → Label) {elements : List β}
    {winner element : β}
    (clear : ∀ pair ∈ duels (fun i k => wins (value i) (value k) (label i) (label k)) elements,
      ∀ difference ∈ testedDifference (value pair.2) (value pair.1), Clear difference)
    (result : survivor (fun i k => wins (value i) (value k) (label i) (label k)) elements =
      some winner)
    (member : element ∈ elements) : value winner ≤ value element := by
  apply survivor_le value _ result member
  intro pair duelled
  exact duel_wins_eq_min (clear pair duelled)

end Tableau

end TwoPhase
