/-!
Choosing one element of a list by successive duels.

Every choice of the simplex method (the entering column, the leaving row, the most negative
right-hand side, the largest entry of a row) goes through `survivor`: the first element holds the
place, and each later one takes it exactly when it beats the holder.  The duel need not be
transitive, so the order of the list can matter.
-/

namespace TwoPhase

variable {β : Type}

/-- The winner of one duel: the newcomer only if it beats the holder. -/
def duel (beats : β → β → Bool) (holder newcomer : β) : β :=
  if beats newcomer holder then newcomer else holder

/-- The element that holds the place after all duels, none if there is no element. -/
@[specialize]
def survivor (beats : β → β → Bool) : List β → Option β
  | [] => none
  | first :: rest => some (rest.foldl (duel beats) first)

theorem survivor_eq_none_iff {beats : β → β → Bool} {elements : List β} :
    survivor beats elements = none ↔ elements = [] := by
  cases elements <;> simp [survivor]

theorem duel_mem {beats : β → β → Bool} {holder newcomer : β} {elements : List β}
    (held : holder ∈ elements) (came : newcomer ∈ elements) :
    duel beats holder newcomer ∈ elements := by
  unfold duel
  split <;> assumption

theorem foldl_duel_mem {beats : β → β → Bool} {elements rest : List β} {holder : β}
    (held : holder ∈ elements) (subset : ∀ newcomer ∈ rest, newcomer ∈ elements) :
    rest.foldl (duel beats) holder ∈ elements := by
  induction rest generalizing holder with
  | nil => exact held
  | cons newcomer rest inductionHypothesis =>
      exact inductionHypothesis (duel_mem held (subset _ (by simp)))
        fun later member => subset later (by simp [member])

theorem survivor_mem {beats : β → β → Bool} {elements : List β} {winner : β}
    (result : survivor beats elements = some winner) : winner ∈ elements := by
  cases elements with
  | nil => simp [survivor] at result
  | cons first rest =>
      simp only [survivor, Option.some.injEq] at result
      subst result
      exact foldl_duel_mem (by simp) fun later member => by simp [member]

end TwoPhase
