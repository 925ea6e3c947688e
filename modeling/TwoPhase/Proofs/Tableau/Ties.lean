import TwoPhase.Proofs.Partition
import TwoPhase.Proofs.Tableau.Choice

/-!
# Ties

Among the values that a rule compares, the one that it chooses comes first: it is smaller, or as
large and its label is not after the other's.  For that it is enough that no tested difference is
taken for zero unless it is zero.
-/

namespace TwoPhase

variable {β : Type}

section Preference

variable {beats : β → β → Bool} {prefers : β → β → Prop} [Std.Refl prefers] [IsTrans β prefers]

/-- Where each duel ends with an element that is preferred to both, so does a chain of them. -/
theorem foldl_duel_prefers {holder : β} {rest : List β}
    (decided : ∀ pair ∈ duelsFrom beats holder rest,
      prefers (duel beats pair.1 pair.2) pair.1 ∧ prefers (duel beats pair.1 pair.2) pair.2) :
    ∀ element ∈ holder :: rest, prefers (rest.foldl (duel beats) holder) element := by
  induction rest generalizing holder with
  | nil =>
      intro element member
      rw [List.mem_singleton.mp member]
      exact refl_of prefers holder
  | cons newcomer rest inductionHypothesis =>
      obtain ⟨overHolder, overNewcomer⟩ := decided (holder, newcomer) List.mem_cons_self
      have later := inductionHypothesis
        fun pair member => decided pair (List.mem_cons_of_mem _ member)
      have overDuel := later _ List.mem_cons_self
      rw [List.foldl_cons]
      intro element member
      rcases List.mem_cons.mp member with same | newcomerOrLater
      · exact same ▸ trans_of prefers overDuel overHolder
      rcases List.mem_cons.mp newcomerOrLater with same | inRest
      · exact same ▸ trans_of prefers overDuel overNewcomer
      · exact later element (List.mem_cons_of_mem _ inRest)

theorem survivor_prefers {elements : List β} {winner element : β}
    (decided : ∀ pair ∈ duels beats elements,
      prefers (duel beats pair.1 pair.2) pair.1 ∧ prefers (duel beats pair.1 pair.2) pair.2)
    (result : survivor beats elements = some winner) (member : element ∈ elements) :
    prefers winner element := by
  cases elements with
  | nil => simp at member
  | cons first rest =>
      rw [survivor, Option.some.injEq] at result
      rw [← result]
      exact foldl_duel_prefers decided element member

end Preference

/-- Nothing but the auxiliary variable is ahead of it in a tie. -/
theorem Label.eq_auxiliary_of_not_before {label : Label}
    (notAfter : Label.auxiliary.before label = false) : label = .auxiliary := by
  cases label <;> simp [before] at notAfter ⊢

/-- A difference that the test for near-ties takes for zero only if it is zero. -/
def Decisive (difference : ℚ) : Prop :=
  difference = 0 ∨ Scalar.tolerance ≤ |difference|

instance (difference : ℚ) : Decidable (Decisive difference) :=
  inferInstanceAs (Decidable (difference = 0 ∨ Scalar.tolerance ≤ |difference|))

theorem Clear.decisive {value : ℚ} (clear : Clear value) : Decisive value :=
  clear.imp_right le_of_lt

namespace Tableau

/-- With a decisive difference a near-tie is a tie.  The difference is of no account if the newcomer
could not win a tie. -/
theorem wins_eq_true_iff {value held : ℚ} {label holder : Label}
    (decisive : label.before holder = true →
      ∀ difference ∈ testedDifference value held, Decisive difference) :
    wins value held label holder = true ↔
      value < held ∨ value = held ∧ label.before holder = true := by
  by_cases smaller : value < held
  · simp [wins, smaller]
  by_cases first : label.before holder = true
  · have tested : value - held ∈ testedDifference value held := by
      simp [testedDifference, smaller]
    rcases decisive first _ tested with tie | apart
    · simp [wins, sub_eq_zero.mp tie, Scalar.tolerance_pos]
    · have different : value ≠ held := by
        intro equal
        rw [equal, sub_self, abs_zero] at apart
        exact absurd Scalar.tolerance_pos (not_lt.mpr apart)
      simp [wins, smaller, different, not_lt.mpr apart]
  · simp [wins, first]

section Precedes

variable (value : β → ℚ) (label : β → Label)

/-- The smaller value comes first, and of equal ones the one whose label is not after. -/
def Precedes (i k : β) : Prop :=
  value i < value k ∨ value i = value k ∧ (label k).before (label i) = false

instance : Std.Refl (Precedes value label) where
  refl _ := .inr ⟨rfl, Label.before_irrefl _⟩

instance : IsTrans β (Precedes value label) where
  trans _ _ _ first second := by
    rcases first with smaller | ⟨equal, notAfter⟩
    · rcases second with smallerStill | ⟨equal, _⟩
      · exact .inl (smaller.trans smallerStill)
      · exact .inl (equal ▸ smaller)
    · rcases second with smaller | ⟨equalStill, notAfterStill⟩
      · exact .inl (equal ▸ smaller)
      · exact .inr ⟨equal.trans equalStill, Label.not_before_trans notAfter notAfterStill⟩

variable {value label}

/-- A duel ends with the one that comes first, if its difference is decisive. -/
theorem duel_wins_precedes {holder newcomer : β}
    (decisive : (label newcomer).before (label holder) = true →
      ∀ difference ∈ testedDifference (value newcomer) (value holder), Decisive difference) :
    let winner := duel (fun i k => wins (value i) (value k) (label i) (label k)) holder newcomer
    Precedes value label winner holder ∧ Precedes value label winner newcomer := by
  simp only [duel]
  split
  · next won =>
      refine ⟨?_, refl_of _ _⟩
      rcases (wins_eq_true_iff decisive).mp won with smaller | ⟨equal, first⟩
      · exact .inl smaller
      · exact .inr ⟨equal, Label.before_asymm first⟩
  · next held =>
      refine ⟨refl_of _ _, ?_⟩
      rw [wins_eq_true_iff decisive, not_or, not_and, Bool.not_eq_true] at held
      rcases (not_lt.mp held.1).lt_or_eq with larger | equal
      · exact .inl larger
      · exact .inr ⟨equal, held.2 equal.symm⟩

/-- Where the tested differences are decisive, the rules choose the element that comes first. -/
theorem survivor_wins_precedes {elements : List β} {winner element : β}
    (decisive : ∀ pair ∈ duels (fun i k => wins (value i) (value k) (label i) (label k)) elements,
      (label pair.2).before (label pair.1) = true →
        ∀ difference ∈ testedDifference (value pair.2) (value pair.1), Decisive difference)
    (result : survivor (fun i k => wins (value i) (value k) (label i) (label k)) elements =
      some winner)
    (member : element ∈ elements) : Precedes value label winner element := by
  apply survivor_prefers _ result member
  intro pair duelled
  exact duel_wins_precedes (decisive pair duelled)

/-- It is enough that no element makes a near-tie with an earlier one that it would win. -/
theorem survivor_wins_precedes_of_pairwise {elements : List β} {winner element : β}
    (decisive : elements.Pairwise fun i k =>
      (label k).before (label i) = true → Decisive (value k - value i))
    (result : survivor (fun i k => wins (value i) (value k) (label i) (label k)) elements =
      some winner)
    (member : element ∈ elements) : Precedes value label winner element := by
  apply survivor_wins_precedes _ result member
  intro pair duelled first difference tested
  rw [eq_of_mem_testedDifference tested]
  exact rel_of_mem_duels decisive pair duelled first

end Precedes

/-- On a clear test of the leaving rule the row that leaves comes first among those that bound the
column: it has the smallest ratio, and no label before the one that leaves has the same. -/
theorem leaving_precedes {n m : Nat} {t : Tableau ℚ n m} {phase : Phase} {r i : Fin n}
    {s : Fin (m + 1)} (clear : ∀ value ∈ t.blockingTests phase, Clear value)
    (enters : t.entering (phaseRow phase) phase = some s)
    (leaves : t.leaving (nonbasicColumn s) = some r)
    (bounds : i ∈ t.boundingRows (nonbasicColumn s)) :
    Precedes (t.ratio (nonbasicColumn s)) t.basic r i := by
  apply survivor_wins_precedes _ leaves bounds
  intro pair duelled _ difference tested
  refine Clear.decisive ?_
  apply clear_leavingTests clear enters
  apply List.mem_append_right
  exact List.mem_flatMap.mpr ⟨pair, duelled, tested⟩

end Tableau

end TwoPhase
