import TwoPhase.Proofs.Tableau.Ties

/-!
# The column that enters

The entering rule keeps a column by successive duels and only then asks whether the kept entry is
below the tolerance.  So an entry of exactly minus the tolerance still enters, and a near-tie won by
a smaller label can keep an entry above the smallest, or end the phase although an entry is further
below zero.  The kept entry is the smallest up to one tolerance for each duel, and exactly the
smallest where no near-tie is won.
-/

namespace TwoPhase.Tableau

variable {n m : Nat}

theorem entering_eq_none_of_above {α : Type} [Scalar α] {t : Tableau α n m} {x : Fin (n + 2)}
    {phase : Phase}
    (above : ∀ j ∈ t.candidates phase, -Scalar.tolerance < t.entry x (nonbasicColumn j)) :
    t.entering x phase = none := by
  cases enters : t.entering x phase with
  | none => rfl
  | some s =>
      have low := (entering_eq_some_iff.mp enters).2
      exact absurd (above s (mem_candidates_of_entering enters)) low

/-- No candidate column wins a near-tie with an earlier one, unless it is a tie. -/
def Untied (t : Tableau ℚ n m) (x : Fin (n + 2)) (phase : Phase) : Prop :=
  (t.candidates phase).Pairwise fun j k => (t.nonbasic k).before (t.nonbasic j) = true →
    Decisive (t.entry x (nonbasicColumn k) - t.entry x (nonbasicColumn j))

section Untied

variable {t : Tableau ℚ n m} {x : Fin (n + 2)} {phase : Phase} {s : Fin (m + 1)}
  (untied : t.Untied x phase)

include untied

theorem Untied.precedes (survived : survivor (t.columnWins x) (t.candidates phase) = some s) :
    ∀ j ∈ t.candidates phase,
      Precedes (fun k => t.entry x (nonbasicColumn k)) t.nonbasic s j :=
  fun _ candidate => survivor_wins_precedes_of_pairwise untied survived candidate

theorem Untied.entering_eq_none_iff :
    t.entering x phase = none ↔
      ∀ j ∈ t.candidates phase, -Scalar.tolerance < t.entry x (nonbasicColumn j) := by
  refine ⟨?_, entering_eq_none_of_above⟩
  intro nothing j candidate
  cases survived : survivor (t.columnWins x) (t.candidates phase) with
  | none =>
      rw [survivor_eq_none_iff.mp survived] at candidate
      cases candidate
  | some k =>
      have above := above_of_entering_eq_none nothing survived
      rcases untied.precedes survived j candidate with smaller | ⟨equal, _⟩
      · exact above.trans smaller
      · exact above.trans_eq equal

end Untied

/-- A column that enters is a candidate whose entry is at most minus the tolerance and exceeds the
smallest of `k` candidate entries by at most `k - 1` tolerances.  None enters if all entries are
above minus the tolerance, and if none does then all are above minus `k` tolerances.  If no near-tie
is won, none enters exactly if all entries are above minus the tolerance, and the entry that enters
is the smallest, of equal ones the one whose label comes first. -/
theorem entering_smallest_up_to_ties (t : Tableau ℚ n m) (x : Fin (n + 2)) (phase : Phase) :
    let value j := t.entry x (nonbasicColumn j)
    (∀ s, t.entering x phase = some s →
      s ∈ t.candidates phase ∧ value s ≤ -Scalar.tolerance ∧
        ∀ j ∈ t.candidates phase,
          value s ≤ value j + ((t.candidates phase).length - 1 : ℕ) * Scalar.tolerance) ∧
      ((∀ j ∈ t.candidates phase, -Scalar.tolerance < value j) → t.entering x phase = none) ∧
      (t.entering x phase = none → ∀ j ∈ t.candidates phase,
        -((t.candidates phase).length * Scalar.tolerance) < value j) ∧
      (t.Untied x phase →
        (t.entering x phase = none ↔ ∀ j ∈ t.candidates phase, -Scalar.tolerance < value j) ∧
          ∀ s, t.entering x phase = some s →
            ∀ j ∈ t.candidates phase, Precedes value t.nonbasic s j) := by
  intro value
  refine ⟨?_, entering_eq_none_of_above, fun nothing j => entry_gt_of_entering_eq_none nothing, ?_⟩
  · intro s enters
    exact ⟨mem_candidates_of_entering enters, not_lt.mp (entering_eq_some_iff.mp enters).2,
      fun j => entry_le_add_of_entering enters⟩
  · intro untied
    refine ⟨untied.entering_eq_none_iff, ?_⟩
    intro s enters
    exact untied.precedes (entering_eq_some_iff.mp enters).1

/-- Maximize `10⁻⁹ x` without any constraint. -/
def barelyRising : StandardForm ℚ 0 1 where
  objective := #v[1e-9]
  rows := #v[]
  bounds := #v[]

/-- The equalities `x₁ = 1` and `x₀ = 1` as inequalities, and some objective. -/
def pinned (objective : Vector ℚ 3) : StandardForm ℚ 4 3 where
  objective := objective
  rows := #v[#v[0, 1, 0], #v[0, -1, 0], #v[1, 0, 0], #v[-1, 0, 0]]
  bounds := #v[1, -1, 1, -1]

/-- The slacks of `x₀ ≤ 1` and `x₁ ≤ 1` stand before `x₂`, in falling order of their labels. -/
def pinnedColumns (objective : Vector ℚ 3) : Tableau ℚ 4 3 :=
  ((ofStandardForm (pinned objective)).exchange ⟨2, by decide⟩ ⟨0, by decide⟩).exchange
    ⟨0, by decide⟩ ⟨1, by decide⟩

/-- With entries `-1`, `-1 + 0.75 · 10⁻⁹` and `-1 + 1.5 · 10⁻⁹` the last one enters, and it exceeds
the smallest by no more than two tolerances; with `-1`, `-2` and `-1` the second one does. -/
theorem entering_pinnedColumns :
    let chained := pinnedColumns #v[-1, -1 + 7.5e-10, 1 - 1.5e-9]
    let apart := pinnedColumns #v[-1, -2, 1]
    chained.entering objectiveRow .two = some 2 ∧
      chained.entry objectiveRow 2 ≤ chained.entry objectiveRow 0 + 2 * Scalar.tolerance ∧
      apart.Untied objectiveRow .two ∧ apart.entering objectiveRow .two = some 1 ∧
      ∀ j ∈ apart.candidates .two,
        Precedes (fun k => apart.entry objectiveRow (nonbasicColumn k)) apart.nonbasic 1 j := by
  intro chained apart
  have chainEnters : chained.entering objectiveRow .two = some 2 := by decide +kernel
  have apartEnters : apart.entering objectiveRow .two = some 1 := by decide +kernel
  have untied : apart.Untied objectiveRow .two := by
    unfold Untied
    decide +kernel
  obtain ⟨drift, _, _, _⟩ := entering_smallest_up_to_ties chained objectiveRow .two
  obtain ⟨_, _, _, exactly⟩ := entering_smallest_up_to_ties apart objectiveRow .two
  have amount : (chained.candidates .two).length - 1 = 2 := by decide +kernel
  have within := (drift 2 chainEnters).2.2 0 (by decide +kernel)
  rw [amount] at within
  exact ⟨chainEnters, within, untied, apartEnters, (exactly untied).2 1 apartEnters⟩

/-- An entry of exactly minus the tolerance enters.  A near-tie ends a phase although an entry is
below minus the tolerance, and a chain of them makes a column enter whose entry exceeds another by
more than the tolerance. -/
theorem entering_not_most_negative :
    let barely := ofStandardForm barelyRising
    let stopped := (ofStandardForm (pinned #v[-1.5e-9, 7.5e-10, 0])).exchange 2 0
    let chained := pinnedColumns #v[-1, -1 + 7.5e-10, 1 - 1.5e-9]
    (barely.entering objectiveRow .two = some 0 ∧
        ¬ ∃ j ∈ barely.candidates .two,
          barely.entry objectiveRow (nonbasicColumn j) < -Scalar.tolerance) ∧
      (stopped.entering objectiveRow .two = none ∧
        ∃ j ∈ stopped.candidates .two,
          stopped.entry objectiveRow (nonbasicColumn j) < -Scalar.tolerance) ∧
      chained.entering objectiveRow .two = some 2 ∧
        ∃ j ∈ chained.candidates .two,
          chained.entry objectiveRow (nonbasicColumn j) + Scalar.tolerance <
            chained.entry objectiveRow 2 := by
  decide +kernel

end TwoPhase.Tableau
