import TwoPhase.Proofs.Sequence
import TwoPhase.Proofs.Tableau.InPlace
import TwoPhase.Tableau.Numbered

/-!
# Refused pivots

A pivot is refused exactly for a place that is not one of a row and a column of variables, and for
an entry whose absolute value is not above the tolerance.  Refused in place, it has changed nothing.
The rules stop at nothing but entries above the tolerance: whatever the comparisons with a NaN let
them keep before that, no pivot of a phase is refused.
-/

namespace TwoPhase.Tableau

variable {α : Type} {n m : Nat} [Scalar α]

theorem exists_refusal_iff {t : Tableau α n m} {r s : Nat} :
    (∃ refusal, t.pivot r s = .error refusal) ↔
      n ≤ r ∨ m + 1 ≤ s ∨
        ∃ value, t.entryAt? r s = some value ∧ ¬ Scalar.tolerance < Scalar.abs value := by
  unfold pivot
  by_cases row : r < n
  · by_cases column : s < m + 1
    · have there : t.entryAt? r s =
          some (t.entry (basicRow ⟨r, row⟩) (nonbasicColumn ⟨s, column⟩)) := by
        rw [entryAt?, dif_pos (by omega), dif_pos (by omega)]
        rfl
      simp only [dif_pos row, dif_pos column, there, pivotAt]
      split
      · next large => simp [row, Nat.le_of_lt_succ column, large]
      · next small => simp [small]
    · simp [row, column, not_lt.mp column]
  · simp [row, not_lt.mp row]

theorem pivotInPlace_of_refused {t : Tableau α n m} {r s : Nat} {refusal : PivotRefusal α}
    (refused : t.pivot r s = .error refusal) : (pivotInPlace r s).on t = (.error refusal, t) := by
  rw [pivotInPlace_on, refused]

theorem pivotInPlace_of_accepted {t next : Tableau α n m} {r s : Nat}
    (accepted : t.pivot r s = .ok next) : (pivotInPlace r s).on t = (.ok (), next) := by
  rw [pivotInPlace_on, accepted]

/-- The rules choose only places where a pivot is accepted. -/
theorem pivotInPlace_on_of_choose [Scalar.LawfulAbs α] {t : Tableau α n m} {phase : Phase}
    {r : Fin n} {s : Fin (m + 1)} (choice : t.choose phase = .pivot r s) :
    (pivotInPlace r s).on t = (.ok (), t.exchange r s) :=
  pivotInPlace_of_accepted (pivot_eq_ok_iff.mpr ⟨r.isLt, s.isLt, pivotAt_of_choose choice⟩)

theorem nonbasic_ne_auxiliary_of_choose {t : Tableau α n m} {r : Fin n} {s : Fin (m + 1)}
    (choice : t.choose .two = .pivot r s) : t.nonbasic s ≠ .auxiliary := by
  obtain ⟨enters, _⟩ := choose_eq_pivot_iff.mp choice
  exact (mem_candidates_iff.mp (mem_candidates_of_entering enters)).resolve_left (by decide)

/-- One pivot of a phase: the rules choose its place, and in place it leaves `next`. -/
structure Makes (t : Tableau α n m) (phase : Phase) (r : Fin n) (s : Fin (m + 1))
    (next : Tableau α n m) : Prop where
  chosen : t.choose phase = .pivot r s
  accepted : (pivotInPlace r s).on t = (.ok (), next)
  above : Scalar.tolerance < t.entry (basicRow r) (nonbasicColumn s)
  notAuxiliary : phase = .two → t.nonbasic s ≠ .auxiliary

theorem makes_of_choose [Scalar.LawfulAbs α] {t : Tableau α n m} {phase : Phase} {r : Fin n}
    {s : Fin (m + 1)} (choice : t.choose phase = .pivot r s) :
    t.Makes phase r s (t.exchange r s) where
  chosen := choice
  accepted := pivotInPlace_on_of_choose choice
  above := tolerance_lt_of_choose choice
  notAuxiliary isTwo := nonbasic_ne_auxiliary_of_choose (isTwo ▸ choice)

theorem exists_makes_of_lt [Scalar.LawfulAbs α] {t : Tableau α n m} {phase : Phase}
    {cap k : Nat} (within : k < (t.runPhase phase cap).pivots) :
    ∃ u r s next, t.after phase k = some u ∧ t.after phase (k + 1) = some next ∧
      u.Makes phase r s next := by
  obtain ⟨_, comes, _⟩ := after_runPhase t phase cap
  obtain ⟨next, further⟩ := exists_after_of_le comes within
  obtain ⟨u, there, chosen⟩ := Option.bind_eq_some_iff.mp further
  obtain ⟨r, s, choice, accepted⟩ := step?_eq_some_iff.mp chosen
  obtain rfl := (pivotAt_eq_ok_iff.mp accepted).2
  exact ⟨u, r, s, _, there, further, makes_of_choose choice⟩

/-- Over binary64, and for any entries and labels, a phase comes to a verdict with its iterations
numbered below `2 ^ 64`.  It pivots only at entries above the tolerance, in phase two never in the
column of the auxiliary variable.  A pivot at any numbers is refused exactly outside the rows and
columns of variables and where the absolute value is not above the tolerance.  In place it then
leaves the tableau as it was. -/
theorem runPhase_pivots_accepted (t : Tableau Float n m) :
    (∀ (phase : Phase) (cap : Nat), cap < 2 ^ 64 - 1 →
      let run := t.runPhase phase cap
      (∃ verdict, run.verdict = .ok verdict) ∧
        (∀ number ∈ iterationNumbers run.events, number < 2 ^ 64) ∧
        t.after phase run.pivots = some run.final ∧
        ∀ k < run.pivots, ∃ u r s next, t.after phase k = some u ∧
          t.after phase (k + 1) = some next ∧ u.Makes phase r s next) ∧
      ∀ r s : Nat,
        ((∃ refusal, t.pivot r s = .error refusal) ↔
            n ≤ r ∨ m + 1 ≤ s ∨
              ∃ value, t.entryAt? r s = some value ∧ ¬ Scalar.tolerance < Scalar.abs value) ∧
          (∀ refusal, t.pivot r s = .error refusal →
            (pivotInPlace r s).on t = (.error refusal, t)) ∧
          ∀ next, t.pivot r s = .ok next → (pivotInPlace r s).on t = (.ok (), next) := by
  constructor
  · intro phase cap limited run
    obtain ⟨within, comes, _⟩ := after_runPhase t phase cap
    refine ⟨⟨_, verdict_runPhase t phase cap⟩, ?_, comes, fun k => exists_makes_of_lt⟩
    intro number logged
    rw [iterationNumbers_runPhase, List.mem_range'_1] at logged
    omega
  · intro r s
    exact ⟨exists_refusal_iff, fun _ => pivotInPlace_of_refused,
      fun _ => pivotInPlace_of_accepted⟩

/-- A tableau with NaN entries, an infinite right-hand side and one unknown twice. -/
def hazard : Tableau Float 1 1 where
  entries := #v[#v[2, 0 / 0, 1 / 0], #v[0 / 0, -1, 0 / 0], #v[0, 0, 0]]
  basis := #v[.decision 0]
  nonbasis := #v[.decision 0, .auxiliary]

theorem runPhase_hazard_accepted :
    let run := hazard.runPhase .two 2
    2 < 2 ^ 64 - 1 ∧ (∃ verdict, run.verdict = .ok verdict) ∧ run.pivots = 2 ∧
      (∃ r s next, hazard.after .two 1 = some next ∧ hazard.Makes .two r s next) ∧
      ∃ refusal, (pivotInPlace 0 1).on hazard = (.error refusal, hazard) := by
  intro run
  obtain ⟨phases, calls⟩ := runPhase_pivots_accepted hazard
  have limited : 2 < 2 ^ 64 - 1 := by decide
  have twoPivots : run.pivots = 2 := by decide +kernel
  obtain ⟨returns, _, _, makes⟩ := phases .two 2 limited
  obtain ⟨u, r, s, next, isStart, isNext, pivot⟩ := makes 0 (by rw [twoPivots]; decide)
  obtain rfl := Option.some.inj isStart
  obtain ⟨refusedIff, unchanged, _⟩ := calls 0 1
  obtain ⟨refusal, refused⟩ :=
    refusedIff.mpr (.inr (.inr ⟨0 / 0, by decide +kernel, by decide +kernel⟩))
  exact ⟨limited, returns, twoPivots, ⟨r, s, next, isNext, pivot⟩, refusal,
    unchanged refusal refused⟩

end TwoPhase.Tableau
