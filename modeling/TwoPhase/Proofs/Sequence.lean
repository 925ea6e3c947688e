import Mathlib.Data.ENat.Lattice
import TwoPhase.Proofs.Magnitude
import TwoPhase.Proofs.Tableau.Choice
import TwoPhase.Proofs.Trail

/-!
# The sequence of pivots that no cap ends

`after` is the sequence of tableaux that choosing and pivoting gives, and `pivotsToRest` counts its
pivots up to the first tableau where the rules find no pivot.  A run with a cap makes as many of
these pivots as the cap allows, and logs one numbered line for each tableau it comes to.

All of this needs one law of the numbers: what lies above the tolerance does so in absolute value.
-/

namespace TwoPhase

variable {α : Type} {n m : Nat}

/-- The number of a line of the iteration log. -/
def Event.iterationNumber? : Event α → Option Nat
  | .iteration number _ => some number
  | _ => none

def iterationNumbers (events : Array (Event α)) : List Nat :=
  events.toList.filterMap Event.iterationNumber?

theorem iterationNumbers_push (events : Array (Event α)) (event : Event α) :
    iterationNumbers (events.push event) =
      iterationNumbers events ++ event.iterationNumber?.toList := by
  cases numbered : event.iterationNumber? <;> simp [iterationNumbers, numbered]

namespace Tableau

variable [Scalar α]

section Rest

variable {t : Tableau α n m} {phase : Phase} {r : Fin n} {s : Fin (m + 1)}

/-- The rules find no pivot: no column may enter, or no row bounds the one that does. -/
def Rests (t : Tableau α n m) (phase : Phase) : Prop :=
  t.entering (phaseRow phase) phase = none ∨
    ∃ s, t.entering (phaseRow phase) phase = some s ∧ t.leaving (nonbasicColumn s) = none

theorem choose_eq_optimal_iff :
    t.choose phase = .optimal ↔ t.entering (phaseRow phase) phase = none := by
  constructor
  · exact entering_eq_none_of_optimal
  · intro nothing
    simp [choose, nothing]

theorem tolerance_lt_of_choose (choice : t.choose phase = .pivot r s) :
    Scalar.tolerance < t.entry (basicRow r) (nonbasicColumn s) := by
  obtain ⟨_, leaves⟩ := choose_eq_pivot_iff.mp choice
  exact mem_boundingRows_iff.mp (mem_boundingRows_of_leaving leaves)

theorem pivotAt_of_choose [Scalar.LawfulAbs α] (choice : t.choose phase = .pivot r s) :
    t.pivotAt r s = .ok (t.exchange r s) := by
  apply pivotAt_eq_ok_iff.mpr
  exact ⟨Scalar.LawfulAbs.tolerance_lt_abs (tolerance_lt_of_choose choice), rfl⟩

theorem rests_iff_step?_eq_none [Scalar.LawfulAbs α] : t.Rests phase ↔ t.step? phase = none := by
  unfold Rests step?
  cases choice : t.choose phase with
  | optimal => simp [choose_eq_optimal_iff.mp choice]
  | unlimited s => simp [choose_eq_unlimited_iff.mp choice]
  | pivot r s =>
      obtain ⟨enters, leaves⟩ := choose_eq_pivot_iff.mp choice
      simp [enters, leaves, pivotAt_of_choose choice, Except.toOption]

end Rest

section After

/-- The tableau after a number of pivots of a phase, whatever the cap; none if the phase does not
get that far. -/
def after (t : Tableau α n m) (phase : Phase) : Nat → Option (Tableau α n m)
  | 0 => some t
  | pivots + 1 => (t.after phase pivots).bind fun u => u.step? phase

theorem after_add (t : Tableau α n m) (phase : Phase) (first more : Nat) :
    t.after phase (first + more) =
      (t.after phase first).bind fun u => u.after phase more := by
  induction more with
  | zero => simp [after]
  | succ more inductionHypothesis =>
      rw [← Nat.add_assoc, after, inductionHypothesis, Option.bind_assoc]
      rfl

theorem after_succ_of_step? {t next : Tableau α n m} {phase : Phase}
    (chosen : t.step? phase = some next) (pivots : Nat) :
    t.after phase (pivots + 1) = next.after phase pivots := by
  rw [Nat.add_comm, after_add]
  simp [after, chosen]

theorem exists_after_of_le {t u : Tableau α n m} {phase : Phase} {first k : Nat}
    (comes : t.after phase k = some u) (earlier : first ≤ k) :
    ∃ v, t.after phase first = some v := by
  obtain ⟨more, isLater⟩ := Nat.exists_eq_add_of_le earlier
  rw [isLater, after_add] at comes
  obtain ⟨v, there, _⟩ := Option.bind_eq_some_iff.mp comes
  exact ⟨v, there⟩

/-- The number of pivots after which the rules first find none, `⊤` if they always do. -/
noncomputable def pivotsToRest (t : Tableau α n m) (phase : Phase) : ℕ∞ :=
  ⨅ (k : ℕ) (_ : ∃ u, t.after phase k = some u ∧ u.Rests phase), (k : ℕ∞)

variable [Scalar.LawfulAbs α] {t u : Tableau α n m} {phase : Phase} {k : Nat}

theorem le_pivotsToRest (comes : t.after phase k = some u) : k ≤ t.pivotsToRest phase := by
  apply le_iInf₂
  rintro rested ⟨v, there, rests⟩
  rw [Nat.cast_le]
  by_contra before
  -- A phase that rested before `k` would have no tableau after `k` pivots.
  obtain ⟨more, isLater⟩ := Nat.exists_eq_add_of_lt (not_le.mp before)
  have stopped : v.after phase (more + 1) = none := by
    rw [Nat.add_comm, after_add]
    simp [after, rests_iff_step?_eq_none.mp rests]
  rw [isLater, Nat.add_assoc, after_add, there, Option.bind_some, stopped] at comes
  cases comes

theorem pivotsToRest_eq (comes : t.after phase k = some u) (rests : u.Rests phase) :
    t.pivotsToRest phase = k :=
  le_antisymm (iInf₂_le k ⟨u, comes, rests⟩) (le_pivotsToRest comes)

end After

section Runs

variable {phase : Phase} {remaining pivots : Nat} {events : Array (Event α)} {t : Tableau α n m}
  {run : PhaseRun α n m}

theorem Runs.exists_after (runs : Runs phase remaining pivots events t run) :
    ∃ made ≤ remaining, run.pivots = pivots + made ∧ t.after phase made = some run.final ∧
      (run.verdict = .ok .capped → made = remaining) := by
  induction runs with
  | optimal choice | unlimited choice | refused choice refused =>
      exact ⟨0, Nat.zero_le _, rfl, rfl, by simp⟩
  | capped choice => exact ⟨0, le_rfl, rfl, rfl, fun _ => rfl⟩
  | pivot choice accepted _ inductionHypothesis =>
      obtain ⟨made, within, counted, comes, atCap⟩ := inductionHypothesis
      have chosen := step?_eq_some_iff.mpr ⟨_, _, choice, accepted⟩
      refine ⟨made + 1, by omega, by omega, ?_, fun capped => by rw [atCap capped]⟩
      rw [after_succ_of_step? chosen, comes]

theorem Runs.iterationNumbers_eq (runs : Runs phase remaining pivots events t run) :
    iterationNumbers run.events =
      iterationNumbers events ++ List.range' (pivots + 1) (run.pivots - pivots + 1) := by
  induction runs with
  | optimal choice | unlimited choice | capped choice | refused choice refused =>
      simp [iterationNumbers_push, Event.iterationNumber?]
  | @pivot _ pivots _ _ _ _ _ run _ _ later inductionHypothesis =>
      obtain ⟨made, _, counted, _⟩ := later.exists_after
      have fromHere : run.pivots - pivots + 1 = (made + 1) + 1 := by omega
      have fromNext : run.pivots - (pivots + 1) + 1 = made + 1 := by omega
      have split : List.range' (pivots + 1) ((made + 1) + 1) =
          (pivots + 1) :: List.range' (pivots + 2) (made + 1) := List.range'_succ
      rw [inductionHypothesis, fromHere, fromNext, split]
      simp [iterationNumbers_push, Event.iterationNumber?, pivotEvent]

end Runs

section RunPhase

variable (t : Tableau α n m) (phase : Phase) (cap : Nat)

/-- A phase makes no more pivots than its cap allows, and ends at the tableau after them. -/
theorem after_runPhase :
    (t.runPhase phase cap).pivots ≤ cap ∧
      t.after phase (t.runPhase phase cap).pivots = some (t.runPhase phase cap).final ∧
      ((t.runPhase phase cap).verdict = .ok .capped → (t.runPhase phase cap).pivots = cap) := by
  obtain ⟨made, within, counted, comes, atCap⟩ := (runs_runFrom phase cap 0 _ t).exists_after
  rw [Nat.zero_add] at counted
  change (t.runPhase phase cap).pivots = made at counted
  rw [counted]
  exact ⟨within, comes, atCap⟩

theorem runPhase_pivots_le : (t.runPhase phase cap).pivots ≤ cap :=
  (after_runPhase t phase cap).1

theorem iterationNumbers_runPhase :
    iterationNumbers (t.runPhase phase cap).events =
      List.range' 1 ((t.runPhase phase cap).pivots + 1) :=
  (runs_runFrom phase cap 0 #[.phaseStarted phase, .iterationsHeaded] t).iterationNumbers_eq

/-- The verdict of a phase that ends at a tableau where the rules choose so. -/
def Choice.verdict : Choice n m → PhaseVerdict
  | .optimal => .optimal
  | .unlimited _ => .unbounded
  | .pivot .. => .capped

variable [Scalar.LawfulAbs α]

/-- No chosen pivot is refused, so a phase comes to the verdict of its last choice. -/
theorem verdict_runPhase :
    (t.runPhase phase cap).verdict = .ok ((t.runPhase phase cap).final.choose phase).verdict := by
  have decided := t.runPhase_decided phase cap
  unfold PhaseRun.Decided at decided
  cases verdict : (t.runPhase phase cap).verdict with
  | error refusal =>
      rw [verdict] at decided
      obtain ⟨r, s, choice, refused⟩ := decided
      rw [pivotAt_of_choose choice] at refused
      cases refused
  | ok reached =>
      rw [verdict] at decided
      cases reached with
      | optimal => rw [show _ = Choice.optimal from decided, Choice.verdict]
      | unbounded =>
          obtain ⟨s, choice⟩ := decided
          rw [choice, Choice.verdict]
      | capped =>
          obtain ⟨r, s, choice⟩ := decided
          rw [choice, Choice.verdict]

theorem capped_iff_not_rests :
    (t.runPhase phase cap).verdict = .ok .capped ↔ ¬(t.runPhase phase cap).final.Rests phase := by
  rw [verdict_runPhase, rests_iff_step?_eq_none, step?]
  cases choice : (t.runPhase phase cap).final.choose phase with
  | optimal | unlimited s => simp [Choice.verdict]
  | pivot r s => simp [Choice.verdict, pivotAt_of_choose choice, Except.toOption]

theorem pivots_runPhase :
    ((t.runPhase phase cap).pivots : ℕ∞) = min (cap : ℕ∞) (t.pivotsToRest phase) := by
  obtain ⟨within, comes, atCap⟩ := after_runPhase t phase cap
  by_cases rests : (t.runPhase phase cap).final.Rests phase
  · rw [pivotsToRest_eq comes rests, min_eq_right (by exact_mod_cast within)]
  · have least := le_pivotsToRest comes
    rw [atCap ((capped_iff_not_rests t phase cap).mpr rests)] at least ⊢
    exact (min_eq_left least).symm

/-- A cap ends a phase exactly where the phase would go on. -/
theorem capped_iff_after :
    (t.runPhase phase cap).verdict = .ok .capped ↔ ∃ u, t.after phase (cap + 1) = some u := by
  obtain ⟨within, comes, atCap⟩ := after_runPhase t phase cap
  rw [capped_iff_not_rests]
  constructor
  · intro goesOn
    rw [atCap ((capped_iff_not_rests t phase cap).mpr goesOn)] at comes
    rw [after, comes, Option.bind_some, ← Option.ne_none_iff_exists', ne_eq,
      ← rests_iff_step?_eq_none]
    exact goesOn
  · rintro ⟨u, further⟩ rests
    have most := le_pivotsToRest further
    rw [pivotsToRest_eq comes rests, Nat.cast_le] at most
    omega

end RunPhase

/-- A phase comes to a verdict within its cap.  It makes the first pivots of the sequence that no
cap ends, up to the cap or to where the rules find none, and the verdict says which of the rules
found none there, or that both found one at the cap.  The log numbers its lines from one, one line
more than there are pivots. -/
theorem runPhase_follows_sequence [Scalar.LawfulAbs α] (t : Tableau α n m) (phase : Phase)
    (cap : Nat) :
    let run := t.runPhase phase cap
    let last := run.final
    run.pivots ≤ cap ∧
      (run.pivots : ℕ∞) = min (cap : ℕ∞) (t.pivotsToRest phase) ∧
      t.after phase run.pivots = some last ∧
      (run.verdict = .ok .optimal ↔ last.entering (phaseRow phase) phase = none) ∧
      (run.verdict = .ok .unbounded ↔ ∃ s, last.entering (phaseRow phase) phase = some s ∧
        last.leaving (nonbasicColumn s) = none) ∧
      (run.verdict = .ok .capped ↔ run.pivots = cap ∧
        ∃ s r, last.entering (phaseRow phase) phase = some s ∧
          last.leaving (nonbasicColumn s) = some r) ∧
      (∃ verdict, run.verdict = .ok verdict) ∧
      iterationNumbers run.events = List.range' 1 (run.pivots + 1) := by
  intro run last
  obtain ⟨within, comes, atCap⟩ := after_runPhase t phase cap
  have verdict : run.verdict = .ok (last.choose phase).verdict := verdict_runPhase t phase cap
  refine ⟨within, pivots_runPhase t phase cap, comes, ?_, ?_, ?_, ⟨_, verdict⟩,
    iterationNumbers_runPhase t phase cap⟩
  · rw [verdict, ← choose_eq_optimal_iff]
    cases last.choose phase <;> simp [Choice.verdict]
  · simp only [verdict, ← choose_eq_unlimited_iff]
    cases last.choose phase <;> simp [Choice.verdict]
  · simp only [← choose_eq_pivot_iff]
    constructor
    · intro capped
      refine ⟨atCap capped, ?_⟩
      rw [verdict] at capped
      cases choice : last.choose phase <;> simp [choice, Choice.verdict] at capped ⊢
    · rintro ⟨_, s, r, choice⟩
      rw [verdict, choice, Choice.verdict]

/-- Maximize `2 x` where `∞ x ≤ 3`, over binary64. -/
def infiniteForm : StandardForm Float 1 1 where
  objective := #v[2]
  rows := #v[#v[1 / 0]]
  bounds := #v[3]

theorem runPhase_infiniteForm :
    Scalar.LawfulAbs Float ∧
      let run := (ofStandardForm infiniteForm).runPhase .two 1
      run.verdict = .ok .optimal ∧ run.pivots = 1 ∧ iterationNumbers run.events = [1, 2] := by
  refine ⟨inferInstance, ?_⟩
  intro run
  have onePivot : run.pivots = 1 := by decide +kernel
  obtain ⟨_, _, _, optimalIff, _, _, _, numbers⟩ :=
    runPhase_follows_sequence (ofStandardForm infiniteForm) .two 1
  refine ⟨optimalIff.mpr (by decide +kernel), onePivot, ?_⟩
  rw [numbers, onePivot]
  rfl

end Tableau

end TwoPhase
