import TwoPhase.Proofs.Selection
import TwoPhase.Proofs.Tableau.Exchange

/-!
# What the rules choose

`choiceTests` lists the values that the rules test at a tableau.  If all of them are clear of the
tolerance, the choice is that of the exact rules: no candidate column is negative, or the entering
column is and either no row bounds it or the leaving row has the smallest ratio.
-/

namespace TwoPhase.Tableau

variable {α : Type} {n m : Nat}

section Choose

variable [Scalar α] {t : Tableau α n m} {phase : Phase} {r : Fin n} {s : Fin (m + 1)}

omit [Scalar α] in
theorem mem_candidates_iff {j : Fin (m + 1)} :
    j ∈ t.candidates phase ↔ phase = .one ∨ t.nonbasic j ≠ .auxiliary := by
  simp [candidates]

theorem mem_boundingRows_iff {i : Fin n} {column : Fin (m + 2)} :
    i ∈ t.boundingRows column ↔ Scalar.tolerance < t.entry (basicRow i) column := by
  simp [boundingRows]

theorem entering_eq_some_iff {x : Fin (n + 2)} :
    t.entering x phase = some s ↔
      survivor (t.columnWins x) (t.candidates phase) = some s ∧
        ¬ -Scalar.tolerance < t.entry x (nonbasicColumn s) := by
  unfold entering
  cases survivor (t.columnWins x) (t.candidates phase) with
  | none => simp
  | some k =>
      by_cases high : -Scalar.tolerance < t.entry x (nonbasicColumn k)
      · simp only [if_pos high, reduceCtorEq, Option.some.injEq, false_iff, not_and, not_not]
        intro same
        exact same ▸ high
      · simp only [if_neg high, Option.some.injEq]
        exact ⟨fun same => ⟨same, same ▸ high⟩, fun both => both.1⟩

theorem above_of_entering_eq_none {x : Fin (n + 2)} (nothing : t.entering x phase = none)
    (survived : survivor (t.columnWins x) (t.candidates phase) = some s) :
    -Scalar.tolerance < t.entry x (nonbasicColumn s) := by
  unfold entering at nothing
  by_contra low
  simp [survived, low] at nothing

theorem entering_eq_none_of_optimal (choice : t.choose phase = .optimal) :
    t.entering (phaseRow phase) phase = none := by
  unfold choose at choice
  cases enters : t.entering (phaseRow phase) phase with
  | none => rfl
  | some s =>
      cases leaves : t.leaving (nonbasicColumn s) <;> simp [enters, leaves] at choice

theorem choose_eq_unlimited_iff :
    t.choose phase = .unlimited s ↔
      t.entering (phaseRow phase) phase = some s ∧ t.leaving (nonbasicColumn s) = none := by
  unfold choose
  cases enters : t.entering (phaseRow phase) phase with
  | none => simp
  | some k =>
      by_cases same : k = s
      · subst same
        cases leaves : t.leaving (nonbasicColumn k) <;> simp [leaves]
      · cases leaves : t.leaving (nonbasicColumn k) <;> simp [leaves, same]

theorem choose_eq_pivot_iff :
    t.choose phase = .pivot r s ↔
      t.entering (phaseRow phase) phase = some s ∧ t.leaving (nonbasicColumn s) = some r := by
  unfold choose
  cases enters : t.entering (phaseRow phase) phase with
  | none => simp
  | some k =>
      by_cases same : k = s
      · subst same
        cases leaves : t.leaving (nonbasicColumn k) <;> simp [leaves]
      · cases leaves : t.leaving (nonbasicColumn k) <;> simp [leaves, same]

theorem mem_candidates_of_entering {x : Fin (n + 2)} (enters : t.entering x phase = some s) :
    s ∈ t.candidates phase :=
  survivor_mem (entering_eq_some_iff.mp enters).1

theorem mem_boundingRows_of_leaving {column : Fin (m + 2)} (leaves : t.leaving column = some r) :
    r ∈ t.boundingRows column :=
  survivor_mem leaves

theorem boundingRows_eq_nil_of_leaving {column : Fin (m + 2)} (leaves : t.leaving column = none) :
    t.boundingRows column = [] :=
  survivor_eq_none_iff.mp leaves

end Choose

section Tests

variable [Scalar α]

/-- The values that the entering rule tests: the differences of near-ties and the chosen entry. -/
def enteringTests (t : Tableau α n m) (x : Fin (n + 2)) (phase : Phase) : List α :=
  (duels (t.columnWins x) (t.candidates phase)).flatMap (fun pair =>
      testedDifference (t.entry x (nonbasicColumn pair.2)) (t.entry x (nonbasicColumn pair.1))) ++
    (survivor (t.columnWins x) (t.candidates phase)).toList.map fun s =>
      t.entry x (nonbasicColumn s)

/-- The values that the leaving rule tests: the entries of the column and the differences of
near-ties. -/
def leavingTests (t : Tableau α n m) (s : Fin (m + 2)) : List α :=
  (List.finRange n).map (fun i => t.entry (basicRow i) s) ++
    (duels (t.rowWins s) (t.boundingRows s)).flatMap fun pair =>
      testedDifference (t.ratio s pair.2) (t.ratio s pair.1)

/-- The values that the leaving rule tests at a tableau: those of the column that enters. -/
def blockingTests (t : Tableau α n m) (phase : Phase) : List α :=
  (t.entering (phaseRow phase) phase).toList.flatMap fun s => t.leavingTests (nonbasicColumn s)

/-- The values that the rules test at a tableau; a column is looked at only if it enters. -/
def choiceTests (t : Tableau α n m) (phase : Phase) : List α :=
  t.enteringTests (phaseRow phase) phase ++
    (t.entering (phaseRow phase) phase).toList.flatMap fun s => t.leavingTests (nonbasicColumn s)

end Tests

theorem entry_neg_of_entering {t : Tableau ℚ n m} {x : Fin (n + 2)} {phase : Phase}
    {s : Fin (m + 1)} (enters : t.entering x phase = some s) :
    t.entry x (nonbasicColumn s) < 0 := by
  have low := (entering_eq_some_iff.mp enters).2
  exact (not_lt.mp low).trans_lt (neg_neg_of_pos Scalar.tolerance_pos)

theorem abs_entry_le_largestColumn (t : Tableau ℚ n m) (i : Fin (n + 2)) (j : Fin (m + 1)) :
    |t.entry i (nonbasicColumn j)| ≤ |t.entry i (nonbasicColumn (t.largestColumn i))| := by
  have negated : -|t.entry i (nonbasicColumn (t.largestColumn i))| ≤
      -|t.entry i (nonbasicColumn j)| := by
    apply foldl_duel_le (fun k => -|t.entry i (nonbasicColumn k)|) _ j
      (List.mem_cons_of_mem _ (List.mem_finRange j))
    intro pair _
    unfold duel
    by_cases larger : |t.entry i (nonbasicColumn pair.1)| < |t.entry i (nonbasicColumn pair.2)|
    · simp [larger, larger.le]
    · simp [larger, not_lt.mp larger]
  exact neg_le_neg_iff.mp negated

/-- However the entering rule decides near-ties, its column is a smallest one up to one tolerance for
each duel. -/
theorem entry_le_add_of_entering {t : Tableau ℚ n m} {x : Fin (n + 2)} {phase : Phase}
    {s j : Fin (m + 1)} (enters : t.entering x phase = some s) (candidate : j ∈ t.candidates phase) :
    t.entry x (nonbasicColumn s) ≤
      t.entry x (nonbasicColumn j) + ((t.candidates phase).length - 1 : ℕ) * Scalar.tolerance :=
  survivor_wins_le_add (fun k => t.entry x (nonbasicColumn k)) t.nonbasic
    (entering_eq_some_iff.mp enters).1 candidate

/-- A candidate column that the entering rule stops at is below the kept one by at most one tolerance
for each other candidate. -/
theorem entry_gt_of_entering_eq_none {t : Tableau ℚ n m} {x : Fin (n + 2)} {phase : Phase}
    (nothing : t.entering x phase = none) {j : Fin (m + 1)} (candidate : j ∈ t.candidates phase) :
    -((t.candidates phase).length * Scalar.tolerance) < t.entry x (nonbasicColumn j) := by
  have someCandidate : 1 ≤ (t.candidates phase).length := List.length_pos_of_mem candidate
  cases survived : survivor (t.columnWins x) (t.candidates phase) with
  | none =>
      rw [survivor_eq_none_iff.mp survived] at candidate
      cases candidate
  | some s =>
      have above := above_of_entering_eq_none nothing survived
      have drifted := survivor_wins_le_add (fun k => t.entry x (nonbasicColumn k)) t.nonbasic
        survived candidate
      rw [Nat.cast_sub someCandidate, Nat.cast_one] at drifted
      linarith

theorem entry_ge_of_optimal {t : Tableau ℚ n m} {phase : Phase} (choice : t.choose phase = .optimal)
    {j : Fin (m + 1)} (candidate : j ∈ t.candidates phase) :
    -((t.candidates phase).length * Scalar.tolerance) ≤
      t.entry (phaseRow phase) (nonbasicColumn j) :=
  (entry_gt_of_entering_eq_none (entering_eq_none_of_optimal choice) candidate).le

section Blocking

variable {t : Tableau ℚ n m} {phase : Phase} {r : Fin n} {s : Fin (m + 1)}
  (clear : ∀ value ∈ t.blockingTests phase, Clear value)

include clear

theorem clear_leavingTests (enters : t.entering (phaseRow phase) phase = some s) :
    ∀ value ∈ t.leavingTests (nonbasicColumn s), Clear value := by
  intro value member
  apply clear value
  rw [blockingTests, enters]
  simpa using member

theorem clear_entry (enters : t.entering (phaseRow phase) phase = some s) (i : Fin n) :
    Clear (t.entry (basicRow i) (nonbasicColumn s)) := by
  apply clear_leavingTests clear enters
  apply List.mem_append_left
  exact List.mem_map_of_mem (List.mem_finRange i)

theorem leaving_ratio_le (enters : t.entering (phaseRow phase) phase = some s)
    (leaves : t.leaving (nonbasicColumn s) = some r) {i : Fin n}
    (bounds : i ∈ t.boundingRows (nonbasicColumn s)) :
    t.ratio (nonbasicColumn s) r ≤ t.ratio (nonbasicColumn s) i := by
  apply survivor_wins_le (t.ratio (nonbasicColumn s)) t.basic _ leaves bounds
  intro pair duelled difference tested
  apply clear_leavingTests clear enters
  apply List.mem_append_right
  exact List.mem_flatMap.mpr ⟨pair, duelled, tested⟩

theorem entry_nonpos_of_unlimited (choice : t.choose phase = .unlimited s) (i : Fin n) :
    t.entry (basicRow i) (nonbasicColumn s) ≤ 0 := by
  obtain ⟨enters, leaves⟩ := choose_eq_unlimited_iff.mp choice
  apply (clear_entry clear enters i).nonpos
  intro bounding
  have member := mem_boundingRows_iff.mpr bounding
  rw [boundingRows_eq_nil_of_leaving leaves] at member
  simp at member

end Blocking

section Clear

variable {t : Tableau ℚ n m} {phase : Phase} {s : Fin (m + 1)}
  (clear : ∀ value ∈ t.choiceTests phase, Clear value)

include clear

theorem clear_enteringTests : ∀ value ∈ t.enteringTests (phaseRow phase) phase, Clear value :=
  fun value member => clear value (List.mem_append_left _ member)

theorem clear_blockingTests : ∀ value ∈ t.blockingTests phase, Clear value :=
  fun value member => clear value (List.mem_append_right _ member)

theorem clear_survivor
    (survived : survivor (t.columnWins (phaseRow phase)) (t.candidates phase) = some s) :
    Clear (t.entry (phaseRow phase) (nonbasicColumn s)) := by
  apply clear_enteringTests clear
  apply List.mem_append_right
  simp [survived]

theorem survivor_entry_le
    (survived : survivor (t.columnWins (phaseRow phase)) (t.candidates phase) = some s)
    {j : Fin (m + 1)} (candidate : j ∈ t.candidates phase) :
    t.entry (phaseRow phase) (nonbasicColumn s) ≤ t.entry (phaseRow phase) (nonbasicColumn j) := by
  apply survivor_wins_le (fun k => t.entry (phaseRow phase) (nonbasicColumn k)) t.nonbasic _
    survived candidate
  intro pair duelled difference tested
  apply clear_enteringTests clear
  apply List.mem_append_left
  exact List.mem_flatMap.mpr ⟨pair, duelled, tested⟩

theorem entry_nonneg_of_optimal (choice : t.choose phase = .optimal) {j : Fin (m + 1)}
    (candidate : j ∈ t.candidates phase) :
    0 ≤ t.entry (phaseRow phase) (nonbasicColumn j) := by
  have nothing := entering_eq_none_of_optimal choice
  cases survived : survivor (t.columnWins (phaseRow phase)) (t.candidates phase) with
  | none =>
      rw [survivor_eq_none_iff.mp survived] at candidate
      simp at candidate
  | some s =>
      have above := above_of_entering_eq_none nothing survived
      have smallest : 0 ≤ t.entry (phaseRow phase) (nonbasicColumn s) :=
        (clear_survivor clear survived).nonneg (lt_asymm above)
      exact smallest.trans (survivor_entry_le clear survived candidate)

end Clear

end TwoPhase.Tableau
