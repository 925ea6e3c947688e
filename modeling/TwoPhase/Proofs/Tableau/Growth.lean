import TwoPhase.Proofs.Binary64.Arithmetic
import TwoPhase.Proofs.Trail

/-!
# How fast the entries of a tableau can grow

One pivot multiplies an entry by another one and by an inverse of at most `2 ^ 30`, and subtracts.
So the places before the binary point can double and grow by 31, and after `k` tableaux by a factor
of `2 ^ k`.  As long as they stay below the overflow threshold, all entries are finite.
-/

namespace TwoPhase.Tableau

section Chain

variable {α : Type} {n m : Nat} [Scalar α]

/-- The next tableau of a solve: the same one again where a phase begins or ends, or the one after
an accepted pivot. -/
def Follows (t next : Tableau α n m) : Prop :=
  next = t ∨ ∃ r s, t.pivotAt r s = .ok next

theorem head?_phaseTrail (phase : Phase) (remaining : Nat) (t : Tableau α n m) :
    (t.phaseTrail phase remaining).head? = some t := by
  cases remaining with
  | zero => rfl
  | succ remaining =>
      unfold phaseTrail
      split <;> rfl

theorem isChain_phaseTrail (phase : Phase) (remaining : Nat) (t : Tableau α n m) :
    (t.phaseTrail phase remaining).IsChain Follows := by
  induction remaining generalizing t with
  | zero => exact List.isChain_singleton t
  | succ remaining inductionHypothesis =>
      unfold phaseTrail
      cases chosen : t.step? phase with
      | none => exact List.isChain_singleton t
      | some next =>
          obtain ⟨r, s, _, accepted⟩ := step?_eq_some_iff.mp chosen
          rw [List.isChain_cons, head?_phaseTrail]
          refine ⟨?_, inductionHypothesis next⟩
          intro first isFirst
          cases isFirst
          exact .inr ⟨r, s, accepted⟩

theorem follows_of_driveOut {t driven : Tableau α n m} (out : t.driveOut.result = .ok driven) :
    Follows t driven := by
  rcases driveOut_cases out with ⟨_, same⟩ | ⟨r, _, accepted⟩
  · exact .inl same
  · exact .inr ⟨r, _, accepted⟩

theorem isChain_restorationTrail (t : Tableau α n m) (cap : Nat) :
    (t :: t.restorationTrail cap).IsChain Follows := by
  unfold restorationTrail
  cases started : t.restorationStart? with
  | none => exact List.isChain_singleton t
  | some entered =>
      obtain ⟨r, _, _, accepted⟩ := restorationStart?_eq_some_iff.mp started
      rw [List.isChain_cons, head?_phaseTrail]
      refine ⟨?_, isChain_phaseTrail .one cap entered⟩
      intro first isFirst
      cases isFirst
      exact .inr ⟨r, _, accepted⟩

theorem isChain_maximizationTrail (t : Tableau α n m) (cap : Nat) :
    (t.maximizationTrail cap).IsChain Follows := by
  unfold maximizationTrail
  split
  · exact isChain_phaseTrail .two cap _
  · exact List.isChain_nil

/-- Phase two starts on the last tableau of phase one, or on the one after the auxiliary variable is
driven out. -/
theorem follows_of_restored {t last feasible : Tableau α n m} {cap : Nat}
    (restored : t.Restores cap (.feasible feasible))
    (isLast : (t :: t.restorationTrail cap).getLast? = some last) : Follows last feasible := by
  cases restored with
  | skipped high =>
      have notStarted : t.restorationStart? = none := by
        rw [Option.eq_none_iff_forall_not_mem]
        intro entered started
        obtain ⟨r, lowest, below, _⟩ := restorationStart?_eq_some_iff.mp started
        exact high r lowest below
      rw [restorationTrail, notStarted] at isLast
      exact .inl (Option.some.inj isLast)
  | @driven entered _ started verdict small out =>
      have trailLast :=
        getLast?_phaseTrail .one cap 0 #[.phaseStarted .one, .iterationsHeaded] entered
      rw [restorationTrail, started, List.getLast?_cons, trailLast] at isLast
      obtain rfl := Option.some.inj isLast
      exact follows_of_driveOut out

theorem isChain_solveTrail (t : Tableau α n m) (cap : Nat) :
    (t.solveTrail cap).IsChain Follows := by
  rw [solveTrail, ← List.cons_append, List.isChain_append]
  refine ⟨isChain_restorationTrail t cap, isChain_maximizationTrail t cap, ?_⟩
  intro last isLast first isFirst
  unfold maximizationTrail at isFirst
  split at isFirst
  · next feasible restored =>
      rw [head?_phaseTrail] at isFirst
      obtain rfl := Option.some.inj isFirst
      exact follows_of_restored (restores_of_result restored) isLast
  · cases isFirst

end Chain

section Growth

variable {n m places : Nat}

/-- Every entry is finite and at most `2 ^ places` in absolute value. -/
def IsWithin (t : Tableau Float n m) (places : Nat) : Prop :=
  ∀ i j, TwoPhase.IsWithin places (t.entry i j)

instance (t : Tableau Float n m) (places : Nat) : Decidable (t.IsWithin places) :=
  inferInstanceAs (Decidable (∀ i j, TwoPhase.IsWithin places (t.entry i j)))

theorem IsWithin.mono {t : Tableau Float n m} {most : Nat} (within : t.IsWithin places)
    (le : places ≤ most) : t.IsWithin most :=
  fun i j => (within i j).mono le

section Rows

variable {pivotRow row : Vector Float (m + 2)} {s : Fin (m + 2)} {inverse : Float}
  (inRange : 2 * places + 31 ≤ 1023) (inverseWithin : TwoPhase.IsWithin 30 inverse)
  (rowWithin : ∀ j, TwoPhase.IsWithin places (row.get j))

include inRange inverseWithin rowWithin

theorem isWithin_scaledRow (j : Fin (m + 2)) :
    TwoPhase.IsWithin (2 * places + 31) ((scaledRow row s inverse).get j) := by
  rw [scaledRow, get_ofFn]
  split
  · exact inverseWithin.mono (by omega)
  · exact ((rowWithin j).mul inverseWithin (by omega)).mono (by omega)

theorem isWithin_clearedRow (pivotRowWithin : ∀ j, TwoPhase.IsWithin places (pivotRow.get j))
    (j : Fin (m + 2)) :
    TwoPhase.IsWithin (2 * places + 31) ((clearedRow pivotRow row s inverse).get j) := by
  have factorWithin := (rowWithin s).mul inverseWithin (by omega)
  have productWithin := (pivotRowWithin j).mul factorWithin (by omega)
  simp only [clearedRow, get_ofFn]
  split
  · exact ((rowWithin j).mul (inverseWithin.neg (by omega)) (by omega)).mono (by omega)
  split
  · exact (rowWithin j).mono (by omega)
  · exact (((rowWithin j).mono (by omega)).sub productWithin (by omega)).mono (by omega)

end Rows

/-- One pivot at an accepted entry. -/
theorem IsWithin.pivotAt {t next : Tableau Float n m} {r : Fin n} {s : Fin (m + 1)}
    (within : t.IsWithin places) (inRange : 2 * places + 31 ≤ 1023)
    (accepted : t.pivotAt r s = .ok next) : next.IsWithin (2 * places + 31) := by
  obtain ⟨large, equality⟩ := pivotAt_eq_ok_iff.mp accepted
  subst equality
  have inverseWithin := (within (basicRow r) (nonbasicColumn s)).inverse large
  intro i j
  simp only [entry, Tableau.row, exchange, get_ofFn]
  split
  · exact isWithin_scaledRow inRange inverseWithin (within (basicRow r)) j
  · exact isWithin_clearedRow inRange inverseWithin (within i) (within (basicRow r)) j

/-- All tableaux that follow, as many as keep the bound below the overflow threshold. -/
theorem IsWithin.last_of_isChain {t last : Tableau Float n m} {later : List (Tableau Float n m)}
    (within : t.IsWithin places) (chain : (t :: later).IsChain Follows)
    (few : 2 ^ later.length * (places + 31) ≤ 1054)
    (isLast : (t :: later).getLast? = some last) : last.IsWithin 1023 := by
  induction later generalizing t places with
  | nil =>
      obtain rfl := Option.some.inj isLast
      rw [List.length_nil, pow_zero, one_mul] at few
      exact within.mono (by omega)
  | cons next later inductionHypothesis =>
      obtain ⟨follows, rest⟩ := List.isChain_cons_cons.mp chain
      have fewer : 2 ^ later.length * (2 * places + 31 + 31) ≤ 1054 := by
        rw [List.length_cons, pow_succ] at few
        linarith
      have inRange : 2 * places + 31 ≤ 1023 := by
        have := (Nat.le_mul_of_pos_left _ (Nat.two_pow_pos later.length)).trans fewer
        omega
      have nextWithin : next.IsWithin (2 * places + 31) := by
        rcases follows with rfl | ⟨r, s, accepted⟩
        · exact within.mono (by omega)
        · exact within.pivotAt inRange accepted
      exact inductionHypothesis nextWithin rest fewer (by rwa [List.getLast?_cons_cons] at isLast)

end Growth

end TwoPhase.Tableau
