import TwoPhase.Proofs.Tableau.Reach
import TwoPhase.Solver

/-!
# The tableaux of a solve

`phaseTrail` lists the tableaux of one phase and `solveTrail` those of both.  A run ends at the last
tableau of its trail with the verdict that the rules give there, and every tableau of a solve is
reached by accepted pivots.  `Restores` and `Solves` say in which ways phase one and the whole
method come to a result.
-/

namespace TwoPhase

variable {α : Type} {n m : Nat} [Scalar α]

namespace Tableau

/-- The tableau after the pivot that the rules choose, if they choose one and it is accepted. -/
def step? (t : Tableau α n m) (phase : Phase) : Option (Tableau α n m) :=
  match t.choose phase with
  | .pivot r s => (t.pivotAt r s).toOption
  | _ => none

theorem step?_eq_some_iff {t next : Tableau α n m} {phase : Phase} :
    t.step? phase = some next ↔
      ∃ r s, t.choose phase = .pivot r s ∧ t.pivotAt r s = .ok next := by
  unfold step?
  cases choice : t.choose phase with
  | optimal => simp
  | unlimited s => simp
  | pivot r s => cases accepted : t.pivotAt r s <;> simp [Except.toOption, accepted]

/-- The tableaux of a phase with at most `remaining` pivots, in order. -/
def phaseTrail (phase : Phase) : (remaining : Nat) → Tableau α n m → List (Tableau α n m)
  | 0, t => [t]
  | remaining + 1, t =>
      match t.step? phase with
      | none => [t]
      | some next => t :: phaseTrail phase remaining next

section PhaseTrail

variable {phase : Phase} {remaining : Nat} {t u : Tableau α n m}

/-- What the first tableau has and each pivot of the phase keeps, all tableaux of the phase have. -/
theorem phaseTrail_induction {P : Tableau α n m → Prop} (initially : P t)
    (step : ∀ u ∈ t.phaseTrail phase remaining, ∀ next, P u → u.step? phase = some next → P next)
    (member : u ∈ t.phaseTrail phase remaining) : P u := by
  induction remaining generalizing t with
  | zero =>
      rw [phaseTrail, List.mem_singleton] at member
      exact member ▸ initially
  | succ remaining inductionHypothesis =>
      rw [phaseTrail] at member step
      cases chosen : t.step? phase with
      | none =>
          rw [chosen, List.mem_singleton] at member
          exact member ▸ initially
      | some next =>
          simp only [chosen] at member step
          have nextHolds : P next := step t List.mem_cons_self next initially chosen
          rcases List.mem_cons.mp member with same | later
          · exact same ▸ initially
          · exact inductionHypothesis nextHolds
              (fun v inTrail => step v (List.mem_cons_of_mem t inTrail)) later

theorem start_mem_phaseTrail (phase : Phase) (remaining : Nat) (t : Tableau α n m) :
    t ∈ t.phaseTrail phase remaining := by
  cases remaining with
  | zero => exact List.mem_singleton_self t
  | succ remaining =>
      unfold phaseTrail
      split <;> exact List.mem_cons_self

theorem reaches_of_mem_phaseTrail (member : u ∈ t.phaseTrail phase remaining) : Reaches t u := by
  apply phaseTrail_induction Reaches.start _ member
  intro v _ next reached chosen
  obtain ⟨r, s, _, accepted⟩ := step?_eq_some_iff.mp chosen
  exact reached.pivotAt accepted

end PhaseTrail

end Tableau

namespace PhaseRun

/-- The verdict of a run is what the rules decide at its last tableau. -/
def Decided (phase : Phase) (run : PhaseRun α n m) : Prop :=
  match run.verdict with
  | .ok .optimal => run.final.choose phase = .optimal
  | .ok .unbounded => ∃ s, run.final.choose phase = .unlimited s
  | .ok .capped => ∃ r s, run.final.choose phase = .pivot r s
  | .error refusal =>
      ∃ r s, run.final.choose phase = .pivot r s ∧ run.final.pivotAt r s = .error refusal

end PhaseRun

namespace Tableau

/-- What a run does: the rules stop it, the cap stops it, a pivot is refused, or it goes on after an
accepted pivot. -/
inductive Runs (phase : Phase) :
    (remaining pivots : Nat) → Array (Event α) → Tableau α n m → PhaseRun α n m → Prop
  | optimal {remaining pivots : Nat} {events : Array (Event α)} {t : Tableau α n m}
      (choice : t.choose phase = .optimal) :
      Runs phase remaining pivots events t
        ⟨.ok .optimal, t, pivots,
          (events.push (.iteration (pivots + 1) (t.rhs (phaseRow phase)))).push
            (.phaseOptimal phase pivots)⟩
  | unlimited {remaining pivots : Nat} {events : Array (Event α)} {t : Tableau α n m}
      {s : Fin (m + 1)} (choice : t.choose phase = .unlimited s) :
      Runs phase remaining pivots events t
        ⟨.ok .unbounded, t, pivots,
          (events.push (.iteration (pivots + 1) (t.rhs (phaseRow phase)))).push
            (.unlimited (t.nonbasic s))⟩
  | capped {pivots : Nat} {events : Array (Event α)} {t : Tableau α n m} {r : Fin n}
      {s : Fin (m + 1)} (choice : t.choose phase = .pivot r s) :
      Runs phase 0 pivots events t
        ⟨.ok .capped, t, pivots,
          (events.push (.iteration (pivots + 1) (t.rhs (phaseRow phase)))).push .capReached⟩
  | refused {remaining pivots : Nat} {events : Array (Event α)} {t : Tableau α n m} {r : Fin n}
      {s : Fin (m + 1)} {refusal : PivotRefusal α} (choice : t.choose phase = .pivot r s)
      (refused : t.pivotAt r s = .error refusal) :
      Runs phase (remaining + 1) pivots events t
        ⟨.error refusal, t, pivots,
          events.push (.iteration (pivots + 1) (t.rhs (phaseRow phase)))⟩
  | pivot {remaining pivots : Nat} {events : Array (Event α)} {t next : Tableau α n m} {r : Fin n}
      {s : Fin (m + 1)} {run : PhaseRun α n m} (choice : t.choose phase = .pivot r s)
      (accepted : t.pivotAt r s = .ok next) :
      Runs phase remaining (pivots + 1)
        (((events.push (.iteration (pivots + 1) (t.rhs (phaseRow phase)))).push
          (t.pivotEvent r s)).push (.tableauListed next.basis.toArray next.nonbasis.toArray))
        next run →
      Runs phase (remaining + 1) pivots events t run

theorem runs_runFrom (phase : Phase) (remaining pivots : Nat) (events : Array (Event α))
    (t : Tableau α n m) :
    Runs phase remaining pivots events t (t.runFrom phase remaining pivots events) := by
  induction remaining generalizing t pivots events with
  | zero =>
      unfold runFrom
      cases choice : t.choose phase with
      | optimal => exact .optimal choice
      | unlimited s => exact .unlimited choice
      | pivot r s => exact .capped choice
  | succ remaining inductionHypothesis =>
      unfold runFrom
      cases choice : t.choose phase with
      | optimal => exact .optimal choice
      | unlimited s => exact .unlimited choice
      | pivot r s =>
          cases accepted : t.pivotAt r s with
          | error refusal =>
              simp only [accepted]
              exact .refused choice accepted
          | ok next =>
              simp only [accepted]
              exact .pivot choice accepted (inductionHypothesis _ _ next)

section Runs

variable {phase : Phase} {remaining pivots : Nat} {events : Array (Event α)} {t : Tableau α n m}
  {run : PhaseRun α n m}

theorem Runs.decided (runs : Runs phase remaining pivots events t run) : run.Decided phase := by
  induction runs with
  | optimal choice => exact choice
  | unlimited choice => exact ⟨_, choice⟩
  | capped choice => exact ⟨_, _, choice⟩
  | refused choice refused => exact ⟨_, _, choice, refused⟩
  | pivot _ _ _ inductionHypothesis => exact inductionHypothesis

theorem Runs.getLast?_phaseTrail (runs : Runs phase remaining pivots events t run) :
    (t.phaseTrail phase remaining).getLast? = some run.final := by
  induction runs with
  | @optimal remaining _ _ _ choice | @unlimited remaining _ _ _ _ choice =>
      cases remaining <;> simp [phaseTrail, step?, choice]
  | capped choice => rfl
  | refused choice refused => simp [phaseTrail, step?, choice, refused, Except.toOption]
  | pivot choice accepted _ inductionHypothesis =>
      simp only [phaseTrail, step?, choice, accepted, Except.toOption]
      rw [List.getLast?_cons, inductionHypothesis]
      rfl

end Runs

/-- A run ends at the last tableau of its trail. -/
theorem getLast?_phaseTrail (phase : Phase) (remaining pivots : Nat) (events : Array (Event α))
    (t : Tableau α n m) :
    (t.phaseTrail phase remaining).getLast? =
      some (t.runFrom phase remaining pivots events).final :=
  (runs_runFrom phase remaining pivots events t).getLast?_phaseTrail

theorem runPhase_decided (t : Tableau α n m) (phase : Phase) (cap : Nat) :
    (t.runPhase phase cap).Decided phase :=
  (runs_runFrom phase cap 0 _ t).decided

theorem runPhase_final_mem (t : Tableau α n m) (phase : Phase) (cap : Nat) :
    (t.runPhase phase cap).final ∈ t.phaseTrail phase cap :=
  List.mem_of_getLast? (t.getLast?_phaseTrail phase cap 0 _)

/-- A run ends where the phase makes no pivot. -/
theorem runPhase_final_of_step? {t u : Tableau α n m} {phase : Phase} {cap : Nat}
    (member : u ∈ t.phaseTrail phase cap) (stops : u.step? phase = none) :
    (t.runPhase phase cap).final = u := by
  have endsThere : (t.phaseTrail phase cap).getLast? = some u := by
    induction cap generalizing t with
    | zero =>
        rw [phaseTrail, List.mem_singleton] at member
        rw [phaseTrail, member, List.getLast?_singleton]
    | succ cap inductionHypothesis =>
        rw [phaseTrail] at member ⊢
        cases chosen : t.step? phase with
        | none =>
            simp only [chosen, List.mem_singleton] at member ⊢
            rw [member, List.getLast?_singleton]
        | some next =>
            simp only [chosen] at member ⊢
            rcases List.mem_cons.mp member with same | later
            · rw [← same, stops] at chosen
              cases chosen
            · rw [List.getLast?_cons, inductionHypothesis later, Option.getD_some]
  rw [t.getLast?_phaseTrail phase cap 0 #[.phaseStarted phase, .iterationsHeaded]] at endsThere
  exact Option.some.inj endsThere

section Verdict

variable {t : Tableau α n m} {phase : Phase} {cap : Nat}

theorem choose_final_of_optimal (verdict : (t.runPhase phase cap).verdict = .ok .optimal) :
    (t.runPhase phase cap).final.choose phase = .optimal := by
  have decided := t.runPhase_decided phase cap
  rwa [PhaseRun.Decided, verdict] at decided

theorem choose_final_of_unbounded (verdict : (t.runPhase phase cap).verdict = .ok .unbounded) :
    ∃ s, (t.runPhase phase cap).final.choose phase = .unlimited s := by
  have decided := t.runPhase_decided phase cap
  rwa [PhaseRun.Decided, verdict] at decided

end Verdict

/-- The tableau on which phase one starts, the auxiliary variable pivoted in; none if the phase is
skipped or that pivot is refused. -/
def restorationStart? (t : Tableau α n m) : Option (Tableau α n m) :=
  match t.lowestRow with
  | none => none
  | some r =>
      if t.rhs (basicRow r) < -Scalar.tolerance then (t.pivotAt r auxiliaryColumn).toOption
      else none

/-- The tableaux of phase one. -/
def restorationTrail (t : Tableau α n m) (cap : Nat) : List (Tableau α n m) :=
  match t.restorationStart? with
  | none => []
  | some entered => entered.phaseTrail .one cap

/-- The tableaux of phase two. -/
def maximizationTrail (t : Tableau α n m) (cap : Nat) : List (Tableau α n m) :=
  match (t.restoreFeasibility cap).result with
  | .ok (.feasible feasible) => feasible.phaseTrail .two cap
  | _ => []

/-- The tableaux of a solve. -/
def solveTrail (t : Tableau α n m) (cap : Nat) : List (Tableau α n m) :=
  t :: (t.restorationTrail cap ++ t.maximizationTrail cap)

theorem mem_restorationTrail {t entered u : Tableau α n m} {cap : Nat}
    (started : t.restorationStart? = some entered) (member : u ∈ entered.phaseTrail .one cap) :
    u ∈ t.restorationTrail cap := by
  rwa [restorationTrail, started]

theorem mem_maximizationTrail {t feasible u : Tableau α n m} {cap : Nat}
    (restored : (t.restoreFeasibility cap).result = .ok (.feasible feasible))
    (member : u ∈ feasible.phaseTrail .two cap) : u ∈ t.maximizationTrail cap := by
  rwa [maximizationTrail, restored]

theorem getLast?_solveTrail {t feasible : Tableau α n m} {cap : Nat}
    (restored : (t.restoreFeasibility cap).result = .ok (.feasible feasible)) :
    (t.solveTrail cap).getLast? = some (feasible.runPhase .two cap).final := by
  have last := getLast?_phaseTrail .two cap 0 #[.phaseStarted .two, .iterationsHeaded] feasible
  rw [solveTrail, maximizationTrail, restored, List.getLast?_cons, List.getLast?_append, last]
  rfl

theorem restorationStart?_eq_some_iff {t entered : Tableau α n m} :
    t.restorationStart? = some entered ↔
      ∃ r, t.lowestRow = some r ∧ t.rhs (basicRow r) < -Scalar.tolerance ∧
        t.pivotAt r auxiliaryColumn = .ok entered := by
  unfold restorationStart?
  cases lowest : t.lowestRow with
  | none => simp
  | some r =>
      by_cases below : t.rhs (basicRow r) < -Scalar.tolerance
      · cases accepted : t.pivotAt r auxiliaryColumn <;>
          simp [below, accepted, Except.toOption]
      · simp [below]

/-- The ways in which phase one comes to its result. -/
inductive Restores (t : Tableau α n m) (cap : Nat) : Restoration α n m → Prop
  | skipped
      (high : ∀ r, t.lowestRow = some r → ¬ t.rhs (basicRow r) < -Scalar.tolerance) :
      Restores t cap (.feasible t)
  | unlimited {entered : Tableau α n m} (started : t.restorationStart? = some entered)
      (verdict : (entered.runPhase .one cap).verdict = .ok .unbounded) :
      Restores t cap (.settled .infeasible)
  | capped {entered : Tableau α n m} (started : t.restorationStart? = some entered)
      (verdict : (entered.runPhase .one cap).verdict = .ok .capped) :
      Restores t cap (.settled (.capped none))
  | positive {entered : Tableau α n m} (started : t.restorationStart? = some entered)
      (verdict : (entered.runPhase .one cap).verdict = .ok .optimal)
      (large : Scalar.tolerance <
        Scalar.abs (entered.runPhase .one cap).final.auxiliaryObjective) :
      Restores t cap (.settled .infeasible)
  | driven {entered driven : Tableau α n m} (started : t.restorationStart? = some entered)
      (verdict : (entered.runPhase .one cap).verdict = .ok .optimal)
      (small : ¬ Scalar.tolerance <
        Scalar.abs (entered.runPhase .one cap).final.auxiliaryObjective)
      (out : (entered.runPhase .one cap).final.driveOut.result = .ok driven) :
      Restores t cap (.feasible driven)

section Restores

variable {t : Tableau α n m} {cap : Nat}

theorem restores_of_concludePhaseOne {entered : Tableau α n m} {restoration : Restoration α n m}
    (started : t.restorationStart? = some entered)
    (result : (concludePhaseOne (entered.runPhase .one cap)).result = .ok restoration) :
    t.Restores cap restoration := by
  unfold concludePhaseOne at result
  split at result
  · cases result
  · next verdict =>
      cases result
      exact .unlimited started verdict
  · next verdict =>
      cases result
      exact .capped started verdict
  · next verdict =>
      simp only at result
      split at result
      · next large =>
          cases result
          exact .positive started verdict large
      · next small =>
          cases out : (entered.runPhase .one cap).final.driveOut.result with
          | error refusal => simp [out, Except.map] at result
          | ok driven =>
              simp only [out, Except.map, Except.ok.injEq] at result
              exact result ▸ .driven started verdict small out

theorem restores_of_result {restoration : Restoration α n m}
    (result : (t.restoreFeasibility cap).result = .ok restoration) :
    t.Restores cap restoration := by
  unfold restoreFeasibility at result
  cases lowest : t.lowestRow with
  | none =>
      simp only [lowest, Except.ok.injEq] at result
      exact result ▸ .skipped (by simp [lowest])
  | some r =>
      simp only [lowest] at result
      by_cases below : t.rhs (basicRow r) < -Scalar.tolerance
      · simp only [if_pos below, Reported.after, phaseOneFrom] at result
        cases accepted : t.pivotAt r auxiliaryColumn with
        | error refusal => simp [accepted] at result
        | ok entered =>
            simp only [accepted] at result
            apply restores_of_concludePhaseOne _ result
            exact restorationStart?_eq_some_iff.mpr ⟨r, lowest, below, accepted⟩
      · simp only [if_neg below, Except.ok.injEq] at result
        apply result ▸ Restores.skipped _
        intro k lowestIs
        rw [lowest, Option.some.injEq] at lowestIs
        exact lowestIs ▸ below

theorem driveOut_cases {driven : Tableau α n m} (result : t.driveOut.result = .ok driven) :
    (t.auxiliaryBasicRow? = none ∧ driven = t) ∨
      ∃ r, t.auxiliaryBasicRow? = some r ∧
        t.pivotAt r (t.largestColumn (basicRow r)) = .ok driven := by
  unfold driveOut at result
  cases basicAt : t.auxiliaryBasicRow? with
  | none =>
      simp only [basicAt, Except.ok.injEq] at result
      exact .inl ⟨rfl, result.symm⟩
  | some r =>
      simp only [basicAt] at result
      refine .inr ⟨r, rfl, ?_⟩
      cases accepted : t.pivotAt r (t.largestColumn (basicRow r)) with
      | error refusal => simp [accepted] at result
      | ok next => simpa [accepted] using result

theorem reaches_of_restorationStart? {entered : Tableau α n m}
    (started : t.restorationStart? = some entered) : Reaches t entered := by
  obtain ⟨r, _, _, accepted⟩ := restorationStart?_eq_some_iff.mp started
  exact Reaches.start.pivotAt accepted

theorem Restores.reaches {feasible : Tableau α n m}
    (restored : t.Restores cap (.feasible feasible)) : Reaches t feasible := by
  cases restored with
  | skipped high => exact .start
  | @driven entered _ started verdict small out =>
      have enteredReached := reaches_of_restorationStart? started
      have finalReached := enteredReached.trans
        (reaches_of_mem_phaseTrail (entered.runPhase_final_mem .one cap))
      rcases driveOut_cases out with ⟨_, same⟩ | ⟨r, _, accepted⟩
      · exact same ▸ finalReached
      · exact finalReached.pivotAt accepted

end Restores

theorem reaches_of_mem_solveTrail {t u : Tableau α n m} {cap : Nat}
    (member : u ∈ t.solveTrail cap) : Reaches t u := by
  rcases List.mem_cons.mp member with same | later
  · exact same ▸ .start
  rcases List.mem_append.mp later with inRestoration | inMaximization
  · unfold restorationTrail at inRestoration
    cases started : t.restorationStart? with
    | none => simp [started] at inRestoration
    | some entered =>
        rw [started] at inRestoration
        exact (reaches_of_restorationStart? started).trans
          (reaches_of_mem_phaseTrail inRestoration)
  · unfold maximizationTrail at inMaximization
    split at inMaximization
    · next feasible result =>
        exact (restores_of_result result).reaches.trans
          (reaches_of_mem_phaseTrail inMaximization)
    · simp at inMaximization

/-- The ways in which the method comes to its outcome. -/
inductive Solves (t : Tableau α n m) (cap : Nat) : Outcome α → Prop
  | settled {outcome : Outcome α}
      (restored : (t.restoreFeasibility cap).result = .ok (.settled outcome)) :
      Solves t cap outcome
  | optimal {feasible : Tableau α n m} {point : Vector α m}
      (restored : (t.restoreFeasibility cap).result = .ok (.feasible feasible))
      (verdict : (feasible.runPhase .two cap).verdict = .ok .optimal)
      (primal : (feasible.runPhase .two cap).final.primal? = some point) :
      Solves t cap (.optimal ⟨(feasible.runPhase .two cap).final.objective, point.toArray⟩)
  | unbounded {feasible : Tableau α n m}
      (restored : (t.restoreFeasibility cap).result = .ok (.feasible feasible))
      (verdict : (feasible.runPhase .two cap).verdict = .ok .unbounded) :
      Solves t cap .unbounded
  | capped {feasible : Tableau α n m}
      (restored : (t.restoreFeasibility cap).result = .ok (.feasible feasible))
      (verdict : (feasible.runPhase .two cap).verdict = .ok .capped) :
      Solves t cap (.capped (some (feasible.runPhase .two cap).final.objective))

theorem solves_of_result {t : Tableau α n m} {cap : Nat} {outcome : Outcome α}
    (result : (t.solve cap).result = .ok outcome) : t.Solves cap outcome := by
  unfold solve at result
  simp only at result
  split at result
  · cases result
  · next settled restored =>
      simp only [Except.ok.injEq] at result
      exact result ▸ .settled restored
  · next feasible restored =>
      simp only [Reported.after, concludePhaseTwo] at result
      split at result
      · cases result
      · next verdict =>
          cases result
          exact .unbounded restored verdict
      · next verdict =>
          cases result
          exact .capped restored verdict
      · next verdict =>
          cases primal : (feasible.runPhase .two cap).final.primal? with
          | none => simp [primal] at result
          | some point =>
              simp only [primal, Except.ok.injEq] at result
              exact result ▸ .optimal restored verdict primal

end Tableau

end TwoPhase
