import TwoPhase.Event
import TwoPhase.Tableau.Pivot
import TwoPhase.Tableau.Rules

/-!
One phase of the method: choose and pivot until the rules stop or the cap on pivots is reached.

The cap is looked at only when both rules have found a variable, so a phase that needs exactly as
many pivots as the cap allows still ends with its own verdict.
-/

namespace TwoPhase

variable {α : Type} {n m : Nat} [Scalar α]

inductive PhaseVerdict where
  | optimal
  | unbounded
  | capped
deriving DecidableEq

/-- A phase that has ended: the verdict or a refused pivot, the last tableau, how many pivots led
to it, and the events on the way. -/
structure PhaseRun (α : Type) (n m : Nat) where
  verdict : Except (PivotRefusal α) PhaseVerdict
  final : Tableau α n m
  pivots : Nat
  events : Array (Event α)

namespace Tableau

def pivotEvent (t : Tableau α n m) (r : Fin n) (s : Fin (m + 1)) : Event α :=
  .pivoted r s (t.nonbasic s) (t.basic r)

/-- Go on with a phase after `pivots` pivots, with `remaining` more allowed. -/
@[specialize]
def runFrom (phase : Phase) :
    (remaining pivots : Nat) → Array (Event α) → Tableau α n m → PhaseRun α n m
  | remaining, pivots, events, t =>
      let events := events.push (.iteration (pivots + 1) (t.rhs (phaseRow phase)))
      match t.choose phase with
      | .optimal => ⟨.ok .optimal, t, pivots, events.push (.phaseOptimal phase pivots)⟩
      | .unlimited s => ⟨.ok .unbounded, t, pivots, events.push (.unlimited (t.nonbasic s))⟩
      | .pivot r s =>
          match remaining with
          | 0 => ⟨.ok .capped, t, pivots, events.push .capReached⟩
          | remaining + 1 =>
              match t.pivotAt r s with
              | .error refusal => ⟨.error refusal, t, pivots, events⟩
              | .ok next =>
                  runFrom phase remaining (pivots + 1)
                    ((events.push (t.pivotEvent r s)).push
                      (.tableauListed next.basis.toArray next.nonbasis.toArray))
                    next

/-- Run a phase with at most `cap` pivots. -/
def runPhase (t : Tableau α n m) (phase : Phase) (cap : Nat) : PhaseRun α n m :=
  t.runFrom phase cap 0 #[.phaseStarted phase, .iterationsHeaded]

end Tableau

end TwoPhase
