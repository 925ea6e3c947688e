import TwoPhase.Tableau.Run

/-!
The two-phase method.

If some right-hand side of the first tableau is negative, the auxiliary variable is pivoted in and
phase one drives it to zero, or else there is no feasible point.  Phase two then maximizes the
objective.
-/

namespace TwoPhase

variable {α : Type} {n m : Nat} [Scalar α]

/-- How many pivots each phase may make. -/
structure PivotCap where
  pivots : UInt64
deriving DecidableEq

namespace PivotCap

/-- The cap where none is asked for. -/
def standard : PivotCap :=
  ⟨100000⟩

/-- A cap as given; the largest number stands for no cap. -/
def ofOption : Option UInt64 → PivotCap
  | some pivots => ⟨pivots⟩
  | none => ⟨18446744073709551615⟩

end PivotCap

structure Solution (α : Type) where
  objective : α
  point : Array α
deriving DecidableEq

inductive Outcome (α : Type) where
  | optimal (solution : Solution α)
  | infeasible
  | unbounded
  /-- The cap was reached.  The objective is that of the last basis, none in phase one. -/
  | capped (objective : Option α)
deriving DecidableEq

namespace Outcome

def solution? : Outcome α → Option (Solution α)
  | .optimal solution => some solution
  | _ => none

/-- The objective that was reached; before there is a feasible basis it is below every number. -/
def objective? : Outcome Float → Option Float
  | .optimal solution => some solution.objective
  | .capped (some objective) => some objective
  | .capped none => some (-(1.0 / 0.0))
  | _ => none

end Outcome

/-- Why solving breaks off without an outcome. -/
inductive Fault (α : Type) where
  /-- A constraint names a variable that the problem does not have. -/
  | unknownVariable
  | pivotRefused (refusal : PivotRefusal α)
  /-- A decision variable is basic that the problem does not have. -/
  | unknownBasic
deriving DecidableEq

/-- A result and the events on the way to it. -/
structure Reported (α β : Type) where
  result : β
  events : Array (Event α)

namespace Reported

def after {β : Type} (reported : Reported α β) (earlier : Array (Event α)) : Reported α β :=
  { reported with events := earlier ++ reported.events }

end Reported

/-- Where phase one leads: to a feasible basis, or straight to the outcome. -/
inductive Restoration (α : Type) (n m : Nat) where
  | feasible (t : Tableau α n m)
  | settled (outcome : Outcome α)

namespace Tableau

/-- Pivot the auxiliary variable out of the basis, if it is there, at the largest entry of its
row. -/
def driveOut (t : Tableau α n m) : Reported α (Except (PivotRefusal α) (Tableau α n m)) :=
  match t.auxiliaryBasicRow? with
  | none => ⟨.ok t, #[]⟩
  | some r =>
      let s := t.largestColumn (basicRow r)
      match t.pivotAt r s with
      | .error refusal => ⟨.error refusal, #[.drivingOut r]⟩
      | .ok next => ⟨.ok next, #[.drivingOut r, t.pivotEvent r s]⟩

/-- What the end of phase one means: only an auxiliary objective of zero, up to the tolerance,
leaves a feasible basis. -/
def concludePhaseOne (run : PhaseRun α n m) :
    Reported α (Except (PivotRefusal α) (Restoration α n m)) :=
  match run.verdict with
  | .error refusal => ⟨.error refusal, #[]⟩
  | .ok .unbounded => ⟨.ok (.settled .infeasible), #[.auxiliaryUnlimited]⟩
  | .ok .capped => ⟨.ok (.settled (.capped none)), #[.outOfIterations]⟩
  | .ok .optimal =>
      let left := run.final.auxiliaryObjective
      if Scalar.tolerance < Scalar.abs left then
        ⟨.ok (.settled .infeasible), #[.noFeasiblePoint left]⟩
      else
        let driven := run.final.driveOut
        ⟨driven.result.map .feasible, #[.feasiblePoint] ++ driven.events⟩

def phaseOneFrom (t : Tableau α n m) (r : Fin n) (cap : Nat) :
    Reported α (Except (PivotRefusal α) (Restoration α n m)) :=
  match t.pivotAt r auxiliaryColumn with
  | .error refusal => ⟨.error refusal, #[]⟩
  | .ok entered =>
      let run := entered.runPhase .one cap
      (concludePhaseOne run).after (#[t.pivotEvent r auxiliaryColumn] ++ run.events)

/-- Make the basis feasible, unless it is already. -/
def restoreFeasibility (t : Tableau α n m) (cap : Nat) :
    Reported α (Except (PivotRefusal α) (Restoration α n m)) :=
  match t.lowestRow with
  | none => ⟨.ok (.feasible t), #[.initiallyFeasible]⟩
  | some r =>
      let lowest := t.rhs (basicRow r)
      if lowest < -Scalar.tolerance then
        (t.phaseOneFrom r cap).after #[.restoring r lowest]
      else
        ⟨.ok (.feasible t), #[.initiallyFeasible]⟩

def concludePhaseTwo (run : PhaseRun α n m) : Reported α (Except (Fault α) (Outcome α)) :=
  match run.verdict with
  | .error refusal => ⟨.error (.pivotRefused refusal), #[]⟩
  | .ok .unbounded => ⟨.ok .unbounded, #[.unbounded]⟩
  | .ok .capped => ⟨.ok (.capped (some run.final.objective)), #[.outOfIterations]⟩
  | .ok .optimal =>
      match run.final.primal? with
      | none => ⟨.error .unknownBasic, #[]⟩
      | some point =>
          ⟨.ok (.optimal ⟨run.final.objective, point.toArray⟩),
            #[.optimum run.final.objective, .pointListed point.toList]⟩

def solve (t : Tableau α n m) (cap : Nat) : Reported α (Except (Fault α) (Outcome α)) :=
  let restored := t.restoreFeasibility cap
  match restored.result with
  | .error refusal => ⟨.error (.pivotRefused refusal), restored.events⟩
  | .ok (.settled outcome) => ⟨.ok outcome, restored.events⟩
  | .ok (.feasible feasible) =>
      let run := feasible.runPhase .two cap
      (concludePhaseTwo run).after (restored.events ++ run.events)

end Tableau

namespace StandardForm

def listings (form : StandardForm α n m) : Array (Event α) :=
  #[.objectiveListed form.objective.toList,
    .rowsListed (form.rows.toList.map Vector.toList),
    .boundsListed form.bounds.toList]

end StandardForm

namespace Problem

/-- Solve a problem with at most `cap` pivots in each phase. -/
def solve (problem : Problem α) (cap : PivotCap) : Reported α (Except (Fault α) (Outcome α)) :=
  let expanding := Event.expanding problem.constraints.size
  match StandardForm.ofProblem? problem with
  | none => ⟨.error .unknownVariable, #[expanding]⟩
  | some form =>
      let solving := Event.solving problem.vars.size problem.constraints.size
      ((Tableau.ofStandardForm form).solve cap.pivots.toNat).after
        (#[expanding, solving] ++ form.listings)

end Problem

end TwoPhase
