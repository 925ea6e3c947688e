import TwoPhase.Decimal.Layout
import TwoPhase.Label
import TwoPhase.Phase

/-!
What a run reports on its way.

Events are data; `Event.level` and `Event.message` give the line that a log shows for one.  Events
that show whole vectors or tables are told apart by `Event.isListing`.
-/

namespace TwoPhase

inductive Level where
  | warn
  | info
  | debug
  | trace
deriving DecidableEq

namespace Level

def title : Level → String
  | .warn => "WARN"
  | .info => "INFO"
  | .debug => "DEBUG"
  | .trace => "TRACE"

/-- How many times more verbose than warnings alone. -/
def verbosity : Level → Nat
  | .warn => 0
  | .info => 1
  | .debug => 2
  | .trace => 3

end Level

inductive Event (α : Type) where
  | parsed (vars constraints : Nat)
  | expanding (constraints : Nat)
  | solving (vars constraints : Nat)
  | objectiveListed (values : List α)
  | rowsListed (rows : List (List α))
  | boundsListed (values : List α)
  | pointListed (values : List α)
  | tableauListed (basis nonbasis : Array Label)
  | initiallyFeasible
  | restoring (row : Nat) (rhs : α)
  | pivoted (row column : Nat) (enters leaves : Label)
  | phaseStarted (phase : Phase)
  | iterationsHeaded
  | iteration (number : Nat) (objective : α)
  | phaseOptimal (phase : Phase) (pivots : Nat)
  | unlimited (label : Label)
  | capReached
  | auxiliaryUnlimited
  | outOfIterations
  | noFeasiblePoint (auxiliaryObjective : α)
  | feasiblePoint
  | drivingOut (row : Nat)
  | optimum (objective : α)
  | unbounded
  | resultWritten (path : String)

namespace Event

variable {α : Type}

def level : Event α → Level
  | .auxiliaryUnlimited => .warn
  | .solving .. | .phaseStarted .. | .iterationsHeaded | .iteration .. | .outOfIterations
  | .noFeasiblePoint .. | .feasiblePoint | .optimum .. | .unbounded | .resultWritten .. => .info
  | .parsed .. | .expanding .. | .initiallyFeasible | .restoring .. | .phaseOptimal ..
  | .unlimited .. | .capReached | .drivingOut .. | .pointListed .. => .debug
  | .objectiveListed .. | .rowsListed .. | .boundsListed .. | .tableauListed ..
  | .pivoted .. => .trace

/-- Whether the event shows a whole vector or table. -/
def isListing : Event α → Bool
  | .objectiveListed .. | .rowsListed .. | .boundsListed .. | .pointListed ..
  | .tableauListed .. => true
  | _ => false

def padLeft (width number : Nat) : String :=
  let digits := number.repr
  String.ofList (List.replicate (width - digits.length) ' ') ++ digits

def valuesText (values : List Float) : String :=
  "[" ++ ", ".intercalate (values.map Decimal.plain) ++ "]"

/-- The basic and the nonbasic variables of a tableau, one line each. -/
def tableauHeader (basis nonbasis : Array Label) : List String :=
  ["B: " ++ Label.listText basis.toList, "N: " ++ Label.listText nonbasis.toList]

def message : Event Float → String
  | .parsed vars constraints =>
      s!"parsed problem with {vars} variables and {constraints} constraints"
  | .expanding constraints =>
      s!"expanding {constraints} equality constraints into {2 * constraints} inequality rows"
  | .solving vars constraints =>
      s!"solving problem with {vars} variables and {constraints} constraints"
  | .objectiveListed values => "c: " ++ valuesText values
  | .rowsListed rows => "A: " ++ "\n".intercalate (rows.map valuesText)
  | .boundsListed values => "b: " ++ valuesText values
  | .pointListed values => "x: " ++ valuesText values
  | .tableauListed basis nonbasis =>
      "tableau:\n" ++ "\n".intercalate (tableauHeader basis nonbasis)
  | .initiallyFeasible => "initial basis is feasible, skipping phase 1"
  | .restoring row rhs =>
      s!"row {row} has the most negative rhs " ++ Decimal.plain rhs ++
        ", pivoting in the auxiliary variable"
  | .pivoted row column enters leaves =>
      s!"pivot ({row}, {column}): " ++ enters.text ++ " enters, " ++ leaves.text ++ " leaves"
  | .phaseStarted phase => phase.title
  | .iterationsHeaded => "Iteration  |  Objective"
  | .iteration number objective => padLeft 9 number ++ "  |  " ++ Decimal.scientific objective
  | .phaseOptimal phase pivots => phase.title ++ s!" optimal after {pivots} pivots"
  | .unlimited label => label.text ++ " can increase without limit"
  | .capReached => "reached max iterations"
  | .auxiliaryUnlimited => "phase 1 reported unbounded, treating the problem as infeasible"
  | .outOfIterations => "reached maximum iterations"
  | .noFeasiblePoint auxiliaryObjective =>
      "problem is infeasible, auxiliary objective " ++ Decimal.plain auxiliaryObjective
  | .feasiblePoint => "found feasible point"
  | .drivingOut row => s!"driving the auxiliary variable out of row {row}"
  | .optimum objective => "found optimal point with objective value " ++ Decimal.plain objective
  | .unbounded => "problem is unbounded"
  | .resultWritten path => "wrote result to " ++ path

end Event

end TwoPhase
