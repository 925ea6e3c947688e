/-!
The two phases of the method.
-/

namespace TwoPhase

inductive Phase where
  /-- Drive the auxiliary variable to zero. -/
  | one
  /-- Maximize the objective over the feasible basis that phase one found. -/
  | two
deriving DecidableEq

namespace Phase

def title : Phase → String
  | .one => "PHASE 1"
  | .two => "PHASE 2"

end Phase

end TwoPhase
