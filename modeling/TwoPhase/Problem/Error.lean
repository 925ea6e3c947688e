import TwoPhase.Problem.Basic
import TwoPhase.Decimal.Layout

/-!
The wording of refused additions.
-/

namespace TwoPhase.BuildError

def message : BuildError Float → String
  | .objectiveNotFinite value =>
      "objective coefficient must be finite, got " ++ Decimal.plain value
  | .nameTaken name =>
      "variable names must be unique, " ++ name ++ " was added twice"
  | .unknownVariable id =>
      s!"VariableId({id}) is invalid"
  | .coefficientNotFinite id value =>
      s!"coefficient of VariableId({id}) must be finite, got " ++ Decimal.plain value
  | .rhsNotFinite value =>
      "right-hand side must be finite, got " ++ Decimal.plain value
  | .coefficientCount given expected =>
      s!"constraint has {given} coefficients but the problem has {expected} variables"

end TwoPhase.BuildError
