/-!
The unknowns of the full system: the decision variables of a problem, one slack for each inequality
row, and the auxiliary variable of the feasibility phase.

`Label.before` is the order by which all ties are broken.
-/

namespace TwoPhase

/-- Names one unknown of the full system. -/
inductive Label where
  | auxiliary
  | decision (index : Nat)
  | slack (row : Nat)
deriving DecidableEq

namespace Label

/-- The auxiliary variable comes first, then decision variables by index, then slacks by row. -/
def before : Label → Label → Bool
  | .auxiliary, .auxiliary => false
  | .auxiliary, _ => true
  | .decision _, .auxiliary => false
  | .decision i, .decision j => i < j
  | .decision _, .slack _ => true
  | .slack i, .slack j => i < j
  | .slack _, _ => false

theorem before_irrefl (label : Label) : label.before label = false := by
  cases label <;> simp [before]

theorem before_trans {a b c : Label} (first : a.before b = true) (second : b.before c = true) :
    a.before c = true := by
  cases a <;> cases b <;> cases c <;> simp_all [before] <;> omega

theorem eq_of_not_before {a b : Label} (first : a.before b = false)
    (second : b.before a = false) : a = b := by
  cases a <;> cases b <;> simp_all [before] <;> omega

def sort (labels : List Label) : List Label :=
  labels.mergeSort fun a b => !b.before a

def text : Label → String
  | .auxiliary => "Auxiliary"
  | .decision index => s!"Decision({index})"
  | .slack row => s!"Slack({row})"

def listText (labels : List Label) : String :=
  "[" ++ ", ".intercalate (labels.map text) ++ "]"

end Label

end TwoPhase
