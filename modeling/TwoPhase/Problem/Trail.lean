import TwoPhase.Text.Blank

/-!
Where and why the reading of a text stopped.

A failure leaves a trail of marks, innermost first.  Each mark is a place in the text, counted in
bytes of UTF-8, and a label.
-/

namespace TwoPhase

inductive Section where
  | constraintCount
  | variableCount
  | objective
  | rows
  | rhs
  | number
  | ending
deriving DecidableEq

inductive MarkLabel where
  | noToken
  /-- The token is not what is read there. -/
  | unreadable
  /-- The number is not finite. -/
  | notFinite
  | leftover
  /-- A repetition started here. -/
  | repetition
  /-- A part of the text started here. -/
  | inside (part : Section)
deriving DecidableEq

structure Mark where
  offset : Nat
  label : MarkLabel
deriving DecidableEq

namespace Section

def title : Section → String
  | .constraintCount => "constraint count"
  | .variableCount => "variable count"
  | .objective => "objective coefficients"
  | .rows => "constraint rows"
  | .rhs => "right-hand side"
  | .number => "finite number"
  | .ending => "end of input"

end Section

namespace MarkLabel

def title : MarkLabel → String
  | .noToken => "TakeTill1"
  | .unreadable => "MapRes"
  | .notFinite => "Verify"
  | .leftover => "Eof"
  | .repetition => "Count"
  | .inside part => part.title

end MarkLabel

/-- A line of a text as seen from a place in it: its number from one, the bytes between its start
and the place, and its characters up to the line feed or the end. -/
structure LineView where
  number : Nat
  before : Nat
  characters : List Char

namespace LineView

def firstLine (text : List Char) : List Char :=
  text.takeWhile (· ≠ '\n')

/-- Walk to a place, keeping what follows the last line feed. -/
def locateFrom (number before : Nat) (line : List Char) : List Char → Nat → LineView
  | [], _ => ⟨number, before, firstLine line⟩
  | c :: rest, remaining =>
      if remaining = 0 then ⟨number, before, firstLine line⟩
      else if c = '\n' then locateFrom (number + 1) 0 rest rest (remaining - c.utf8Size)
      else locateFrom number (before + c.utf8Size) line rest (remaining - c.utf8Size)

/-- The line of the place `offset` bytes into a text. -/
def locate (text : List Char) (offset : Nat) : LineView :=
  locateFrom 1 0 text text offset

end LineView

namespace Mark

/-- One item of a report: the line of the mark with a caret under its place. -/
def describe (text : List Char) (index : Nat) (mark : Mark) : String :=
  if text = [] then
    s!"{index}: in " ++ mark.label.title ++ ", got empty input\n\n"
  else
    let line := LineView.locate text mark.offset
    s!"{index}: at line {line.number}, in " ++ mark.label.title ++ ":\n" ++
      String.ofList (Text.trimEnd line.characters) ++ "\n" ++
      String.ofList (List.replicate line.before ' ') ++ "^\n\n"

end Mark

/-- The report of a trail, one numbered item for each mark. -/
def describeTrail (text : String) (trail : List Mark) : String :=
  String.join (trail.zipIdx.map fun (mark, index) => mark.describe text.toList index)

end TwoPhase
