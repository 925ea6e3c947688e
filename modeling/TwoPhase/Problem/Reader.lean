import TwoPhase.Decimal.Numeral
import TwoPhase.Problem.Error
import TwoPhase.Problem.Trail

/-!
Reading a problem from text.

The text holds tokens between blanks: the number `n` of constraints, the number `m` of variables,
`m` objective coefficients, and `n` rows of `m` coefficients and a right-hand side.  Nothing but
blanks may follow.
-/

namespace TwoPhase

/-- A place in a text and what follows it. -/
structure Cursor where
  offset : Nat
  rest : List Char

namespace Cursor

def start (text : String) : Cursor :=
  ⟨0, text.toList⟩

def width (characters : List Char) : Nat :=
  characters.foldr (fun c total => c.utf8Size + total) 0

/-- Go past the characters at the front that satisfy a predicate. -/
def skip (cursor : Cursor) (p : Char → Bool) : Cursor :=
  ⟨cursor.offset + width (cursor.rest.takeWhile p), cursor.rest.dropWhile p⟩

end Cursor

/-- A reader consumes text at a cursor, or fails with a trail. -/
abbrev Reader (β : Type) := Cursor → Except (List Mark) (β × Cursor)

namespace Reader

/-- Read a part of the text; a failure in it is marked at its start. -/
def within {β : Type} (part : Section) (reader : Reader β) : Reader β := fun cursor =>
  match reader cursor with
  | .ok result => .ok result
  | .error trail => .error (trail ++ [⟨cursor.offset, .inside part⟩])

/-- Separators and then the longest run of characters other than white space. -/
def token : Reader (List Char) := fun cursor =>
  let cursor := cursor.skip Text.isSeparator
  match cursor.rest.takeWhile fun c => !Text.isWhiteSpace c with
  | [] => .error [⟨cursor.offset, .noToken⟩]
  | word => .ok (word, cursor.skip fun c => !Text.isWhiteSpace c)

def count : Reader UInt64 := fun cursor =>
  match token cursor with
  | .error trail => .error trail
  | .ok (word, after) =>
      match Decimal.readCount word with
      | none => .error [⟨cursor.offset, .unreadable⟩]
      | some value => .ok (value, after)

/-- A token that reads as a finite number. -/
def number : Reader Float :=
  within .number fun cursor =>
    match token cursor with
    | .error trail => .error trail
    | .ok (word, after) =>
        match Decimal.readNumber word with
        | none => .error [⟨cursor.offset, .unreadable⟩]
        | some value =>
            if value.isFinite then .ok (value.toFloat, after)
            else .error [⟨cursor.offset, .notFinite⟩]

/-- Read `remaining` more items after those already read; a failure is marked at `origin`, where
the repetition started. -/
def timesFrom {β : Type} (reader : Reader β) (origin : Nat) :
    Nat → Array β → Reader (Array β)
  | 0, items, cursor => .ok (items, cursor)
  | remaining + 1, items, cursor =>
      match reader cursor with
      | .error trail => .error (trail ++ [⟨origin, .repetition⟩])
      | .ok (item, after) => timesFrom reader origin remaining (items.push item) after

def times {β : Type} (amount : Nat) (reader : Reader β) : Reader (Array β) := fun cursor =>
  timesFrom reader cursor.offset amount #[] cursor

/-- A row of `m` coefficients and its right-hand side. -/
def row (m : Nat) : Reader (Array Float × Float) := fun cursor =>
  match times m number cursor with
  | .error trail => .error trail
  | .ok (coefficients, cursor) =>
      match within .rhs number cursor with
      | .error trail => .error trail
      | .ok (rhs, cursor) => .ok ((coefficients, rhs), cursor)

/-- Nothing but separators up to the end of the text. -/
def ending : Reader Unit := fun cursor =>
  let cursor := cursor.skip Text.isSeparator
  match cursor.rest with
  | [] => .ok ((), cursor)
  | _ => .error [⟨cursor.offset, .leftover⟩]

/-- The numbers of a problem: its objective coefficients and its rows. -/
def problem : Reader (Array Float × Array (Array Float × Float)) := fun cursor => do
  let (n, cursor) ← within .constraintCount count cursor
  let (m, cursor) ← within .variableCount count cursor
  let (objective, cursor) ← within .objective (times m.toNat number) cursor
  let (rows, cursor) ← within .rows (times n.toNat (row m.toNat)) cursor
  let ((), cursor) ← within .ending ending cursor
  return ((objective, rows), cursor)

end Reader

inductive ProblemError where
  /-- The text could not be read. -/
  | malformed (text : String) (trail : List Mark)
  /-- The numbers do not make a problem. -/
  | invalid (error : BuildError Float)

def ProblemError.message : ProblemError → String
  | .malformed text trail => "malformed input: " ++ describeTrail text trail
  | .invalid error => "invalid problem: " ++ error.message

namespace Problem

def parse (text : String) : Except ProblemError (Problem Float) :=
  match Reader.problem (Cursor.start text) with
  | .error trail => .error (.malformed text trail)
  | .ok ((objective, rows), _) =>
      (ofDense objective.toList (rows.toList.map fun row => (row.1.toList, row.2))).mapError
        .invalid

end Problem

end TwoPhase
