import TwoPhase.Decimal.Numeral
import TwoPhase.Solver

/-!
Command-line arguments, read from left to right.

Options may stand anywhere before `--`.  A request for help or for the version ends the reading
where it stands, so whatever comes after it does not matter; an error before it does.
-/

namespace TwoPhase.CommandLine

/-- What to solve, where to write the result, and how. -/
structure Options where
  input : String
  output : String
  cap : PivotCap
  /-- How often more messages were asked for. -/
  verbosity : Nat

inductive ArgumentError where
  | unexpected (argument : String)
  | missingValue
  | invalidValue (value : String)
  | repeated
  | emptyPath
  | missingPath

def ArgumentError.message : ArgumentError → String
  | .unexpected argument => "unexpected argument " ++ argument
  | .missingValue => "--max-iter needs a value"
  | .invalidValue value => "invalid value " ++ value ++ " for --max-iter"
  | .repeated => "--max-iter cannot be used multiple times"
  | .emptyPath => "a path must not be empty"
  | .missingPath => "the input and the output path are required"

inductive Request where
  | help
  | version
  | solve (options : Options)
  | refuse (error : ArgumentError)

structure Pending where
  input : Option String
  output : Option String
  cap : Option PivotCap
  verbosity : Nat

namespace Pending

def none : Pending :=
  ⟨.none, .none, .none, 0⟩

/-- Take a path: the input first, then the output. -/
def addPath (pending : Pending) (path : String) : Except ArgumentError Pending :=
  match pending.input, pending.output with
  | .none, _ =>
      if path.isEmpty then .error .emptyPath else .ok { pending with input := some path }
  | some _, .none =>
      if path.isEmpty then .error .emptyPath else .ok { pending with output := some path }
  | some _, some _ => .error (.unexpected path)

def addCap (pending : Pending) (value : String) : Except ArgumentError Pending :=
  match Decimal.readCount value.toList with
  | .none => .error (.invalidValue value)
  | some pivots =>
      match pending.cap with
      | some _ => .error .repeated
      | .none => .ok { pending with cap := some ⟨pivots⟩ }

def addVerbosity (pending : Pending) : Pending :=
  { pending with verbosity := pending.verbosity + 1 }

/-- The request that the arguments come to when they end. -/
def finish (pending : Pending) : Request :=
  match pending.input, pending.output with
  | some input, some output =>
      .solve ⟨input, output, pending.cap.getD PivotCap.standard, pending.verbosity⟩
  | _, _ => .refuse .missingPath

end Pending

/-- A group of short options: what they add, or the request that one of them settles. -/
def readShort (pending : Pending) : List Char → Except Request Pending
  | [] => .ok pending
  | 'v' :: rest => readShort pending.addVerbosity rest
  | 'h' :: _ => .error .help
  | 'V' :: _ => .error .version
  | c :: _ => .error (.refuse (.unexpected ("-" ++ c.toString)))

/-- The arguments after `--` are paths whatever they look like. -/
def readPaths (pending : Pending) : List String → Request
  | [] => pending.finish
  | path :: rest =>
      match pending.addPath path with
      | .error error => .refuse error
      | .ok pending => readPaths pending rest

/-- The value of `--max-iter=value`. -/
def capValue? (argument : List Char) : Option (List Char) :=
  let flag := "--max-iter=".toList
  if flag.isPrefixOf argument then some (argument.drop flag.length) else none

def readArguments (pending : Pending) : List String → Request
  | [] => pending.finish
  | "--" :: rest => readPaths pending rest
  | "--help" :: _ => .help
  | "--version" :: _ => .version
  | "--verbose" :: rest => readArguments pending.addVerbosity rest
  | ["--max-iter"] => .refuse .missingValue
  | "--max-iter" :: value :: rest =>
      match pending.addCap value with
      | .error error => .refuse error
      | .ok pending => readArguments pending rest
  | argument :: rest =>
      match capValue? argument.toList with
      | some value =>
          match pending.addCap (String.ofList value) with
          | .error error => .refuse error
          | .ok pending => readArguments pending rest
      | .none =>
          match argument.toList with
          | '-' :: '-' :: _ => .refuse (.unexpected argument)
          | '-' :: c :: flags =>
              match readShort pending (c :: flags) with
              | .error request => request
              | .ok pending => readArguments pending rest
          | _ =>
              match pending.addPath argument with
              | .error error => .refuse error
              | .ok pending => readArguments pending rest

def request (arguments : List String) : Request :=
  readArguments Pending.none arguments

end TwoPhase.CommandLine
