import TwoPhase.CommandLine.Arguments
import TwoPhase.CommandLine.Files
import TwoPhase.Problem.Reader
import TwoPhase.Report

/-!
The command: read a problem, create the result file, solve, write the result.

The input is read before the result file is created, so both may be the same file.  Once the result
file is created it stays empty unless there is a result to write.
-/

namespace TwoPhase.CommandLine

inductive CommandError where
  | arguments (error : ArgumentError)
  | inputUnavailable (path : String) (error : SystemError)
  | inputNotText (path : String)
  | outputUnavailable (path : String) (error : SystemError)
  | noProblem (error : ProblemError)
  | noResult (cap : PivotCap)
  | notWritten (path : String) (error : SystemError)
  | broken (fault : Fault Float)

namespace CommandError

/-- The line for the user.  Misused arguments are explained apart, and a solution that broke off has
no line. -/
def diagnostic? : CommandError → Option String
  | .arguments _ | .broken _ => none
  | .inputUnavailable path error | .outputUnavailable path error =>
      line ("could not open " ++ path ++ ": " ++ error.message)
  | .inputNotText path =>
      line ("could not open " ++ path ++ ": stream did not contain valid UTF-8")
  | .noProblem error => line error.message
  | .noResult cap =>
      line ("no result after " ++ cap.pivots.toNat.repr ++ " pivots, raise --max-iter")
  | .notWritten path error => line ("could not write " ++ path ++ ": " ++ error.message)
where
  line (text : String) : Option String :=
    some ("eqlp: " ++ text ++ "\n")

def exitCode : CommandError → Nat
  | .broken _ => 101
  | _ => 1

end CommandError

inductive Printed where
  | nothing
  | help
  | version
deriving DecidableEq

def versionText : String :=
  "eqlp 0.1.0\n"

/-- What a run of the command comes to, its files apart. -/
structure CommandReport where
  printed : Printed
  result : Except CommandError Unit
  /-- The events that the verbosity lets through. -/
  events : Array (Event Float)

namespace CommandReport

def exitCode (report : CommandReport) : Nat :=
  match report.result with
  | .ok () => 0
  | .error error => error.exitCode

def diagnostic? (report : CommandReport) : Option String :=
  match report.result with
  | .ok () => none
  | .error error => error.diagnostic?

end CommandReport

variable {m : Type → Type} [Monad m] [Files m]

/-- Solve the problem of a text and write the result. -/
def solveText (options : Options) (text : String) :
    m (Except CommandError Unit × Array (Event Float)) := do
  match Problem.parse text with
  | .error error => return (.error (.noProblem error), #[])
  | .ok problem =>
      let solved := problem.solve options.cap
      let events := #[.parsed problem.vars.size problem.constraints.size] ++ solved.events
      match solved.result with
      | .error fault => return (.error (.broken fault), events)
      | .ok outcome =>
          match Report.render outcome with
          | none => return (.error (.noResult options.cap), events)
          | some rendered =>
              match ← Files.write options.output rendered.toUTF8 with
              | .error error => return (.error (.notWritten options.output error), events)
              | .ok () => return (.ok (), events.push (.resultWritten options.output))

def solveFile (options : Options) : m (Except CommandError Unit × Array (Event Float)) := do
  match ← Files.read options.input with
  | .error error => return (.error (.inputUnavailable options.input error), #[])
  | .ok bytes =>
      match String.fromUTF8? bytes with
      | none => return (.error (.inputNotText options.input), #[])
      | some text =>
          match ← Files.create options.output with
          | .error error => return (.error (.outputUnavailable options.output error), #[])
          | .ok () => solveText options text

/-- Run a command line.  Nothing is done with files unless the arguments ask for a solution. -/
def execute (arguments : List String) : m CommandReport := do
  match request arguments with
  | .help => return ⟨.help, .ok (), #[]⟩
  | .version => return ⟨.version, .ok (), #[]⟩
  | .refuse error => return ⟨.nothing, .error (.arguments error), #[]⟩
  | .solve options =>
      let (result, events) ← solveFile options
      return ⟨.nothing, result, events.filter fun event =>
        event.level.verbosity ≤ options.verbosity⟩

end TwoPhase.CommandLine
