import TwoPhase.CommandLine.Command

/-!
The command line: files, standard output and standard error of the running system.
-/

namespace TwoPhase.CommandLine

/-- The system's error number and its words for a failure.  Numbers may come negated, in 32 bits. -/
def systemAccount : IO.Error → Nat × String
  | .alreadyExists _ code details | .otherError code details | .resourceBusy code details
  | .resourceVanished code details | .unsupportedOperation code details
  | .hardwareFault code details | .unsatisfiedConstraints code details
  | .illegalOperation code details | .protocolError code details | .timeExpired code details
  | .interrupted _ code details | .noFileOrDirectory _ code details
  | .invalidArgument _ code details | .permissionDenied _ code details
  | .resourceExhausted _ code details | .inappropriateType _ code details
  | .noSuchThing _ code details => (min code.toNat (-code).toNat, details)
  | .unexpectedEof => (0, "Unexpected end of file")
  | .userError details => (0, details)

/-- A failure of the running system, in the words of `SystemError` where it has some. -/
def SystemError.ofIO (failure : IO.Error) : SystemError :=
  let (code, details) := systemAccount failure
  (SystemError.known.find? fun error => error.code = code).getD ⟨details, code⟩

def guarded {β : Type} (action : IO β) : IO (Except SystemError β) := do
  try
    return .ok (← action)
  catch error =>
    return .error (SystemError.ofIO error)

instance : Files IO where
  read path := guarded (IO.FS.readBinFile path)
  create path := guarded (IO.FS.writeBinFile path ByteArray.empty)
  write path content := guarded (IO.FS.writeBinFile path content)

def helpText : String :=
  "\n".intercalate [
    "Solves maximize c·x subject to A x = b, x ≥ 0 with the two-phase simplex method.",
    "",
    "Usage: eqlp [OPTIONS] <INPUT> <OUTPUT>",
    "",
    "Arguments:",
    "  <INPUT>   File containing the problem description",
    "  <OUTPUT>  File the result is written to",
    "",
    "Options:",
    "      --max-iter <MAX_ITER>  Maximum number of pivots per simplex phase [default: 100000]",
    "  -v, --verbose...           Log more (-v info, -vv debug, -vvv trace)",
    "  -h, --help                 Print help",
    "  -V, --version              Print version",
    ""]

def Printed.text : Printed → String
  | .nothing => ""
  | .help => helpText
  | .version => versionText

/-- What standard error shows: the events, then what went wrong. -/
def CommandReport.errorLines (report : CommandReport) : List String :=
  let events := report.events.toList.map fun event =>
    event.level.title ++ " | " ++ event.message ++ "\n"
  let failure := match report.result with
    | .error (.arguments error) => "error: " ++ error.message ++ "\n"
    | _ => report.diagnostic?.getD ""
  events ++ [failure]

def runCommand (arguments : List String) : IO UInt32 := do
  let report : CommandReport ← execute arguments
  for line in report.errorLines do
    (← IO.getStderr).putStr line
  (← IO.getStdout).putStr report.printed.text
  return report.exitCode.toUInt32

end TwoPhase.CommandLine

def main (arguments : List String) : IO UInt32 :=
  TwoPhase.CommandLine.runCommand arguments
