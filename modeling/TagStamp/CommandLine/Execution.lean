import TagStamp.CommandLine.Annotate

namespace TagStamp.CommandLine

/-- The least level of log entries that are shown. -/
def threshold (args : Arguments) : Log.Level :=
  if args.verbose then .debug else if args.quiet then .error else .warning

def Output.onStdout : Output → String
  | .out text => text
  | _ => ""

/-- Standard error carries its own text and the log. -/
def Output.onStderr (least : Log.Level) : Output → CodeString
  | .out _ => ""
  | .err text => text
  | .log entry =>
    if least.severity ≤ entry.level.severity then
      "[uic] [" ++ entry.level.name ++ "] " ++ entry.message ++ "\n"
    else ""

/-- How a run of the program ended. -/
structure Execution where
  outcome : Except Failure Nat
  stdout : String
  stderr : CodeString
  workspace : Workspace

def stopped (w : Workspace) : Stop → Execution
  | .shown text => ⟨.ok 0, text, "", w⟩
  | .misused program usage message => ⟨.ok 2, "", usage ++ program ++ ": error: " ++ message ++ "\n", w⟩

/-- What a run has said since it started with an empty transcript. -/
def finished (args : Arguments) (outcome : Except Failure Nat) (w : Workspace) : Execution :=
  { outcome
    stdout := String.join (w.transcript.map Output.onStdout)
    stderr := CodeString.join (w.transcript.map (Output.onStderr (threshold args)))
    workspace := w }

def execute (argv : List String) (w : Workspace) : Execution :=
  match parseArguments argv with
  | .error stop => stopped w stop
  | .ok args =>
    match (annotate args).run { w with transcript := [] } with
    | .ok code w => finished args (.ok code) w
    | .error failure w => finished args (.error failure) w

end TagStamp.CommandLine
