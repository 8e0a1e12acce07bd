import YupFront.CommandLine.Arguments
import YupFront.Pipeline.Gate
import YupFront.Pipeline.Report
import YupFront.Pipeline.Startup
import YupFront.Preferences.Document

/-! What the program does with its arguments, as a function of the world it finds: environment,
files, standard input and clock. -/

namespace YupFront

structure World where
  environment : Environment
  files : FileSystem
  standardInput : ByteArray
  /-- Milliseconds since the beginning of 1970. -/
  now : Int
  /-- Duration of the run in microseconds. -/
  elapsed : Nat

structure Outcome where
  output : String
  errors : String
  status : Nat
deriving DecidableEq, Repr

namespace CommandLine

def versionLine : String := "yup_compiler 0.1.0\n"

def helpText : String :=
  "Lex and parse a Yup++ program and report syntax diagnostics\n\n" ++
  "Usage: yup_compiler [OPTIONS] <INPUT|--stdin>\n\nArguments:\n" ++
  "  [INPUT]  Source file, or - to read from stdin\n\nOptions:\n" ++
  "      --stdin              Read the program from stdin\n" ++
  "      --tree               Print the syntax tree on success (default)\n" ++
  "      --no-tree            Print only the success line\n" ++
  "      --json               Print a JSON document instead of text\n" ++
  "      --tokens             Print the token list before the report\n" ++
  "      --explain            Show each diagnostic against its source line\n" ++
  "      --source-positions   Report true line/column instead of legacy positions\n" ++
  "      --log-level <LEVEL>  error, warning, info or debug\n" ++
  "      --config <FILE>      Runtime preferences file (TOML)\n" ++
  "  -h, --help               Print help\n  -V, --version            Print version\n\n" ++
  "Exit status is 0 when the program is valid, 1 on diagnostics or failure.\n" ++
  "Logs go to stderr; the report goes to stdout.\n"

def override (a : Arguments) (p : Preferences) : Preferences :=
  let p := if a.has .sourcePositions then { p with parsing.legacyPositions := false } else p
  match a.level with
  | some level => { p with logging.level := level, logging.console := true }
  | none => p

def preferences (w : World) (a : Arguments) : Except PreferencesError Preferences :=
  match a.config with
  | none => .ok (override a (.ofEnvironment w.environment))
  | some path =>
    match Preferences.load w.environment w.files path with
    | .ok p => .ok (override a p)
    | .error e => .error e

/-- Whether an event is written. Without the console only errors are. -/
def isWritten (p : LoggingPreferences) (e : Event) : Bool :=
  p.level.admits e.level && (p.console || e.level == .error)

def writeEvent (p : LoggingPreferences) (now : Int) (e : Event) : String :=
  if p.structured then (e.toJson now).compact else e.render

def writeJournal (p : LoggingPreferences) (now : Int) (j : Journal) : String :=
  String.join ((j.toList.filter (isWritten p)).map fun e => writeEvent p now e ++ "\n")

def renderAnalysis (a : Arguments) (r : Analysis) : Except Fault String :=
  if a.has .json then .ok ((Document.ofAnalysis r).render ++ "\n")
  else
    let text := (if a.has .tokens then Token.renderAll r.tokens ++ "\n\n" else "") ++
      r.report a.showTree
    if a.has .explain && !r.isValid then
      match r.explain with
      | .ok excerpts => .ok (text ++ "\n" ++ excerpts)
      | .error f => .error f
    else .ok text

def renderFailure (a : Arguments) (f : Failure) : String :=
  if a.has .json then (Document.ofFailure f).render ++ "\n"
  else errorReport [f.userMessage]

def analyseInput (w : World) (a : Arguments) (p : Preferences) :
    Logging (Except Fault (Except Failure Analysis)) :=
  match a.source with
  | .file path => analyseFile p w.files w.elapsed path
  | .standard =>
    match String.fromUTF8? w.standardInput with
    | some source => analyseSource p w.elapsed source
    | none =>
      return .ok (.error (.other ("Failed to read stdin: " ++ SystemError.notText.message)))

/-- Prints the result of a run; the status tells whether the program is valid. -/
def finish (a : Arguments) : Except Failure Analysis → Logging (Except Fault (String × Nat))
  | .ok r =>
    match renderAnalysis a r with
    | .ok text => return .ok (text, if r.isValid then 0 else 1)
    | .error f => return .error f
  | .error e => do
    logPlain (Event.error e.code e.message)
    return .ok (renderFailure a e, 1)

/-- Checks, and then the run. An `Except String` tells why the program could not start. -/
def start (w : World) (a : Arguments) (p : Preferences) :
    Logging (Except Fault (Except String (String × Nat))) := do
  match ← Startup.openLog false with
  | .error e => return .ok (.error e)
  | .ok () =>
    match ← Startup.checkPipeline (Preferences.ofEnvironment w.environment).lexing w.elapsed with
    | .error f => return .error f
    | .ok (.error e) => return .ok (.error e)
    | .ok (.ok ()) =>
      let (result, _) ← Gate.new.process fun g => do
        match ← analyseInput w a p with
        | .error f => return (.error f, g)
        | .ok result => return (← finish a result, g)
      match result with
      | none => return .ok (.ok ("", 1))
      | some (.error f) => return .error f
      | some (.ok printed) => return .ok (.ok printed)

def errorLine (message : String) : String := "Error: " ++ message ++ "\n"

/-- Runs the program. Status 0 is for a valid program, 1 for any other and for failures, 2 for
arguments that make no sense. -/
def run (w : World) (arguments : List String) : Outcome :=
  match Request.ofArguments arguments with
  | .version => ⟨versionLine, "", 0⟩
  | .help => ⟨helpText, "", 0⟩
  | .unreadable => ⟨"", errorLine "unexpected arguments; try '--help'", 2⟩
  | .run a =>
    match preferences w a with
    | .error e => ⟨"", errorLine e.message, 1⟩
    | .ok p =>
      let (result, journal) := (start w a p).run (.empty p.logging.marksFile)
      let errors := writeJournal p.logging w.now journal
      match result with
      | .ok (.ok (output, status)) => ⟨output, errors, status⟩
      | .ok (.error e) => ⟨"", errors ++ errorLine e, 1⟩
      | .error f => ⟨"", errors ++ errorLine f.message, 101⟩

end CommandLine

end YupFront
