import YupFront.Lexer.Analyzer
import YupFront.Parser.Parse

/-! Checks at the start of a program: every code that can be logged is in the register, the limits
agree with each other, and lexing works on a sample. -/

namespace YupFront.Startup

/-- Fails at the first code that is not in the register. -/
def requireCodes (owner : String) (codes : List Code) : Except String Unit :=
  match Code.missing? codes with
  | some c => .error (owner ++ " " ++ c.text ++ " not found in metadata registry")
  | none => .ok ()

def loadingCodes : List Code :=
  [.fileNotFound, .invalidExtension, .fileTooLarge, .permissionDenied, .invalidEncoding,
    .readFailure, .invalidPath, .tooManyLines]

def lexingCodes : List Code := [.longRun, .manyTokens]

def parsingCodes : List Code :=
  [.noTokens, .unclosedDelimiter, .missingToken, .invalidFactor, .missingRelation,
    .unexpectedToken, .unexpectedEnd, .parserFailure, .nestingTooDeep]

def pipelineCodes : List Code := [.requestDropped, .largeInput]

def checkLoading : Logging (Except String Unit) := do
  match requireCodes "File processor error code" loadingCodes with
  | .error e => return .error e
  | .ok () =>
    log ((Event.debug "File processor limits loaded").withKeys
      [("max_file_size", Limits.fileSize.repr),
        ("large_file_threshold", Limits.largeInput.repr),
        ("max_line_count", Limits.lineCount.repr)])
    return .ok ()

def checkLexing : Logging (Except String Unit) := do
  match requireCodes "Lexical code" lexingCodes with
  | .error e => return .error e
  | .ok () =>
    log ((Event.debug "Lexical thresholds initialized").withKeys
      [("many_tokens_threshold", Limits.manyTokens.repr),
        ("long_run_threshold", Limits.longRun.repr)])
    return .ok ()

def checkParsing : Except String Unit := requireCodes "Syntax error code" parsingCodes

/-- Warnings that would have nothing to say, and limits that everything exceeds. -/
def checkThresholds : Except String Unit :=
  match lexingCodes.find? fun c => c.description == "Unknown error" with
  | some c => .error ("Lexical code " ++ c.text ++ " has no description")
  | none =>
    if Limits.manyTokens = 0 then .error "MANY_TOKENS_THRESHOLD cannot be zero"
    else if Limits.longRun = 0 then .error "LONG_RUN_THRESHOLD cannot be zero"
    else .ok ()

def sample : String := "while (i <= 10) { i = i + 1; }"

/-- Lexes a sample and checks the order of its tokens. -/
def checkTokenizing (p : LexingPreferences) (elapsed : Nat) :
    Logging (Except Fault (Except String Unit)) := do
  match checkThresholds with
  | .error e => return .ok (.error e)
  | .ok () =>
    match ← lex p elapsed sample with
    | .error f => return .error f
    | .ok lexed =>
      match checkOrder lexed.tokens with
      | .error e => return .ok (.error e.message)
      | .ok () => return .ok (.ok ())

def checkPipeline (p : LexingPreferences) (elapsed : Nat) :
    Logging (Except Fault (Except String Unit)) := do
  log (Event.debug "Validating pipeline configuration")
  match ← checkLoading with
  | .error e => return .ok (.error e)
  | .ok () =>
    match ← checkLexing with
    | .error e => return .ok (.error e)
    | .ok () =>
      match ← checkTokenizing p elapsed with
      | .error f => return .error f
      | .ok (.error e) => return .ok (.error e)
      | .ok (.ok ()) =>
        match checkParsing with
        | .error e => return .ok (.error e)
        | .ok () =>
          match requireCodes "Pipeline code" pipelineCodes with
          | .error e => return .ok (.error e)
          | .ok () =>
            log ((Event.success .startupComplete "Pipeline validation succeeded").withKeys
              [("stages_validated", "3")])
            return .ok (.ok ())

/-- Limits of the log that contradict each other or make no sense. -/
def checkLogLimits : Except String Unit :=
  if 100000 < Limits.logBuffer then
    .error ("Log buffer size too large: " ++ Limits.logBuffer.repr)
  else if Limits.logBuffer < 100 then
    .error ("Log buffer size too small: " ++ Limits.logBuffer.repr)
  else if Limits.logBuffer < Limits.eventsPerFile then
    .error "Max log events per file exceeds total buffer size"
  else if Limits.messageBytes = 0 then .error "Max log message length must be positive"
  else .ok ()

/-- Starts the log of a process, which has one log only. -/
def openLog (alreadyOpen : Bool) : Logging (Except String Unit) := do
  match checkLogLimits with
  | .error e => return .error ("Configuration validation failed: " ++ e)
  | .ok () =>
    if alreadyOpen then return .error "Global logger already initialized"
    else
      match Code.missing? [.internalError, .fileNotFound, .longRun, .unexpectedToken] with
      | some c => return .error ("Missing metadata for error code: " ++ c.text)
      | none =>
        logPlain (Event.success .startupComplete "Global logging system initialized")
        return .ok ()

def summary (p : LoggingPreferences) : String :=
  "Logging Configuration:\n=== Limits (Compile-time) ===\n- Log buffer size: " ++
    Limits.logBuffer.repr ++ "\n- Max events per file: " ++ Limits.eventsPerFile.repr ++
    "\n- Max message length: " ++ Limits.messageBytes.repr ++
    "\n=== Preferences (Runtime) ===\n- Min log level: " ++ p.level.name ++
    "\n- Structured logging: " ++ Event.showBool p.structured ++
    "\n- Console logging: " ++ Event.showBool p.console ++
    "\n- Include file context: " ++ Event.showBool p.marksFile

end YupFront.Startup
