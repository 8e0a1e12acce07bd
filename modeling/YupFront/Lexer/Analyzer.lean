import YupFront.Lexer.Metrics
import YupFront.Lexer.Tokenize
import YupFront.Log.Journal
import YupFront.Preferences.Basic

/-! Lexing as a stage of a run: tokens, counts and a log of what was found. -/

namespace YupFront

structure Lexed where
  tokens : List Token
  metrics : Metrics
deriving DecidableEq, Repr

/-- The text that stands for a duration of so many microseconds, in milliseconds. -/
def renderDuration (microseconds : Nat) : String :=
  (microseconds / 1000).repr ++ "." ++ Utc.padded 3 (microseconds % 1000)

namespace Lexed

def ofText (preferences : LexingPreferences) (source : String) : Except Fault Lexed :=
  match tokenize source with
  | .ok tokens => .ok ⟨tokens, Metrics.ofTokens preferences.countKinds source.length tokens⟩
  | .error f => .error f

def longRunEvents (ts : List Token) : List Event :=
  (ts.filter fun t => t.isRun && Limits.longRun < t.width).map fun t =>
    (Event.warning .longRun "Run is above the length warning threshold").withKeys
      [("position", t.span.start.render), ("length", t.width.repr),
        ("threshold", Limits.longRun.repr)]

def events (preferences : LexingPreferences) (elapsed : Nat) (source : String) (r : Lexed) :
    List Event :=
  let m := r.metrics
  [(Event.debug "Starting lexical analysis").withKeys [("bytes", source.utf8ByteSize.repr)]] ++
  longRunEvents r.tokens ++
  (if Limits.manyTokens < r.tokens.length then
    [(Event.warning .manyTokens "Token count is above the warning threshold").withKeys
      [("token_count", r.tokens.length.repr), ("threshold", Limits.manyTokens.repr)]]
  else []) ++
  (if preferences.logTokens then
    [(Event.debug "Token dump").withKeys [("tokens", Token.renderAll r.tokens)]]
  else []) ++
  [(Event.success .lexingComplete "Lexical analysis completed successfully").withKeys
    [("token_count", r.tokens.length.repr), ("keywords", m.keywords.repr),
      ("identifiers", m.identifiers.repr), ("numbers", m.numbers.repr),
      ("operators", m.operators.repr), ("punctuation", m.punctuation.repr),
      ("max_run_length", m.longestRun.repr), ("long_runs", m.longRuns.repr),
      ("char_count", m.characters.repr), ("duration_ms", renderDuration elapsed)]]

end Lexed

def lex (preferences : LexingPreferences) (elapsed : Nat) (source : String) :
    Logging (Except Fault Lexed) := do
  match Lexed.ofText preferences source with
  | .ok r =>
    logAll (r.events preferences elapsed source)
    return .ok r
  | .error f => return .error f

structure RunStart where
  index : Nat
  position : Position
deriving DecidableEq, Repr

/-- A lexer that reads a text from left to right and can be used again. What it has read of a run
waits until the run ends. -/
structure Analyzer where
  preferences : LexingPreferences
  metrics : Metrics
  /-- The newest character comes first. -/
  pending : List Char
  pendingLength : Nat
  runStart : Option RunStart
  /-- The newest token comes first. -/
  tokens : List Token
deriving DecidableEq, Repr

namespace Analyzer

def new (preferences : LexingPreferences) : Analyzer := ⟨preferences, .zero, [], 0, none, []⟩

def setPreferences (a : Analyzer) (preferences : LexingPreferences) : Analyzer :=
  { a with preferences }

def reset (a : Analyzer) : Analyzer :=
  { a with metrics := .zero, pending := [], pendingLength := 0, runStart := none, tokens := [] }

/-- Where a text ends that begins at character `index` and at `position`. -/
def past (index : Nat) (position : Position) (text : List Char) :
    Except Fault (Nat × Position) := do
  return (← addOffset index text.length, ← position.advanceBy text)

def emit (a : Analyzer) (text : List Char) (index : Nat) (position : Position) :
    Except Fault Analyzer := do
  let span ← Span.covering position text
  let text := String.ofList text
  let token ← Token.make (classify text) text index span
  return { a with
    tokens := token :: a.tokens
    metrics := a.metrics.addToken a.preferences.countKinds token }

def push (a : Analyzer) (c : Char) (index : Nat) (position : Position) : Analyzer :=
  { a with
    pending := c :: a.pending
    pendingLength := a.pendingLength + 1
    runStart := a.runStart.or (some ⟨index, position⟩) }

/-- Ends the run, if there is one. -/
def flush (a : Analyzer) : Except Fault Analyzer :=
  match a.runStart with
  | none => .ok a
  | some start =>
    let flushed : Analyzer := { a with
      metrics := a.metrics.addRun a.pendingLength
      pending := []
      pendingLength := 0
      runStart := none }
    flushed.emit a.pending.reverse start.index start.position

/-- A character that is not the first of two which make an operator. -/
def read (a : Analyzer) (c : Char) (index : Nat) (position : Position) : Except Fault Analyzer := do
  if isSeparator c then a.flush
  else if isPunctuation c || isOperatorLead c then (← a.flush).emit [c] index position
  else return a.push c index position

/-- Reads a text that begins at character `index` and at `position`. -/
def scan (a : Analyzer) (index : Nat) (position : Position) : List Char → Except Fault Analyzer
  | [] => do
    let a ← a.flush
    return { a with metrics := { a.metrics with characters := index } }
  | [c] => do
    let a ← a.read c index position
    let (index, position) ← past index position [c]
    a.scan index position []
  | c :: d :: cs => do
    if combines c d then
      let a ← (← a.flush).emit [c, d] index position
      let (index, position) ← past index position [c, d]
      a.scan index position cs
    else
      let a ← a.read c index position
      let (index, position) ← past index position [c]
      a.scan index position (d :: cs)

/-- The tokens of a text, and the analyzer as it is afterwards. -/
def run (a : Analyzer) (elapsed : Nat) (source : String) :
    Logging (Except Fault (List Token × Analyzer)) := do
  match a.reset.scan 0 .start source.toList with
  | .ok a =>
    let tokens := a.tokens.reverse
    logAll (Lexed.events a.preferences elapsed source ⟨tokens, a.metrics⟩)
    return .ok (tokens, { a with tokens := [] })
  | .error f => return .error f

end Analyzer

end YupFront
