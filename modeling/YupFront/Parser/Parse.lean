import YupFront.Log.Journal
import YupFront.Parser.Grammar
import YupFront.Preferences.Basic

/-! Parsing a token sequence, and what is logged of it. The tree and the findings do not depend on
preferences; these decide how places are told and what is logged. -/

namespace YupFront

/-- How a parse can end without a result. -/
inductive ParseError where
  | noTokens
  | tooDeep (depth : Nat) (span : Span)
  /-- Something held to be true of every parse does not hold. -/
  | broken (message : String)
deriving DecidableEq, Repr

namespace ParseError

def message : ParseError → String
  | noTokens => "Empty token stream - no tokens to parse"
  | tooDeep depth span =>
    "Maximum recursion depth " ++ depth.repr ++ " exceeded at " ++ span.render
  | broken message => "Parser invariant violated: " ++ message

def code : ParseError → Code
  | noTokens => .noTokens
  | tooDeep _ _ => .nestingTooDeep
  | broken _ => .parserFailure

def span? : ParseError → Option Span
  | tooDeep _ span => some span
  | noTokens | broken _ => none

end ParseError

structure Parsed where
  tree : Node
  findings : List Finding

namespace Parsed

def diagnostics (mode : PositionMode) (p : Parsed) : List Diagnostic :=
  p.findings.map (Finding.diagnostic mode)

end Parsed

/-- The state in which a parse ends, and its tree. -/
def runParser (ts : List Token) : Except Stall Node × ParseState :=
  program.run (.start ts)

def parse (ts : List Token) : Except ParseError Parsed :=
  match runParser ts with
  | (.ok tree, s) => .ok ⟨tree, s.findings.reverse⟩
  | (.error stall, _) => .error (.broken stall.message)

def Step.event? (mode : PositionMode) (traceRules : Bool) : Step → Option Event
  | entered rule position rules =>
    if traceRules then
      some ((Event.debug "Entering rule").withKeys
        [("rule", rule.name), ("context", rules.render), ("position", position.repr)])
    else none
  | tooDeep depth span rules =>
    let e := ParseError.tooDeep depth span
    some (((Event.error e.code e.message).located span).withKeys [("context", rules.render)])
  | recorded finding rules =>
    let d := finding.diagnostic mode
    some ((Event.debug "Syntax diagnostic recorded").withKeys
      [("code", d.code.text), ("diagnostic", d.render), ("context", rules.render)])

def Parsed.events (tokenCount : Nat) (p : Parsed) : List Event :=
  [(Event.success .treeComplete "AST construction completed").withKeys
    [("statements", p.tree.children.length.repr), ("nodes", p.tree.count.repr),
      ("diagnostics", p.findings.length.repr)]] ++
  (if p.findings.isEmpty then
    [(Event.success .validationPassed "Syntax validation passed").withKeys
      [("tokens", tokenCount.repr)]]
  else [])

def parseLogged (mode : PositionMode) (traceRules : Bool) (ts : List Token) :
    Logging (Except ParseError Parsed) := do
  log ((Event.debug "Token stream created").withKeys [("tokens", ts.length.repr)])
  let (tree, s) := runParser ts
  logAll (s.trail.reverse.filterMap (Step.event? mode traceRules))
  match tree with
  | .error stall => return .error (.broken stall.message)
  | .ok tree =>
    let parsed : Parsed := ⟨tree, s.findings.reverse⟩
    logAll (parsed.events s.cursor.length)
    return .ok parsed

/-- Everything that became of a token sequence. -/
structure ParseOutcome where
  tree : Option Node
  diagnostics : List Diagnostic
  failure : Option ParseError

namespace ParseOutcome

def isValid (o : ParseOutcome) : Bool :=
  o.failure.isNone && o.diagnostics.isEmpty

/-- What the user is told, in the order of the parse. -/
def messages (o : ParseOutcome) : List String :=
  match o.failure with
  | some e => ["Error during processing: " ++ e.message]
  | none => o.diagnostics.map Diagnostic.render

end ParseOutcome

/-- Parses a token sequence as a stage of a run. No tokens are an empty program. -/
def parseProgram (preferences : ParsingPreferences) (ts : List Token) : Logging ParseOutcome := do
  let mode := PositionMode.ofLegacy preferences.legacyPositions
  if ts.isEmpty then
    log ((Event.debug "Nothing to parse").withKeys [("code", ParseError.noTokens.code.text)])
    return ⟨some (.root []), [], none⟩
  else
    log ((Event.debug "Starting syntax analysis").withKeys
      [("tokens", ts.length.repr),
        ("legacy_positions", Event.showBool preferences.legacyPositions)])
    match ← parseLogged mode preferences.traceRules ts with
    | .ok parsed => return ⟨some parsed.tree, parsed.diagnostics mode, none⟩
    | .error e =>
      log ((Event.error e.code "Syntax analysis failed internally").withKeys
        [("error", e.message), ("action", e.code.action)])
      return ⟨none, [], some e⟩

end YupFront
