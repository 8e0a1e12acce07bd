import YupFront.File.Load
import YupFront.Parser.Parse
import YupFront.Tree.Render

/-! A run over a source: lexing, then parsing. What is wrong with a program is part of the result
of a run; a run fails only for reasons outside of the program. -/

namespace YupFront

inductive Failure where
  | loading (e : LoadError)
  | parsing (e : ParseError)
  | other (message : String)
deriving DecidableEq, Repr

namespace Failure

def message : Failure → String
  | loading e => "File processing failed: " ++ e.message
  | parsing e => "Syntax analysis failed: " ++ e.message
  | other message => "Pipeline error: " ++ message

def code : Failure → Code
  | loading e => e.code
  | parsing e => e.code
  | other _ => .internalError

def stage : Failure → String
  | loading _ => "file processing"
  | parsing _ => "syntax analysis"
  | other _ => "pipeline"

def userMessage (f : Failure) : String := "Error during processing: " ++ f.message

end Failure

/-- What a run has found. A source without tokens has no tree. -/
structure Analysis where
  source : String
  tokens : List Token
  tree : Option Node
  diagnostics : List Diagnostic
  metrics : Metrics
  file : Option FileMetadata
  /-- Duration of the run in microseconds. -/
  elapsed : Nat

namespace Analysis

def blank (source : String) (elapsed : Nat) : Analysis :=
  ⟨source, [], none, [], .zero, none, elapsed⟩

def isValid (a : Analysis) : Bool := a.diagnostics.isEmpty

def messages (a : Analysis) : List String := a.diagnostics.map Diagnostic.render

def treeText (a : Analysis) : Option String := a.tree.map fun t => t.render 0

/-- Each diagnostic with the place it is about. -/
def explain (a : Analysis) : Except Fault String :=
  let index := LineIndex.ofText a.source
  match a.diagnostics.mapM fun d => index.excerpt d.span d.message with
  | .ok excerpts => .ok (String.intercalate "\n" excerpts)
  | .error f => .error f

/-- Tokens per second, to the nearest whole number. -/
def speed (a : Analysis) : Nat :=
  if a.elapsed = 0 then 0 else Decimal.roundEven (a.tokens.length * 1000000) a.elapsed

def event (name : String) (a : Analysis) : Event :=
  (Event.success .runComplete "Pipeline complete").withKeys
    [("duration_ms", renderDuration a.elapsed), ("source", name),
      ("tokens", a.tokens.length.repr), ("diagnostics", a.diagnostics.length.repr),
      ("tokens_per_sec", a.speed.repr)]

end Analysis

def sizeEvents (name source : String) : List Event :=
  if Limits.largeInput < source.utf8ByteSize then
    [(Event.warning .largeInput "Input is above the large-file threshold").withKeys
      [("source", name), ("bytes", source.utf8ByteSize.repr),
        ("threshold", Limits.largeInput.repr)]]
  else []

/-- Runs over a source of the given name. Durations are what the caller has measured. -/
def analyse (p : Preferences) (elapsed : Nat) (name source : String) :
    Logging (Except Fault (Except Failure Analysis)) := do
  if source.isEmpty then
    log ((Event.debug "Empty input; nothing to process").withKeys [("source", name)])
    return .ok (.ok (.blank source elapsed))
  else
    logAll (sizeEvents name source)
    match ← lex p.lexing elapsed source with
    | .error f => return .error f
    | .ok lexed =>
      let found := { Analysis.blank source elapsed with
        tokens := lexed.tokens
        metrics := lexed.metrics }
      if lexed.tokens.isEmpty then
        log (found.event name)
        return .ok (.ok found)
      else
        let outcome ← parseProgram p.parsing lexed.tokens
        match outcome.failure with
        | some e => return .ok (.error (.parsing e))
        | none =>
          let found := { found with tree := outcome.tree, diagnostics := outcome.diagnostics }
          log (found.event name)
          return .ok (.ok found)

def inlineName : String := "<input>"

def analyseSource (p : Preferences) (elapsed : Nat) (source : String) :
    Logging (Except Fault (Except Failure Analysis)) :=
  analyse p elapsed inlineName source

/-- Loads a file and runs over its text, with the file in hand. -/
def analyseFile (p : Preferences) (host : Host) (elapsed : Nat) (path : String) :
    Logging (Except Fault (Except Failure Analysis)) :=
  withFile ⟨path, 0⟩ do
    log ((Event.info "Processing file").withKeys [("file", path)])
    match ← load p.loading host elapsed path with
    | .error e => return .ok (.error (.loading e))
    | .ok loaded =>
      match ← analyse p elapsed path loaded.source with
      | .ok (.ok found) => return .ok (.ok { found with file := some loaded.metadata })
      | .ok (.error e) => return .ok (.error e)
      | .error f => return .error f

end YupFront
