import YupFront.Json.Real
import YupFront.Pipeline.Analysis

/-! What the user gets to see of a run: a text, or a JSON document. -/

namespace YupFront

/-- Messages below a heading, each behind a bullet. -/
def errorReport (messages : List String) : String :=
  if messages.isEmpty then ""
  else "Parsing Errors:\n\n" ++ String.join (messages.map fun m => "• " ++ m ++ "\n")

/-- The messages of a run; without any, a line and on demand the tree. -/
def Analysis.report (a : Analysis) (showTree : Bool) : String :=
  if a.isValid then
    "No errors - code is valid\n" ++
      (match showTree, a.treeText with
        | true, some tree => "\n" ++ tree
        | _, _ => "")
  else errorReport a.messages

structure Document where
  success : Bool
  diagnostics : List String
  tree : Option Node
  tokenCount : Nat
  /-- In milliseconds. -/
  duration : Float

namespace Document

/-- The tree is shown only if nothing is wrong. -/
def ofAnalysis (a : Analysis) : Document where
  success := a.isValid
  diagnostics := a.messages
  tree := if a.isValid then a.tree else none
  tokenCount := a.tokens.length
  duration := Float.ofNat a.elapsed / 1000.0

def ofFailure (f : Failure) : Document := ⟨false, [f.userMessage], none, 0, 0.0⟩

def toJson (d : Document) : Json :=
  .record <|
    [("success", .bool d.success), ("diagnostics", .array (d.diagnostics.map .text))] ++
    (match d.tree with
      | some tree => [("tree", tree.toJson)]
      | none => []) ++
    [("token_count", .nat d.tokenCount), ("processing_time_ms", .real d.duration)]

def render (d : Document) : String := d.toJson.indented

def ofJson? (v : Json) : Option Document := do
  match ← v.fields? ["success", "diagnostics", "tree", "token_count", "processing_time_ms"] with
  | [success, diagnostics, tree, tokenCount, duration] =>
    let success ← (← success).bool?
    let diagnostics ← (← diagnostics).items? Json.text?
    let tree ← match tree with
      | some v => v.optional? (Node.ofJson? (Json.nestingLimit - 1))
      | none => some none
    let tokenCount ← (← tokenCount).natBelow? offsetBound
    let duration ← (← duration).real?
    return ⟨success, diagnostics, tree, tokenCount, duration⟩
  | _ => none

def read? (text : String) : Option Document := do
  ofJson? (← Json.read? text)

end Document

end YupFront
