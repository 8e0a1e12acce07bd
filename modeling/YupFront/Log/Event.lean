import YupFront.Json.Value
import YupFront.Log.Code
import YupFront.Log.Level
import YupFront.Source.Position
import YupFront.Time.Utc

/-! Log events and their written forms.
The context of an event maps keys to texts and is kept in the order of its keys. -/

namespace YupFront

structure Event where
  level : Level
  code : Code
  message : String
  span : Option Span
  context : List (String × String)
deriving DecidableEq, Repr

namespace Event

def error (code : Code) (message : String) : Event := ⟨.error, code, message, none, []⟩

def warning (code : Code) (message : String) : Event := ⟨.warning, code, message, none, []⟩

def success (code : Code) (message : String) : Event := ⟨.info, code, message, none, []⟩

def info (message : String) : Event := success .genericInfo message

def debug (message : String) : Event := ⟨.debug, .genericDebug, message, none, []⟩

/-- Puts a value under its key; an older value of that key is lost. -/
def insertKey (key value : String) : List (String × String) → List (String × String)
  | [] => [(key, value)]
  | (k, v) :: rest =>
    if key < k then (key, value) :: (k, v) :: rest
    else if k = key then (key, value) :: rest
    else (k, v) :: insertKey key value rest

/-- The event with some keys set, in the order given. -/
def withKeys (e : Event) (pairs : List (String × String)) : Event :=
  { e with context := pairs.foldl (fun context p => insertKey p.1 p.2 context) e.context }

def located (e : Event) (span : Span) : Event := { e with span := some span }

def render (e : Event) : String :=
  "[" ++ e.level.name ++ "] " ++ e.code.text ++ " - " ++ e.message ++
    (match e.span with
      | some s => " at " ++ s.start.render
      | none => "")

def showBool (b : Bool) : String := if b then "true" else "false"

/-- The line and below it what is known about the code, and the context. -/
def renderDetailed (e : Event) : String :=
  e.render ++ "\n  Category: " ++ e.code.category ++ "\n  Severity: " ++ e.code.severity.name ++
    (if e.level = .error then
      "\n  Recoverable: " ++ showBool e.code.recoverable ++
        "\n  Requires halt: " ++ showBool e.code.halts
    else "") ++
    (match e.code.entry? with
      | some entry =>
        "\n  Description: " ++ entry.description ++ "\n  Recommended action: " ++ entry.action
      | none => "") ++
    (if e.context.isEmpty then ""
    else "\n  Context:" ++
      String.join (e.context.map fun p => "\n    " ++ p.1 ++ ": " ++ p.2))

/-- A document with its keys in order, stamped with a moment. -/
def toJson (e : Event) (milliseconds : Int) : Json :=
  .record <|
    [("category", .text e.code.category), ("code", .text e.code.text)] ++
    (if e.context.isEmpty then []
      else [("context", .record (e.context.map fun p => (p.1, .text p.2)))]) ++
    (if e.level = .error then
      [("error_metadata", .record
        [("description", .text e.code.description), ("recommended_action", .text e.code.action),
          ("recoverable", .bool e.code.recoverable), ("requires_halt", .bool e.code.halts)])]
      else []) ++
    [("level", .text e.level.name), ("message", .text e.message),
      ("severity", .text e.code.severity.name)] ++
    (match e.span with
      | some s => [("span", .record
          [("end_column", .nat s.finish.column), ("end_line", .nat s.finish.line),
            ("start_column", .nat s.start.column), ("start_line", .nat s.start.line)])]
      | none => []) ++
    [("timestamp", .text (Utc.render milliseconds))]

end Event

end YupFront
