import YupFront.Json.Decode
import YupFront.Token.Basic

/-! Places and tokens as JSON, in both directions. Decoding is told how many arrays and objects may
still nest. -/

namespace YupFront

/-- Looks into an object or array if a level is left. -/
def Json.inside? (names : List String) (decode : Nat → List (Option Json) → Option α) :
    Nat → Json → Option α
  | 0, _ => none
  | level + 1, v => do decode level (← v.fields? names)

namespace Position

def toJson (p : Position) : Json :=
  .record [("offset", .nat p.offset), ("line", .nat p.line), ("column", .nat p.column)]

def ofJson? : Nat → Json → Option Position :=
  Json.inside? ["offset", "line", "column"] fun _ values =>
    match values with
    | [some offset, some line, some column] => do
      let offset ← offset.natBelow? offsetBound
      let line ← line.natBelow? lineBound
      let column ← column.natBelow? lineBound
      return ⟨offset, line, column⟩
    | _ => none

end Position

namespace Span

def toJson (s : Span) : Json :=
  .record [("start", s.start.toJson), ("end", s.finish.toJson)]

def ofJson? : Nat → Json → Option Span :=
  Json.inside? ["start", "end"] fun level values =>
    match values with
    | [some start, some finish] => do
      let start ← Position.ofJson? level start
      let finish ← Position.ofJson? level finish
      return ⟨start, finish⟩
    | _ => none

end Span

namespace Keyword

def title : Keyword → String
  | letKw => "Let"
  | ifKw => "If"
  | elseKw => "Else"
  | whileKw => "While"
  | printKw => "Print"

def toJson (k : Keyword) : Json := .text k.title

def ofJson? (level : Nat) (v : Json) : Option Keyword := v.choice? all title level

end Keyword

namespace TokenKind

def toJson (k : TokenKind) : Json := .text k.name

def ofJson? (level : Nat) (v : Json) : Option TokenKind := v.choice? all name level

end TokenKind

namespace Token

def toJson (t : Token) : Json :=
  .record [("kind", t.kind.toJson), ("text", .text t.text), ("start_offset", .nat t.first),
    ("end_offset", .nat t.last), ("span", t.span.toJson)]

def ofJson? : Nat → Json → Option Token :=
  Json.inside? ["kind", "text", "start_offset", "end_offset", "span"] fun level values =>
    match values with
    | [some kind, some text, some first, some last, some span] => do
      let kind ← TokenKind.ofJson? level kind
      let text ← text.text?
      let first ← first.natBelow? offsetBound
      let last ← last.natBelow? offsetBound
      let span ← Span.ofJson? level span
      return ⟨kind, text, first, last, span⟩
    | _ => none

end Token

end YupFront
