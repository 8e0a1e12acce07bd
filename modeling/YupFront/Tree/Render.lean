import YupFront.Json.Decode
import YupFront.Source.Lines
import YupFront.Tree.Basic

/-! Written forms of trees: indented lines, one compact line, and JSON in both directions. -/

namespace YupFront.Node

def headline (kind : NodeKind) (value : Option String) : String :=
  match value with
  | some v => kind.name ++ " (" ++ v ++ ")"
  | none => kind.name

mutual

/-- Appends one line for each node, in preorder, with two blanks for each level. -/
def linesOnto (level : Nat) (out : String) : Node → String
  | ⟨kind, value, children, _, _, _⟩ =>
    allLinesOnto (level + 1)
      (out ++ LineIndex.blanks (2 * level) ++ headline kind value ++ "\n") children
termination_by structural n => n

def allLinesOnto (level : Nat) (out : String) : List Node → String
  | [] => out
  | n :: ns => allLinesOnto level (linesOnto level out n) ns
termination_by structural ns => ns

end

def render (n : Node) (level : Nat) : String :=
  linesOnto level "" n

def lines (n : Node) : List String :=
  YupFront.lines (n.render 0)

mutual

/-- Appends the kind, the value in parentheses and the children in brackets. -/
def compactOnto (out : String) : Node → String
  | ⟨kind, value, children, _, _, _⟩ =>
    let head := out ++ kind.name ++ (match value with
      | some v => "(" ++ v ++ ")"
      | none => "")
    match children with
    | [] => head
    | c :: cs => allCompactOnto (compactOnto (head ++ "[") c) cs ++ "]"
termination_by structural n => n

def allCompactOnto (out : String) : List Node → String
  | [] => out
  | n :: ns => allCompactOnto (compactOnto (out ++ ", ") n) ns
termination_by structural ns => ns

end

def compact (n : Node) : String := compactOnto "" n

def placed (kind : NodeKind) (line column : Nat) (span : Option Span) : String :=
  kind.name ++ " " ++ line.repr ++ ":" ++ column.repr ++ " " ++
    (match span with
      | some s => s.render
      | none => "-")

mutual

/-- Kinds and places in preorder, in front of others, newest first. -/
def placesOnto (done : List String) : Node → List String
  | ⟨kind, _, children, line, column, span⟩ =>
    allPlacesOnto (placed kind line column span :: done) children
termination_by structural n => n

def allPlacesOnto (done : List String) : List Node → List String
  | [] => done
  | n :: ns => allPlacesOnto (placesOnto done n) ns
termination_by structural ns => ns

end

def places (n : Node) : List String := (placesOnto [] n).reverse

/-! JSON. The span is not part of the document; a missing value and missing children are left
out. -/

mutual

def toJson : Node → Json
  | ⟨kind, value, children, line, column, _⟩ =>
    .record <|
      [("kind", .text kind.name)] ++
      (match value with
        | some v => [("value", .text v)]
        | none => []) ++
      (match children with
        | [] => []
        | c :: cs => [("children", .array (toJson c :: allToJson cs))]) ++
      [("line", .nat line), ("column", .nat column)]
termination_by structural n => n

def allToJson : List Node → List Json
  | [] => []
  | n :: ns => toJson n :: allToJson ns
termination_by structural ns => ns

end

/-- A node with `levels` levels of nesting below it, and with children only if those can be read. -/
def ofFields? (levels : Nat) (child? : Option (Json → Option Node)) (v : Json) : Option Node := do
  match ← v.fields? ["kind", "value", "children", "line", "column"] with
  | [kind, value, children, line, column] =>
    let kind ← (← kind).choice? NodeKind.all NodeKind.name levels
    let value ← match value with
      | some v => v.optional? Json.text?
      | none => some none
    let children ← match children, child? with
      | none, _ => some []
      | some _, none => none
      | some v, some child? => v.items? child?
    let line ← (← line).natBelow? lineBound
    let column ← (← column).natBelow? lineBound
    return ⟨kind, value, children, line, column, none⟩
  | _ => none

/-- Every level of a tree is two levels of nesting, the object and the array of its children. -/
def ofJson? : Nat → Json → Option Node
  | 0, _ => none
  | 1, v => ofFields? 0 none v
  | inner + 2, v => ofFields? (inner + 1) (some (ofJson? inner)) v

def read? (text : String) : Option Node := do
  ofJson? Json.nestingLimit (← Json.read? text)

end YupFront.Node
