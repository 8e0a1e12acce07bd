import YupFront.Source.Position
import YupFront.Text.Slice

/-! Lines of a text, looking one up by its number, and showing a span below its line. -/

namespace YupFront

/-- The pieces between newlines, behind pieces already found and characters of the current one,
newest first in both. -/
def splitOnto (done : List (List Char)) (current : List Char) : List Char → List (List Char)
  | [] => (current.reverse :: done).reverse
  | c :: cs =>
    if c = '\n' then splitOnto (current.reverse :: done) [] cs
    else splitOnto done (c :: current) cs

def splitLines (text : List Char) : List (List Char) :=
  splitOnto [] [] text

def trimReturns (line : List Char) : List Char :=
  (line.reverse.dropWhile (· == '\r')).reverse

/-- The number of lines in a text; an end without newline counts, an empty end does not. -/
def countLines (text : String) : Nat :=
  let cs := text.toList
  let newlines := cs.countP (· == '\n')
  match text.toList.getLast? with
  | none => 0
  | some c => if c = '\n' then newlines else newlines + 1

/-- The lines of a text without newlines; one carriage return in front of each newline goes too. -/
def lines (text : String) : List String :=
  let pieces := splitLines text.toList
  let ended := pieces.dropLast.map fun p => if p.getLast? = some '\r' then p.dropLast else p
  let open_ := match pieces.getLast? with
    | some (c :: cs) => [c :: cs]
    | _ => []
  (ended ++ open_).map String.ofList

/-- A text, and the places where its lines begin. -/
structure LineIndex where
  source : String
  starts : Array Nat

namespace LineIndex

/-- The places already found, and one behind each newline of the characters that are left, the first
of which stands at `place`. -/
def startsOnto (found : Array Nat) (place : Nat) : List Char → Array Nat
  | [] => found
  | c :: cs =>
    startsOnto (if c = '\n' then found.push (place + 1) else found) (place + c.utf8Size) cs

def ofText (source : String) : LineIndex :=
  ⟨source, startsOnto #[0] 0 source.toList⟩

/-- The place in front of the newline that ends a line; the last line ends with the text. -/
def finish (index : LineIndex) (i : Nat) : Except Fault Nat :=
  match index.starts[i + 1]? with
  | some next => subtract next 1
  | none => .ok index.source.utf8ByteSize

/-- The line with an index, if there is one, without the characters that end it. -/
def lineAt (index : LineIndex) (i : Nat) : Except Fault (Option (List Char)) :=
  match index.starts[i]? with
  | none => .ok none
  | some start => do
    let stop ← index.finish i
    let line ← Text.slice index.source start stop
    return some (trimReturns line.toList)

/-- The line with a number; numbers begin at 1. -/
def find (index : LineIndex) (number : Nat) : Except Fault (Option (List Char)) :=
  if number = 0 then .ok none else index.lineAt (number - 1)

def line? (index : LineIndex) (number : Nat) : Option (List Char) :=
  (index.find number).toOption.join

theorem line?_eq_some_iff {index : LineIndex} {number : Nat} {line : List Char} :
    index.line? number = some line ↔ index.find number = .ok (some line) := by
  unfold line?
  cases index.find number <;> simp [Except.toOption]

def blanks (n : Nat) : String := String.ofList (List.replicate n ' ')

def carets (n : Nat) : String := String.ofList (List.replicate n '^')

/-- How many carets mark a span in its first line: up to its end or, if that is in another line, up
to the end of the line. -/
def caretCount (line : List Char) (span : Span) : Except Fault Nat :=
  if span.start.line = span.finish.line then .ok (span.finish.column - span.start.column)
  else subtract (line.length + 1) span.start.column

/-- A message, the place it is about and, if there is such a line, the line with the span marked. -/
def excerpt (index : LineIndex) (span : Span) (message : String) : Except Fault String :=
  let head := "error: " ++ message ++ "\n  --> " ++ span.start.render ++ "\n"
  match index.find span.start.line with
  | .error f => .error f
  | .ok none => .ok head
  | .ok (some line) =>
    match caretCount line span with
    | .error f => .error f
    | .ok width =>
      let number := span.start.line.repr
      let margin := blanks number.length
      .ok (head ++ margin ++ " |\n" ++ number ++ " | " ++ String.ofList line ++ "\n" ++ margin ++
        " | " ++ blanks (span.start.column - 1) ++ carets (max width 1) ++ "\n")

end LineIndex

end YupFront
