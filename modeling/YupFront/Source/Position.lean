import YupFront.Fault

/-! Positions in a text and the spans between them.
Offsets count bytes from 0; lines and columns count from 1, one column per character. -/

namespace YupFront

structure Position where
  offset : Nat
  line : Nat
  column : Nat
deriving DecidableEq, Repr, Inhabited

namespace Position

def start : Position := ⟨0, 1, 1⟩

/-- The position behind a character, whether or not its numbers fit. -/
def next (p : Position) (c : Char) : Position :=
  if c = '\n' then ⟨p.offset + 1, p.line + 1, 1⟩
  else ⟨p.offset + c.utf8Size, p.line, p.column + 1⟩

def Fits (p : Position) : Prop :=
  p.offset < offsetBound ∧ p.line < lineBound ∧ p.column < lineBound

instance (p : Position) : Decidable p.Fits :=
  inferInstanceAs (Decidable (_ ∧ _ ∧ _))

def advance (p : Position) (c : Char) : Except Fault Position :=
  if (p.next c).Fits then .ok (p.next c) else .error .sumTooLarge

def advanceBy : Position → List Char → Except Fault Position
  | p, [] => .ok p
  | p, c :: cs =>
    match p.advance c with
    | .ok q => q.advanceBy cs
    | .error f => .error f

def render (p : Position) : String :=
  p.line.repr ++ ":" ++ p.column.repr

/-- By offset, then line, then column. -/
protected def compare (p q : Position) : Ordering :=
  (compare p.offset q.offset).then ((compare p.line q.line).then (compare p.column q.column))

end Position

/-- The text from `start` up to but not including `finish`. -/
structure Span where
  start : Position
  finish : Position
deriving DecidableEq, Repr, Inhabited

namespace Span

def between (start finish : Position) : Except Fault Span :=
  if start.offset ≤ finish.offset then .ok ⟨start, finish⟩ else .error .spanReversed

/-- The span of `text` when it begins at `start`. -/
def covering (start : Position) (text : List Char) : Except Fault Span :=
  match start.advanceBy text with
  | .ok finish => between start finish
  | .error f => .error f

/-- Stands for no place in particular. -/
def nowhere : Span := ⟨.start, .start⟩

def length (s : Span) : Except Fault Nat :=
  subtract s.finish.offset s.start.offset

def isEmpty (s : Span) : Bool :=
  s.start.offset == s.finish.offset

/-- On one line the line number is given once. -/
def render (s : Span) : String :=
  if s.start.line = s.finish.line then s.start.render ++ "-" ++ s.finish.column.repr
  else s.start.render ++ "-" ++ s.finish.render

end Span

end YupFront
