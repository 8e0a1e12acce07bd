import YupFront.Source.Position
import YupFront.Token.Classify

/-! Tokens and how they are written.
`first` and `last` are the character indices of a token's ends, both included. -/

namespace YupFront

structure Token where
  kind : TokenKind
  text : String
  first : Nat
  last : Nat
  span : Span
deriving DecidableEq, Repr

namespace Token

/-- The token with a given text that begins at character `first`. -/
def make (kind : TokenKind) (text : String) (first : Nat) (span : Span) : Except Fault Token :=
  match addOffset first (text.length - 1) with
  | .ok last => .ok ⟨kind, text, first, last, span⟩
  | .error f => .error f

def render (t : Token) : String :=
  t.kind.name ++ "(" ++ t.text ++ ")"

def renderAll (ts : List Token) : String :=
  "[" ++ String.intercalate ", " (ts.map render) ++ "]"

/-- The first token whose ends are the wrong way round. -/
def reversed? (ts : List Token) : Option Token :=
  ts.find? fun t => t.last < t.first

/-- The first two neighbours that overlap. -/
def overlap? : List Token → Option (Token × Token)
  | t :: u :: rest => if u.first ≤ t.last then some (t, u) else overlap? (u :: rest)
  | _ => none

end Token

/-- How a token sequence can be out of order. -/
inductive OrderError where
  | reversed (t : Token)
  | overlapping (t u : Token)
deriving DecidableEq, Repr

def OrderError.message : OrderError → String
  | reversed t =>
    "Token " ++ t.render ++ " has start offset " ++ t.first.repr ++ " after end offset " ++
      t.last.repr
  | overlapping t u =>
    "Token " ++ u.render ++ " at " ++ u.first.repr ++ " overlaps " ++ t.render ++ " ending at " ++
      t.last.repr

/-- Every token has its ends in order and begins after the one before it has ended. -/
def checkOrder (ts : List Token) : Except OrderError Unit :=
  match Token.reversed? ts with
  | some t => .error (.reversed t)
  | none =>
    match Token.overlap? ts with
    | some (t, u) => .error (.overlapping t u)
    | none => .ok ()

end YupFront
