import YupFront.Log.Code
import YupFront.Token.Cursor
import YupFront.Tree.Basic

/-! What can be wrong with a program, and how it is told.
A finding names a problem and the token it is anchored at; a diagnostic gives it a line and a
column. -/

namespace YupFront

/-- The statements that have a condition and a body. -/
inductive Block where
  | conditional
  | loop
deriving DecidableEq, Repr

namespace Block

def keyword : Block → Keyword
  | conditional => .ifKw
  | loop => .whileKw

def nodeKind : Block → NodeKind
  | conditional => .ifStatement
  | loop => .whileStatement

end Block

inductive Problem where
  /-- No statement begins with the token. -/
  | strayToken
  | declarationWithoutName
  | declarationWithoutAssign
  | declarationUnended
  | assignmentWithoutAssign
  | assignmentUnended
  | blockWithoutParen (block : Block)
  | conditionUnclosed
  | blockWithoutBrace (block : Block)
  | blockUnclosed (block : Block)
  | printWithoutParen
  | printUnclosed
  | printUnended
  | conditionWithoutRelation
  /-- No operand begins with the token. -/
  | strayOperand
  | operandMissing
  | parenUnclosed
  | nestingTooDeep
deriving DecidableEq, Repr

namespace Problem

/-- The wording; two problems quote the text of their token. -/
def message (text : String) : Problem → String
  | strayToken => "Unexpected token: " ++ text
  | declarationWithoutName => "Expected identifier after 'let'"
  | declarationWithoutAssign => "Expected '=' after identifier in declaration"
  | declarationUnended => "Expected ';' after declaration"
  | assignmentWithoutAssign => "Expected '=' in assignment"
  | assignmentUnended => "Expected ';' after assignment"
  | blockWithoutParen b => "Expected '(' after '" ++ b.keyword.word ++ "'"
  | conditionUnclosed => "Expected ')' after condition"
  | blockWithoutBrace b => "Expected '".push '{' ++ "' after " ++ b.keyword.word ++ " condition"
  | blockUnclosed b => "Expected '".push '}' ++ "' to close " ++ b.keyword.word ++ " statement"
  | printWithoutParen => "Expected '(' after 'print'"
  | printUnclosed => "Expected ')' after expression in print statement"
  | printUnended => "Expected ';' after print statement"
  | conditionWithoutRelation => "Expected relational operator in condition"
  | strayOperand => "Unexpected token in factor: " ++ text
  | operandMissing => "Unexpected end of input while parsing factor"
  | parenUnclosed => "Expected ')' to close expression"
  | nestingTooDeep => "Maximum nesting depth exceeded"

def code : Problem → Code
  | strayToken => .unexpectedToken
  | declarationWithoutName | declarationWithoutAssign | declarationUnended
  | assignmentWithoutAssign | assignmentUnended | blockWithoutParen _ | conditionUnclosed
  | blockWithoutBrace _ | printWithoutParen | printUnclosed | printUnended => .missingToken
  | blockUnclosed _ | parenUnclosed => .unclosedDelimiter
  | conditionWithoutRelation => .missingRelation
  | strayOperand => .invalidFactor
  | operandMissing => .unexpectedEnd
  | nestingTooDeep => .nestingTooDeep

end Problem

structure Finding where
  problem : Problem
  anchor : Anchor
deriving DecidableEq, Repr

/-- Where a token is said to be: by its character indices, or by line and column. -/
inductive PositionMode where
  | legacy
  | source
deriving DecidableEq, Repr

namespace PositionMode

def ofLegacy (legacy : Bool) : PositionMode := if legacy then .legacy else .source

/-- Line and column. In the legacy mode they are half the first index and the last index. -/
def locate (t : Token) : PositionMode → Nat × Nat
  | legacy => (t.first / 2, t.last)
  | source => (t.span.start.line, t.span.start.column)

end PositionMode

structure Diagnostic where
  line : Nat
  column : Nat
  message : String
  code : Code
  span : Span
deriving DecidableEq, Repr

def Diagnostic.render (d : Diagnostic) : String :=
  "Line " ++ d.line.repr ++ ", Column " ++ d.column.repr ++ ": " ++ d.message

def Finding.diagnostic (mode : PositionMode) (f : Finding) : Diagnostic where
  line := (mode.locate f.anchor.token).1
  column := (mode.locate f.anchor.token).2
  message := f.problem.message f.anchor.token.text
  code := f.problem.code
  span := f.anchor.token.span

end YupFront
