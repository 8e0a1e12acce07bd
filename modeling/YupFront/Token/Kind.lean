/-! The vocabulary of the language: reserved words, kinds of token and their grouping. -/

namespace YupFront

inductive Keyword where
  | letKw
  | ifKw
  | elseKw
  | whileKw
  | printKw
deriving DecidableEq, Repr

namespace Keyword

def all : List Keyword := [letKw, ifKw, elseKw, whileKw, printKw]

def word : Keyword → String
  | letKw => "let"
  | ifKw => "if"
  | elseKw => "else"
  | whileKw => "while"
  | printKw => "print"

/-- Reserved words are recognised in any mixture of upper and lower case. -/
def ofText? (text : String) : Option Keyword :=
  all.find? fun k => text.toList.map Char.toLower == k.word.toList

end Keyword

inductive TokenKind where
  | keyword (word : Keyword)
  | identifier
  | number
  | plus
  | minus
  | multiply
  | divide
  | assign
  | equal
  | notEqual
  | less
  | greater
  | lessEqual
  | greaterEqual
  | leftParen
  | rightParen
  | leftBrace
  | rightBrace
  | semicolon
  | leftBracket
  | rightBracket
  | endOfFile
deriving DecidableEq, Repr

/-- Coarse grouping of kinds, for counting. -/
inductive TokenClass where
  | keyword
  | identifier
  | literal
  | operator
  | punctuation
  | special
deriving DecidableEq, Repr

def TokenClass.name : TokenClass → String
  | keyword => "Keyword"
  | identifier => "Identifier"
  | literal => "Literal"
  | operator => "Operator"
  | punctuation => "Punctuation"
  | special => "Special"

namespace TokenKind

def all : List TokenKind :=
  Keyword.all.map keyword ++
    [identifier, number, plus, minus, multiply, divide, assign, equal, notEqual, less, greater,
      lessEqual, greaterEqual, leftParen, rightParen, leftBrace, rightBrace, semicolon,
      leftBracket, rightBracket, endOfFile]

def name : TokenKind → String
  | keyword .letKw => "LET"
  | keyword .ifKw => "IF"
  | keyword .elseKw => "ELSE"
  | keyword .whileKw => "WHILE"
  | keyword .printKw => "PRINT"
  | identifier => "IDENTIFIER"
  | number => "NUMBER"
  | plus => "PLUS"
  | minus => "MINUS"
  | multiply => "MULTIPLY"
  | divide => "DIVIDE"
  | assign => "ASSIGN"
  | equal => "EQUAL"
  | notEqual => "NOT_EQUAL"
  | less => "LESS"
  | greater => "GREATER"
  | lessEqual => "LESS_EQUAL"
  | greaterEqual => "GREATER_EQUAL"
  | leftParen => "LEFT_PAREN"
  | rightParen => "RIGHT_PAREN"
  | leftBrace => "LEFT_BRACE"
  | rightBrace => "RIGHT_BRACE"
  | semicolon => "SEMICOLON"
  | leftBracket => "LEFT_BRACKET"
  | rightBracket => "RIGHT_BRACKET"
  | endOfFile => "EOF"

def ofName? (text : String) : Option TokenKind :=
  all.find? fun k => k.name == text

/-- `== != < > <= >=` -/
def isRelational : TokenKind → Bool
  | equal | notEqual | less | greater | lessEqual | greaterEqual => true
  | _ => false

/-- `+ -` -/
def isAdditive : TokenKind → Bool
  | plus | minus => true
  | _ => false

/-- `* /` -/
def isMultiplicative : TokenKind → Bool
  | multiply | divide => true
  | _ => false

def tokenClass : TokenKind → TokenClass
  | keyword _ => .keyword
  | identifier => .identifier
  | number => .literal
  | plus | minus | multiply | divide | assign | equal | notEqual | less | greater | lessEqual
  | greaterEqual => .operator
  | leftParen | rightParen | leftBrace | rightBrace | semicolon | leftBracket | rightBracket =>
    .punctuation
  | endOfFile => .special

end TokenKind

end YupFront
