import YupFront.Token.Kind

/-! Which characters separate, which stand alone, and which kind a finished word has.
A word is a reserved word, a symbol, an integer or, failing these, an identifier. -/

namespace YupFront

/-- Characters between tokens. A tab is not one of them. -/
def isSeparator (c : Char) : Bool :=
  c == ' ' || c == '\n' || c == '\r'

/-- Characters that always are a token of their own. -/
def isPunctuation (c : Char) : Bool :=
  c == '(' || c == ')' || c == '{' || c == '}' || c == ';' || c == '[' || c == ']'

/-- Characters that begin an operator. -/
def isOperatorLead (c : Char) : Bool :=
  c == '=' || c == '<' || c == '>' || c == '!' || c == '+' || c == '-' || c == '*' || c == '/'

/-- Characters that runs are made of. -/
def isPlain (c : Char) : Bool :=
  !isSeparator c && !isPunctuation c && !isOperatorLead c

/-- Only `==`, `>=`, `<=` and `!=` are operators of two characters. -/
def combines (lead next : Char) : Bool :=
  next == '=' && (lead == '=' || lead == '>' || lead == '<' || lead == '!')

def symbolTable : List (String × TokenKind) :=
  [("(", .leftParen), (")", .rightParen), (String.singleton '{', .leftBrace),
    (String.singleton '}', .rightBrace), ("[", .leftBracket), ("]", .rightBracket),
    (";", .semicolon), ("=", .assign), ("+", .plus), ("-", .minus), ("*", .multiply),
    ("/", .divide), ("==", .equal), ("!=", .notEqual), (">", .greater), (">=", .greaterEqual),
    ("<", .less), ("<=", .lessEqual)]

def symbolKind? (text : String) : Option TokenKind :=
  symbolTable.lookup text

def digitsValue (digits : List Char) : Nat :=
  digits.foldl (fun n c => 10 * n + (c.toNat - '0'.toNat)) 0

/-- Whether digits spell a number up to `limit`, which has at most ten digits. -/
def digitsWithin (limit : Nat) (digits : List Char) : Bool :=
  let significant := digits.dropWhile (· == '0')
  !digits.isEmpty && digits.all Char.isDigit && significant.length ≤ 10 &&
    digitsValue significant ≤ limit

/-- An optional sign and digits whose value has 32 bits with sign. -/
def isInteger (text : String) : Bool :=
  match text.toList with
  | '-' :: digits => digitsWithin (Nat.pow 2 31) digits
  | '+' :: digits => digitsWithin (Nat.pow 2 31 - 1) digits
  | digits => digitsWithin (Nat.pow 2 31 - 1) digits

def classify (text : String) : TokenKind :=
  match Keyword.ofText? text with
  | some k => .keyword k
  | none =>
    match symbolKind? text with
    | some k => k
    | none => if isInteger text then .number else .identifier

end YupFront
