import YupFront.Toml.Scalar
import YupFront.Toml.Value

/-! Reading TOML, from characters to statements. A reader takes what it understands from the front
of the text; where it does not understand the text there is no document. Lines end in a newline. -/

namespace YupFront.Toml

abbrev Reader := StateT (List Char) Option

/-- How deep arrays and tables between braces may nest, and how many keys a path may have. -/
def nestingLimit : Nat := 79

namespace Reader

def isSpace (c : Char) : Bool := c == ' ' || c == '\t'

/-- Characters that may stand in comments and between quotes. -/
def isShown (c : Char) : Bool := c == '\t' || (' ' ≤ c && c != Char.ofNat 0x7F)

def skipWhile (p : Char → Bool) : Reader Unit := modify fun cs => cs.dropWhile p

def spaces : Reader Unit := skipWhile isSpace

def peek : Reader (Option Char) := do return (← get).head?

def expect (c : Char) : Reader Unit := do
  match ← get with
  | d :: rest => if c = d then set rest else failure
  | [] => failure

/-- Skips a comment, if there is one, up to the end of its line. -/
def comment : Reader Unit := do
  if (← peek) = some '#' then skipWhile isShown

/-- Skips what may follow a statement in its line, and the newline. -/
def endLine : Reader Unit := do
  spaces
  comment
  match ← get with
  | [] => return ()
  | '\n' :: rest => set rest
  | _ => failure

/-- Skips blank space, comments and newlines. -/
def skipLines : Nat → Reader Unit
  | 0 => failure
  | fuel + 1 => do
    skipWhile fun c => isSpace c || c == '\n'
    if (← peek) = some '#' then
      comment
      skipLines fuel
    else return ()

/-! Quotes. -/

def charOf? (digits : List Char) : Option Char :=
  if digits.all isHexDigit then
    let n := valueOf 16 digits
    if n.isValidChar then some (Char.ofNat n) else none
  else none

/-- The character behind a backslash, and what follows it. -/
def escape? : List Char → Option (Char × List Char)
  | 'b' :: rest => some (Char.ofNat 8, rest)
  | 't' :: rest => some ('\t', rest)
  | 'n' :: rest => some ('\n', rest)
  | 'f' :: rest => some (Char.ofNat 12, rest)
  | 'r' :: rest => some ('\r', rest)
  | '"' :: rest => some ('"', rest)
  | '\\' :: rest => some ('\\', rest)
  | 'u' :: a :: b :: c :: d :: rest => (charOf? [a, b, c, d]).map fun x => (x, rest)
  | 'U' :: a :: b :: c :: d :: e :: f :: g :: h :: rest =>
    (charOf? [a, b, c, d, e, f, g, h]).map fun x => (x, rest)
  | _ => none

/-- What is left between double quotes, behind characters already read. -/
def basicFrom : Nat → List Char → Reader String
  | 0, _ => failure
  | fuel + 1, done => do
    match ← get with
    | '"' :: rest =>
      set rest
      return String.ofList done.reverse
    | '\\' :: rest =>
      let (c, rest) ← escape? rest
      set rest
      basicFrom fuel (c :: done)
    | c :: rest =>
      if isShown c then
        set rest
        basicFrom fuel (c :: done)
      else failure
    | [] => failure

def literal : Reader String := do
  let text := (← get).takeWhile fun c => isShown c && c != '\''
  modify fun cs => cs.drop text.length
  expect '\''
  return String.ofList text

/-- What is left of a text of several lines between triple quotes. Up to two quotes in front of the
closing ones belong to the text. Between double quotes, a backslash at the end of a line removes
blank space up to the next visible character. -/
def linesFrom (quote : Char) : Nat → List Char → Reader String
  | 0, _ => failure
  | fuel + 1, done => do
    let cs ← get
    let quotes := (cs.takeWhile (· == quote)).length
    if 5 < quotes then failure
    else if 3 ≤ quotes then
      set (cs.drop quotes)
      return String.ofList (List.replicate (quotes - 3) quote ++ done).reverse
    else
      match cs with
      | [] => failure
      | c :: rest =>
        if quote = '"' ∧ c = '\\' then
          match escape? rest with
          | some (d, rest) =>
            set rest
            linesFrom quote fuel (d :: done)
          | none =>
            match rest.dropWhile isSpace with
            | '\n' :: rest =>
              set (rest.dropWhile fun c => isSpace c || c == '\n')
              linesFrom quote fuel done
            | _ => failure
        else if isShown c || c == '\n' then
          set rest
          linesFrom quote fuel (c :: done)
        else failure

/-- A text between quotes; a newline right behind triple quotes does not count. -/
def quotedText : Reader String := do
  let cs ← get
  match cs with
  | '"' :: '"' :: '"' :: rest =>
    set (if rest.head? = some '\n' then rest.tail else rest)
    linesFrom '"' (rest.length + 1) []
  | '\'' :: '\'' :: '\'' :: rest =>
    set (if rest.head? = some '\n' then rest.tail else rest)
    linesFrom '\'' (rest.length + 1) []
  | '"' :: rest =>
    set rest
    basicFrom (rest.length + 1) []
  | '\'' :: rest =>
    set rest
    literal
  | _ => failure

/-! Keys. -/

def isBare (c : Char) : Bool := c.isAlphanum || c == '_' || c == '-'

def simpleKey : Reader String := do
  match ← get with
  | '"' :: rest =>
    set rest
    basicFrom (rest.length + 1) []
  | '\'' :: rest =>
    set rest
    literal
  | cs =>
    let word := cs.takeWhile isBare
    if word.isEmpty then failure
    set (cs.drop word.length)
    return String.ofList word

/-- Keys with dots between them, behind those already read. -/
def pathFrom : Nat → List String → Reader (List String)
  | 0, _ => failure
  | fuel + 1, done => do
    spaces
    let key ← simpleKey
    spaces
    if (← peek) = some '.' then
      expect '.'
      pathFrom fuel (key :: done)
    else return (key :: done).reverse

def path : Reader (List String × String) := do
  let keys ← pathFrom nestingLimit []
  match keys.getLast? with
  | some key => return (keys.dropLast, key)
  | none => failure

/-! Values. -/

/-- Characters of words without quotes. -/
def isWord (c : Char) : Bool :=
  c.isAlphanum || c == '_' || c == '+' || c == '-' || c == '.' || c == ':'

/-- Two digits and a colon, as times begin. -/
def beginsTime : List Char → Bool
  | a :: b :: ':' :: _ => a.isDigit && b.isDigit
  | _ => false

/-- A number, a date or time, or one of the words for truth. A single blank may part a date from a
time. -/
def scalar : Reader Toml := do
  let cs ← get
  let word := cs.takeWhile isWord
  let rest := cs.drop word.length
  let text := String.ofList word
  if isDate word && rest.head? == some ' ' && beginsTime rest.tail then
    let time := rest.tail.takeWhile isWord
    if isTimeAndOffset time then
      set (rest.drop (time.length + 1))
      return .moment (text ++ " " ++ String.ofList time)
    else failure
  else
    set rest
    if text = "true" then return .bool true
    else if text = "false" then return .bool false
    else if isMoment word then return .moment text
    else if isFloat word then return .float text
    else
      let n ← integer? word
      return .integer n

def itemsFrom (item : Reader Toml) : Nat → List Toml → Reader (List Toml)
  | 0, _ => failure
  | fuel + 1, done => do
    skipLines (fuel + 1)
    if (← peek) = some ']' then
      expect ']'
      return done.reverse
    else
      let v ← item
      skipLines (fuel + 1)
      if (← peek) = some ',' then
        expect ','
        itemsFrom item fuel (v :: done)
      else
        expect ']'
        return (v :: done).reverse

def fieldsFrom (value : Reader Toml) : Nat → Fields → Reader Fields
  | 0, _ => failure
  | fuel + 1, fields => do
    let (keys, key) ← path
    expect '='
    spaces
    let v ← value
    spaces
    let fields ← assign? keys key v .inline fields
    if (← peek) = some ',' then
      expect ','
      fieldsFrom value fuel fields
    else
      expect '}'
      return fields

/-- A value with at most so many levels of arrays and tables. -/
def value : Nat → Reader Toml
  | 0 => do
    match ← peek with
    | some '"' | some '\'' => return .text (← quotedText)
    | some '[' | some '{' => failure
    | _ => scalar
  | level + 1 => do
    match ← get with
    | '"' :: _ | '\'' :: _ => return .text (← quotedText)
    | '[' :: rest =>
      set rest
      return .array (← itemsFrom (value level) (rest.length + 1) [])
    | '{' :: rest =>
      set rest
      spaces
      if (← peek) = some '}' then
        expect '}'
        return .table .inline []
      else return .table .inline (← fieldsFrom (value level) (rest.length + 1) [])
    | _ => scalar

end Reader

end YupFront.Toml
