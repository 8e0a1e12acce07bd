/-! The words of a JSON text: marks, literals, numbers and strings.
A number keeps its spelling. A string whose escapes leave half of a surrogate pair over has no
text, but a reader may still step over it. -/

namespace YupFront.Json

inductive Lexeme where
  | openArray
  | closeArray
  | openObject
  | closeObject
  | comma
  | colon
  | null
  | bool (b : Bool)
  | number (spelling : String)
  | string (text : Option String)
deriving DecidableEq, Repr

def isSpace (c : Char) : Bool :=
  c == ' ' || c == '\t' || c == '\n' || c == '\r'

/-! Writing. -/

def hexDigit (n : Nat) : Char :=
  if n < 10 then Char.ofNat ('0'.toNat + n) else Char.ofNat ('a'.toNat + (n - 10))

/-- Quotes, backslashes and control characters are escaped, all else stands for itself. -/
def escape (c : Char) : List Char :=
  if c = '"' then ['\\', '"']
  else if c = '\\' then ['\\', '\\']
  else if c = '\n' then ['\\', 'n']
  else if c = '\r' then ['\\', 'r']
  else if c = '\t' then ['\\', 't']
  else if c.toNat = 8 then ['\\', 'b']
  else if c.toNat = 12 then ['\\', 'f']
  else if c.toNat < 32 then ['\\', 'u', '0', '0', hexDigit (c.toNat / 16), hexDigit (c.toNat % 16)]
  else [c]

def quote (text : String) : String :=
  "\"" ++ String.ofList (text.toList.flatMap escape) ++ "\""

def Lexeme.write : Lexeme → String
  | openArray => "["
  | closeArray => "]"
  | openObject => String.singleton '{'
  | closeObject => String.singleton '}'
  | comma => ","
  | colon => ":"
  | null => "null"
  | bool true => "true"
  | bool false => "false"
  | number spelling => spelling
  | string (some text) => quote text
  | string none => "\"\\ud800\""

/-! Reading. -/

def hexValue? (c : Char) : Option Nat :=
  if '0' ≤ c ∧ c ≤ '9' then some (c.toNat - '0'.toNat)
  else if 'a' ≤ c ∧ c ≤ 'f' then some (c.toNat - 'a'.toNat + 10)
  else if 'A' ≤ c ∧ c ≤ 'F' then some (c.toNat - 'A'.toNat + 10)
  else none

def hexUnit? (a b c d : Char) : Option Nat := do
  let a ← hexValue? a
  let b ← hexValue? b
  let c ← hexValue? c
  let d ← hexValue? d
  return ((a * 16 + b) * 16 + c) * 16 + d

/-- The character a letter stands for behind a backslash. -/
def simpleEscape? (c : Char) : Option Char :=
  if c = '"' ∨ c = '\\' ∨ c = '/' then some c
  else if c = 'n' then some '\n'
  else if c = 'r' then some '\r'
  else if c = 't' then some '\t'
  else if c = 'b' then some (Char.ofNat 8)
  else if c = 'f' then some (Char.ofNat 12)
  else none

/-- What has been read of a string: its characters, newest first, a first half of a surrogate
pair that waits for its second, and whether every half so far has found its partner. -/
structure Partial where
  chars : List Char
  half : Option Nat
  whole : Bool

namespace Partial

def empty : Partial := ⟨[], none, true⟩

/-- A half that is followed by anything but its partner is lost. -/
def settled (p : Partial) : Partial :=
  match p.half with
  | none => p
  | some _ => { p with half := none, whole := false }

def char (p : Partial) (c : Char) : Partial :=
  let q := p.settled
  { q with chars := c :: q.chars }

def unit (p : Partial) (n : Nat) : Partial :=
  if 0xD800 ≤ n ∧ n < 0xDC00 then { p.settled with half := some n }
  else if 0xDC00 ≤ n ∧ n < 0xE000 then
    match p.half with
    | some high =>
      { p with chars := Char.ofNat (0x10000 + (high - 0xD800) * 0x400 + (n - 0xDC00)) :: p.chars,
               half := none }
    | none => { p with whole := false }
  else p.char (Char.ofNat n)

def text (p : Partial) : Option String :=
  let q := p.settled
  if q.whole then some (String.ofList q.chars.reverse) else none

end Partial

/-- Reads a string behind its opening quote, and gives what follows the closing one. -/
def readString (p : Partial) : List Char → Option (Option String × List Char)
  | [] => none
  | '"' :: rest => some (p.text, rest)
  | '\\' :: 'u' :: a :: b :: c :: d :: rest =>
    match hexUnit? a b c d with
    | some n => readString (p.unit n) rest
    | none => none
  | '\\' :: c :: rest =>
    match simpleEscape? c with
    | some e => readString (p.char e) rest
    | none => none
  | c :: rest => if c.toNat < 32 ∨ c = '\\' then none else readString (p.char c) rest

def isNumberChar (c : Char) : Bool :=
  c.isDigit || c == '-' || c == '+' || c == '.' || c == 'e' || c == 'E'

def dropDigits (cs : List Char) : List Char :=
  cs.dropWhile Char.isDigit

def someDigits? (cs : List Char) : Option (List Char) :=
  match cs with
  | c :: rest => if c.isDigit then some (dropDigits rest) else none
  | [] => none

/-- A whole part has no needless zero in front. -/
def wholePart? : List Char → Option (List Char)
  | '0' :: c :: rest => if c.isDigit then none else some (c :: rest)
  | cs => someDigits? cs

def fractionPart? : List Char → Option (List Char)
  | '.' :: rest => someDigits? rest
  | cs => some cs

def exponentPart? : List Char → Option (List Char)
  | 'e' :: '+' :: rest | 'e' :: '-' :: rest | 'E' :: '+' :: rest | 'E' :: '-' :: rest =>
    someDigits? rest
  | 'e' :: rest | 'E' :: rest => someDigits? rest
  | cs => some cs

def isNumber (cs : List Char) : Bool :=
  let unsigned := match cs with
    | '-' :: rest => rest
    | _ => cs
  ((wholePart? unsigned).bind fractionPart? |>.bind exponentPart?) == some []

def mark? (c : Char) : Option Lexeme :=
  if c = '[' then some .openArray
  else if c = ']' then some .closeArray
  else if c = '{' then some .openObject
  else if c = '}' then some .closeObject
  else if c = ',' then some .comma
  else if c = ':' then some .colon
  else none

def literal? : List Char → Option (Lexeme × List Char)
  | 'n' :: 'u' :: 'l' :: 'l' :: rest => some (.null, rest)
  | 't' :: 'r' :: 'u' :: 'e' :: rest => some (.bool true, rest)
  | 'f' :: 'a' :: 'l' :: 's' :: 'e' :: rest => some (.bool false, rest)
  | _ => none

def word? (c : Char) (cs : List Char) : Option (Lexeme × List Char) :=
  match mark? c with
  | some m => some (m, cs)
  | none =>
    if c = '"' then
      match readString .empty cs with
      | some (text, rest) => some (.string text, rest)
      | none => none
    else if isNumberChar c then
      let spelling := c :: cs.takeWhile isNumberChar
      if isNumber spelling then some (.number (String.ofList spelling), cs.dropWhile isNumberChar)
      else none
    else literal? (c :: cs)

theorem readString_length {p : Partial} {cs rest : List Char} {t : Option String}
    (h : readString p cs = some (t, rest)) : rest.length ≤ cs.length := by
  fun_induction readString p cs generalizing t rest <;> simp_all <;> grind

theorem literal?_length {c : Char} {cs rest : List Char} {w : Lexeme}
    (h : literal? (c :: cs) = some (w, rest)) : rest.length ≤ cs.length := by
  unfold literal? at h
  split at h <;> simp_all <;> grind

theorem word?_length {c : Char} {cs rest : List Char} {w : Lexeme}
    (h : word? c cs = some (w, rest)) : rest.length ≤ cs.length := by
  have hd : (cs.dropWhile isNumberChar).length ≤ cs.length :=
    (List.dropWhile_sublist _).length_le
  unfold word? at h
  split at h
  · simp_all
  · split at h
    · split at h
      · rename_i hr
        simp only [Option.some.injEq, Prod.mk.injEq] at h
        exact h.2 ▸ readString_length hr
      · simp at h
    · split at h
      · grind
      · exact literal?_length h

/-- The words of a text, behind those already found. -/
def words (done : List Lexeme) : List Char → Option (List Lexeme)
  | [] => some done.reverse
  | c :: cs =>
    if isSpace c then words done cs
    else
      match _h : word? c cs with
      | some (w, rest) => words (w :: done) rest
      | none => none
termination_by cs => cs.length
decreasing_by
  · simp
  · have := word?_length _h
    simp; omega

def lexemes? (text : String) : Option (List Lexeme) :=
  words [] text.toList

end YupFront.Json
