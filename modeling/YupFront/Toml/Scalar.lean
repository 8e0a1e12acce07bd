import YupFront.Fault

/-! The words of TOML that are not between quotes: numbers, dates and times. -/

namespace YupFront.Toml

/-- Digits, with single underscores between them. -/
def isGrouped (isDigit : Char → Bool) : List Char → Bool
  | [] => false
  | [c] => isDigit c
  | c :: '_' :: cs => isDigit c && isGrouped isDigit cs
  | c :: cs => isDigit c && isGrouped isDigit cs

def isHexDigit (c : Char) : Bool :=
  c.isDigit || ('a' ≤ c && c ≤ 'f') || ('A' ≤ c && c ≤ 'F')

def isOctalDigit (c : Char) : Bool := '0' ≤ c && c ≤ '7'

def isBinaryDigit (c : Char) : Bool := c == '0' || c == '1'

def hexValue (c : Char) : Nat :=
  if c.isDigit then c.toNat - '0'.toNat
  else if 'a' ≤ c then c.toNat - 'a'.toNat + 10
  else c.toNat - 'A'.toNat + 10

/-- The number that digits spell; underscores count for nothing. -/
def valueOf (base : Nat) (cs : List Char) : Nat :=
  (cs.filter (· != '_')).foldl (fun n c => base * n + hexValue c) 0

/-- Whether there is a minus sign, and what follows the sign. -/
def splitSign : List Char → Bool × List Char
  | '-' :: cs => (true, cs)
  | '+' :: cs => (false, cs)
  | cs => (false, cs)

/-- Decimal digits without a superfluous zero in front. -/
def isDecimal (cs : List Char) : Bool :=
  isGrouped Char.isDigit cs && (cs.head? != some '0' || cs == ['0'])

/-- A whole number with 64 bits. Only decimal numbers have a sign. -/
def integer? (word : List Char) : Option Int :=
  let positive (isDigit : Char → Bool) (base : Nat) (cs : List Char) : Option Int :=
    if isGrouped isDigit cs && valueOf base cs < Nat.pow 2 63 then some (valueOf base cs) else none
  match word with
  | '0' :: 'x' :: cs => positive isHexDigit 16 cs
  | '0' :: 'o' :: cs => positive isOctalDigit 8 cs
  | '0' :: 'b' :: cs => positive isBinaryDigit 2 cs
  | _ =>
    let (negative, cs) := splitSign word
    if isDecimal cs then
      let n := valueOf 10 cs
      if negative then if n ≤ Nat.pow 2 63 then some (-n) else none
      else if n < Nat.pow 2 63 then some n else none
    else none

def isExponentMark (c : Char) : Bool := c == 'e' || c == 'E'

/-- Whether a decimal number is beyond what has 64 binary digits: `digits * 10 ^ power` is at least
halfway from the largest to the next one that would follow. -/
def isTooLarge (digits : List Char) (power : Int) : Bool :=
  let digits := digits.dropWhile (· == '0')
  let magnitude : Int := digits.length + power
  if digits.isEmpty || magnitude < 300 then false
  else if 320 < magnitude then true
  else
    let bound := Nat.pow 2 1024 - Nat.pow 2 970
    if 0 ≤ power then bound ≤ valueOf 10 digits * Nat.pow 10 power.toNat
    else bound * Nat.pow 10 power.natAbs ≤ valueOf 10 digits

/-- A number with a fraction or an exponent. Too large a number has no value, unless it is
negative. -/
def isFloat (word : List Char) : Bool :=
  let (negative, body) := splitSign word
  if body == ['i', 'n', 'f'] || body == ['n', 'a', 'n'] then true
  else
    let whole := body.takeWhile fun c => c != '.' && !isExponentMark c
    let rest := body.dropWhile fun c => c != '.' && !isExponentMark c
    let fraction :=
      if rest.head? == some '.' then rest.tail.takeWhile fun c => !isExponentMark c else []
    let exponent := (rest.dropWhile fun c => !isExponentMark c)
    let (down, power) := splitSign exponent.tail
    isDecimal whole && !rest.isEmpty &&
      (rest.head? != some '.' || isGrouped Char.isDigit fraction) &&
      (exponent.isEmpty || isGrouped Char.isDigit power) &&
      (negative || !isTooLarge ((whole ++ fraction).filter (· != '_'))
        ((if down then -(valueOf 10 power : Int) else valueOf 10 power) -
          (fraction.filter (· != '_')).length))

def pair? (a b : Char) : Option Nat :=
  if a.isDigit && b.isDigit then some (valueOf 10 [a, b]) else none

def daysIn (year month : Nat) : Nat :=
  if month = 2 then
    if year % 4 = 0 ∧ (year % 100 ≠ 0 ∨ year % 400 = 0) then 29 else 28
  else if month = 4 ∨ month = 6 ∨ month = 9 ∨ month = 11 then 30
  else 31

/-- What follows a date at the beginning of a word. -/
def afterDate? : List Char → Option (List Char)
  | a :: b :: c :: d :: '-' :: m :: n :: '-' :: x :: y :: rest => do
    let century ← pair? a b
    let year := 100 * century + (← pair? c d)
    let month ← pair? m n
    let day ← pair? x y
    if 1 ≤ month ∧ month ≤ 12 ∧ 1 ≤ day ∧ day ≤ daysIn year month then some rest else none
  | _ => none

/-- What follows a time of day at the beginning of a word. -/
def afterTime? : List Char → Option (List Char)
  | a :: b :: ':' :: c :: d :: ':' :: e :: f :: rest => do
    let hour ← pair? a b
    let minute ← pair? c d
    let second ← pair? e f
    if hour ≤ 23 ∧ minute ≤ 59 ∧ second ≤ 60 then
      match rest with
      | '.' :: digits =>
        if digits.head?.any Char.isDigit then some (digits.dropWhile Char.isDigit) else none
      | _ => some rest
    else none
  | _ => none

def isOffset : List Char → Bool
  | [] => true
  | [c] => c == 'Z' || c == 'z'
  | [sign, a, b, ':', c, d] =>
    (sign == '+' || sign == '-') && (pair? a b).any (· ≤ 23) && (pair? c d).any (· ≤ 59)
  | _ => false

/-- A time of day, perhaps with its distance to world time. -/
def isTimeAndOffset (word : List Char) : Bool := (afterTime? word).any isOffset

def isDate (word : List Char) : Bool := afterDate? word == some []

/-- A date, a time of day, or both with a `T` between them. -/
def isMoment (word : List Char) : Bool :=
  match afterDate? word with
  | some [] => true
  | some (c :: rest) => (c == 'T' || c == 't') && isTimeAndOffset rest
  | none => afterTime? word == some []

end YupFront.Toml
