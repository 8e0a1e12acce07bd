import YupFront.Decimal.Shortest
import YupFront.Json.Decode

/-! JSON numbers as binary numbers with 64 bits.
Reading keeps as many leading digits as fit in 64 bits and scales them by one power of ten. -/

namespace YupFront.Json

/-- A number is spelled with as few digits as read back; what is not finite is `null`. -/
def real (x : Float) : Json :=
  match Decimal.spell? x with
  | some spelling => .number spelling
  | none => .null

/-- Leading digits, behind `kept`, as long as they fit in 64 bits, and how many are left over. -/
def keepDigits (kept : Nat) : List Char → Nat × Nat
  | [] => (kept, 0)
  | c :: cs =>
    let next := 10 * kept + (c.toNat - '0'.toNat)
    if next < offsetBound then keepDigits next cs else (kept, (c :: cs).length)

/-- Scales by a power of ten, in steps of what has a power of its own; `none` if that is too
large. -/
def scale? : Nat → Float → Int → Option Float
  | 0, _, _ => none
  | fuel + 1, x, power =>
    if power.natAbs ≤ 308 then
      let factor := Float.ofScientific 1 false power.natAbs
      if 0 ≤ power then
        let y := x * factor
        if y.isInf then none else some y
      else some (x / factor)
    else if x == 0.0 then some x
    else if 0 ≤ power then none
    else scale? fuel (x / 1e308) (power + 308)

def exponentOf : List Char → Bool × List Char
  | '-' :: digits => (true, digits)
  | '+' :: digits => (false, digits)
  | digits => (false, digits)

def isExponentMark (c : Char) : Bool :=
  c == 'e' || c == 'E'

/-- The number with a given spelling, or `none` if it is too large. -/
def realOf? (spelling : String) : Option Float :=
  let cs := spelling.toList
  let negative := cs.head? == some '-'
  let unsigned := if negative then cs.tail else cs
  let whole := unsigned.takeWhile Char.isDigit
  let afterWhole := unsigned.dropWhile Char.isDigit
  let (kept, surplus) := keepDigits 0 whole
  let fraction :=
    if afterWhole.head? == some '.' then afterWhole.tail.takeWhile Char.isDigit else []
  let (significand, unread) := keepDigits kept fraction
  let power : Int := surplus - (fraction.length - unread : Nat)
  let written := (afterWhole.dropWhile fun c => !isExponentMark c).tail
  let (down, digits) := exponentOf written
  let exponent : Int := digits.foldl (fun n c => 10 * n + ((c.toNat : Int) - '0'.toNat)) 0
  let unsigned? :=
    if Nat.pow 2 31 ≤ exponent then
      if significand ≠ 0 ∧ !down then none else some 0.0
    else
      let total := power + (if down then -exponent else exponent)
      scale? (total.natAbs / 308 + 2) (Float.ofNat significand) total
  unsigned?.map fun x => if negative then -x else x

def real? : Json → Option Float
  | .number spelling => realOf? spelling
  | _ => none

end YupFront.Json
