/-! The shortest decimal that reads back as a given binary number with 64 bits. -/

namespace YupFront.Decimal

/-- A finite positive number `significand * 2 ^ (exponent - 1074)`, with the interval of reals that
round to it given in quarters of its last place. -/
structure Binary where
  significand : Nat
  exponent : Nat
  below : Nat
deriving DecidableEq, Repr

namespace Binary

/-- The number with given exponent and fraction fields, if it is finite and not zero. -/
def ofFields? (exponent fraction : Nat) : Option Binary :=
  if exponent = 2047 then none
  else if exponent = 0 then
    if fraction = 0 then none else some ⟨fraction, 0, 2⟩
  else if fraction = 0 ∧ 1 < exponent then some ⟨Nat.pow 2 52, exponent - 1, 1⟩
  else some ⟨Nat.pow 2 52 + fraction, exponent - 1, 2⟩

/-- Compares `a` quarters of the last place with `b * 10 ^ power`. -/
def compareQuarters (x : Binary) (a b : Nat) (power : Int) : Ordering :=
  let scaled := a * Nat.pow 2 x.exponent
  let unit := Nat.pow 2 1076
  match power with
  | .ofNat p => compare scaled (b * Nat.pow 10 p * unit)
  | .negSucc p => compare (scaled * Nat.pow 10 (p + 1)) (b * unit)

/-- Whether `b * 10 ^ power` rounds to the number. -/
def readsBack (x : Binary) (b : Nat) (power : Int) : Bool :=
  let low := x.compareQuarters (4 * x.significand - x.below) b power
  let high := x.compareQuarters (4 * x.significand + 2) b power
  if x.significand % 2 = 0 then low != .gt && high != .lt else low == .lt && high == .gt

/-- The multiple of `10 ^ power` at or below the number. -/
def floorAt (x : Binary) (power : Int) : Nat :=
  let scaled := x.significand * Nat.pow 2 x.exponent
  let unit := Nat.pow 2 1074
  match power with
  | .ofNat p => scaled / (unit * Nat.pow 10 p)
  | .negSucc p => scaled * Nat.pow 10 (p + 1) / unit

/-- The neighbour on the grid of `10 ^ power` that reads back, the nearer one if both do and the
even one if both are equally near. -/
def onGrid? (x : Binary) (power : Int) : Option Nat :=
  let low := x.floorAt power
  match x.readsBack low power, x.readsBack (low + 1) power with
  | true, false => some low
  | false, true => some (low + 1)
  | false, false => none
  | true, true =>
    match x.compareQuarters (8 * x.significand) (2 * low + 1) power with
    | .lt => some low
    | .gt => some (low + 1)
    | .eq => some (if low % 2 = 0 then low else low + 1)

def leading (x : Binary) : Int :=
  let whole := x.floorAt 0
  if 0 < whole then ((Nat.toDigits 10 whole).length : Int) - 1
  else
    let shifted := x.floorAt (-340)
    ((Nat.toDigits 10 shifted).length : Int) - 341

/-- Digits and the power of ten of the last one, on the coarsest grid that has a hit. The search
begins one place above the leading digit, because the next power of ten may read back. -/
def shortest (x : Binary) : Nat × Int :=
  let top := x.leading + 1
  let hit := (List.range 18).findSome? fun (k : Nat) =>
    (x.onGrid? (top - k)).map fun digits => (digits, top - (k : Int))
  hit.getD (x.floorAt (top - 18), top - 18)

end Binary

/-- A decimal is written out if its leading digit is at one of the places from `10 ^ -5` to
`10 ^ 15`, with at least one digit behind the point, and otherwise with an exponent, which has a
sign in both directions. -/
def layOut (digits : Nat) (power : Int) : String :=
  let spelled := Nat.toDigits 10 digits
  let place := (spelled.length : Int) + power
  if 0 ≤ power ∧ place ≤ 16 then
    String.ofList (spelled ++ List.replicate power.toNat '0' ++ ['.', '0'])
  else if 0 < place ∧ place ≤ 16 then
    String.ofList (spelled.take place.toNat ++ ['.'] ++ spelled.drop place.toNat)
  else if -5 < place ∧ place ≤ 0 then
    String.ofList (['0', '.'] ++ List.replicate (-place).toNat '0' ++ spelled)
  else
    let exponent := "e" ++ (if place < 1 then "-" else "+") ++ (place - 1).natAbs.repr
    match spelled with
    | [d] => String.ofList [d] ++ exponent
    | d :: ds => String.ofList (d :: '.' :: ds) ++ exponent
    | [] => exponent

/-- The spelling of a finite number, or `none` for an infinite one and for none at all. -/
def spell? (x : Float) : Option String :=
  let bits := x.toBits.toNat
  let sign := if Nat.pow 2 63 ≤ bits then "-" else ""
  let exponent := bits / Nat.pow 2 52 % Nat.pow 2 11
  let fraction := bits % Nat.pow 2 52
  if exponent = 2047 then none
  else
    match Binary.ofFields? exponent fraction with
    | some b => let (digits, power) := b.shortest
      some (sign ++ layOut digits power)
    | none => some (sign ++ "0.0")

end YupFront.Decimal
