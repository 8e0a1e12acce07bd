/-! How a computation on bounded numbers can break down.
Offsets have 64 bits, line and column numbers 32; a result that does not fit ends the
computation, and so does a piece of a text that goes beyond it or begins or ends in a character, or a
range of a sequence that ends behind it. -/

namespace YupFront

inductive Fault where
  | sumTooLarge
  | differenceNegative
  | spanReversed
  | pieceMisplaced
  | rangeBeyondEnd (stop size : Nat)
deriving DecidableEq, Repr

def Fault.message : Fault → String
  | .sumTooLarge => "attempt to add with overflow"
  | .differenceNegative => "attempt to subtract with overflow"
  | .spanReversed => "Span start must not be after end"
  | .pieceMisplaced => "byte index is not a char boundary"
  | .rangeBeyondEnd stop size =>
    "range end index " ++ stop.repr ++ " out of range for slice of length " ++ size.repr

/-- Offsets and counts are below this. -/
def offsetBound : Nat := Nat.pow 2 64

/-- Line and column numbers are below this. -/
def lineBound : Nat := Nat.pow 2 32

theorem four_mul_lineBound_le : 4 * lineBound ≤ offsetBound := by decide

def addOffset (a b : Nat) : Except Fault Nat :=
  if a + b < offsetBound then .ok (a + b) else .error .sumTooLarge

def subtract (a b : Nat) : Except Fault Nat :=
  if b ≤ a then .ok (a - b) else .error .differenceNegative

theorem addOffset_eq_ok {a b : Nat} (h : a + b < offsetBound) : addOffset a b = .ok (a + b) := by
  simp [addOffset, h]

theorem subtract_eq_ok {a b : Nat} (h : b ≤ a) : subtract a b = .ok (a - b) := by
  simp [subtract, h]

end YupFront
