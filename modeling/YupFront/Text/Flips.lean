/-! Sets of characters as lists of the code points at which membership changes. -/

namespace YupFront.Text

/-- Whether `n` is inside, having been inside or not at the beginning of the list. -/
def insideFrom (state : Bool) (n : Nat) : List Nat → Bool
  | [] => state
  | flip :: flips => if n < flip then state else insideFrom (!state) n flips

/-- Whether a character is in the set that a list in ascending order describes. -/
def inside (flips : List Nat) (c : Char) : Bool :=
  insideFrom false c.toNat flips

end YupFront.Text
