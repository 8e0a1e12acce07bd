/-! Rounding quotients of natural numbers to the nearest one, a half to the even neighbour. -/

namespace YupFront.Decimal

/-- `num / den` to the nearest natural number, a half to the even one. -/
def roundEven (num den : Nat) : Nat :=
  let q := num / den
  let r := num % den
  if 2 * r < den then q
  else if den < 2 * r then q + 1
  else if q % 2 = 0 then q else q + 1

/-- The number nearest to `n` among those with `bits` significant binary digits. -/
def roundBits (bits n : Nat) : Nat :=
  let excess := n.log2 + 1 - bits
  roundEven n (Nat.pow 2 excess) * Nat.pow 2 excess

def hundredths (num den : Nat) : String :=
  let h := roundEven (100 * num) den
  (h / 100).repr ++ "." ++ (h / 10 % 10).repr ++ (h % 10).repr

end YupFront.Decimal
