import YupFront.Decimal.Rounding
import YupFront.Limits
import YupFront.Text.LowerCase

/-! What is known about a source file. -/

namespace YupFront

/-- A size in the largest unit that leaves a number from 1 on, with two decimal places. Sizes are
held with 53 binary digits. -/
def humanSize (bytes : Nat) : String :=
  let n := Decimal.roundBits 53 bytes
  if n < 1024 then bytes.repr ++ " B"
  else if n < Nat.pow 1024 2 then Decimal.hundredths n 1024 ++ " KB"
  else if n < Nat.pow 1024 3 then Decimal.hundredths n (Nat.pow 1024 2) ++ " MB"
  else Decimal.hundredths n (Nat.pow 1024 3) ++ " GB"

def sourceExtension : String := "yup"

/-- What follows the last dot of a file name, unless the name begins with that dot. -/
def extension? (name : String) : Option String :=
  let reversed := name.toList.reverse
  match reversed.dropWhile (· != '.') with
  | [] | [_] => none
  | _ => some (String.ofList (reversed.takeWhile (· != '.')).reverse)

structure FileMetadata where
  /-- The location without detours. -/
  path : String
  size : Nat
  /-- In lower case. -/
  extension : Option String
  lineCount : Nat
deriving DecidableEq, Repr

namespace FileMetadata

def isSource (m : FileMetadata) : Bool := m.extension == some sourceExtension

def isLarge (m : FileMetadata) : Bool := Limits.largeInput < m.size

def isWithinLines (m : FileMetadata) : Bool := m.lineCount ≤ Limits.lineCount

def shownExtension (m : FileMetadata) : String := m.extension.getD "none"

end FileMetadata

end YupFront
