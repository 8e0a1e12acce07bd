import YupFront.Text.Flips

/-! Characters that leave a blank on the page. -/

namespace YupFront.Text

def blankFlips : List Nat :=
  [9, 14, 32, 33, 133, 134, 160, 161, 5760, 5761, 8192, 8203, 8232, 8234, 8239, 8240, 8287, 8288,
    12288, 12289]

def isBlank (c : Char) : Bool := inside blankFlips c

/-- Whether a text has no visible character. -/
def isBlankText (text : String) : Bool := text.toList.all isBlank

end YupFront.Text
