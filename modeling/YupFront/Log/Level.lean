/-! How urgent an event is. -/

namespace YupFront

inductive Level where
  | error
  | warning
  | info
  | debug
deriving DecidableEq, Repr

namespace Level

def all : List Level := [error, warning, info, debug]

def name : Level → String
  | error => "ERROR"
  | warning => "WARN"
  | info => "INFO"
  | debug => "DEBUG"

def key : Level → String
  | error => "error"
  | warning => "warning"
  | info => "info"
  | debug => "debug"

/-- Zero for the most urgent. -/
def rank : Level → Nat
  | error => 0
  | warning => 1
  | info => 2
  | debug => 3

/-- Whether events of level `l` are kept when the least urgent level of interest is `least`. -/
def admits (least l : Level) : Bool :=
  l.rank ≤ least.rank

/-- Names, a short form and ranks, in any case. No character beyond ASCII has one of their letters
as its lower case, so the ASCII letters alone need folding. -/
def ofText? (text : String) : Option Level :=
  let folded := String.ofList (text.toList.map Char.toLower)
  if folded = "error" ∨ folded = "0" then some error
  else if folded = "warning" ∨ folded = "warn" ∨ folded = "1" then some warning
  else if folded = "info" ∨ folded = "2" then some info
  else if folded = "debug" ∨ folded = "3" then some debug
  else none

end Level

end YupFront
