import YupFront.Limits
import YupFront.Token.Basic

/-! Counting tokens. -/

namespace YupFront

/-- How often kinds have been met, in the order of first meetings. -/
abbrev KindCounts := List (TokenKind × Nat)

namespace KindCounts

def add (k : TokenKind) : KindCounts → KindCounts
  | [] => [(k, 1)]
  | (j, n) :: rest => if j = k then (j, n + 1) :: rest else (j, n) :: add k rest

def count (k : TokenKind) (counts : KindCounts) : Nat :=
  (counts.lookup k).getD 0

end KindCounts

structure Metrics where
  total : Nat
  keywords : Nat
  identifiers : Nat
  numbers : Nat
  operators : Nat
  punctuation : Nat
  longestRun : Nat
  /-- Runs long enough for a warning. -/
  longRuns : Nat
  characters : Nat
  kinds : KindCounts
deriving DecidableEq, Repr

/-- Runs are told from symbols by their first character. -/
def Token.isRun (t : Token) : Bool :=
  t.text.toList.head?.any isPlain

/-- Number of characters, as the ends tell. -/
def Token.width (t : Token) : Nat := t.last + 1 - t.first

namespace Metrics

def zero : Metrics := ⟨0, 0, 0, 0, 0, 0, 0, 0, 0, []⟩

def addClass (m : Metrics) : TokenClass → Metrics
  | .keyword => { m with keywords := m.keywords + 1 }
  | .identifier => { m with identifiers := m.identifiers + 1 }
  | .literal => { m with numbers := m.numbers + 1 }
  | .operator => { m with operators := m.operators + 1 }
  | .punctuation => { m with punctuation := m.punctuation + 1 }
  | .special => m

def addRun (m : Metrics) (width : Nat) : Metrics :=
  { m with
    longestRun := max m.longestRun width
    longRuns := if Limits.longRun < width then m.longRuns + 1 else m.longRuns }

/-- Counts a token, but not as a run. -/
def addToken (countKinds : Bool) (m : Metrics) (t : Token) : Metrics :=
  let m := { m with total := m.total + 1 }.addClass t.kind.tokenClass
  if countKinds then { m with kinds := KindCounts.add t.kind m.kinds } else m

def add (countKinds : Bool) (m : Metrics) (t : Token) : Metrics :=
  let m := { m with total := m.total + 1 }.addClass t.kind.tokenClass
  let m := if t.isRun then m.addRun t.width else m
  if countKinds then { m with kinds := KindCounts.add t.kind m.kinds } else m

def ofTokens (countKinds : Bool) (characters : Nat) (ts : List Token) : Metrics :=
  ts.foldl (add countKinds) { zero with characters }

end Metrics

end YupFront
