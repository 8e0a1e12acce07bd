import YupFront.Log.Journal

/-! A gate that lets one run in at a time. Who finds it busy is turned away at once. -/

namespace YupFront

structure Gate where
  busy : Bool
deriving DecidableEq, Repr

namespace Gate

def new : Gate := ⟨false⟩

/-- The gate behind someone who was let in. -/
def enter? (g : Gate) : Option Gate :=
  if g.busy then none else some ⟨true⟩

def leave (_ : Gate) : Gate := ⟨false⟩

/-- Lets a run in, or turns it away and logs that. The run is handed the gate, and gives it back
together with its result. -/
def process (g : Gate) (body : Gate → Logging (α × Gate)) : Logging (Option α × Gate) := do
  match g.enter? with
  | none =>
    log (Event.warning .requestDropped "Processing request dropped; a run is already active")
    return (none, g)
  | some inside =>
    let (result, after) ← body inside
    return (some result, after.leave)

end Gate

end YupFront
