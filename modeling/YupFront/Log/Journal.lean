import YupFront.Limits
import YupFront.Log.Event
import YupFront.Text.Slice

/-! The journal that a run writes: events in order, each marked with the file in hand.
Code that logs is a function of the journal; nothing it returns depends on what is written. -/

namespace YupFront

structure FileContext where
  path : String
  id : Nat
deriving DecidableEq, Repr

/-- A message, or as much of the beginning of it as may be logged. -/
def clip (message : String) : Except Fault String :=
  if message.utf8ByteSize ≤ Limits.messageBytes then .ok message
  else
    match Text.boundaryBefore message Limits.messageBytes with
    | .ok stop => Text.slice message 0 stop
    | .error f => .error f

theorem clip_ne_error (message : String) (f : Fault) : clip message ≠ .error f := by
  unfold clip
  split
  · nofun
  · obtain ⟨stop, hstop, -, hboundary, -⟩ :=
      Text.exists_boundaryBefore message Limits.messageBytes
    obtain ⟨piece, hpiece, -⟩ :=
      Text.slice_eq_ok (Nat.zero_le stop) (Text.isBoundary_zero message) hboundary
    simp [hstop, hpiece]

def truncate (message : String) : String :=
  match h : clip message with
  | .ok clipped => clipped
  | .error f => absurd h (clip_ne_error message f)

theorem clip_eq_truncate (message : String) : clip message = .ok (truncate message) := by
  unfold truncate
  split
  · assumption
  · next f h => exact absurd h (clip_ne_error message f)

/-- The newest event comes first. -/
structure Journal where
  marksFile : Bool
  file : Option FileContext
  events : List Event

namespace Journal

def empty (marksFile : Bool) : Journal := ⟨marksFile, none, []⟩

def write (j : Journal) (e : Event) : Journal := { j with events := e :: j.events }

def fileKeys (j : Journal) : List (String × String) :=
  match j.marksFile, j.file with
  | true, some file => [("file", file.path), ("file_id", file.id.repr)]
  | _, _ => []

/-- An event with a message of bounded length and the file in hand. -/
def mark (j : Journal) (e : Event) : Event :=
  { e with message := truncate e.message }.withKeys j.fileKeys

def toList (j : Journal) : List Event := j.events.reverse

end Journal

abbrev Logging := StateM Journal

def log (e : Event) : Logging Unit :=
  modify fun j => j.write (j.mark e)

def logAll (es : List Event) : Logging Unit :=
  modify fun j => es.foldl (fun j e => j.write (j.mark e)) j

def logPlain (e : Event) : Logging Unit :=
  modify fun j => j.write e

def setFile (file : FileContext) : Logging Unit :=
  modify fun j => { j with file := some file }

/-- Runs `body` with a file in hand; afterwards the one from before is in hand again. -/
def withFile (file : FileContext) (body : Logging α) : Logging α := do
  let before := (← get).file
  setFile file
  let result ← body
  modify fun j => { j with file := before }
  return result

end YupFront
