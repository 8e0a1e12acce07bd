import YupFront.Pipeline.Gate

/-! Clients that share a gate. Each does what its plan says and goes on by what becomes of it; they take
turns in any order, and in a turn the gate is looked at and set once at most. -/

namespace YupFront

/-- How code ends. -/
inductive Ending where
  | returned
  | unwound
deriving DecidableEq

inductive Plan where
  | done (ending : Ending)
  /-- Asks to run `body`; `next` is told how it ended, or nothing if it was turned away. -/
  | request (body : Plan) (next : Option Ending → Plan)
  /-- Asks for a guard, to keep it. -/
  | enter (next : Bool → Plan)
  /-- Drops the guard that it has got last, if it keeps one. -/
  | drop (next : Plan)

/-- What a guard is there for: to be kept, or for a body that has been let in, runs or has ended. -/
inductive Use where
  | kept
  | admitted
  | running
  | ended (ending : Ending)
deriving DecidableEq

/-- Every guard has a number of its own. -/
structure Guard where
  number : Nat
  use : Use
deriving DecidableEq

/-- A body that is not left yet: the number of its guard, and what follows it. -/
structure Frame where
  number : Nat
  next : Option Ending → Plan

/-- Where a client is in its plan, with the bodies around it. -/
inductive Stage where
  | running (plan : Plan) (outer : List Frame)
  /-- Let in; the body has not begun. -/
  | admitted (body : Plan) (frame : Frame) (outer : List Frame)
  /-- The body has ended; its guard is not dropped yet. -/
  | ended (ending : Ending) (frame : Frame) (outer : List Frame)

structure Client where
  stage : Stage
  /-- The numbers of the guards that it keeps. -/
  kept : List Nat

/-- What can be told of a turn. -/
inductive Happening where
  | refused
  | entered (number : Nat)
  | dropped (number : Nat)
  | admitted (number : Nat)
  | began (number : Nat)
  | ended (number : Nat) (ending : Ending)
  | released (number : Nat)
deriving DecidableEq

structure Turn where
  gate : Gate
  client : Client
  told : List Happening

/-- The next turn of a client, unless it has come to its end. `number` is for a guard that it may get.
A client that has come to its end drops what it has kept. -/
def Client.turn? (c : Client) (g : Gate) (number : Nat) : Option Turn :=
  match c.stage with
  | .running (.done _) [] =>
    match c.kept with
    | [] => none
    | k :: kept => some ⟨g.leave, ⟨c.stage, kept⟩, [.dropped k]⟩
  | .running (.done ending) (frame :: outer) =>
    some ⟨g, ⟨.ended ending frame outer, c.kept⟩, [.ended frame.number ending]⟩
  | .running (.request body next) outer =>
    match g.enter? with
    | some inside =>
      some ⟨inside, ⟨.admitted body ⟨number, next⟩ outer, c.kept⟩, [.admitted number]⟩
    | none => some ⟨g, ⟨.running (next none) outer, c.kept⟩, [.refused]⟩
  | .running (.enter next) outer =>
    match g.enter? with
    | some inside => some ⟨inside, ⟨.running (next true) outer, number :: c.kept⟩, [.entered number]⟩
    | none => some ⟨g, ⟨.running (next false) outer, c.kept⟩, [.refused]⟩
  | .running (.drop next) outer =>
    match c.kept with
    | [] => some ⟨g, ⟨.running next outer, []⟩, []⟩
    | k :: kept => some ⟨g.leave, ⟨.running next outer, kept⟩, [.dropped k]⟩
  | .admitted body frame outer =>
    some ⟨g, ⟨.running body (frame :: outer), c.kept⟩, [.began frame.number]⟩
  | .ended ending frame outer =>
    some ⟨g.leave, ⟨.running (frame.next (some ending)) outer, c.kept⟩, [.released frame.number]⟩

namespace Stage

/-- The guards of the bodies around a stage, innermost first. -/
def guards : Stage → List Guard
  | running _ outer => outer.map fun f => ⟨f.number, .running⟩
  | admitted _ frame outer => ⟨frame.number, .admitted⟩ :: outer.map fun f => ⟨f.number, .running⟩
  | ended ending frame outer =>
    ⟨frame.number, .ended ending⟩ :: outer.map fun f => ⟨f.number, .running⟩

end Stage

def Client.guards (c : Client) : List Guard :=
  c.stage.guards ++ c.kept.map fun k => ⟨k, .kept⟩

/-- Whether the next turn is a request or an attempt to enter. -/
def Client.Asks (c : Client) : Prop :=
  ∃ outer, (∃ body next, c.stage = .running (.request body next) outer) ∨
    ∃ next, c.stage = .running (.enter next) outer

structure System where
  gate : Gate
  clients : List Client
  /-- How many guards there have been. -/
  issued : Nat
  history : List Happening

namespace System

/-- Nobody has taken a turn, and the gate is new. -/
def start (plans : List Plan) : System where
  gate := .new
  clients := plans.map fun plan => ⟨.running plan [], []⟩
  issued := 0
  history := []

def guards (s : System) : List Guard := s.clients.flatMap Client.guards

/-- Whether a happening comes with a new guard. -/
def grants : Happening → Bool
  | .entered _ | .admitted _ => true
  | _ => false

/-- The client with index `i` takes its turn, if there is one. -/
def step (s : System) (i : Nat) : System :=
  match s.clients[i]? with
  | none => s
  | some c =>
    match c.turn? s.gate s.issued with
    | none => s
    | some t =>
      ⟨t.gate, s.clients.set i t.client, s.issued + t.told.countP grants, s.history ++ t.told⟩

/-- Clients take turns as a schedule says. -/
def run (s : System) (schedule : List Nat) : System := schedule.foldl step s

end System

/-- What a client does if nobody else takes a turn, with the number of guards it keeps. -/
def Plan.play : Plan → Nat → Gate → Logging ((Ending × Nat) × Gate)
  | done ending, kept, g => return ((ending, kept), g)
  | request body next, kept, g => do
    let (result, g) ← g.process fun inside => body.play kept inside
    match result with
    | none => (next none).play kept g
    | some (ending, kept) => (next (some ending)).play kept g
  | enter next, kept, g =>
    match g.enter? with
    | some inside => (next true).play (kept + 1) inside
    | none => (next false).play kept g
  | drop next, kept, g =>
    match kept with
    | 0 => next.play 0 g
    | kept + 1 => next.play kept g.leave

end YupFront
