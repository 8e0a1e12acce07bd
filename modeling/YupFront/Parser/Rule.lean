import YupFront.Limits
import YupFront.Parser.Finding

/-! Rules of the parser. A rule never fails: it turns one state into another, and what is wrong with
the program becomes a finding in the state. Every rule comes with the proof that it changes the
state only in the ways that are open to a parse: passing tokens, noting problems, and going in and
out of rules and levels. -/

namespace YupFront

/-- The rules that are open, innermost first. Beyond a limit they are only counted. -/
structure RuleStack where
  names : List NodeKind
  uncounted : Nat
deriving DecidableEq, Repr

namespace RuleStack

def empty : RuleStack := ⟨[], 0⟩

def push (rule : NodeKind) (s : RuleStack) : RuleStack :=
  if s.names.length < Limits.shownRules then { s with names := rule :: s.names }
  else { s with uncounted := s.uncounted + 1 }

def pop (s : RuleStack) : RuleStack :=
  if 0 < s.uncounted then { s with uncounted := s.uncounted - 1 }
  else { s with names := s.names.tail }

/-- The outermost rule comes first. -/
def render (s : RuleStack) : String :=
  String.intercalate " -> " (s.names.reverse.map NodeKind.name)

end RuleStack

/-- What a parse leaves behind for the log. -/
inductive Step where
  | entered (rule : NodeKind) (position : Nat) (rules : RuleStack)
  | tooDeep (depth : Nat) (span : Span) (rules : RuleStack)
  | recorded (finding : Finding) (rules : RuleStack)
deriving DecidableEq, Repr

/-- Findings and steps have their newest in front. -/
structure ParseState where
  cursor : Cursor
  /-- Number of blocks and parentheses that are open. -/
  depth : Nat
  rules : RuleStack
  findings : List Finding
  trail : List Step

namespace ParseState

def start (ts : List Token) : ParseState := ⟨.ofTokens ts, 0, .empty, [], []⟩

def record (s : ParseState) (problem : Problem) (anchor : Anchor) : ParseState :=
  { s with
    findings := ⟨problem, anchor⟩ :: s.findings
    trail := .recorded ⟨problem, anchor⟩ s.rules :: s.trail }

def enter (s : ParseState) (rule : NodeKind) : ParseState :=
  let rules := s.rules.push rule
  { s with rules, trail := .entered rule s.cursor.position rules :: s.trail }

def leave (s : ParseState) : ParseState := { s with rules := s.rules.pop }

end ParseState

/-- What a parse does to its state. What is done inside a rule or one level further in hangs below
it. -/
inductive Act where
  | advance
  | record (problem : Problem) (anchor : Anchor)
  | tooDeep (span : Span)
  | within (name : NodeKind) (body : List Act)
  | deeper (body : List Act)

namespace Act

mutual

def perform : Act → ParseState → ParseState
  | advance, s => { s with cursor := s.cursor.advance }
  | record problem anchor, s => s.record problem anchor
  | tooDeep span, s => { s with trail := .tooDeep s.depth span s.rules :: s.trail }
  | within name body, s => (performAll body (s.enter name)).leave
  | deeper body, s =>
    let inner := performAll body { s with depth := s.depth + 1 }
    { inner with depth := inner.depth - 1 }
termination_by structural a => a

def performAll : List Act → ParseState → ParseState
  | [], s => s
  | a :: as, s => performAll as (perform a s)
termination_by structural as => as

end

theorem performAll_append (as bs : List Act) (s : ParseState) :
    performAll (as ++ bs) s = performAll bs (performAll as s) := by
  induction as generalizing s with
  | nil => rfl
  | cons a as ih => exact ih (a.perform s)

end Act

namespace ParseState

/-- All that a parse can do to its state. What each of these steps preserves is preserved by every
rule. -/
inductive Leads : ParseState → ParseState → Prop where
  | refl (s : ParseState) : Leads s s
  | trans {s t u : ParseState} : Leads s t → Leads t u → Leads s u
  | advance (s : ParseState) : Leads s { s with cursor := s.cursor.advance }
  | record (s : ParseState) (problem : Problem) (anchor : Anchor) :
      Leads s (s.record problem anchor)
  | tooDeep (s : ParseState) (span : Span) :
      Leads s { s with trail := .tooDeep s.depth span s.rules :: s.trail }
  | within {s t : ParseState} (name : NodeKind) : Leads (s.enter name) t → Leads s t.leave
  | deeper {s t : ParseState} :
      Leads { s with depth := s.depth + 1 } t → Leads s { t with depth := t.depth - 1 }

theorem Leads.reaches {s t : ParseState} (h : s.Leads t) : s.cursor.Reaches t.cursor := by
  induction h with
  | refl s => exact .refl _
  | trans _ _ hst htu => exact hst.trans htu
  | advance s => exact s.cursor.reaches_advance
  | record s problem anchor => exact .refl _
  | tooDeep s span => exact .refl _
  | within name _ ih => exact ih
  | deeper _ ih => exact ih

mutual

theorem leads_perform : ∀ (a : Act) (s : ParseState), s.Leads (a.perform s)
  | .advance, s => .advance s
  | .record problem anchor, s => .record s problem anchor
  | .tooDeep span, s => .tooDeep s span
  | .within name body, s => .within name (leads_performAll body (s.enter name))
  | .deeper body, s => .deeper (leads_performAll body { s with depth := s.depth + 1 })

theorem leads_performAll : ∀ (as : List Act) (s : ParseState), s.Leads (Act.performAll as s)
  | [], s => .refl s
  | a :: as, s => (leads_perform a s).trans (leads_performAll as (a.perform s))

end

end ParseState

/-- A rule with an account of what it does. The account is there to be reasoned about: a run does
not need it. -/
structure Rule (α : Type) where
  run : ParseState → α × ParseState
  acts : ParseState → List Act
  performs : ∀ s : ParseState, Act.performAll (acts s) s = (run s).2

namespace Rule

@[ext] theorem ext {r q : Rule α} (hrun : ∀ s, r.run s = q.run s)
    (hacts : ∀ s, r.acts s = q.acts s) : r = q := by
  cases r
  cases q
  congr
  · exact funext hrun
  · exact funext hacts

theorem leads (r : Rule α) (s : ParseState) : s.Leads (r.run s).2 :=
  r.performs s ▸ s.leads_performAll (r.acts s)

theorem reaches (r : Rule α) (s : ParseState) : s.cursor.Reaches (r.run s).2.cursor :=
  (r.leads s).reaches

protected def pure (a : α) : Rule α := ⟨fun s => (a, s), fun _ => [], fun _ => rfl⟩

protected def bind (r : Rule α) (f : α → Rule β) : Rule β where
  run s :=
    let result := r.run s
    (f result.1).run result.2
  acts s :=
    let result := r.run s
    r.acts s ++ (f result.1).acts result.2
  performs s := by rw [Act.performAll_append, r.performs, (f (r.run s).1).performs]

instance : Monad Rule where
  pure := Rule.pure
  bind := Rule.bind

@[simp] theorem run_pure (a : α) (s : ParseState) : (pure a : Rule α).run s = (a, s) := rfl

@[simp] theorem run_bind (r : Rule α) (f : α → Rule β) (s : ParseState) :
    (r >>= f).run s = (f (r.run s).1).run (r.run s).2 := rfl

@[simp] theorem acts_pure (a : α) (s : ParseState) : (pure a : Rule α).acts s = [] := rfl

@[simp] theorem acts_bind (r : Rule α) (f : α → Rule β) (s : ParseState) :
    (r >>= f).acts s = r.acts s ++ (f (r.run s).1).acts (r.run s).2 := rfl

/-- A rule that looks at the cursor and leaves it. -/
def look (f : Cursor → α) : Rule α := ⟨fun s => (f s.cursor, s), fun _ => [], fun _ => rfl⟩

def peek : Rule (Option Anchor) := look Cursor.current?

def previousOr (fallback : Anchor) : Rule Anchor :=
  look fun c => c.previous?.getD fallback

/-- The token that was passed last; at the beginning, the first token. -/
def previousOrFirst : Rule (Option Anchor) :=
  look fun c => c.previous?.or c.current?

def skip : Rule Unit where
  run s := ((), { s with cursor := s.cursor.advance })
  acts _ := [.advance]
  performs _ := rfl

def accept (wanted : TokenKind → Bool) : Rule (Option Anchor) where
  run s := ((s.cursor.accept wanted).1, { s with cursor := (s.cursor.accept wanted).2 })
  acts s := if (s.cursor.accept wanted).1.isSome then [.advance] else []
  performs s := by
    cases h : s.cursor.accept wanted with
    | mk taken cursor =>
      cases taken with
      | none => rw [Cursor.accept_none h]; rfl
      | some a => rw [Cursor.accept_some h]; rfl

def take (kind : TokenKind) : Rule (Option Anchor) := accept (· == kind)

def report (problem : Problem) (anchor : Anchor) : Rule Unit where
  run s := ((), s.record problem anchor)
  acts _ := [.record problem anchor]
  performs _ := rfl

/-- Notes a problem at the token that was passed last or, at the beginning, at the first token. -/
def reportPrevious (problem : Problem) : Rule Unit := do
  match ← previousOrFirst with
  | some anchor => report problem anchor
  | none => return ()

def within (name : NodeKind) (r : Rule α) : Rule α where
  run s :=
    let result := r.run (s.enter name)
    (result.1, result.2.leave)
  acts s := [.within name (r.acts (s.enter name))]
  performs s := congrArg ParseState.leave (r.performs (s.enter name))

def deeper (r : Rule α) : Rule α where
  run s :=
    let result := r.run { s with depth := s.depth + 1 }
    (result.1, { result.2 with depth := result.2.depth - 1 })
  acts s := [.deeper (r.acts { s with depth := s.depth + 1 })]
  performs s := congrArg (fun t : ParseState => { t with depth := t.depth - 1 })
    (r.performs { s with depth := s.depth + 1 })

/-- Refuses to go further in at the given token, and passes it. -/
def refuse (anchor : Anchor) : Rule Unit where
  run s :=
    let noted := { s with trail := .tooDeep s.depth anchor.token.span s.rules :: s.trail }
    ((), { noted.record .nestingTooDeep anchor with cursor := s.cursor.advance })
  acts _ := [.tooDeep anchor.token.span, .record .nestingTooDeep anchor, .advance]
  performs _ := rfl

end Rule

end YupFront
