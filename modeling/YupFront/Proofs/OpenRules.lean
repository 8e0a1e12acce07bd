import YupFront.Proofs.Postcondition

/-! What is open at a point of a parse: rules, and the levels of blocks and parentheses. The state
has a bounded stack and two counters for it. These are right at every point of a run as long as each
step is open to it there. -/

namespace YupFront

namespace RuleStack

/-- The stack while these rules are open, the outermost first: it holds the first of them and has a
count of the others. -/
def of (names : List NodeKind) : RuleStack :=
  ⟨(names.take Limits.shownRules).reverse, names.length - Limits.shownRules⟩

theorem push_of (names : List NodeKind) (rule : NodeKind) :
    (of names).push rule = of (names ++ [rule]) := by
  by_cases h : names.length < Limits.shownRules
  · have hroom : (of names).names.length < Limits.shownRules := by simp [of]; omega
    rw [push, if_pos hroom]
    simp only [of, List.length_append, List.length_singleton, mk.injEq]
    rw [List.take_of_length_le (by omega), List.take_of_length_le (by simp; omega)]
    exact ⟨by simp, by omega⟩
  · have hfull : ¬(of names).names.length < Limits.shownRules := by simp [of]; omega
    rw [push, if_neg hfull]
    simp only [of, List.length_append, List.length_singleton, mk.injEq]
    rw [List.take_append_of_le_length (by omega)]
    exact ⟨rfl, by omega⟩

theorem pop_of (names : List NodeKind) (rule : NodeKind) :
    (of (names ++ [rule])).pop = of names := by
  by_cases h : names.length < Limits.shownRules
  · have hnone : ¬0 < (of (names ++ [rule])).uncounted := by simp [of]; omega
    rw [pop, if_neg hnone]
    simp only [of, List.length_append, List.length_singleton, mk.injEq]
    rw [List.take_of_length_le (by simp; omega), List.take_of_length_le (by omega)]
    exact ⟨by simp, by omega⟩
  · have hsome : 0 < (of (names ++ [rule])).uncounted := by simp [of]; omega
    rw [pop, if_pos hsome]
    simp only [of, List.length_append, List.length_singleton, mk.injEq]
    rw [List.take_append_of_le_length (by omega)]
    exact ⟨rfl, by omega⟩

theorem render_of (names : List NodeKind) : (of names).render =
    String.intercalate " -> " ((names.take Limits.shownRules).map NodeKind.name) := by
  rw [render, of, List.reverse_reverse]

end RuleStack

namespace Act

mutual

theorem depth_perform : ∀ (a : Act) (s : ParseState), (a.perform s).depth = s.depth
  | advance, _ | record _ _, _ | tooDeep _, _ => rfl
  | within name body, s => depth_performAll body (s.enter name)
  | deeper body, s => by
    have hbody := depth_performAll body { s with depth := s.depth + 1 }
    show (performAll body { s with depth := s.depth + 1 }).depth - 1 = s.depth
    rw [hbody]
    rfl

theorem depth_performAll : ∀ (as : List Act) (s : ParseState), (performAll as s).depth = s.depth
  | [], _ => rfl
  | a :: as, s => (depth_performAll as (a.perform s)).trans (depth_perform a s)

end

mutual

theorem rules_perform : ∀ (a : Act) {s : ParseState} {names : List NodeKind},
    s.rules = .of names → (a.perform s).rules = .of names
  | advance, _, _, h | record _ _, _, _, h | tooDeep _, _, _, h => h
  | within name body, s, names, h => by
    have hin : (s.enter name).rules = .of (names ++ [name]) :=
      (congrArg (·.push name) h).trans (RuleStack.push_of names name)
    show (performAll body (s.enter name)).rules.pop = .of names
    rw [rules_performAll body hin, RuleStack.pop_of]
  | deeper body, s, names, h =>
    rules_performAll body (s := { s with depth := s.depth + 1 }) h

theorem rules_performAll : ∀ (as : List Act) {s : ParseState} {names : List NodeKind},
    s.rules = .of names → (performAll as s).rules = .of names
  | [], _, _, h => h
  | a :: as, _, _, h => rules_performAll as (rules_perform a h)

end

end Act

theorem Rule.depth_run (r : Rule α) (s : ParseState) : (r.run s).2.depth = s.depth :=
  r.performs s ▸ Act.depth_performAll (r.acts s) s

theorem Rule.rules_run (r : Rule α) {s : ParseState} {names : List NodeKind}
    (h : s.rules = .of names) : (r.run s).2.rules = .of names :=
  r.performs s ▸ Act.rules_performAll (r.acts s) h

/-- A rule that is open, or the level that was entered at a token. -/
inductive Scope where
  | rule (name : NodeKind)
  | level (opening : Anchor)

namespace Scope

def rule? : Scope → Option NodeKind
  | rule name => some name
  | level _ => none

def opening? : Scope → Option Anchor
  | rule _ => none
  | level opening => some opening

/-- Scopes, innermost first, inside which anything may be opened that is not the program: the
innermost is no level that waits for the rule of its block. -/
inductive Ready : List Scope → Prop where
  | rule (name : NodeKind) (scopes : List Scope) : Ready (.rule name :: scopes)
  | paren {a : Anchor} (scopes : List Scope) :
      a.token.kind = .leftParen → Ready (.level a :: scopes)

/-- Scopes, innermost first, one inside the other. The program is outermost; a level is entered at
an opening parenthesis or at the keyword of a block, and the rule of a block is right inside its
level. -/
inductive Nested : List Scope → Prop where
  | outside : Nested []
  | program : Nested [.rule .program]
  | rule {name : NodeKind} {scopes : List Scope} :
      name ∈ [NodeKind.declaration, .assignment, .printStatement, .condition] →
      Nested scopes → Ready scopes → Nested (.rule name :: scopes)
  | paren {a : Anchor} {scopes : List Scope} : a.token.kind = .leftParen →
      Nested scopes → Ready scopes → Nested (.level a :: scopes)
  | level {a : Anchor} {block : Block} {scopes : List Scope} :
      a.token.kind = .keyword block.keyword →
      Nested scopes → Ready scopes → Nested (.level a :: scopes)
  | block {a : Anchor} {block : Block} {scopes : List Scope} :
      a.token.kind = .keyword block.keyword →
      Nested (.level a :: scopes) → Nested (.rule block.nodeKind :: .level a :: scopes)

/-- The scopes once a level has been entered at the current token. -/
def deepen (scopes : List Scope) (s : ParseState) : List Scope :=
  match s.cursor.current? with
  | some a => .level a :: scopes
  | none => scopes

end Scope

/-- A state of a parse, the scopes around it, and the finding that has just been noted. -/
structure Point where
  scopes : List Scope
  state : ParseState
  finding : Option Finding

namespace Point

/-- The rules that have been entered and not left, the outermost first. -/
def entered (p : Point) : List NodeKind := (p.scopes.filterMap Scope.rule?).reverse

/-- Where the levels that are open begin: the blocks and the parentheses. -/
def openings (p : Point) : List Anchor := p.scopes.filterMap Scope.opening?

def note? (p : Point) : Option (Finding × List NodeKind) := p.finding.map (·, p.entered)

/-- The counters of the state tell what is open, and a refusal comes at the limit only. -/
structure Guarded (p : Point) : Prop where
  nested : Scope.Nested p.scopes
  depth : p.state.depth = p.openings.length
  bounded : p.state.depth ≤ Limits.nesting
  rules : p.state.rules = .of p.entered
  refused : ∀ f ∈ p.finding, f.problem = .nestingTooDeep → p.state.depth = Limits.nesting

variable {scopes : List Scope} {s : ParseState} {finding : Option Finding}

theorem Guarded.perform (h : Guarded ⟨scopes, s, finding⟩) (a : Act) :
    Guarded ⟨scopes, a.perform s, none⟩ where
  nested := h.nested
  depth := (Act.depth_perform a s).trans h.depth
  bounded := Nat.le_trans (Nat.le_of_eq (Act.depth_perform a s)) h.bounded
  rules := Act.rules_perform a h.rules
  refused := fun _ hf => absurd hf (Option.not_mem_none _)

theorem Guarded.enter {name : NodeKind} (h : Guarded ⟨scopes, s, finding⟩)
    (hn : Scope.Nested (.rule name :: scopes)) :
    Guarded ⟨.rule name :: scopes, s.enter name, none⟩ where
  nested := hn
  depth := h.depth
  bounded := h.bounded
  rules := by
    have hrules : s.rules = .of (scopes.filterMap Scope.rule?).reverse := h.rules
    show s.rules.push name = .of _
    rw [hrules, RuleStack.push_of]
    simp [entered, Scope.rule?]
  refused := fun _ hf => absurd hf (Option.not_mem_none _)

theorem Guarded.deepen {a : Anchor} (h : Guarded ⟨scopes, s, finding⟩)
    (hn : Scope.Nested (.level a :: scopes)) (hroom : s.depth < Limits.nesting) :
    Guarded ⟨.level a :: scopes, { s with depth := s.depth + 1 }, none⟩ where
  nested := hn
  depth := congrArg (· + 1) h.depth
  bounded := hroom
  rules := h.rules
  refused := fun _ hf => absurd hf (Option.not_mem_none _)

end Point

namespace Act

mutual

/-- The points that a step goes through, each with the scopes around it. -/
def points (scopes : List Scope) (s : ParseState) : Act → List Point
  | advance => [⟨scopes, perform advance s, none⟩]
  | record problem anchor => [⟨scopes, s.record problem anchor, some ⟨problem, anchor⟩⟩]
  | tooDeep span => [⟨scopes, perform (tooDeep span) s, none⟩]
  | within name body =>
    ⟨.rule name :: scopes, s.enter name, none⟩ ::
      (allPoints (.rule name :: scopes) (s.enter name) body ++
        [⟨scopes, perform (within name body) s, none⟩])
  | deeper body =>
    ⟨Scope.deepen scopes s, { s with depth := s.depth + 1 }, none⟩ ::
      (allPoints (Scope.deepen scopes s) { s with depth := s.depth + 1 } body ++
        [⟨scopes, perform (deeper body) s, none⟩])
termination_by structural a => a

def allPoints (scopes : List Scope) (s : ParseState) : List Act → List Point
  | [] => []
  | a :: as => points scopes s a ++ allPoints scopes (perform a s) as
termination_by structural as => as

end

mutual

/-- The step is open to a parse with these scopes around it: it keeps the scopes nested, enters a
level only below the limit and refuses one only at the limit. -/
def Lawful (scopes : List Scope) (s : ParseState) : Act → Prop
  | advance | tooDeep _ => True
  | record problem _ => problem = .nestingTooDeep → s.depth = Limits.nesting
  | within name body =>
    Scope.Nested (.rule name :: scopes) ∧ AllLawful (.rule name :: scopes) (s.enter name) body
  | deeper body =>
    s.depth < Limits.nesting ∧ ∃ a, s.cursor.current? = some a ∧
      Scope.Nested (.level a :: scopes) ∧
      AllLawful (.level a :: scopes) { s with depth := s.depth + 1 } body
termination_by structural a => a

def AllLawful (scopes : List Scope) (s : ParseState) : List Act → Prop
  | [] => True
  | a :: as => Lawful scopes s a ∧ AllLawful scopes (perform a s) as
termination_by structural as => as

end

theorem AllLawful.append {scopes : List Scope} {s : ParseState} {as bs : List Act}
    (has : AllLawful scopes s as) (hbs : AllLawful scopes (performAll as s) bs) :
    AllLawful scopes s (as ++ bs) := by
  induction as generalizing s with
  | nil => exact hbs
  | cons a as ih => exact ⟨has.1, ih has.2 hbs⟩

mutual

theorem guarded_points : ∀ (a : Act) {scopes : List Scope} {s : ParseState}
    {finding : Option Finding}, Point.Guarded ⟨scopes, s, finding⟩ → a.Lawful scopes s →
    ∀ p ∈ a.points scopes s, p.Guarded
  | advance, _, _, _, h, _ => by
    simpa [points] using h.perform advance
  | tooDeep span, _, _, _, h, _ => by
    simpa [points] using h.perform (tooDeep span)
  | record problem anchor, _, _, _, h, hlaw => by
    intro p hp
    obtain rfl := List.mem_singleton.mp hp
    refine { h.perform (record problem anchor) with refused := fun f hf hdeep => ?_ }
    cases Option.mem_some.mp hf
    exact hlaw hdeep
  | within name body, scopes, s, _, h, hlaw => by
    obtain ⟨hn, hbody⟩ := hlaw
    have hin := h.enter hn
    have hout := List.forall_mem_singleton.mpr (h.perform (within name body))
    rw [points, List.forall_mem_cons, List.forall_mem_append]
    exact ⟨hin, guarded_allPoints body hin hbody, hout⟩
  | deeper body, scopes, s, _, h, hlaw => by
    obtain ⟨hroom, a, ha, hn, hbody⟩ := hlaw
    have hin := h.deepen hn hroom
    have hout := List.forall_mem_singleton.mpr (h.perform (deeper body))
    have hscopes : Scope.deepen scopes s = .level a :: scopes := by rw [Scope.deepen, ha]
    rw [points, hscopes, List.forall_mem_cons, List.forall_mem_append]
    exact ⟨hin, guarded_allPoints body hin hbody, hout⟩

theorem guarded_allPoints : ∀ (as : List Act) {scopes : List Scope} {s : ParseState}
    {finding : Option Finding}, Point.Guarded ⟨scopes, s, finding⟩ → AllLawful scopes s as →
    ∀ p ∈ allPoints scopes s as, p.Guarded
  | [], _, _, _, _, _ => by simp [allPoints]
  | a :: as, _, _, _, h, hlaw => by
    rw [allPoints, List.forall_mem_append]
    exact ⟨guarded_points a h hlaw.1, guarded_allPoints as (h.perform a) hlaw.2⟩

end

end Act

end YupFront
