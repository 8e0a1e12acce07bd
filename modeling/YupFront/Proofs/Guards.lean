import YupFront.Proofs.OpenRules
import YupFront.Proofs.ParseLog

/-! The guards of a parse: the depth that limits nesting, and the stack of rules that is logged.
Every rule keeps to what is open to it, and so both are right at every point of every parse,
whatever goes wrong on the way. -/

namespace YupFront

open Scope (Nested Ready)
open Act (AllLawful)

/-- A place inside the program with so many levels left. -/
structure Inside (level : Nat) (scopes : List Scope) (s : ParseState) : Prop where
  depth : s.depth + level = Limits.nesting
  nested : Nested scopes
  ready : Ready scopes

theorem Inside.run {level : Nat} {scopes : List Scope} {s : ParseState} (h : Inside level scopes s)
    (r : Rule α) : Inside level scopes (r.run s).2 where
  depth := r.depth_run s ▸ h.depth
  nested := h.nested
  ready := h.ready

/-- What may lie a level further in, if one is left. -/
inductive Levelled (P : Nat → α → Prop) : Nat → Option α → Prop where
  | zero : Levelled P 0 none
  | succ {level : Nat} {a : α} : P level a → Levelled P (level + 1) (some a)

namespace Rule

/-- The rule does only what is open to a parse with so many levels left. -/
def LawfulAt (level : Nat) (r : Rule α) : Prop :=
  ∀ (scopes : List Scope) (s : ParseState), Inside level scopes s → AllLawful scopes s (r.acts s)

variable {α β : Type} {level : Nat} {scopes : List Scope} {s : ParseState}

theorem lawfulAt_pure (a : α) : (pure a : Rule α).LawfulAt level := fun _ _ _ => trivial

/-- A rule, and more that is done behind it. -/
theorem allLawful_append (r : Rule α) {more : List Act} (h : AllLawful scopes s (r.acts s))
    (hmore : AllLawful scopes (r.run s).2 more) : AllLawful scopes s (r.acts s ++ more) := by
  rw [← r.performs s] at hmore
  exact h.append hmore

theorem lawful_bind {r : Rule α} {f : α → Rule β} (hs : Inside level scopes s)
    (hr : AllLawful scopes s (r.acts s)) (hf : ∀ a, (f a).LawfulAt level) :
    AllLawful scopes s ((r >>= f).acts s) :=
  allLawful_append r hr (hf _ scopes _ (hs.run r))

theorem LawfulAt.bind {r : Rule α} {f : α → Rule β} (hr : r.LawfulAt level)
    (hf : ∀ a, (f a).LawfulAt level) : (r >>= f).LawfulAt level :=
  fun scopes s hs => lawful_bind hs (hr scopes s hs) hf

theorem LawfulAt.map {r : Rule α} (h : r.LawfulAt level) (f : α → β) : (f <$> r).LawfulAt level :=
  h.bind fun a => lawfulAt_pure (f a)

theorem lawfulAt_look (f : Cursor → α) : (look f).LawfulAt level := fun _ _ _ => trivial

/-- Looking does nothing, so what counts is what follows. -/
theorem lawful_look_bind {f : Cursor → α} {g : α → Rule β}
    (h : AllLawful scopes s ((g (f s.cursor)).acts s)) :
    AllLawful scopes s ((look f >>= g).acts s) := h

theorem lawfulAt_skip : skip.LawfulAt level := fun _ _ _ => ⟨trivial, trivial⟩

theorem lawfulAt_accept (wanted : TokenKind → Bool) : (accept wanted).LawfulAt level := by
  intro scopes s _
  cases h : (s.cursor.accept wanted).1 with
  | none => simp [accept, h, AllLawful]
  | some a => simp [accept, h, AllLawful, Act.Lawful]

theorem lawfulAt_report (problem : Problem) (anchor : Anchor)
    (hp : problem ≠ .nestingTooDeep := by nofun) : (report problem anchor).LawfulAt level :=
  fun _ _ _ => ⟨fun hdeep => absurd hdeep hp, trivial⟩

theorem lawfulAt_reportPrevious (problem : Problem) (hp : problem ≠ .nestingTooDeep := by nofun) :
    (reportPrevious problem).LawfulAt level := by
  refine (lawfulAt_look _).bind fun o => ?_
  cases o with
  | some anchor => exact lawfulAt_report problem anchor hp
  | none => exact lawfulAt_pure ()

theorem lawfulAt_refuse (anchor : Anchor) : (refuse anchor).LawfulAt 0 :=
  fun _ _ hs => ⟨trivial, fun _ => hs.depth, trivial, trivial⟩

theorem LawfulAt.within {r : Rule α} {name : NodeKind} (h : r.LawfulAt level)
    (hname : name ∈ [NodeKind.declaration, .assignment, .printStatement, .condition]) :
    (within name r).LawfulAt level := by
  intro scopes s hs
  have hn : Nested (.rule name :: scopes) := .rule hname hs.nested hs.ready
  exact ⟨⟨hn, h _ _ ⟨hs.depth, hn, .rule name scopes⟩⟩, trivial⟩

theorem lawful_deeper {r : Rule α} {a : Anchor} (h : r.LawfulAt level)
    (hs : Inside (level + 1) scopes s) (ha : s.cursor.current? = some a)
    (hk : a.token.kind = .leftParen) : AllLawful scopes s (r.deeper.acts s) := by
  have hdepth : s.depth + 1 + level = Limits.nesting := by have := hs.depth; omega
  have hn : Nested (.level a :: scopes) := .paren hk hs.nested hs.ready
  have hbody := h (.level a :: scopes) { s with depth := s.depth + 1 }
    ⟨hdepth, hn, .paren scopes hk⟩
  exact ⟨⟨by omega, a, ha, hn, hbody⟩, trivial⟩

/-- The rule of a block is entered right behind its level. -/
theorem lawful_deeper_within {r : Rule α} {a : Anchor} {block : Block} (h : r.LawfulAt level)
    (hs : Inside (level + 1) scopes s) (ha : s.cursor.current? = some a)
    (hk : a.token.kind = .keyword block.keyword) :
    AllLawful scopes s ((within block.nodeKind r).deeper.acts s) := by
  have hdepth : s.depth + 1 + level = Limits.nesting := by have := hs.depth; omega
  have hlevel : Nested (.level a :: scopes) := .level hk hs.nested hs.ready
  have hn : Nested (.rule block.nodeKind :: .level a :: scopes) := .block hk hlevel
  have hbody := h _ (ParseState.enter { s with depth := s.depth + 1 } block.nodeKind)
    ⟨hdepth, hn, .rule _ _⟩
  exact ⟨⟨by omega, a, ha, hlevel, ⟨hn, hbody⟩, trivial⟩, trivial⟩

/-- What follows a token that has to be there, and what follows if it is missing. -/
theorem lawfulAt_require {kind : TokenKind} {problem : Problem} {anchor : Rule Anchor}
    {r q : Rule α} (ha : anchor.LawfulAt level) (hr : r.LawfulAt level) (hq : q.LawfulAt level)
    (hp : problem ≠ .nestingTooDeep := by nofun) :
    LawfulAt level
      (require kind problem anchor >>= fun found => if found = true then r else q) := by
  have hfound : (require kind problem anchor).LawfulAt level := by
    refine (lawfulAt_accept _).bind fun o => ?_
    cases o with
    | some token => exact lawfulAt_pure true
    | none =>
      exact ha.bind fun a => (lawfulAt_report problem a hp).bind fun _ => lawfulAt_pure false
  refine hfound.bind fun found => ?_
  cases found with
  | true => exact hr
  | false => exact hq

theorem lawfulAt_chainOnto {operand : Rule (Option Node)} (h : operand.LawfulAt level)
    (kind : NodeKind) (joins : TokenKind → Bool) (left : Option Node) :
    (chainOnto kind joins operand left).LawfulAt level := by
  intro scopes s hs
  change AllLawful scopes s (chainActs joins operand s)
  fun_induction chainActs joins operand s with
  | case1 => trivial
  | case2 s _ cursor hc _ ih =>
    have hadvance : Act.perform .advance s = { s with cursor } := by
      rw [Cursor.accept_some hc]
      rfl
    have hpassed : Inside level scopes { s with cursor } := ⟨hs.depth, hs.nested, hs.ready⟩
    refine ⟨trivial, ?_⟩
    rw [hadvance]
    exact allLawful_append operand (h scopes _ hpassed) (ih (hpassed.run operand))

theorem lawfulAt_gather {one : Rule (Except Stall (Option Node))} (h : one.LawfulAt level)
    (closes : TokenKind → Bool) : (gather one closes).LawfulAt level := by
  intro scopes s hs
  change AllLawful scopes s (gatherActs one closes s)
  fun_induction gatherActs one closes s with
  | case1 => trivial
  | case2 => trivial
  | case3 s a _ _ ih =>
    refine allLawful_append one (h scopes s hs) ?_
    have hout := hs.run one
    split
    · trivial
    · next node s' hr =>
      have hend : (one.run s).2 = s' := congrArg Prod.snd hr
      split
      · trivial
      · next hp =>
        rw [hend] at hout ⊢
        exact ih node s' hr hp hout

end Rule

open Rule

section Expression

variable {expression : Rule (Option Node)} {inner : Option (Rule (Option Node))} {level : Nat}
  {scopes : List Scope} {s : ParseState} {a : Anchor}

theorem lawfulAt_chained {operand : Rule (Option Node)} (h : operand.LawfulAt level)
    (kind : NodeKind) (joins : TokenKind → Bool) : (chained kind joins operand).LawfulAt level :=
  h.bind fun left => lawfulAt_chainOnto h kind joins left

theorem lawful_parenthesised (h : expression.LawfulAt level) (hs : Inside (level + 1) scopes s)
    (ha : s.cursor.current? = some a) (hk : a.token.kind = .leftParen) :
    AllLawful scopes s ((parenthesised expression).acts s) :=
  have hbody : LawfulAt level (do
      skip
      let node ← expression
      let closing ← take .rightParen
      return (node, closing)) :=
    lawfulAt_skip.bind fun _ => h.bind fun _ => (lawfulAt_accept _).bind fun _ => lawfulAt_pure _
  lawful_deeper hbody hs ha hk

theorem lawful_factorFrom (h : Levelled LawfulAt level inner)
    (hs : Inside level scopes s) (ha : s.cursor.current? = some a) :
    AllLawful scopes s ((factorFrom inner a).acts s) := by
  have hpass (result : Option Node) : LawfulAt level (do skip; return result) :=
    lawfulAt_skip.bind fun _ => lawfulAt_pure result
  unfold factorFrom
  split
  · exact hpass _ scopes s hs
  · exact hpass _ scopes s hs
  · next hk =>
    cases h with
    | zero => exact (lawfulAt_refuse a).bind (fun _ => lawfulAt_pure none) scopes s hs
    | @succ level expression h =>
      refine lawful_bind hs (lawful_parenthesised h hs ha hk) fun result => ?_
      obtain ⟨node, closing⟩ := result
      cases closing with
      | some closing => exact lawfulAt_pure node
      | none =>
        exact (lawfulAt_look _).bind fun anchor =>
          (lawfulAt_report _ anchor).bind fun _ => lawfulAt_pure none
  · have hstray : LawfulAt level (report .strayOperand a) := lawfulAt_report _ a
    exact (hstray.bind fun _ => hpass none) scopes s hs

theorem lawfulAt_factor (h : Levelled LawfulAt level inner) :
    (factor inner).LawfulAt level := by
  intro scopes s hs
  refine lawful_look_bind ?_
  cases ha : s.cursor.current? with
  | none =>
    have hmissing : LawfulAt level (reportPrevious .operandMissing) := lawfulAt_reportPrevious _
    exact (hmissing.bind fun _ => lawfulAt_pure none) scopes s hs
  | some a => exact lawful_factorFrom h hs ha

theorem lawfulAt_sum (h : Levelled LawfulAt level inner) :
    (sum inner).LawfulAt level :=
  lawfulAt_chained (lawfulAt_chained (lawfulAt_factor h) _ _) _ _

theorem lawfulAt_expressionAt (level : Nat) : (expressionAt level).LawfulAt level := by
  induction level with
  | zero => exact lawfulAt_sum .zero
  | succ level ih => exact lawfulAt_sum (.succ ih)

theorem lawfulAt_condition (h : expression.LawfulAt level) :
    (condition expression).LawfulAt level := by
  refine .within (h.bind fun left => (lawfulAt_accept _).bind fun operator => ?_) (by simp)
  cases operator with
  | none => exact (lawfulAt_reportPrevious _).bind fun _ => lawfulAt_pure none
  | some operator => exact h.bind fun right => lawfulAt_pure _

end Expression

section Statement

structure PartsLawful (level : Nat)
    (parts : Rule (Option Node) × Rule (Except Stall (Option Node))) : Prop where
  expression : parts.1.LawfulAt level
  statement : parts.2.LawfulAt level

variable {expression : Rule (Option Node)} {one : Rule (Except Stall (Option Node))}
  {inner : BlockParts} {level : Nat} {scopes : List Scope} {s : ParseState} {a : Anchor}

theorem lawfulAt_declaration (h : expression.LawfulAt level) (opening : Anchor) :
    (declaration expression opening).LawfulAt level := by
  refine .within (lawfulAt_skip.bind fun _ => (lawfulAt_accept _).bind fun name => ?_) (by simp)
  cases name with
  | none => exact (lawfulAt_report _ opening).bind fun _ => lawfulAt_pure none
  | some name =>
    refine lawfulAt_require (lawfulAt_pure name) (h.bind fun value => ?_) (lawfulAt_pure none)
    exact lawfulAt_require (lawfulAt_look _) (lawfulAt_pure _) (lawfulAt_pure none)

theorem lawfulAt_assignment (h : expression.LawfulAt level) (name : Anchor) :
    (assignment expression name).LawfulAt level := by
  refine .within (lawfulAt_skip.bind fun _ => ?_) (by simp)
  refine lawfulAt_require (lawfulAt_pure name) (h.bind fun value => ?_) (lawfulAt_pure none)
  exact lawfulAt_require (lawfulAt_look _) (lawfulAt_pure _) (lawfulAt_pure none)

theorem lawfulAt_printing (h : expression.LawfulAt level) (opening : Anchor) :
    (printing expression opening).LawfulAt level := by
  refine .within (lawfulAt_skip.bind fun _ => ?_) (by simp)
  refine lawfulAt_require (lawfulAt_pure opening) (h.bind fun value => ?_) (lawfulAt_pure none)
  refine lawfulAt_require (lawfulAt_look _) ?_ (lawfulAt_pure none)
  exact lawfulAt_require (lawfulAt_look _) (lawfulAt_pure _) (lawfulAt_pure none)

theorem lawful_blockStatement (h : expression.LawfulAt level) (hone : one.LawfulAt level)
    (block : Block) (hs : Inside (level + 1) scopes s) (ha : s.cursor.current? = some a)
    (hk : a.token.kind = .keyword block.keyword) :
    AllLawful scopes s ((blockStatement block expression one a).acts s) := by
  refine lawful_deeper_within (lawfulAt_skip.bind fun _ => ?_) hs ha hk
  refine lawfulAt_require (lawfulAt_pure a) ?_ (lawfulAt_pure _)
  refine (lawfulAt_condition h).bind fun test => ?_
  refine lawfulAt_require (lawfulAt_look _) ?_ (lawfulAt_pure _)
  refine lawfulAt_require (lawfulAt_look _) ?_ (lawfulAt_pure _)
  refine (lawfulAt_gather hone _).bind fun result => ?_
  cases result with
  | error stall => exact lawfulAt_pure _
  | ok body => exact lawfulAt_require (lawfulAt_pure a) (lawfulAt_pure _) (lawfulAt_pure _)

theorem lawful_nestedStatement (h : Levelled PartsLawful level inner) (block : Block)
    (hs : Inside level scopes s) (ha : s.cursor.current? = some a)
    (hk : a.token.kind = .keyword block.keyword) :
    AllLawful scopes s ((nestedStatement inner block a).acts s) := by
  cases h with
  | zero => exact (lawfulAt_refuse a).bind (fun _ => lawfulAt_pure _) scopes s hs
  | succ hparts => exact lawful_blockStatement hparts.expression hparts.statement block hs ha hk

theorem lawful_statementFrom (he : expression.LawfulAt level)
    (h : Levelled PartsLawful level inner) (hs : Inside level scopes s)
    (ha : s.cursor.current? = some a) :
    AllLawful scopes s ((statementFrom expression inner a).acts s) := by
  unfold statementFrom
  split
  · exact (lawfulAt_declaration he a).map _ scopes s hs
  · next hk => exact lawful_nestedStatement h .conditional hs ha hk
  · next hk => exact lawful_nestedStatement h .loop hs ha hk
  · exact (lawfulAt_printing he a).map _ scopes s hs
  · exact (lawfulAt_assignment he a).map _ scopes s hs
  · have hstray : LawfulAt level (report .strayToken a) := lawfulAt_report _ a
    exact (hstray.bind fun _ => lawfulAt_skip.bind fun _ => lawfulAt_pure _) scopes s hs

theorem lawfulAt_statement (he : expression.LawfulAt level)
    (h : Levelled PartsLawful level inner) : (statement expression inner).LawfulAt level := by
  intro scopes s hs
  refine lawful_look_bind ?_
  cases ha : s.cursor.current? with
  | none => trivial
  | some a => exact lawful_statementFrom he h hs ha

theorem lawfulAt_statementAt (level : Nat) : (statementAt level).LawfulAt level := by
  induction level with
  | zero => exact lawfulAt_statement (lawfulAt_expressionAt 0) .zero
  | succ level ih =>
    exact lawfulAt_statement (lawfulAt_expressionAt (level + 1))
      (.succ ⟨lawfulAt_expressionAt level, ih⟩)

theorem lawful_program (ts : List Token) :
    AllLawful [] (.start ts) (program.acts (.start ts)) := by
  have hs : Inside Limits.nesting [.rule .program] ((ParseState.start ts).enter .program) :=
    ⟨Nat.zero_add _, .program, .rule _ _⟩
  have hall := lawfulAt_gather (lawfulAt_statementAt Limits.nesting) (fun _ => false) _ _ hs
  refine ⟨⟨.program, lawful_bind hs hall fun result => ?_⟩, trivial⟩
  cases result with
  | ok statements => exact lawfulAt_pure _
  | error stall => exact lawfulAt_pure _

end Statement

/-- The points of a parse, from its start to its end. -/
def parsePoints (ts : List Token) : List Point :=
  ⟨[], .start ts, none⟩ :: Act.allPoints [] (.start ts) (program.acts (.start ts))

theorem guarded_start (ts : List Token) : Point.Guarded ⟨[], .start ts, none⟩ where
  nested := .outside
  depth := rfl
  bounded := Nat.zero_le _
  rules := rfl
  refused := fun _ hf => absurd hf (Option.not_mem_none _)

theorem guarded_parsePoints (ts : List Token) : ∀ p ∈ parsePoints ts, p.Guarded := by
  intro p hp
  rcases List.mem_cons.mp hp with rfl | hp
  · exact guarded_start ts
  · exact Act.guarded_allPoints _ (guarded_start ts) (lawful_program ts) p hp

/-- The findings of a parse in their order, each with the rules that were entered and not left. -/
def parseNotes (ts : List Token) : List (Finding × List NodeKind) :=
  (parsePoints ts).filterMap Point.note?

section Recorded

/-- The finding that a step notes, with the stack at that time. -/
def Step.recorded? : Step → Option (Finding × RuleStack)
  | .recorded finding rules => some (finding, rules)
  | .entered .. | .tooDeep .. => none

def Point.recorded? (p : Point) : Option (Finding × RuleStack) :=
  p.finding.map (·, p.state.rules)

def ParseState.recorded (s : ParseState) : List (Finding × RuleStack) :=
  s.trail.reverse.filterMap Step.recorded?

theorem recorded_enter (s : ParseState) (name : NodeKind) :
    (s.enter name).recorded = s.recorded := by
  simp [ParseState.recorded, ParseState.enter, Step.recorded?]

mutual

theorem recorded_perform : ∀ (a : Act) (scopes : List Scope) (s : ParseState),
    (a.perform s).recorded = s.recorded ++ (a.points scopes s).filterMap Point.recorded?
  | .advance, _, s => (List.append_nil _).symm
  | .record problem anchor, scopes, s => by
    simp [Act.perform, Act.points, ParseState.recorded, ParseState.record, Step.recorded?,
      Point.recorded?]
  | .tooDeep span, scopes, s => by
    simp [Act.perform, Act.points, ParseState.recorded, Step.recorded?, Point.recorded?,
      List.filterMap_cons]
  | .within name body, scopes, s => by
    have hbody := recorded_performAll body (.rule name :: scopes) (s.enter name)
    rw [recorded_enter] at hbody
    rw [Act.points, List.filterMap_cons_none rfl, List.filterMap_append,
      List.filterMap_cons_none rfl, List.filterMap_nil, List.append_nil]
    exact hbody
  | .deeper body, scopes, s => by
    have hbody := recorded_performAll body (Scope.deepen scopes s) { s with depth := s.depth + 1 }
    rw [Act.points, List.filterMap_cons_none rfl, List.filterMap_append,
      List.filterMap_cons_none rfl, List.filterMap_nil, List.append_nil]
    exact hbody

theorem recorded_performAll : ∀ (as : List Act) (scopes : List Scope) (s : ParseState),
    (Act.performAll as s).recorded =
      s.recorded ++ (Act.allPoints scopes s as).filterMap Point.recorded?
  | [], _, s => (List.append_nil _).symm
  | a :: as, scopes, s => by
    rw [Act.performAll, recorded_performAll as scopes (a.perform s), recorded_perform a scopes s,
      Act.allPoints, List.filterMap_append, List.append_assoc]

end

/-- What is noted on the trail, with the stack for the rules that are open. -/
theorem recorded_runParser (ts : List Token) : (runParser ts).2.recorded =
    (parseNotes ts).map fun x => (x.1, .of x.2) := by
  have hrun : (runParser ts).2.recorded = (parsePoints ts).filterMap Point.recorded? := by
    rw [runParser, ← program.performs, recorded_performAll _ []]
    rfl
  rw [hrun, parseNotes, List.map_filterMap]
  refine List.filterMap_congr fun p hp => ?_
  rw [Point.recorded?, (guarded_parsePoints ts p hp).rules, Point.note?, Option.map_map]
  rfl

theorem findings_runParser (ts : List Token) :
    (runParser ts).2.findings.reverse = (parseNotes ts).map Prod.fst := by
  obtain ⟨steps, htrail, hfindings, -⟩ := runParser_trails ts
  have hfinding : ∀ step : Step, step.recorded?.map Prod.fst = step.finding? := by
    intro step
    cases step <;> rfl
  have hnotes := congrArg (List.map Prod.fst) (recorded_runParser ts)
  rw [ParseState.recorded, htrail, List.map_filterMap, List.map_map] at hnotes
  rw [hfindings, ← funext hfinding]
  exact hnotes

variable (mode : PositionMode) (traceRules : Bool) (j : Journal)

theorem context_told_recorded (finding : Finding) (rules : RuleStack) :
    ∀ e ∈ j.told mode traceRules [.recorded finding rules],
      e.value? "context" = some rules.render := by
  intro e he
  obtain rfl := List.mem_singleton.mp he
  rw [Journal.value?_mark j _ (by decide) (by decide), Event.value?_withKeys]
  simp

theorem told_contexts (steps : List Step) :
    List.Forall₂ (fun e x => e.Shows (x.1.diagnostic mode) ∧ e.value? "context" = some x.2.render)
      ((j.told mode traceRules steps).filter Event.tellsDiagnostic)
      (steps.filterMap Step.recorded?) := by
  induction steps with
  | nil => exact .nil
  | cons step steps ih =>
    rw [told_cons, List.filter_append]
    cases step with
    | entered rule position rules =>
      have hnone := filter_told_entered mode traceRules j (fun _ h => h.notDiagnostic) rule position
        rules
      rw [hnone]
      exact ih
    | tooDeep depth span rules =>
      obtain ⟨e, he, hd, -⟩ := told_tooDeep mode traceRules j depth span rules
      rw [he, List.filter_cons_of_neg (by simp [hd])]
      exact ih
    | recorded finding rules =>
      obtain ⟨e, he, hd, -, hshows, -⟩ := told_recorded mode traceRules j finding rules
      rw [he, List.filter_cons_of_pos hd]
      have hcontext := context_told_recorded mode traceRules j finding rules e (by simp [he])
      exact .cons ⟨hshows, hcontext⟩ ih

/-- The events of a parse, with the counts that are told at its start and its end. -/
theorem run_parseLogged {ts : List Token} {tree : Node} (htree : (runParser ts).1 = .ok tree) :
    (parseLogged mode traceRules ts).run j =
      (.ok ⟨tree, (runParser ts).2.findings.reverse⟩, { j with
        events := (j.account mode traceRules ts.length (runParser ts).2.trail.reverse
          ⟨tree, (runParser ts).2.findings.reverse⟩).reverse ++ j.events }) := by
  have hcount : (runParser ts).2.cursor.length = ts.length :=
    (program.reaches (.start ts)).length_eq.symm.trans (Nat.zero_add _)
  have hrun : runParser ts = (.ok tree, (runParser ts).2) := Prod.ext htree rfl
  rw [parseLogged_of_ok hrun j, hcount]
  simp [Journal.tell, Journal.account, Journal.told]

end Recorded

/-- At every point of a parse the depth is the number of blocks and parentheses that are open, and
at most the limit; inside a level it is positive, so that going back never falls below zero. The
stack has the first rules of those that are open and the number of the others. So every rule leaves
depth and stack as it has found them, whichever way it ends, and after the program they are empty.
With each diagnostic that is logged stand the first of the rules around it. -/
theorem parser_guards_balance :
    (∀ ts : List Token,
      (∀ p ∈ parsePoints ts, p.Guarded ∧
        ∀ a outer, p.scopes = .level a :: outer → 0 < p.state.depth) ∧
      (∃ statements, (runParser ts).1 = .ok (.root statements)) ∧
      (runParser ts).2.depth = 0 ∧ (runParser ts).2.rules = .empty) ∧
    (∀ {α : Type} (r : Rule α) (s : ParseState) (names : List NodeKind), s.rules = .of names →
      (r.run s).2.depth = s.depth ∧ (r.run s).2.rules = s.rules) ∧
    (∀ (mode : PositionMode) (traceRules : Bool) (ts : List Token) (j : Journal),
      ∃ (parsed : Parsed) (es : List Event), parse ts = .ok parsed ∧
        (parseLogged mode traceRules ts).run j =
          (.ok parsed, { j with events := es.reverse ++ j.events }) ∧
        parsed.findings = (parseNotes ts).map Prod.fst ∧
        List.Forall₂ (fun e x => e.Shows (x.1.diagnostic mode) ∧ e.value? "context" =
            some (String.intercalate " -> " ((x.2.take Limits.shownRules).map NodeKind.name)))
          (es.filter Event.tellsDiagnostic) (parseNotes ts)) := by
  refine ⟨fun ts => ⟨fun p hp => ?_, ?_, ?_, ?_⟩, fun r s names h => ⟨r.depth_run s, ?_⟩,
    fun mode traceRules ts j => ?_⟩
  · have hguarded := guarded_parsePoints ts p hp
    refine ⟨hguarded, fun a outer hscopes => ?_⟩
    rw [hguarded.depth, Point.openings, hscopes]
    exact Nat.succ_pos _
  · obtain ⟨statements, htree, -⟩ := program_ends (.start ts)
    exact ⟨statements, htree⟩
  · exact program.depth_run (.start ts)
  · have hstart : (ParseState.start ts).rules = .of [] := rfl
    exact program.rules_run hstart
  · rw [h]
    exact r.rules_run h
  · obtain ⟨statements, htree, hrest⟩ := program_ends (.start ts)
    refine ⟨_, _, parse_of_runParser htree, run_parseLogged mode traceRules j htree,
      findings_runParser ts, ?_⟩
    have htold := told_contexts mode traceRules j (runParser ts).2.trail.reverse
    rw [← ParseState.recorded, recorded_runParser, List.forall₂_map_right_iff] at htold
    rw [account_filter mode traceRules j ts.length _ fun _ h => h.notDiagnostic]
    simpa only [RuleStack.render_of] using htold

end YupFront
