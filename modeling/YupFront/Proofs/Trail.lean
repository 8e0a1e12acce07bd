import YupFront.Proofs.Postcondition

/-! The trail of a parse. Every finding is in it, in order, and where a block or a parenthesis is
refused that comes right before the finding about it. -/

namespace YupFront

/-- The finding that a step notes. -/
def Step.finding? : Step → Option Finding
  | .recorded finding _ => some finding
  | .entered .. | .tooDeep .. => none

/-- Steps, the oldest first, in which a refusal and the finding about it are one behind the other and
never apart. -/
inductive Step.Paired : List Step → Prop where
  | nil : Paired []
  | entered {steps : List Step} (rule : NodeKind) (position : Nat) (rules : RuleStack) :
      Paired steps → Paired (.entered rule position rules :: steps)
  | recorded {steps : List Step} {finding : Finding} (rules : RuleStack) :
      finding.problem ≠ .nestingTooDeep → Paired steps → Paired (.recorded finding rules :: steps)
  | refused {steps : List Step} (depth : Nat) (a : Anchor) (rules : RuleStack) : Paired steps →
      Paired (.tooDeep depth a.token.span rules :: .recorded ⟨.nestingTooDeep, a⟩ rules :: steps)

theorem Step.Paired.append {steps more : List Step} (h : Paired steps) (hmore : Paired more) :
    Paired (steps ++ more) := by
  induction h with
  | nil => exact hmore
  | entered rule position rules _ ih => exact .entered rule position rules ih
  | recorded rules hp _ ih => exact .recorded rules hp ih
  | refused depth a rules _ ih => exact .refused depth a rules ih

namespace ParseState

variable {s t u : ParseState}

/-- Between `s` and `t` the trail grows by paired steps, and the findings by those that the steps
note. -/
def Trails (s t : ParseState) : Prop :=
  ∃ steps, t.trail = steps.reverse ++ s.trail ∧
    t.findings = (steps.filterMap Step.finding?).reverse ++ s.findings ∧ Step.Paired steps

theorem Trails.of_eq (ht : t.trail = s.trail) (hf : t.findings = s.findings) : s.Trails t :=
  ⟨[], by simp [ht], by simp [hf], .nil⟩

theorem Trails.refl (s : ParseState) : s.Trails s := .of_eq rfl rfl

theorem Trails.trans (hst : s.Trails t) (htu : t.Trails u) : s.Trails u := by
  obtain ⟨steps, ht, hf, hp⟩ := hst
  obtain ⟨more, ht', hf', hp'⟩ := htu
  exact ⟨steps ++ more, by simp [ht, ht'], by simp [hf, hf'], hp.append hp'⟩

theorem trails_enter (s : ParseState) (rule : NodeKind) : s.Trails (s.enter rule) :=
  ⟨[_], rfl, rfl, .entered _ _ _ .nil⟩

theorem trails_record (s : ParseState) {problem : Problem} (hp : problem ≠ .nestingTooDeep)
    (anchor : Anchor) : s.Trails (s.record problem anchor) :=
  ⟨[_], rfl, rfl, .recorded _ hp .nil⟩

end ParseState

namespace Rule

def Trails (r : Rule α) : Prop :=
  ∀ s : ParseState, s.Trails (r.run s).2

variable {α β : Type}

theorem trails_pure (a : α) : (pure a : Rule α).Trails := .refl

theorem Trails.bind {r : Rule α} {f : α → Rule β} (hr : r.Trails) (hf : ∀ a, (f a).Trails) :
    (r >>= f).Trails :=
  fun s => (hr s).trans (hf (r.run s).1 (r.run s).2)

theorem Trails.map {r : Rule α} (h : r.Trails) (f : α → β) : (f <$> r).Trails :=
  h.bind fun a => trails_pure (f a)

theorem Trails.within {r : Rule α} (h : r.Trails) (name : NodeKind) : (within name r).Trails :=
  fun s => (s.trails_enter name).trans ((h (s.enter name)).trans (.of_eq rfl rfl))

theorem Trails.deeper {r : Rule α} (h : r.Trails) : r.deeper.Trails := by
  intro s
  have hin : s.Trails { s with depth := s.depth + 1 } := .of_eq rfl rfl
  exact hin.trans ((h { s with depth := s.depth + 1 }).trans (.of_eq rfl rfl))

theorem trails_look (f : Cursor → α) : (look f).Trails := .refl

theorem trails_skip : skip.Trails := fun _ => .of_eq rfl rfl

theorem trails_accept (wanted : TokenKind → Bool) : (accept wanted).Trails := fun _ => .of_eq rfl rfl

theorem trails_report (problem : Problem) (anchor : Anchor)
    (hp : problem ≠ .nestingTooDeep := by nofun) : (report problem anchor).Trails :=
  fun s => s.trails_record hp anchor

theorem trails_reportPrevious (problem : Problem) (hp : problem ≠ .nestingTooDeep := by nofun) :
    (reportPrevious problem).Trails := by
  refine (trails_look _).bind fun o => ?_
  cases o with
  | some anchor => exact trails_report problem anchor hp
  | none => exact trails_pure ()

theorem trails_refuse (anchor : Anchor) : (refuse anchor).Trails :=
  fun s => ⟨[.tooDeep s.depth anchor.token.span s.rules, .recorded ⟨.nestingTooDeep, anchor⟩ s.rules],
    rfl, rfl, .refused _ _ _ .nil⟩

/-- What follows a token that has to be there, and what follows if it is missing. -/
theorem trails_require {kind : TokenKind} {problem : Problem} {anchor : Rule Anchor} {r q : Rule α}
    (ha : anchor.Trails) (hr : r.Trails) (hq : q.Trails)
    (hp : problem ≠ .nestingTooDeep := by nofun) :
    (require kind problem anchor >>= fun found => if found = true then r else q).Trails := by
  have hfound : (require kind problem anchor).Trails := by
    refine (trails_accept _).bind fun o => ?_
    cases o with
    | some token => exact trails_pure true
    | none => exact ha.bind fun a => (trails_report problem a hp).bind fun _ => trails_pure false
  refine hfound.bind fun found => ?_
  cases found with
  | true => exact hr
  | false => exact hq

theorem trails_chainOnto {operand : Rule (Option Node)} (h : operand.Trails) (kind : NodeKind)
    (joins : TokenKind → Bool) (left : Option Node) : (chainOnto kind joins operand left).Trails := by
  intro s
  change s.Trails (chainFrom kind joins operand left s).2
  fun_induction chainFrom kind joins operand left s with
  | case1 => exact .refl _
  | case2 left s operator cursor _ _ right ih =>
    have hpass : s.Trails { s with cursor } := .of_eq rfl rfl
    exact (hpass.trans (h { s with cursor })).trans ih

theorem trails_gather {one : Rule (Except Stall (Option Node))} (h : one.Trails)
    (closes : TokenKind → Bool) : (gather one closes).Trails := by
  intro s
  change s.Trails (gatherFrom one closes [] s).2
  fun_induction gatherFrom one closes [] s with
  | case1 => exact .refl _
  | case2 => exact .refl _
  | case3 done s a _ _ stall s' hr => simpa [hr] using h s
  | case4 done s a _ _ node s' hr _ _ => simpa [hr] using h s
  | case5 done s a _ _ node s' hr _ _ ih =>
    have hone : s.Trails s' := by simpa [hr] using h s
    exact hone.trans ih

end Rule

open Rule

section Expression

variable {expression : Rule (Option Node)}

theorem trails_chained {operand : Rule (Option Node)} (h : operand.Trails) (kind : NodeKind)
    (joins : TokenKind → Bool) : (chained kind joins operand).Trails :=
  h.bind fun left => trails_chainOnto h kind joins left

theorem trails_parenthesised (h : expression.Trails) : (parenthesised expression).Trails :=
  (trails_skip.bind fun _ => h.bind fun _ => (trails_accept _).bind fun _ => trails_pure _).deeper

theorem trails_factorFrom {inner : Option (Rule (Option Node))} (h : ∀ e ∈ inner, e.Trails)
    (a : Anchor) : (factorFrom inner a).Trails := by
  unfold factorFrom
  split
  · exact trails_skip.bind fun _ => trails_pure _
  · exact trails_skip.bind fun _ => trails_pure _
  · cases inner with
    | none => exact (trails_refuse a).bind fun _ => trails_pure none
    | some expression =>
      refine (trails_parenthesised (h expression rfl)).bind fun result => ?_
      obtain ⟨node, closing⟩ := result
      cases closing with
      | some closing => exact trails_pure node
      | none =>
        exact (trails_look _).bind fun anchor =>
          (trails_report _ anchor).bind fun _ => trails_pure none
  · exact (trails_report _ a).bind fun _ => trails_skip.bind fun _ => trails_pure none

theorem trails_factor {inner : Option (Rule (Option Node))} (h : ∀ e ∈ inner, e.Trails) :
    (factor inner).Trails := by
  refine (trails_look _).bind fun o => ?_
  cases o with
  | none => exact (trails_reportPrevious _).bind fun _ => trails_pure none
  | some a => exact trails_factorFrom h a

theorem trails_sum {inner : Option (Rule (Option Node))} (h : ∀ e ∈ inner, e.Trails) :
    (sum inner).Trails :=
  trails_chained (trails_chained (trails_factor h) _ _) _ _

theorem trails_expressionAt (level : Nat) : (expressionAt level).Trails :=
  expressionAt_induction (fun _ => trails_sum) level

theorem trails_condition (h : expression.Trails) : (condition expression).Trails := by
  refine .within (h.bind fun left => (trails_accept _).bind fun operator => ?_) _
  cases operator with
  | none => exact (trails_reportPrevious _).bind fun _ => trails_pure none
  | some operator => exact h.bind fun right => trails_pure _

end Expression

section Statement

variable {expression : Rule (Option Node)}

theorem trails_declaration (h : expression.Trails) (opening : Anchor) :
    (declaration expression opening).Trails := by
  refine .within (trails_skip.bind fun _ => (trails_accept _).bind fun name => ?_) _
  cases name with
  | none => exact (trails_report _ opening).bind fun _ => trails_pure none
  | some name =>
    refine trails_require (trails_pure name) (h.bind fun value => ?_) (trails_pure none)
    exact trails_require (trails_look _) (trails_pure _) (trails_pure none)

theorem trails_assignment (h : expression.Trails) (name : Anchor) :
    (assignment expression name).Trails := by
  refine .within (trails_skip.bind fun _ => ?_) _
  refine trails_require (trails_pure name) (h.bind fun value => ?_) (trails_pure none)
  exact trails_require (trails_look _) (trails_pure _) (trails_pure none)

theorem trails_printing (h : expression.Trails) (opening : Anchor) :
    (printing expression opening).Trails := by
  refine .within (trails_skip.bind fun _ => ?_) _
  refine trails_require (trails_pure opening) (h.bind fun value => ?_) (trails_pure none)
  refine trails_require (trails_look _) ?_ (trails_pure none)
  exact trails_require (trails_look _) (trails_pure _) (trails_pure none)

theorem trails_blockStatement {one : Rule (Except Stall (Option Node))} (h : expression.Trails)
    (hone : one.Trails) (block : Block) (opening : Anchor) :
    (blockStatement block expression one opening).Trails := by
  refine .deeper (.within (trails_skip.bind fun _ => ?_) _)
  refine trails_require (trails_pure opening) ?_ (trails_pure _)
  refine (trails_condition h).bind fun test => ?_
  refine trails_require (trails_look _) ?_ (trails_pure _)
  refine trails_require (trails_look _) ?_ (trails_pure _)
  refine (trails_gather hone _).bind fun result => ?_
  cases result with
  | error stall => exact trails_pure _
  | ok body => exact trails_require (trails_pure opening) (trails_pure _) (trails_pure _)

theorem trails_nestedStatement {inner : BlockParts}
    (h : ∀ parts ∈ inner, PartsHave Trails Trails parts) (block : Block) (opening : Anchor) :
    (nestedStatement inner block opening).Trails := by
  cases inner with
  | none => exact (trails_refuse opening).bind fun _ => trails_pure _
  | some parts =>
    have hp := h parts rfl
    exact trails_blockStatement hp.expression hp.statement block opening

theorem trails_statementFrom {inner : BlockParts} (he : expression.Trails)
    (h : ∀ parts ∈ inner, PartsHave Trails Trails parts) (a : Anchor) :
    (statementFrom expression inner a).Trails := by
  unfold statementFrom
  split
  · exact (trails_declaration he a).map _
  · exact trails_nestedStatement h .conditional a
  · exact trails_nestedStatement h .loop a
  · exact (trails_printing he a).map _
  · exact (trails_assignment he a).map _
  · exact (trails_report _ a).bind fun _ => trails_skip.bind fun _ => trails_pure _

theorem trails_statement {inner : BlockParts} (he : expression.Trails)
    (h : ∀ parts ∈ inner, PartsHave Trails Trails parts) :
    (statement expression inner).Trails := by
  refine (trails_look _).bind fun o => ?_
  cases o with
  | none => exact trails_pure _
  | some a => exact trails_statementFrom he h a

theorem trails_statementAt (level : Nat) : (statementAt level).Trails :=
  statementAt_induction trails_expressionAt (fun _ _ => trails_statement) level

theorem trails_program : program.Trails := by
  refine .within ((trails_gather (trails_statementAt Limits.nesting) _).bind fun result => ?_) _
  cases result with
  | ok statements => exact trails_pure _
  | error stall => exact trails_pure _

end Statement

/-- The whole trail of a parse, and its findings. -/
theorem runParser_trails (ts : List Token) :
    ∃ steps, (runParser ts).2.trail.reverse = steps ∧
      (runParser ts).2.findings.reverse = steps.filterMap Step.finding? ∧ Step.Paired steps := by
  obtain ⟨steps, ht, hf, hp⟩ := trails_program (.start ts)
  have htrail : (runParser ts).2.trail = steps.reverse := ht.trans (List.append_nil _)
  have hfindings : (runParser ts).2.findings = (steps.filterMap Step.finding?).reverse :=
    hf.trans (List.append_nil _)
  exact ⟨steps, by rw [htrail, List.reverse_reverse], by rw [hfindings, List.reverse_reverse], hp⟩

end YupFront
