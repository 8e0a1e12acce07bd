import YupFront.Proofs.Soundness

/-! What can be read is passed quietly. A rule has to know where its tokens end: an expression ends
in front of whatever is no operator, a list of statements in front of the brace that closes it. -/

namespace YupFront

open Rule

/-- Tokens that can be read are passed without a finding, and the result is what they are read as.
Of the tokens behind, `follow` is required. -/
def Rule.Completes (r : Rule (Option Node)) (reading : Reading) (follow : List Token → Prop) :
    Prop :=
  ∀ ts node rest, reading ts node → follow rest → r.Passes ts rest fun result => result = some node

/-- The next token, if there is one, is not of the given kinds. -/
def Ends (kinds : TokenKind → Bool) (rest : List Token) : Prop :=
  ∀ t ∈ rest.head?, kinds t.kind = false

theorem ends_cons {kinds : TokenKind → Bool} {t : Token} {rest : List Token}
    (h : kinds t.kind = false) : Ends kinds (t :: rest) := by
  intro u hu
  cases hu
  exact h

section Chain

variable {kind : NodeKind} {joins : TokenKind → Bool} {operand : Rule (Option Node)}
  {reading : Reading} {follow : List Token → Prop}

/-- Induction is on the chain from its end, so the loop is followed from any point of it on. -/
theorem passes_chained_of_onto (h : operand.Completes reading follow)
    (hjoins : ∀ t rest, joins t.kind = true → follow (t :: rest)) {ts : List Token} {node : Node}
    (hc : ReadsChain kind joins reading ts node) :
    ∀ {more rest : List Token} {post : Option Node → Prop}, follow (more ++ rest) →
      (chainOnto kind joins operand (some node)).Passes more rest post →
      (chained kind joins operand).Passes (ts ++ more) rest post := by
  induction hc with
  | @single ts node hnode =>
    intro more rest post hf hp
    refine (h ts node _ hnode hf).bind fun result hr => ?_
    rw [hr]
    exact hp
  | @join ts us operator left right _ hj hright ih =>
    intro more rest post hf hp
    rw [List.append_assoc]
    refine ih (hjoins operator _ hj) ?_
    rw [chainOnto_eq]
    refine (passes_accept hj).bind_cons fun o ho => ?_
    obtain ⟨i, rfl⟩ := ho
    refine (h us right _ hright hf).bind fun result hr => ?_
    rw [hr]
    exact hp

theorem chained_completes (h : operand.Completes reading follow)
    (hjoins : ∀ t rest, joins t.kind = true → follow (t :: rest)) {follow' : List Token → Prop}
    (hfollow : ∀ rest, follow' rest → follow rest ∧ Ends joins rest) :
    (chained kind joins operand).Completes (ReadsChain kind joins reading) follow' := by
  intro ts node rest hnode hf
  obtain ⟨hf, he⟩ := hfollow rest hf
  rw [← List.append_nil ts]
  refine passes_chained_of_onto h hjoins hnode hf ?_
  rw [chainOnto_eq]
  refine (passes_accept_none he).bind_nil fun o ho => ?_
  rw [ho]
  exact passes_pure rfl

end Chain

theorem isMultiplicative_of_isAdditive {k : TokenKind} (h : k.isAdditive = true) :
    k.isMultiplicative = false := by
  cases k <;> first | rfl | cases h

def TokenKind.isArithmetic (k : TokenKind) : Bool := k.isMultiplicative || k.isAdditive

theorem isArithmetic_of_isRelational {k : TokenKind} (h : k.isRelational = true) :
    k.isArithmetic = false := by
  cases k <;> first | rfl | cases h

def EndsExpression : List Token → Prop := Ends TokenKind.isArithmetic

theorem EndsExpression.ends {rest : List Token} (h : EndsExpression rest) :
    Ends TokenKind.isMultiplicative rest ∧ Ends TokenKind.isAdditive rest := by
  constructor <;> intro t ht <;>
    have := h t ht <;>
    simp_all [TokenKind.isArithmetic]

theorem endsExpression_of_kind {t : Token} {rest : List Token} {kind : TokenKind}
    (h : t.kind = kind) (hk : kind.isArithmetic = false) : EndsExpression (t :: rest) :=
  ends_cons (h ▸ hk)

theorem passes_parenthesised {expression : Rule (Option Node)} {reading : Reading}
    (h : expression.Completes reading EndsExpression) {opening closing : Token}
    {ts rest : List Token} {node : Node} (hnode : reading ts node) (hk : closing.kind = .rightParen) :
    (parenthesised expression).Passes (opening :: (ts ++ [closing])) rest fun result =>
      ∃ c, result = (some node, some c) := by
  refine .deeper (passes_skip.bind_cons fun _ _ => ?_)
  refine (h ts node _ hnode (endsExpression_of_kind hk rfl)).bind fun result hr => ?_
  refine (passes_accept (by simp [hk])).bind_cons fun o ho => ?_
  obtain ⟨i, rfl⟩ := ho
  exact passes_pure ⟨⟨i, closing⟩, by rw [hr]⟩

theorem passes_factorFrom {inner : Option (Rule (Option Node))} {reading : Option Reading}
    (h : Option.Rel (fun r p => Rule.Completes r p EndsExpression) inner reading) {t : Token}
    {us rest : List Token} {node : Node} (hnode : ReadsFactor reading (t :: us) node) (i : Nat) :
    (factorFrom inner ⟨i, t⟩).Passes (t :: us) rest fun result => result = some node := by
  cases hnode with
  | number hk =>
    simp only [factorFrom, hk]
    exact passes_skip.bind_cons fun _ _ => passes_pure rfl
  | identifier hk =>
    simp only [factorFrom, hk]
    exact passes_skip.bind_cons fun _ _ => passes_pure rfl
  | @parens expression _ closing ts _ hinner hopening hclosing hnode =>
    subst hinner
    cases h with
    | some h =>
      simp only [factorFrom, hopening]
      rw [← List.append_nil (t :: (ts ++ [closing]))]
      refine (passes_parenthesised h hnode hclosing).bind fun result hr => ?_
      obtain ⟨c, rfl⟩ := hr
      exact passes_pure rfl

theorem factor_completes {inner : Option (Rule (Option Node))} {reading : Option Reading}
    (h : Option.Rel (fun r p => Rule.Completes r p EndsExpression) inner reading) :
    (factor inner).Completes (ReadsFactor reading) fun _ => True := by
  intro ts node rest hnode _ s hs
  obtain ⟨t, us, rfl⟩ := hnode.exists_cons
  have hrun : (factor inner).run s = (factorFrom inner ⟨s.cursor.position, t⟩).run s := by
    simp [factor, peek, look, Cursor.current?_of_cons hs]
  rw [hrun]
  exact passes_factorFrom h hnode _ s hs

theorem sum_completes {inner : Option (Rule (Option Node))} {reading : Option Reading}
    (h : Option.Rel (fun r p => Rule.Completes r p EndsExpression) inner reading) :
    (sum inner).Completes (ReadsSum reading) EndsExpression := by
  have hterm : (chained .term TokenKind.isMultiplicative (factor inner)).Completes
      (ReadsTerm reading) (Ends TokenKind.isMultiplicative) :=
    chained_completes (factor_completes h) (fun _ _ _ => trivial) fun _ hr => ⟨trivial, hr⟩
  exact chained_completes hterm (fun _ _ hj => ends_cons (isMultiplicative_of_isAdditive hj))
    fun _ hr => hr.ends

theorem expressionAt_completes (level : Nat) :
    (expressionAt level).Completes (ReadsExpression level) EndsExpression := by
  induction level with
  | zero => exact sum_completes .none
  | succ level ih => exact sum_completes (.some ih)

theorem passes_condition {expression : Rule (Option Node)} {reading : Reading}
    (h : expression.Completes reading EndsExpression) {ts rest : List Token} {node : Node}
    (hnode : ReadsCondition reading ts node) (hrest : EndsExpression rest) :
    (condition expression).Passes ts rest fun result => result = some node := by
  cases hnode with
  | @compare ts us operator left right hleft hrel hright =>
    have hends : EndsExpression (operator :: us ++ rest) :=
      ends_cons (isArithmetic_of_isRelational hrel)
    refine .within ((h ts left _ hleft hends).bind fun result hl => ?_)
    refine (passes_accept hrel).bind_cons fun o ho => ?_
    obtain ⟨i, rfl⟩ := ho
    rw [← List.append_nil us]
    refine (h us right _ hright hrest).bind fun result hr => ?_
    rw [hl, hr]
    exact passes_pure rfl

section Statement

variable {expression : Rule (Option Node)} {reading : Reading} {inner : Option (Reading × Reading)}
  {a : Anchor} {ts rest : List Token} {node : Node}

theorem passes_declaration (h : expression.Completes reading EndsExpression)
    {name assign ending : Token} (hname : name.kind = .identifier) (hassign : assign.kind = .assign)
    (hending : ending.kind = .semicolon) (hnode : reading ts node) :
    (declaration expression a).Passes (a.token :: name :: assign :: (ts ++ [ending])) rest
      fun result => result = some (.interior .declaration a.token.span
        [some (.leaf .identifier name), some node]) := by
  refine .within (passes_skip.bind_cons fun _ _ => ?_)
  refine (passes_accept (by simp [hname])).bind_cons fun o ho => ?_
  obtain ⟨i, rfl⟩ := ho
  refine passes_require_bind hassign ?_
  refine (h ts node _ hnode (endsExpression_of_kind hending rfl)).bind fun result hr => ?_
  exact passes_require_bind hending (passes_pure (by rw [hr]))

theorem passes_assignment (h : expression.Completes reading EndsExpression)
    {assign ending : Token} (hassign : assign.kind = .assign) (hending : ending.kind = .semicolon)
    (hnode : reading ts node) :
    (assignment expression a).Passes (a.token :: assign :: (ts ++ [ending])) rest
      fun result => result = some (.interior .assignment a.token.span
        [some (.leaf .identifier a.token), some node]) := by
  refine .within (passes_skip.bind_cons fun _ _ => ?_)
  refine passes_require_bind hassign ?_
  refine (h ts node _ hnode (endsExpression_of_kind hending rfl)).bind fun result hr => ?_
  exact passes_require_bind hending (passes_pure (by rw [hr]))

theorem passes_printing (h : expression.Completes reading EndsExpression)
    {leftParen rightParen ending : Token} (hleft : leftParen.kind = .leftParen)
    (hright : rightParen.kind = .rightParen) (hending : ending.kind = .semicolon)
    (hnode : reading ts node) :
    (printing expression a).Passes (a.token :: leftParen :: (ts ++ [rightParen, ending])) rest
      fun result => result = some (.interior .printStatement a.token.span [some node]) := by
  refine .within (passes_skip.bind_cons fun _ _ => ?_)
  refine passes_require_bind hleft ?_
  refine (h ts node _ hnode (endsExpression_of_kind hright rfl)).bind fun result hr => ?_
  refine passes_require_bind hright ?_
  exact passes_require_bind hending (passes_pure (by rw [hr]))

/-- Tokens that can be read as a statement are passed without a finding, whatever comes behind. -/
def Rule.CompletesStatement (r : Rule (Except Stall (Option Node))) (reading : Reading) : Prop :=
  ∀ ts node rest, reading ts node → r.Passes ts rest fun result => result = .ok (some node)

/-- No statement is taken for the end of a list. -/
def Opens (reading : Reading) (closes : TokenKind → Bool) : Prop :=
  ∀ ts node, reading ts node → ∃ t us, ts = t :: us ∧ closes t.kind = false

theorem passes_gatherOnto {one : Rule (Except Stall (Option Node))} (hadv : one.Advances)
    (h : one.CompletesStatement reading) {closes : TokenKind → Bool} (hopens : Opens reading closes)
    {nodes : List Node} (hnodes : ReadsAll reading ts nodes)
    (hrest : ∀ t ∈ rest.head?, closes t.kind = true) (done : List Node) :
    (gatherOnto one closes done).Passes ts rest fun result =>
      result = .ok (done.reverse ++ nodes) := by
  induction hnodes generalizing done with
  | nil =>
    intro s hs
    have hrun : (gatherOnto one closes done).run s = (.ok done.reverse, s) := by
      cases rest with
      | nil => exact gatherOnto_nil hs
      | cons t rest => exact gatherOnto_closed hs (hrest t rfl)
    rw [hrun]
    exact ⟨by simp, hs, rfl⟩
  | @cons ts us node nodes hnode _ ih =>
    have hp := (h ts node (us ++ rest) hnode).bind (f := gatherMore one closes done)
      fun result hr => by
        rw [hr]
        exact ih (node :: done)
    obtain ⟨t, ts', rfl, hc⟩ := hopens ts node hnode
    refine (hp.of_run_eq fun s hs => gatherOnto_cons hadv done hs hc).mono fun result hr => ?_
    rw [hr]
    simp

structure PartsComplete (parts : Rule (Option Node) × Rule (Except Stall (Option Node)))
    (readings : Reading × Reading) : Prop where
  expression : parts.1.Completes readings.1 EndsExpression
  statement : parts.2.CompletesStatement readings.2
  advances : parts.2.Advances
  opens : Opens readings.2 (· == .rightBrace)

theorem passes_blockStatement (block : Block)
    {parts : Rule (Option Node) × Rule (Except Stall (Option Node))} {readings : Reading × Reading}
    (h : PartsComplete parts readings) {leftParen rightParen leftBrace rightBrace : Token}
    {us : List Token} (rest : List Token) {test : Node} {body : List Node}
    (hleftParen : leftParen.kind = .leftParen)
    (hrightParen : rightParen.kind = .rightParen) (hleftBrace : leftBrace.kind = .leftBrace)
    (hrightBrace : rightBrace.kind = .rightBrace) (htest : ReadsCondition readings.1 ts test)
    (hbody : ReadsAll readings.2 us body) :
    (blockStatement block parts.1 parts.2 a).Passes
      (a.token :: leftParen :: (ts ++ rightParen :: leftBrace :: (us ++ [rightBrace]))) rest
      fun result => result = .ok (some (.interior block.nodeKind a.token.span
        [some test, some (.interior .body a.token.span (body.map some))])) := by
  refine .deeper (.within (passes_skip.bind_cons fun _ _ => ?_))
  refine passes_require_bind hleftParen ?_
  have hends : EndsExpression (rightParen :: leftBrace :: (us ++ [rightBrace]) ++ rest) :=
    endsExpression_of_kind hrightParen rfl
  refine (passes_condition h.expression htest hends).bind fun result hr => ?_
  subst hr
  refine passes_require_bind hrightParen (passes_require_bind hleftBrace ?_)
  have hcloses : ∀ t ∈ ([rightBrace] ++ rest).head?, (t.kind == .rightBrace) = true := by
    intro t ht
    cases ht
    simp [hrightBrace]
  have hgather := passes_gatherOnto h.advances h.statement h.opens hbody hcloses []
  refine hgather.bind fun result hr => ?_
  subst hr
  exact passes_require_bind hrightBrace (passes_pure (by simp))

theorem passes_statementFrom {parts : BlockParts} (h : expression.Completes reading EndsExpression)
    (hparts : Option.Rel PartsComplete parts inner) {t : Token} {us : List Token}
    (hnode : ReadsStatement reading inner (t :: us) node) (i : Nat) :
    (statementFrom expression parts ⟨i, t⟩).Passes (t :: us) rest
      fun result => result = .ok (some node) := by
  cases hnode with
  | declaration hk hname hassign hending hvalue =>
    simp only [statementFrom, hk]
    exact .map ((passes_declaration (a := ⟨i, t⟩) h hname hassign hending hvalue).mono
      fun _ => congrArg _)
  | assignment hk hassign hending hvalue =>
    simp only [statementFrom, hk]
    exact .map ((passes_assignment (a := ⟨i, t⟩) h hassign hending hvalue).mono
      fun _ => congrArg _)
  | printing hk hleft hright hending hvalue =>
    simp only [statementFrom, hk]
    exact .map ((passes_printing (a := ⟨i, t⟩) h hleft hright hending hvalue).mono
      fun _ => congrArg _)
  | block block hinner hk hleftParen hrightParen hleftBrace hrightBrace htest hbody =>
    subst hinner
    cases hparts with
    | some hparts =>
      have hp := passes_blockStatement (a := ⟨i, t⟩) block hparts rest hleftParen hrightParen
        hleftBrace hrightBrace htest hbody
      cases block <;> simp only [statementFrom, hk, Block.keyword] <;> exact hp

theorem statement_completes {parts : BlockParts} (h : expression.Completes reading EndsExpression)
    (hparts : Option.Rel PartsComplete parts inner) :
    (statement expression parts).CompletesStatement (ReadsStatement reading inner) := by
  intro ts node rest hnode s hs
  obtain ⟨t, us, rfl, _⟩ := hnode.head
  have hrun : (statement expression parts).run s =
      (statementFrom expression parts ⟨s.cursor.position, t⟩).run s := by
    simp [statement, peek, look, Cursor.current?_of_cons hs]
  rw [hrun]
  exact passes_statementFrom h hparts hnode _ s hs

theorem statementAt_opens (level : Nat) : Opens (ReadsStatementAt level) (· == .rightBrace) := by
  intro ts node hnode
  rw [readsStatementAt_eq] at hnode
  obtain ⟨t, us, rfl, hk⟩ := hnode.head
  exact ⟨t, us, rfl, by simpa using hk⟩

/-- Outside of all blocks, nothing closes the list. -/
theorem statementAt_opens_unclosed (level : Nat) : Opens (ReadsStatementAt level) fun _ => false := by
  intro ts node hnode
  obtain ⟨t, us, hts, _⟩ := statementAt_opens level ts node hnode
  exact ⟨t, us, hts, rfl⟩

theorem statementAt_completes (level : Nat) :
    (statementAt level).CompletesStatement (ReadsStatementAt level) := by
  induction level with
  | zero => exact statement_completes (expressionAt_completes 0) .none
  | succ level ih =>
    exact statement_completes (expressionAt_completes (level + 1))
      (.some ⟨expressionAt_completes level, ih, (statementAt_proceeds level).advances,
        statementAt_opens level⟩)

end Statement

theorem runParser_of_readsAll {ts : List Token} {nodes : List Node}
    (h : ReadsAll (ReadsStatementAt Limits.nesting) ts nodes) :
    (runParser ts).1 = .ok (.root nodes) ∧ (runParser ts).2.findings = [] := by
  have hopens := statementAt_opens_unclosed Limits.nesting
  have hp : program.Passes ts [] fun result => result = .ok (.root nodes) := by
    rw [← List.append_nil ts]
    refine .within ((passes_gatherOnto (statementAt_proceeds Limits.nesting).advances
      (statementAt_completes Limits.nesting) hopens h (by simp) []).bind fun result hr => ?_)
    subst hr
    exact passes_pure (by simp)
  obtain ⟨hr, _, hq⟩ := hp (.start ts) (List.append_nil ts).symm
  exact ⟨hr, hq⟩

/-- A parse finds nothing wrong exactly if all tokens are read as statements, and then these are its
tree. -/
theorem parse_quiet_iff {ts : List Token} {tree : Node} :
    parse ts = .ok ⟨tree, []⟩ ↔
      ∃ nodes, tree = .root nodes ∧ ReadsAll (ReadsStatementAt Limits.nesting) ts nodes := by
  constructor
  · intro h
    obtain ⟨statements, hr, _⟩ := program_ends (.start ts)
    rw [parse_of_runParser hr] at h
    injection h with h
    injection h with htree hf
    obtain ⟨nodes, hn, hnodes⟩ := readsAll_of_quiet (List.reverse_eq_nil_iff.mp hf)
    refine ⟨nodes, ?_, hnodes⟩
    rw [← htree]
    exact Except.ok.inj (hr.symm.trans hn)
  · rintro ⟨nodes, rfl, hnodes⟩
    obtain ⟨hr, hf⟩ := runParser_of_readsAll hnodes
    rw [parse_of_runParser hr, hf]
    rfl

/-- A semicolon in front of what is read as statements is the only thing that is found wrong. -/
theorem parse_semicolon_cons {t : Token} {ts : List Token} {nodes : List Node}
    (hk : t.kind = .semicolon) (h : ReadsAll (ReadsStatementAt Limits.nesting) ts nodes) :
    parse (t :: ts) = .ok ⟨.root nodes, [⟨.strayToken, 0, t⟩]⟩ := by
  obtain ⟨kind, text, first, last, span⟩ := t
  cases hk
  let t : Token := ⟨.semicolon, text, first, last, span⟩
  let s := (ParseState.start (t :: ts)).enter .program
  let behind := { s.record .strayToken ⟨0, t⟩ with cursor := s.cursor.advance }
  have hadv := (statementAt_proceeds Limits.nesting).advances
  have hgather : (gatherOnto (statementAt Limits.nesting) (fun _ => false) []).run s =
      (gatherOnto (statementAt Limits.nesting) (fun _ => false) []).run behind :=
    gatherOnto_cons hadv [] rfl rfl
  have hbehind : behind.cursor.rest = ts ++ [] := (List.append_nil ts).symm
  obtain ⟨hnodes, -, hfindings⟩ := passes_gatherOnto hadv (statementAt_completes Limits.nesting)
    (statementAt_opens_unclosed Limits.nesting) h (by simp) [] behind hbehind
  have htree : (runParser (t :: ts)).1 = .ok (.root nodes) := by
    simp [runParser, program, within, gather, s, hgather, hnodes]
  have hrun : (runParser (t :: ts)).2.findings = [⟨.strayToken, 0, t⟩] := by
    simp only [runParser, program, within, gather, run_bind, s, hgather, hnodes]
    exact hfindings
  rw [parse_of_runParser htree, hrun]
  rfl
end YupFront
