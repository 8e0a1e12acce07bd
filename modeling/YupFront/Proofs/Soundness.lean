import YupFront.Proofs.Quiet
import YupFront.Proofs.Reading

/-! What a quiet run has passed can be read as its result. -/

namespace YupFront

open Rule

def Found (reading : Reading) (used : List Token) (result : Option Node) : Prop :=
  ∃ node, result = some node ∧ reading used node

theorem Found.ok {reading : Reading} {used : List Token} {result : Option Node}
    (h : Found reading used result) :
    ∃ node, (.ok result : Except Stall (Option Node)) = .ok (some node) ∧ reading used node := by
  obtain ⟨node, rfl, hnode⟩ := h
  exact ⟨node, rfl, hnode⟩

/-- Where nothing is found wrong, the tokens that are passed are read as the result. A problem at
the end of the tokens is anchored at the last of them, and so there has to be one. -/
def Rule.Respects (r : Rule (Option Node)) (reading : Reading) : Prop :=
  ∀ s : ParseState, s.cursor.tokens ≠ [] → r.Vouches s (Found reading)

theorem ParseState.Leads.tokens_ne {s t : ParseState} (h : s.Leads t) (hs : s.cursor.tokens ≠ []) :
    t.cursor.tokens ≠ [] :=
  h.reaches.tokens_eq ▸ hs

theorem Cursor.tokens_ne_of_cons {c : Cursor} {t : Token} {rest : List Token}
    (h : c.rest = t :: rest) : c.tokens ≠ [] := by
  simp [tokens, h]

theorem Cursor.previous?_or_current? {c : Cursor} (h : c.tokens ≠ []) :
    ∃ a, c.previous?.or c.current? = some a := by
  rcases hb : c.before with _ | ⟨b, before⟩
  · cases hr : c.rest with
    | nil => simp [tokens, hb, hr] at h
    | cons t rest => simp [previous?, hb, current?_of_cons hr]
  · simp [previous?, hb]

theorem vouches_reportPrevious {s : ParseState} (hs : s.cursor.tokens ≠ []) (problem : Problem)
    (post : List Token → Unit → Prop) : (reportPrevious problem).Vouches s post := by
  obtain ⟨a, ha⟩ := Cursor.previous?_or_current? hs
  have hrun : (reportPrevious problem).run s = (report problem a).run s := by
    simp [reportPrevious, previousOrFirst, look, ha]
  intro hq
  rw [hrun] at hq ⊢
  exact vouches_report problem a post hq

theorem vouches_reportPrevious_bind {s : ParseState} (hs : s.cursor.tokens ≠ []) (problem : Problem)
    (f : Unit → Rule β) (post : List Token → β → Prop) :
    (reportPrevious problem >>= f).Vouches s post :=
  (vouches_reportPrevious hs problem fun _ _ => False).bind fun _ _ _ _ _ h => h.elim

section Chain

variable {kind : NodeKind} {joins : TokenKind → Bool} {operand : Rule (Option Node)}
  {reading : Reading}

theorem chainOnto_eq (left : Option Node) :
    chainOnto kind joins operand left = (do
      match ← accept joins with
      | none => return left
      | some operator =>
        let right ← operand
        chainOnto kind joins operand (some (.binary kind left operator.token right))) := by
  ext1 s
  · change chainFrom kind joins operand left s = _
    rw [chainFrom]
    split
    · next h => simp [accept, h, Cursor.accept_none h]
    · next operator cursor h =>
      simp only [accept, run_bind, h]
      rfl
  · change chainActs joins operand s = _
    rw [chainActs]
    split
    · next h => simp [accept, h]
    · next operator cursor h =>
      simp only [accept, acts_bind, h]
      rfl

theorem vouches_chainOnto (h : operand.Respects reading) {before : List Token} {left : Option Node}
    (hl : Found (ReadsChain kind joins reading) before left) {s : ParseState}
    (hs : s.cursor.tokens ≠ []) :
    (chainOnto kind joins operand left).Vouches s fun used result =>
      Found (ReadsChain kind joins reading) (before ++ used) result := by
  induction hn : s.cursor.rest.length using Nat.strongRecOn generalizing s before left with
  | ind n ih =>
    rw [chainOnto_eq]
    refine (vouches_accept joins s).bind fun used o t hst ht ho => ?_
    rcases ho with ⟨rfl, rfl⟩ | ⟨operator, rfl, rfl, hj⟩
    · exact vouches_pure (by simpa using hl)
    · have hts := hst.tokens_ne hs
      refine (h t hts).bind fun more result u htu hu hr => ?_
      obtain ⟨node, rfl, hnode⟩ := hl
      obtain ⟨right, rfl, hright⟩ := hr
      have hlen : u.cursor.rest.length < n := by
        simp only [← hn, ht, hu, List.length_cons, List.length_append]
        omega
      have hh := ih _ hlen ⟨_, rfl, ReadsChain.join hnode hj hright⟩ (htu.tokens_ne hts) rfl
      exact hh.mono fun _ _ hf => by simpa using hf

theorem chained_respects (h : operand.Respects reading) :
    (chained kind joins operand).Respects (ReadsChain kind joins reading) := by
  intro s hs
  refine (h s hs).bind fun used result t hst _ hr => ?_
  obtain ⟨node, rfl, hnode⟩ := hr
  exact vouches_chainOnto h ⟨node, rfl, .single hnode⟩ (hst.tokens_ne hs)

end Chain

theorem vouches_parenthesised {expression : Rule (Option Node)} {reading : Reading}
    (h : expression.Respects reading) {s : ParseState} {opening : Token} {rest : List Token}
    (hs : s.cursor.rest = opening :: rest) (hk : opening.kind = .leftParen) :
    (parenthesised expression).Vouches s fun used result =>
      result.2.isSome → Found (ReadsFactor (some reading)) used result.1 := by
  refine .deeper (.bind (vouches_skip (by exact hs)) fun used _ t hst _ hu => ?_)
  subst hu
  refine (h t (hst.tokens_ne (Cursor.tokens_ne_of_cons hs))).bind fun ts result u _ _ hr => ?_
  obtain ⟨node, rfl, hnode⟩ := hr
  refine (vouches_accept _ u).bind fun used o _ _ _ ho => vouches_pure fun hc => ?_
  rcases ho with ⟨rfl, _⟩ | ⟨closing, rfl, rfl, hck⟩
  · simp at hc
  · exact ⟨node, rfl, by simpa using ReadsFactor.parens rfl hk (by simpa using hck) hnode⟩

theorem vouches_factorFrom {inner : Option (Rule (Option Node))} {reading : Option Reading}
    (h : Option.Rel Rule.Respects inner reading) (a : Anchor) {s : ParseState} {rest : List Token}
    (hs : s.cursor.rest = a.token :: rest) :
    (factorFrom inner a).Vouches s (Found (ReadsFactor reading)) := by
  unfold factorFrom
  split
  · next hk =>
    refine (vouches_skip hs).bind fun used _ _ _ _ hu => vouches_pure ⟨_, rfl, ?_⟩
    rw [hu]
    exact .number hk
  · next hk =>
    refine (vouches_skip hs).bind fun used _ _ _ _ hu => vouches_pure ⟨_, rfl, ?_⟩
    rw [hu]
    exact .identifier hk
  · next hk =>
    cases h with
    | none => exact vouches_refuse_bind _ _ _
    | some h =>
      refine (vouches_parenthesised h hs hk).bind fun used result t _ _ hr => ?_
      obtain ⟨node, closing⟩ := result
      cases closing with
      | none => exact (vouches_true _ t).bind fun _ _ _ _ _ _ => vouches_report_bind _ _ _ _
      | some closing => exact vouches_pure (by simpa using hr rfl)
  · exact vouches_report_bind _ _ _ _

theorem factor_respects {inner : Option (Rule (Option Node))} {reading : Option Reading}
    (h : Option.Rel Rule.Respects inner reading) :
    (factor inner).Respects (ReadsFactor reading) := by
  intro s hs
  cases hr : s.cursor.rest with
  | nil =>
    have hp := vouches_reportPrevious_bind hs .operandMissing (fun _ => pure none)
      (Found (ReadsFactor reading))
    simpa [factor, peek, look, Vouches, Cursor.current?_eq_none.mpr hr] using hp
  | cons t rest =>
    have hp := vouches_factorFrom h ⟨s.cursor.position, t⟩ hr
    simpa [factor, peek, look, Vouches, Cursor.current?_of_cons hr] using hp

theorem expressionAt_respects (level : Nat) :
    (expressionAt level).Respects (ReadsExpression level) := by
  induction level with
  | zero => exact chained_respects (chained_respects (factor_respects .none))
  | succ level ih => exact chained_respects (chained_respects (factor_respects (.some ih)))

theorem condition_respects {expression : Rule (Option Node)} {reading : Reading}
    (h : expression.Respects reading) :
    (condition expression).Respects (ReadsCondition reading) := by
  intro s hs
  refine .within ((h _ (by exact hs)).bind fun ts result t hst _ hr => ?_)
  have hts := hst.tokens_ne hs
  obtain ⟨left, rfl, hleft⟩ := hr
  refine (vouches_accept _ t).bind fun used o u htu _ ho => ?_
  have hus := htu.tokens_ne hts
  rcases ho with ⟨rfl, _⟩ | ⟨operator, rfl, rfl, hrel⟩
  · exact vouches_reportPrevious_bind hus _ _ _
  · refine (h u hus).bind fun us result _ _ _ hr => ?_
    obtain ⟨right, rfl, hright⟩ := hr
    exact vouches_pure ⟨_, rfl, by simpa using ReadsCondition.compare hleft hrel hright⟩

section Statement

variable {expression : Rule (Option Node)} {reading : Reading} {inner : Option (Reading × Reading)}
  {s : ParseState} {a : Anchor} {rest : List Token}

theorem vouches_declaration (h : expression.Respects reading)
    (hs : s.cursor.rest = a.token :: rest) (hk : a.token.kind = .keyword .letKw) :
    (declaration expression a).Vouches s (Found (ReadsStatement reading inner)) := by
  refine .within (.bind (vouches_skip (by exact hs)) fun used _ t hst _ hu => ?_)
  subst hu
  have hts := hst.tokens_ne (Cursor.tokens_ne_of_cons hs)
  refine (vouches_accept _ t).bind fun used o u htu _ ho => ?_
  rcases ho with ⟨rfl, _⟩ | ⟨name, rfl, rfl, hname⟩
  · exact vouches_report_bind _ _ _ _
  · refine vouches_require_bind fun assign v huv _ hassign => ?_
    refine (h v (huv.tokens_ne (htu.tokens_ne hts))).bind fun ts result w _ _ hr => ?_
    obtain ⟨value, rfl, hvalue⟩ := hr
    refine vouches_require_bind fun ending x _ _ hending => vouches_pure ⟨_, rfl, ?_⟩
    simpa using ReadsStatement.declaration hk (by simpa using hname) hassign hending hvalue

theorem vouches_assignment (h : expression.Respects reading)
    (hs : s.cursor.rest = a.token :: rest) (hk : a.token.kind = .identifier) :
    (assignment expression a).Vouches s (Found (ReadsStatement reading inner)) := by
  refine .within (.bind (vouches_skip (by exact hs)) fun used _ t hst _ hu => ?_)
  subst hu
  have hts := hst.tokens_ne (Cursor.tokens_ne_of_cons hs)
  refine vouches_require_bind fun assign u htu _ hassign => ?_
  refine (h u (htu.tokens_ne hts)).bind fun ts result v _ _ hr => ?_
  obtain ⟨value, rfl, hvalue⟩ := hr
  refine vouches_require_bind fun ending w _ _ hending => vouches_pure ⟨_, rfl, ?_⟩
  simpa using ReadsStatement.assignment hk hassign hending hvalue

theorem vouches_printing (h : expression.Respects reading)
    (hs : s.cursor.rest = a.token :: rest) (hk : a.token.kind = .keyword .printKw) :
    (printing expression a).Vouches s (Found (ReadsStatement reading inner)) := by
  refine .within (.bind (vouches_skip (by exact hs)) fun used _ t hst _ hu => ?_)
  subst hu
  have hts := hst.tokens_ne (Cursor.tokens_ne_of_cons hs)
  refine vouches_require_bind fun leftParen u htu _ hleft => ?_
  refine (h u (htu.tokens_ne hts)).bind fun ts result v _ _ hr => ?_
  obtain ⟨value, rfl, hvalue⟩ := hr
  refine vouches_require_bind fun rightParen w _ _ hright => ?_
  refine vouches_require_bind fun ending x _ _ hending => vouches_pure ⟨_, rfl, ?_⟩
  simpa using ReadsStatement.printing hk hleft hright hending hvalue

/-- Where a statement begins at a token and nothing is found wrong, its tokens are read as one. -/
def Rule.RespectsStatement (r : Rule (Except Stall (Option Node))) (reading : Reading) : Prop :=
  ∀ s : ParseState, s.cursor.rest ≠ [] →
    r.Vouches s fun used result => ∃ node, result = .ok (some node) ∧ reading used node

structure PartsRespect (parts : Rule (Option Node) × Rule (Except Stall (Option Node)))
    (readings : Reading × Reading) : Prop where
  expression : parts.1.Respects readings.1
  statement : parts.2.RespectsStatement readings.2
  advances : parts.2.Advances
  nonempty : ∀ ts node, readings.2 ts node → ts ≠ []

theorem vouches_gatherOnto {one : Rule (Except Stall (Option Node))}
    (h : one.RespectsStatement reading) (hadv : one.Advances)
    (hpos : ∀ ts node, reading ts node → ts ≠ []) (closes : TokenKind → Bool) (done : List Node)
    (s : ParseState) :
    (gatherOnto one closes done).Vouches s fun used result =>
      ∃ nodes, result = .ok (done.reverse ++ nodes) ∧ ReadsAll reading used nodes := by
  induction hn : s.cursor.rest.length using Nat.strongRecOn generalizing s done with
  | ind n ih =>
    cases hr : s.cursor.rest with
    | nil => exact .of_run_eq (gatherOnto_nil hr) (vouches_pure ⟨[], by simp, .nil⟩)
    | cons t rest =>
      cases hc : closes t.kind with
      | true => exact .of_run_eq (gatherOnto_closed hr hc) (vouches_pure ⟨[], by simp, .nil⟩)
      | false =>
        refine .of_run_eq (gatherOnto_cons hadv done hr hc) ?_
        refine (h s (by simp [hr])).bind fun used result u _ hu hres => ?_
        obtain ⟨node, rfl, hnode⟩ := hres
        have hused := List.length_pos_iff.mpr (hpos used node hnode)
        have hlen : u.cursor.rest.length < n := by
          rw [← hn, hu, List.length_append]
          omega
        refine (ih _ hlen _ u rfl).mono fun more result hmore => ?_
        obtain ⟨nodes, rfl, hnodes⟩ := hmore
        exact ⟨node :: nodes, by simp, .cons hnode hnodes⟩

theorem vouches_blockStatement (block : Block)
    {parts : Rule (Option Node) × Rule (Except Stall (Option Node))} {readings : Reading × Reading}
    (h : PartsRespect parts readings) (hs : s.cursor.rest = a.token :: rest)
    (hk : a.token.kind = .keyword block.keyword) :
    (blockStatement block parts.1 parts.2 a).Vouches s fun used result =>
      ∃ node, result = .ok (some node) ∧ ReadsStatement reading (some readings) used node := by
  refine .deeper (.within (.bind (vouches_skip (by exact hs)) fun used _ t hst _ hu => ?_))
  subst hu
  have hts := hst.tokens_ne (Cursor.tokens_ne_of_cons hs)
  refine vouches_require_bind fun leftParen u htu _ hleftParen => ?_
  refine (condition_respects h.expression u (htu.tokens_ne hts)).bind
    fun ts result v _ _ hr => ?_
  obtain ⟨test, rfl, htest⟩ := hr
  refine vouches_require_bind fun rightParen w _ _ hrightParen => ?_
  refine vouches_require_bind fun leftBrace x _ _ hleftBrace => ?_
  refine (vouches_gatherOnto h.statement h.advances h.nonempty (· == .rightBrace) [] x).bind
    fun us result y _ _ hr => ?_
  obtain ⟨body, rfl, hbody⟩ := hr
  refine vouches_require_bind fun rightBrace z _ _ hrightBrace => vouches_pure ⟨_, rfl, ?_⟩
  simpa using ReadsStatement.block block rfl hk hleftParen hrightParen hleftBrace hrightBrace htest
    hbody

theorem vouches_statementFrom {parts : BlockParts} (h : expression.Respects reading)
    (hparts : Option.Rel PartsRespect parts inner) (hs : s.cursor.rest = a.token :: rest) :
    (statementFrom expression parts a).Vouches s fun used result =>
      ∃ node, result = .ok (some node) ∧ ReadsStatement reading inner used node := by
  have hnested : ∀ block : Block, a.token.kind = .keyword block.keyword →
      (nestedStatement parts block a).Vouches s fun used result =>
        ∃ node, result = .ok (some node) ∧ ReadsStatement reading inner used node := by
    intro block hk
    cases hparts with
    | none => exact vouches_refuse_bind _ _ _
    | some hparts => exact vouches_blockStatement block hparts hs hk
  unfold statementFrom
  split
  · next hk => exact .map ((vouches_declaration h hs hk).mono fun _ _ => Found.ok)
  · next hk => exact hnested .conditional hk
  · next hk => exact hnested .loop hk
  · next hk => exact .map ((vouches_printing h hs hk).mono fun _ _ => Found.ok)
  · next hk => exact .map ((vouches_assignment h hs hk).mono fun _ _ => Found.ok)
  · exact vouches_report_bind _ _ _ _

theorem statement_respects {parts : BlockParts} (h : expression.Respects reading)
    (hparts : Option.Rel PartsRespect parts inner) :
    (statement expression parts).RespectsStatement (ReadsStatement reading inner) := by
  intro s hs
  obtain ⟨t, rest, hr⟩ := List.exists_cons_of_ne_nil hs
  have hp := vouches_statementFrom h hparts (a := ⟨s.cursor.position, t⟩) hr
  refine .of_run_eq ?_ hp
  simp [statement, peek, look, Cursor.current?_of_cons hr]

theorem statementAt_respects (level : Nat) :
    (statementAt level).RespectsStatement (ReadsStatementAt level) := by
  induction level with
  | zero => exact statement_respects (expressionAt_respects 0) .none
  | succ level ih =>
    exact statement_respects (expressionAt_respects (level + 1))
      (.some ⟨expressionAt_respects level, ih, (statementAt_proceeds level).advances,
        readsStatementAt_ne_nil level⟩)

end Statement

/-- If nothing is wrong with a program, all its tokens are read as statements. -/
theorem readsAll_of_quiet {ts : List Token} (h : (runParser ts).2.findings = []) :
    ∃ nodes, (runParser ts).1 = .ok (.root nodes) ∧
      ReadsAll (ReadsStatementAt Limits.nesting) ts nodes := by
  have hv : program.Vouches (.start ts) fun used result =>
      ∃ nodes, result = .ok (.root nodes) ∧
        ReadsAll (ReadsStatementAt Limits.nesting) used nodes := by
    refine .within ((vouches_gatherOnto (statementAt_respects Limits.nesting)
      (statementAt_proceeds Limits.nesting).advances (readsStatementAt_ne_nil Limits.nesting)
      (fun _ => false) [] _).bind fun used result t _ _ hr => ?_)
    obtain ⟨nodes, rfl, hnodes⟩ := hr
    exact vouches_pure ⟨nodes, rfl, by simpa using hnodes⟩
  obtain ⟨used, hu, nodes, hn, hr⟩ := hv h
  obtain ⟨_, _, hrest⟩ := program_ends (.start ts)
  have hused : ts = used := by
    rw [hrest, List.append_nil] at hu
    exact hu
  exact ⟨nodes, hn, hused ▸ hr⟩

end YupFront
