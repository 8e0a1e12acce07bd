import YupFront.Proofs.Postcondition

/-! How many findings a parse can have. Every finding is paid for by a token that is passed, but for
one at the end of the tokens, where rules fail one after the other with nothing left to pass. -/

namespace YupFront

namespace ParseState

/-- Findings that no token has paid for. -/
def debt (s : ParseState) : Int := s.findings.length - s.cursor.position

/-- One finding is free at the end of the tokens. -/
def grace (s : ParseState) : Int := if s.cursor.rest = [] then 1 else 0

def Owes (s : ParseState) (bound : Int) : Prop := s.debt ≤ bound + s.grace

section Debt

variable {s : ParseState} {a : Anchor} {bound : Int}

@[simp] theorem debt_enter (s : ParseState) (name : NodeKind) : (s.enter name).debt = s.debt := rfl

@[simp] theorem grace_record (s : ParseState) (problem : Problem) (a : Anchor) :
    (s.record problem a).grace = s.grace := rfl

@[simp] theorem debt_record (s : ParseState) (problem : Problem) (a : Anchor) :
    (s.record problem a).debt = s.debt + 1 := by
  simp only [debt, record, List.length_cons]
  omega

theorem debt_passed (h : s.cursor.current? = some a) : s.passed.debt = s.debt - 1 := by
  have hposition : s.passed.cursor.position = s.cursor.position + 1 := Cursor.position_advance h
  have hfindings : s.passed.findings = s.findings := rfl
  simp only [debt, hposition, hfindings]
  omega

theorem grace_nonneg (s : ParseState) : 0 ≤ s.grace := by
  by_cases h : s.cursor.rest = [] <;> simp [grace, h]

theorem grace_of_current? (h : s.cursor.current? = some a) : s.grace = 0 := by
  obtain ⟨_, rest, hr⟩ := Cursor.current?_eq_some h
  simp [grace, hr]

theorem grace_of_end (h : s.cursor.current? = none) : s.grace = 1 := by
  simp [grace, Cursor.current?_eq_none.mp h]

theorem owes_of_debt_le (h : s.debt ≤ bound) : s.Owes bound := by
  have hgrace := s.grace_nonneg
  show s.debt ≤ bound + s.grace
  omega

theorem Owes.mono {more : Int} (h : s.Owes bound) (hm : bound ≤ more) : s.Owes more := by
  show s.debt ≤ more + s.grace
  have hs : s.debt ≤ bound + s.grace := h
  omega

/-- While a token is left, nothing has been free. -/
theorem Owes.debt_le (h : s.Owes bound) (hc : s.cursor.current? = some a) : s.debt ≤ bound := by
  have hgrace := grace_of_current? hc
  have hs : s.debt ≤ bound + s.grace := h
  omega

theorem Owes.record (h : s.Owes (bound - 1)) (problem : Problem) (a : Anchor) :
    (s.record problem a).Owes bound := by
  have hs : s.debt ≤ bound - 1 + s.grace := h
  show (s.record problem a).debt ≤ bound + (s.record problem a).grace
  rw [debt_record, grace_record]
  omega

end Debt

end ParseState

open Rule ParseState

/-- The tokens that the rule passes pay for its findings. -/
def Rule.Pays (r : Rule α) : Prop := ∀ s : ParseState, r.Ensures s fun _ t => t.Owes s.debt

section Steps

variable {s : ParseState} {a : Anchor} {bound : Int}

theorem Rule.Pays.from {r : Rule α} (h : r.Pays) (hs : s.debt ≤ bound) :
    r.Ensures s fun _ t => t.Owes bound :=
  (h s).mono fun _ _ ht => ht.mono hs

theorem owes_skip (hc : s.cursor.current? = some a) :
    skip.Ensures s fun _ t => t.Owes (s.debt - 1) := by
  have hpassed := debt_passed hc
  exact owes_of_debt_le (show s.passed.debt ≤ s.debt - 1 by omega)

theorem owes_reportPrevious (problem : Problem) (h : s.Owes (bound - 1)) :
    (reportPrevious problem).Ensures s fun _ t => t.Owes bound := by
  refine (ensures_look _ s).bind fun o t _ ho => ?_
  obtain ⟨rfl, rfl⟩ := ho
  split
  · next a _ => exact h.record problem a
  · exact h.mono (by omega)

/-- A token that is passed pays for a problem that is told at it. -/
theorem owes_recorded (problem : Problem) (hc : s.cursor.current? = some a) :
    (s.record problem a).passed.Owes s.debt := by
  have hcurrent : (s.record problem a).cursor.current? = some a := hc
  have hpassed := debt_passed hcurrent
  rw [debt_record] at hpassed
  exact owes_of_debt_le (by omega)

/-- A token that has to be there pays for itself and for the problem that is told if the next one is
missing. -/
theorem owes_require_else {kind : TokenKind} {problem : Problem} {anchor : Rule Anchor}
    {r : Rule α} {x : α} {post : α → ParseState → Prop} (hanchor : (anchor.run s).2 = s)
    (hs : s.Owes (bound - 1)) (hmissing : ∀ t : ParseState, t.Owes bound → post x t)
    (hr : ∀ t : ParseState, t.debt ≤ bound - 2 → r.Ensures t post) :
    (require kind problem anchor >>= fun found => if found = true then r else pure x).Ensures s
      post := by
  refine (ensures_require kind problem anchor s).bind fun found t _ ht => ?_
  cases ht with
  | taken hc =>
    have hdebt := hs.debt_le hc
    have hpassed := debt_passed hc
    exact hr _ (by omega)
  | missing =>
    rw [hanchor]
    exact ensures_pure (hmissing _ (hs.record problem _))

end Steps

section Expression

variable {expression operand : Rule (Option Node)} {s : ParseState} {a : Anchor}

theorem chained_pays (h : operand.Pays) (kind : NodeKind) (joins : TokenKind → Bool) :
    (chained kind joins operand).Pays := by
  intro s
  refine (h s).bind fun left t _ ht => ?_
  refine ensures_chainOnto (fun left u a hu hc _ => ?_) ht
  have hdebt := hu.debt_le hc
  have hpassed := debt_passed hc
  exact h.from (by omega)

theorem owes_parenthesised (h : expression.Pays) (hc : s.cursor.current? = some a) :
    (parenthesised expression).Ensures s fun _ t => t.Owes (s.debt - 1) := by
  have hpassed := debt_passed hc
  refine .deeper ((ensures_skip _).bind fun _ t _ ht => ?_)
  have hdebt : t.debt ≤ s.debt - 1 := by
    rw [ht]
    exact Int.le_of_eq hpassed
  refine (h.from hdebt).bind fun node u _ hu => ?_
  refine (ensures_accept _ u).bind fun closing v _ hv => ensures_pure ?_
  cases hv with
  | taken hclosing =>
    have hbefore := hu.debt_le hclosing
    have hafter := debt_passed hclosing
    have hle : u.passed.debt ≤ s.debt - 1 := by omega
    exact owes_of_debt_le hle
  | refused => exact hu

theorem owes_factorFrom {inner : Option (Rule (Option Node))} (h : ∀ e ∈ inner, e.Pays)
    (hc : s.cursor.current? = some a) :
    (factorFrom inner a).Ensures s fun _ t => t.Owes s.debt := by
  have hpassed := debt_passed hc
  unfold factorFrom
  split
  · exact owes_of_debt_le (show s.passed.debt ≤ s.debt by omega)
  · exact owes_of_debt_le (show s.passed.debt ≤ s.debt by omega)
  · cases inner with
    | none => exact owes_recorded .nestingTooDeep hc
    | some expression =>
      refine (owes_parenthesised (h expression rfl) hc).bind fun result t _ ht => ?_
      obtain ⟨node, closing⟩ := result
      cases closing with
      | some closing => exact ensures_pure (ht.mono (by omega))
      | none => exact ht.record .parenUnclosed (t.cursor.previous?.getD a)
  · exact owes_recorded .strayOperand hc

theorem factor_pays {inner : Option (Rule (Option Node))} (h : ∀ e ∈ inner, e.Pays) :
    (factor inner).Pays := by
  intro s
  refine (ensures_look _ s).bind fun o t _ ho => ?_
  obtain ⟨ho, rfl⟩ := ho
  cases o with
  | none =>
    -- The one problem that no token pays for.
    have hgrace := grace_of_end ho.symm
    have hfree : t.Owes (t.debt - 1) := by
      show t.debt ≤ t.debt - 1 + t.grace
      omega
    exact (owes_reportPrevious .operandMissing hfree).bind fun _ u _ hu => ensures_pure hu
  | some a => exact owes_factorFrom h ho.symm

theorem sum_pays {inner : Option (Rule (Option Node))} (h : ∀ e ∈ inner, e.Pays) :
    (sum inner).Pays :=
  chained_pays (chained_pays (factor_pays h) _ _) _ _

theorem expressionAt_pays (level : Nat) : (expressionAt level).Pays :=
  expressionAt_induction (fun _ => sum_pays) level

/-- The missing relation is the one problem of a condition that no token of it pays for. -/
theorem owes_condition (h : expression.Pays) (s : ParseState) :
    (condition expression).Ensures s fun _ t => t.Owes (s.debt + 1) := by
  refine .within ((h (s.enter .condition)).bind fun left t _ ht => ?_)
  refine (ensures_accept _ t).bind fun o u _ hu => ?_
  cases hu with
  | refused =>
    have hleft : t.Owes (s.debt + 1 - 1) := ht.mono (by rw [debt_enter]; omega)
    exact (owes_reportPrevious .conditionWithoutRelation hleft).bind fun _ v _ hv => ensures_pure hv
  | taken hc =>
    have hbefore := ht.debt_le hc
    have hafter := debt_passed hc
    rw [debt_enter] at hbefore
    have hle : t.passed.debt ≤ s.debt + 1 := by omega
    exact (h.from hle).bind fun right v _ hv => ensures_pure hv

end Expression

section Statement

variable {expression : Rule (Option Node)} {s : ParseState} {a : Anchor}

theorem owes_declaration (h : expression.Pays) (hc : s.cursor.current? = some a) :
    (declaration expression a).Ensures s fun _ t => t.Owes s.debt := by
  refine .within ((owes_skip (s := s.enter .declaration) hc).bind fun _ t _ ht => ?_)
  rw [debt_enter] at ht
  refine (ensures_accept _ t).bind fun o u _ hu => ?_
  cases hu with
  | refused => exact ht.record .declarationWithoutName a
  | taken hname =>
    have hbefore := ht.debt_le hname
    have hafter := debt_passed hname
    have hpaid : t.passed.Owes (s.debt - 1) := owes_of_debt_le (by omega)
    refine owes_require_else rfl hpaid (fun _ hv => hv) fun v hv => ?_
    refine (h.from hv).bind fun value w _ hw => ?_
    exact owes_require_else rfl (hw.mono (by omega)) (fun _ hx => hx) fun x hx =>
      ensures_pure (owes_of_debt_le (show x.debt ≤ s.debt by omega))

theorem owes_assignment (h : expression.Pays) (hc : s.cursor.current? = some a) :
    (assignment expression a).Ensures s fun _ t => t.Owes s.debt := by
  refine .within ((owes_skip (s := s.enter .assignment) hc).bind fun _ t _ ht => ?_)
  rw [debt_enter] at ht
  refine owes_require_else rfl ht (fun _ hu => hu) fun u hu => ?_
  refine (h.from hu).bind fun value v _ hv => ?_
  exact owes_require_else rfl (hv.mono (by omega)) (fun _ hw => hw) fun w hw =>
    ensures_pure (owes_of_debt_le (show w.debt ≤ s.debt by omega))

theorem owes_printing (h : expression.Pays) (hc : s.cursor.current? = some a) :
    (printing expression a).Ensures s fun _ t => t.Owes s.debt := by
  refine .within ((owes_skip (s := s.enter .printStatement) hc).bind fun _ t _ ht => ?_)
  rw [debt_enter] at ht
  refine owes_require_else rfl ht (fun _ hu => hu) fun u hu => ?_
  refine (h.from hu).bind fun value v _ hv => ?_
  refine owes_require_else rfl (hv.mono (by omega)) (fun _ hw => hw) fun w hw => ?_
  refine owes_require_else rfl (owes_of_debt_le (by omega)) (fun _ hx => hx) fun x hx => ?_
  exact ensures_pure (owes_of_debt_le (show x.debt ≤ s.debt by omega))

/-- The tokens of the statement pay for its findings. -/
def Rule.PaysStatement (r : Rule (Except Stall (Option Node))) : Prop :=
  ∀ s : ParseState, r.Ensures s fun result t =>
    (∃ node, result = .ok node) ∧ t.Owes s.debt

theorem owes_gather {one : Rule (Except Stall (Option Node))} {bound : Int}
    (hadv : one.Advances) (h : one.PaysStatement) (closes : TokenKind → Bool)
    (hs : s.debt ≤ bound) :
    (gather one closes).Ensures s fun result t =>
      (∃ nodes, result = .ok nodes) ∧ t.Owes bound := by
  have hstep : ∀ (done : List Node) t a, t.Owes bound → t.cursor.current? = some a →
      one.Ensures t fun result u => ∃ node, result = .ok node ∧ u.Owes bound := by
    intro done t a ht hc
    -- A token is left where a statement begins, so that nothing has been free so far.
    have hdebt := ht.debt_le hc
    refine (h t).mono fun result u hu => ?_
    obtain ⟨⟨node, hnode⟩, howes⟩ := hu
    exact ⟨node, hnode, howes.mono hdebt⟩
  refine (ensures_gatherOnto hadv hstep (owes_of_debt_le hs)).mono fun result t ht => ?_
  obtain ⟨nodes, hnodes, howes, _⟩ := ht
  exact ⟨⟨_, hnodes⟩, howes⟩

theorem owes_blockStatement {one : Rule (Except Stall (Option Node))} (block : Block)
    (he : expression.Pays) (hadv : one.Advances) (h : one.PaysStatement)
    (hc : s.cursor.current? = some a) :
    (blockStatement block expression one a).Ensures s fun result t =>
      (∃ node, result = .ok node) ∧ t.Owes s.debt := by
  have hskip : skip.Ensures (ParseState.enter { s with depth := s.depth + 1 } block.nodeKind)
      fun _ t => t.Owes (s.debt - 1) := owes_skip hc
  have hmissing (t : ParseState) (ht : t.Owes s.debt) :
      (∃ node, (.ok none : Except Stall (Option Node)) = .ok node) ∧ t.Owes s.debt :=
    ⟨⟨none, rfl⟩, ht⟩
  refine .deeper (.within (hskip.bind fun _ t _ ht => ?_))
  refine owes_require_else rfl ht hmissing fun u hu => ?_
  refine (owes_condition he u).bind fun test v _ hv => ?_
  refine owes_require_else rfl (hv.mono (by omega)) hmissing fun w hw => ?_
  refine owes_require_else rfl (owes_of_debt_le (by omega)) hmissing fun x hx => ?_
  refine (owes_gather hadv h (· == .rightBrace) hx).bind fun result y _ hy => ?_
  obtain ⟨⟨nodes, rfl⟩, howes⟩ := hy
  refine owes_require_else rfl (howes.mono (by omega)) hmissing fun z hz => ?_
  exact ensures_pure ⟨⟨_, rfl⟩, owes_of_debt_le (show z.debt ≤ s.debt by omega)⟩

theorem owes_nestedStatement {inner : BlockParts}
    (h : ∀ parts ∈ inner, PartsHave Pays PaysStatement parts) (block : Block)
    (hc : s.cursor.current? = some a) :
    (nestedStatement inner block a).Ensures s fun result t =>
      (∃ node, result = .ok node) ∧ t.Owes s.debt := by
  cases inner with
  | none => exact ⟨⟨none, rfl⟩, owes_recorded .nestingTooDeep hc⟩
  | some parts =>
    have hp := h parts rfl
    exact owes_blockStatement block hp.expression hp.advances hp.statement hc

theorem owes_statementFrom {inner : BlockParts} (he : expression.Pays)
    (h : ∀ parts ∈ inner, PartsHave Pays PaysStatement parts) (hc : s.cursor.current? = some a) :
    (statementFrom expression inner a).Ensures s fun result t =>
      (∃ node, result = .ok node) ∧ t.Owes s.debt := by
  unfold statementFrom
  split
  · exact .map ((owes_declaration he hc).mono fun node t ht => ⟨⟨node, rfl⟩, ht⟩)
  · exact owes_nestedStatement h .conditional hc
  · exact owes_nestedStatement h .loop hc
  · exact .map ((owes_printing he hc).mono fun node t ht => ⟨⟨node, rfl⟩, ht⟩)
  · exact .map ((owes_assignment he hc).mono fun node t ht => ⟨⟨node, rfl⟩, ht⟩)
  · exact ⟨⟨none, rfl⟩, owes_recorded .strayToken hc⟩

theorem statement_pays {inner : BlockParts} (he : expression.Pays)
    (h : ∀ parts ∈ inner, PartsHave Pays PaysStatement parts) :
    (statement expression inner).PaysStatement := by
  intro s
  refine (ensures_look _ s).bind fun o t _ ho => ?_
  obtain ⟨ho, rfl⟩ := ho
  cases o with
  | none => exact ensures_pure ⟨⟨none, rfl⟩, owes_of_debt_le (Int.le_refl _)⟩
  | some a => exact owes_statementFrom he h ho.symm

theorem statementAt_pays (level : Nat) : (statementAt level).PaysStatement :=
  statementAt_induction expressionAt_pays (fun _ _ => statement_pays) level

end Statement

theorem findings_length_le {ts : List Token} {parsed : Parsed} (h : parse ts = .ok parsed) :
    parsed.findings.length ≤ ts.length + 1 := by
  have hprogram : program.Ensures (.start ts) fun _ t => t.Owes 0 := by
    refine .within ((owes_gather (statementAt_proceeds Limits.nesting).advances
      (statementAt_pays Limits.nesting) _ (Int.le_refl _)).bind fun result t _ ht => ?_)
    obtain ⟨⟨nodes, rfl⟩, howes⟩ := ht
    exact ensures_pure howes
  obtain ⟨nodes, htree, hrest⟩ := program_ends (.start ts)
  have hposition := runParser_position ts
  have howes : (runParser ts).2.debt ≤ 0 + (runParser ts).2.grace := hprogram
  have hgrace : (runParser ts).2.grace = 1 := if_pos hrest
  have hparsed := Except.ok.inj (h.symm.trans (parse_of_runParser htree))
  rw [hgrace, debt, hposition] at howes
  rw [hparsed, List.length_reverse]
  omega

/-! The bound cannot be lowered: stray tokens in front of a block that breaks off behind its first
parenthesis attain it. -/

/-- The tokens are at an end, and there are `n` findings. -/
structure ParseState.EndsWith (s : ParseState) (n : Nat) : Prop where
  rest_eq : s.cursor.rest = []
  before_ne : s.cursor.before ≠ []
  findings_length : s.findings.length = n

section Attained

variable {s : ParseState} {n : Nat} {t u : Token} {expression operand : Rule (Option Node)}

theorem ParseState.EndsWith.record (h : s.EndsWith n) (problem : Problem) (a : Anchor) :
    (s.record problem a).EndsWith (n + 1) :=
  ⟨h.rest_eq, h.before_ne, congrArg (· + 1) h.findings_length⟩

theorem ParseState.EndsWith.current? (h : s.EndsWith n) : s.cursor.current? = none :=
  Cursor.current?_eq_none.mpr h.rest_eq

theorem endsWith_accept (h : s.EndsWith n) (wanted : TokenKind → Bool) :
    (accept wanted).Ensures s fun o v => o = none ∧ v.EndsWith n := by
  refine (ensures_accept wanted s).mono fun o v hv => ?_
  cases hv with
  | taken hc => cases h.current?.symm.trans hc
  | refused => exact ⟨rfl, h⟩

theorem endsWith_require {kind : TokenKind} {problem : Problem} {anchor : Rule Anchor}
    (h : s.EndsWith n) (hanchor : (anchor.run s).2 = s) :
    (require kind problem anchor).Ensures s fun found v => found = false ∧ v.EndsWith (n + 1) := by
  refine (ensures_require kind problem anchor s).mono fun found v hv => ?_
  cases hv with
  | taken hc => cases h.current?.symm.trans hc
  | missing =>
    rw [hanchor]
    exact ⟨rfl, h.record problem _⟩

theorem endsWith_reportPrevious (h : s.EndsWith n) (problem : Problem) :
    (reportPrevious problem).Ensures s fun _ v => v.EndsWith (n + 1) := by
  obtain ⟨b, before, hb⟩ := List.exists_cons_of_ne_nil h.before_ne
  refine (ensures_look _ s).bind fun o v _ ho => ?_
  obtain ⟨rfl, rfl⟩ := ho
  simp only [Cursor.previous?, hb, List.head?_cons, Option.map_some, Option.some_or]
  exact h.record problem _

theorem endsWith_chained {kind : NodeKind} {joins : TokenKind → Bool} {m : Nat}
    (h : operand.Ensures s fun _ v => v.EndsWith m) :
    (chained kind joins operand).Ensures s fun _ v => v.EndsWith m := by
  refine h.bind fun left v _ hv => ?_
  rw [chainOnto_eq]
  refine (endsWith_accept hv joins).bind fun o w _ hw => ?_
  obtain ⟨rfl, hw⟩ := hw
  exact ensures_pure hw

theorem endsWith_sum (h : s.EndsWith n) (inner : Option (Rule (Option Node))) :
    (sum inner).Ensures s fun _ v => v.EndsWith (n + 1) := by
  refine endsWith_chained (endsWith_chained ((ensures_look _ s).bind fun o v _ ho => ?_))
  obtain ⟨rfl, rfl⟩ := ho
  rw [h.current?]
  exact (endsWith_reportPrevious h .operandMissing).bind fun _ w _ hw => ensures_pure hw

theorem endsWith_expressionAt (h : s.EndsWith n) (level : Nat) :
    (expressionAt level).Ensures s fun _ v => v.EndsWith (n + 1) := by
  cases level <;> exact endsWith_sum h _

theorem endsWith_condition (h : s.EndsWith n) (level : Nat) :
    (condition (expressionAt level)).Ensures s fun _ v => v.EndsWith (n + 2) := by
  have henter : (s.enter .condition).EndsWith n := ⟨h.rest_eq, h.before_ne, h.findings_length⟩
  refine .within ((endsWith_expressionAt henter level).bind fun left v _ hv => ?_)
  refine (endsWith_accept hv _).bind fun o w _ hw => ?_
  obtain ⟨rfl, hw⟩ := hw
  refine (endsWith_reportPrevious hw .conditionWithoutRelation).bind fun _ x _ hx => ?_
  exact ensures_pure ⟨hx.rest_eq, hx.before_ne, hx.findings_length⟩

/-- A block that breaks off behind its first parenthesis lacks an operand, a relation and the other
parenthesis. -/
theorem endsWith_brokenOff {level : Nat} (hrest : s.cursor.rest = [t, u])
    (ht : t.kind = .keyword .ifKw) (hu : u.kind = .leftParen) :
    (statementAt (level + 1)).Ensures s fun result v =>
      result = .ok none ∧ v.EndsWith (s.findings.length + 3) := by
  have hcurrent := Cursor.current?_of_cons hrest
  have hblock (a : Anchor) :
      (blockStatement .conditional (expressionAt level) (statementAt level) a).Ensures s
        fun result v => result = .ok none ∧ v.EndsWith (s.findings.length + 3) := by
    refine .deeper (.within ((ensures_skip _).bind fun _ v _ hv => ?_))
    have hnext : v.cursor.rest = [u] := by
      rw [hv]
      exact Cursor.rest_advance hrest
    refine (ensures_require _ _ _ v).bind fun found w _ hw => ?_
    cases hw with
    | missing hmissing => exact absurd hu (hmissing _ (Cursor.current?_of_cons hnext))
    | taken hc =>
      have hend : v.passed.EndsWith s.findings.length := by
        refine ⟨Cursor.rest_advance hnext, ?_, ?_⟩
        · simp [passed, Cursor.advance, hnext]
        · rw [hv]
          rfl
      refine (endsWith_condition hend level).bind fun test x _ hx => ?_
      refine (endsWith_require hx rfl).bind fun found y _ hy => ?_
      obtain ⟨rfl, hy⟩ := hy
      exact ensures_pure ⟨rfl, hy.rest_eq, hy.before_ne, hy.findings_length⟩
  refine (ensures_look _ s).bind fun o v _ ho => ?_
  obtain ⟨rfl, rfl⟩ := ho
  rw [hcurrent]
  simp only [statementFrom, ht]
  exact hblock _

/-- Stray tokens in front of it have a problem each. -/
theorem ensures_strays {done : List Node} {ts : List Token} (level : Nat)
    (hts : ∀ x ∈ ts, x.kind = .semicolon) (hrest : s.cursor.rest = ts ++ [t, u])
    (ht : t.kind = .keyword .ifKw) (hu : u.kind = .leftParen) :
    (gatherOnto (statementAt (level + 1)) (fun _ => false) done).Ensures s fun _ v =>
      v.findings.length = s.findings.length + ts.length + 3 := by
  have hadv := (statementAt_proceeds (level + 1)).advances
  induction ts generalizing s done with
  | nil =>
    rw [List.nil_append] at hrest
    refine .of_run_eq (gatherOnto_cons hadv done hrest rfl) ?_
    refine (endsWith_brokenOff hrest ht hu).bind fun result v _ hv => ?_
    obtain ⟨rfl, hv⟩ := hv
    have hend : (gatherOnto (statementAt (level + 1)) (fun _ => false) done).run v =
        (.ok done.reverse, v) := gatherOnto_nil hv.rest_eq
    show (gatherOnto (statementAt (level + 1)) (fun _ => false) done).Ensures v _
    exact .of_run_eq hend (ensures_pure hv.findings_length)
  | cons x ts ih =>
    obtain ⟨hx, hts⟩ := List.forall_mem_cons.mp hts
    rw [List.cons_append] at hrest
    refine .of_run_eq (gatherOnto_cons hadv done hrest rfl) ?_
    have hstray : (statementAt (level + 1)).run s =
        (.ok none, (s.record .strayToken ⟨s.cursor.position, x⟩).passed) := by
      simp only [statementAt, statement, peek, look, run_bind, Cursor.current?_of_cons hrest,
        statementFrom, hx]
      rfl
    have hnext : (s.record .strayToken ⟨s.cursor.position, x⟩).passed.cursor.rest = ts ++ [t, u] :=
      Cursor.rest_advance hrest
    have hlength : (s.record .strayToken ⟨s.cursor.position, x⟩).passed.findings.length =
        s.findings.length + 1 := rfl
    have hrun : (gatherOnto (statementAt (level + 1)) (fun _ => false) done).Ensures _ _ :=
      ih hts hnext
    rw [Ensures, hlength] at hrun
    rw [Ensures, run_bind, hstray, List.length_cons]
    have hsum : s.findings.length + 1 + ts.length + 3 =
        s.findings.length + (ts.length + 1) + 3 := by omega
    exact hrun.trans hsum

end Attained

theorem exists_findings_length_eq (n : Nat) :
    ∃ ts parsed, ts.length = n + 2 ∧ parse ts = .ok parsed ∧ parsed.findings.length = n + 3 := by
  let mark (kind : TokenKind) : Token := ⟨kind, "", 0, 0, .nowhere⟩
  let strays := List.replicate n (mark .semicolon)
  let ts := strays ++ [mark (.keyword .ifKw), mark .leftParen]
  have hstrays : ∀ x ∈ strays, x.kind = .semicolon := by simp [strays, mark]
  have hgather : (gather (statementAt Limits.nesting) fun _ => false).Ensures
      ((ParseState.start ts).enter .program) _ := ensures_strays 255 hstrays rfl rfl rfl
  have hprogram : program.Ensures (.start ts) fun _ t => t.findings.length = n + 3 := by
    refine .within (hgather.bind fun result t _ ht => ?_)
    have hlength : t.findings.length = n + 3 := by
      rw [ht]
      simp [strays, ParseState.start, ParseState.enter]
    cases result <;> exact hlength
  obtain ⟨nodes, htree, -⟩ := program_ends (.start ts)
  refine ⟨ts, _, by simp [ts, strays], parse_of_runParser htree, ?_⟩
  rw [List.length_reverse]
  exact hprogram

/-- A parse has at most one diagnostic more than there are tokens, and none if there are no tokens.
From two tokens on there are as many for some of them. -/
theorem diagnostics_length_le (mode : PositionMode) :
    (∀ ts : List Token, ∃ parsed, parse ts = .ok parsed ∧
      (parsed.diagnostics mode).length ≤ if ts = [] then 0 else ts.length + 1) ∧
    ∀ n : Nat, ∃ ts parsed, ts.length = n + 2 ∧ parse ts = .ok parsed ∧
      (parsed.diagnostics mode).length = ts.length + 1 := by
  have hlength (parsed : Parsed) :
      (parsed.diagnostics mode).length = parsed.findings.length := List.length_map _
  constructor
  · intro ts
    obtain ⟨parsed, hparsed⟩ := parse_succeeds ts
    refine ⟨parsed, hparsed, ?_⟩
    rw [hlength]
    by_cases hts : ts = []
    · subst hts
      rw [parse_nil] at hparsed
      cases hparsed
      simp
    · rw [if_neg hts]
      exact findings_length_le hparsed
  · intro n
    obtain ⟨ts, parsed, hts, hparsed, hfindings⟩ := exists_findings_length_eq n
    refine ⟨ts, parsed, hts, hparsed, ?_⟩
    rw [hlength, hfindings, hts]

end YupFront
