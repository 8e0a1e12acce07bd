import YupFront.Proofs.Completeness
import YupFront.Proofs.Postcondition

/-! The leaves of a tree are tokens of its source, in their order and each used once. Recovery can lose
tokens, but not make any up; where nothing is wrong, none is lost. -/

namespace YupFront

/-- A node's kind, value and place. -/
abbrev Leaf := NodeKind × String × Option Span

namespace Node

mutual

/-- The nodes that carry a value, in preorder. -/
def leaves : Node → List Leaf
  | ⟨kind, value, children, _, _, span⟩ =>
    (value.map fun v => (kind, v, span)).toList ++ allLeaves children
termination_by structural n => n

def allLeaves : List Node → List Leaf
  | [] => []
  | n :: ns => leaves n ++ allLeaves ns
termination_by structural ns => ns

end

theorem allLeaves_eq_flatMap (ns : List Node) : allLeaves ns = ns.flatMap leaves := by
  induction ns with
  | nil => rfl
  | cons n ns ih => rw [allLeaves, ih, List.flatMap_cons]

theorem allLeaves_append (ns ms : List Node) :
    allLeaves (ns ++ ms) = allLeaves ns ++ allLeaves ms := by
  simp only [allLeaves_eq_flatMap, List.flatMap_append]

/-- The leaves of a node that may be missing. -/
def leavesOf (result : Option Node) : List Leaf := allLeaves result.toList

@[simp] theorem leavesOf_none : leavesOf none = [] := rfl

@[simp] theorem leavesOf_some (n : Node) : leavesOf (some n) = n.leaves := List.append_nil n.leaves

@[simp] theorem leaves_leaf (kind : NodeKind) (t : Token) :
    (leaf kind t).leaves = [(kind, t.text, some t.span)] := rfl

/-- Children that are missing have no leaves. -/
@[simp] theorem leaves_interior (kind : NodeKind) (span : Span) (children : List (Option Node)) :
    (interior kind span children).leaves = children.flatMap leavesOf := by
  have hchildren : (interior kind span children).leaves = allLeaves (children.filterMap id) := rfl
  rw [hchildren]
  clear hchildren
  induction children with
  | nil => rfl
  | cons child children ih =>
    cases child with
    | none => rw [List.filterMap_cons_none rfl, ih, List.flatMap_cons, leavesOf_none, List.nil_append]
    | some n =>
      change n.leaves ++ allLeaves (children.filterMap id) = _
      rw [ih, List.flatMap_cons, leavesOf_some]

/-- The leaves of a block; no child of its body is missing. -/
theorem leaves_block (kind : NodeKind) (span : Span) (test : Option Node) (body : List Node) :
    (interior kind span [test, some (interior .body span (body.map some))]).leaves =
      leavesOf test ++ allLeaves body := by
  have hbody : (body.map some).flatMap leavesOf = allLeaves body := by
    induction body with
    | nil => rfl
    | cons n ns ih => rw [List.map_cons, List.flatMap_cons, ih, leavesOf_some, allLeaves]
  rw [leaves_interior, List.flatMap_cons, List.flatMap_singleton, leavesOf_some, leaves_interior,
    hbody]

theorem leaves_binary (kind : NodeKind) (left : Option Node) (operator : Token)
    (right : Option Node) :
    (binary kind left operator right).leaves =
      leavesOf left ++ (.operator, operator.text, some operator.span) :: leavesOf right := by
  simp [binary]

end Node

namespace Token

/-- The kind of the leaf that a token becomes. -/
def leafKind? (t : Token) : Option NodeKind :=
  match t.kind with
  | .identifier => some .identifier
  | .number => some .number
  | .plus | .minus | .multiply | .divide => some .operator
  | .equal | .notEqual | .less | .greater | .lessEqual | .greaterEqual => some .relationalOperator
  | _ => none

def leaf? (t : Token) : Option Leaf := t.leafKind?.map fun kind => (kind, t.text, some t.span)

/-- What tokens become if none of them is lost. -/
def leaves (ts : List Token) : List Leaf := ts.filterMap leaf?

@[simp] theorem leaves_nil : leaves [] = [] := rfl

@[simp] theorem leaves_append (ts us : List Token) : leaves (ts ++ us) = leaves ts ++ leaves us :=
  List.filterMap_append

theorem leaves_cons (t : Token) (ts : List Token) :
    leaves (t :: ts) = t.leaf?.toList ++ leaves ts := by
  cases h : t.leaf? <;> simp [leaves, h]

section Kinds

variable {t : Token}

theorem leaf?_of_identifier (h : t.kind = .identifier) :
    t.leaf? = some (.identifier, t.text, some t.span) := by
  simp [leaf?, leafKind?, h]

theorem leaf?_of_number (h : t.kind = .number) :
    t.leaf? = some (.number, t.text, some t.span) := by
  simp [leaf?, leafKind?, h]

theorem leaf?_of_isAdditive (h : t.kind.isAdditive = true) :
    t.leaf? = some (.operator, t.text, some t.span) := by
  unfold leaf? leafKind?
  cases hk : t.kind <;> simp_all [TokenKind.isAdditive]

theorem leaf?_of_isMultiplicative (h : t.kind.isMultiplicative = true) :
    t.leaf? = some (.operator, t.text, some t.span) := by
  unfold leaf? leafKind?
  cases hk : t.kind <;> simp_all [TokenKind.isMultiplicative]

theorem leaf?_of_isRelational (h : t.kind.isRelational = true) :
    t.leaf? = some (.relationalOperator, t.text, some t.span) := by
  unfold leaf? leafKind?
  cases hk : t.kind <;> simp_all [TokenKind.isRelational]

end Kinds

end Token

namespace ParseState

/-- Leaves are drawn from the tokens between `s` and `t`. -/
def Draws (s t : ParseState) (ls : List Leaf) : Prop :=
  ∃ used, s.cursor.rest = used ++ t.cursor.rest ∧ ls.Sublist (Token.leaves used)

section Draws

variable {s t u : ParseState} {ls ms : List Leaf} {a : Anchor}

theorem Draws.of_reaches (h : s.cursor.Reaches t.cursor) : s.Draws t [] := by
  obtain ⟨used, hu, _⟩ := h
  exact ⟨used, hu, List.nil_sublist _⟩

theorem Draws.append (hst : s.Draws t ls) (htu : t.Draws u ms) : s.Draws u (ls ++ ms) := by
  obtain ⟨used, hu, hl⟩ := hst
  obtain ⟨more, hm, hl'⟩ := htu
  refine ⟨used ++ more, by rw [hu, hm, List.append_assoc], ?_⟩
  rw [Token.leaves_append]
  exact hl.append hl'

theorem Draws.reach (h : s.Draws t ls) (htu : t.cursor.Reaches u.cursor) : s.Draws u ls := by
  simpa using h.append (.of_reaches htu)

theorem Draws.of_current? (ha : s.cursor.current? = some a) {l : Leaf} (hl : a.token.leaf? = some l) :
    s.Draws s.passed [l] := by
  obtain ⟨_, rest, hr⟩ := Cursor.current?_eq_some ha
  have hrest : s.passed.cursor.rest = rest := Cursor.rest_advance hr
  refine ⟨[a.token], by simp [hr, hrest], ?_⟩
  simp [Token.leaves_cons, hl]

end Draws

end ParseState

open Rule Node

/-- The leaves of the rule's result are drawn from the tokens it passes. -/
def Rule.Draws (r : Rule (Option Node)) : Prop :=
  ∀ s : ParseState, r.Ensures s fun result t => s.Draws t (leavesOf result)

section Expression

variable {kind : NodeKind} {joins : TokenKind → Bool} {operand expression : Rule (Option Node)}
  {s : ParseState} {a : Anchor}

theorem chained_draws (h : operand.Draws)
    (hjoins : ∀ t : Token, joins t.kind = true → t.leaf? = some (.operator, t.text, some t.span)) :
    (chained kind joins operand).Draws := by
  intro s
  refine (h s).bind fun left t _ ht => ?_
  refine ensures_chainOnto (fun left t a ht ha hj => ?_) ht
  refine (h t.passed).mono fun right u hu => ?_
  have hoperator := ParseState.Draws.of_current? ha (hjoins a.token hj)
  rw [leavesOf_some, leaves_binary]
  exact ht.append (hoperator.append hu)

/-- What was found is given up, and with it its leaves. -/
theorem draws_none {t : ParseState} (hst : s.cursor.Reaches t.cursor) (r : Rule α) :
    (r >>= fun _ => pure none).Ensures t fun result u => s.Draws u (leavesOf result) := by
  refine (ensures_leads r t).bind fun _ u htu _ => ensures_pure ?_
  exact .of_reaches (hst.trans htu.reaches)

theorem draws_parenthesised (h : expression.Draws) (s : ParseState) :
    (parenthesised expression).Ensures s fun result t => s.Draws t (leavesOf result.1) := by
  refine .deeper ((ensures_leads skip _).bind fun _ t hst _ => ?_)
  refine (h t).bind fun node u _ hu => ?_
  refine (ensures_leads _ u).bind fun closing v huv _ => ensures_pure ?_
  exact ((ParseState.Draws.of_reaches hst.reaches).append hu).reach huv.reaches

theorem draws_factorFrom {inner : Option (Rule (Option Node))} (h : ∀ e ∈ inner, e.Draws)
    (ha : s.cursor.current? = some a) :
    (factorFrom inner a).Ensures s fun result t => s.Draws t (leavesOf result) := by
  unfold factorFrom
  split
  · next hk =>
    refine (ensures_skip s).bind fun _ t _ ht => ensures_pure ?_
    rw [ht, leavesOf_some]
    exact .of_current? ha (Token.leaf?_of_number hk)
  · next hk =>
    refine (ensures_skip s).bind fun _ t _ ht => ensures_pure ?_
    rw [ht, leavesOf_some]
    exact .of_current? ha (Token.leaf?_of_identifier hk)
  · cases inner with
    | none => exact draws_none (.refl _) (refuse a)
    | some expression =>
      refine (draws_parenthesised (h expression rfl) s).bind fun result t hst ht => ?_
      obtain ⟨node, closing⟩ := result
      cases closing with
      | some closing => exact ensures_pure ht
      | none =>
        refine (ensures_leads _ t).bind fun b u htu _ => ?_
        exact draws_none (hst.trans htu).reaches (report .parenUnclosed b)
  · refine (ensures_leads _ s).bind fun _ t hst _ => ?_
    exact draws_none hst.reaches skip

theorem factor_draws {inner : Option (Rule (Option Node))} (h : ∀ e ∈ inner, e.Draws) :
    (factor inner).Draws := by
  intro s
  refine (ensures_look _ s).bind fun o t _ ht => ?_
  obtain ⟨rfl, rfl⟩ := ht
  split
  · exact draws_none (.refl _) (reportPrevious .operandMissing)
  · next a ha => exact draws_factorFrom h ha

theorem sum_draws {inner : Option (Rule (Option Node))} (h : ∀ e ∈ inner, e.Draws) :
    (sum inner).Draws :=
  chained_draws (chained_draws (factor_draws h) fun _ => Token.leaf?_of_isMultiplicative)
    fun _ => Token.leaf?_of_isAdditive

theorem expressionAt_draws (level : Nat) : (expressionAt level).Draws :=
  expressionAt_induction (fun _ => sum_draws) level

theorem condition_draws (h : expression.Draws) : (condition expression).Draws := by
  intro s
  refine .within ((h (s.enter .condition)).bind fun left t hst ht => ?_)
  refine (ensures_accept _ t).bind fun o u htu hu => ?_
  cases hu with
  | refused => exact draws_none hst.reaches (reportPrevious .conditionWithoutRelation)
  | @taken operator ha hrel =>
    refine (h t.passed).bind fun right v _ hv => ensures_pure ?_
    have hoperator := ParseState.Draws.of_current? ha (Token.leaf?_of_isRelational hrel)
    have hall : s.Draws v.leave _ := ht.append (hoperator.append hv)
    simpa using hall

end Expression

section Statement

variable {expression : Rule (Option Node)} {s t : ParseState} {a : Anchor}

theorem draws_or_none {p : Rule Bool} {r : Rule (Option Node)} (hst : s.cursor.Reaches t.cursor)
    (hr : ∀ u, t.Leads u → r.Ensures u fun result v => s.Draws v (leavesOf result)) :
    (p >>= fun found => if found = true then r else pure none).Ensures t fun result v =>
      s.Draws v (leavesOf result) :=
  (ensures_leads p t).ite (fun u htu _ => hr u htu) fun _ htu =>
    ensures_pure (.of_reaches (hst.trans htu.reaches))

theorem declaration_draws (h : expression.Draws) (a : Anchor) :
    (declaration expression a).Draws := by
  intro s
  refine .within ((ensures_leads skip _).bind fun _ t hst _ => ?_)
  refine (ensures_accept _ t).bind fun o u htu hu => ?_
  cases hu with
  | refused => exact draws_none hst.reaches (report .declarationWithoutName a)
  | @taken name hname hk =>
    have hleaf := ParseState.Draws.of_current? hname (Token.leaf?_of_identifier (by simpa using hk))
    have hname := (ParseState.Draws.of_reaches hst.reaches).append hleaf
    refine draws_or_none (hst.trans htu).reaches fun v huv => ?_
    refine (h v).bind fun value w hvw hw => ?_
    refine draws_or_none (hst.trans (htu.trans (huv.trans hvw))).reaches fun x hwx => ensures_pure ?_
    have hall : s.Draws x _ := ((hname.reach huv.reaches).append hw).reach hwx.reaches
    simpa using hall

theorem draws_assignment (h : expression.Draws) (ha : s.cursor.current? = some a)
    (hk : a.token.kind = .identifier) :
    (assignment expression a).Ensures s fun result t => s.Draws t (leavesOf result) := by
  refine .within ((ensures_skip _).bind fun _ t hst ht => ?_)
  have hname : s.Draws t [(.identifier, a.token.text, some a.token.span)] := by
    rw [ht]
    exact .of_current? ha (Token.leaf?_of_identifier hk)
  refine draws_or_none hst.reaches fun u htu => ?_
  refine (h u).bind fun value v huv hv => ?_
  refine draws_or_none (hst.trans (htu.trans huv)).reaches fun w hvw => ensures_pure ?_
  have hall : s.Draws w _ := ((hname.reach htu.reaches).append hv).reach hvw.reaches
  simpa using hall

theorem printing_draws (h : expression.Draws) (a : Anchor) : (printing expression a).Draws := by
  intro s
  refine .within ((ensures_leads skip _).bind fun _ t hst _ => ?_)
  refine draws_or_none hst.reaches fun u htu => ?_
  refine (h u).bind fun value v huv hv => ?_
  have hbefore := hst.trans htu
  have hvalue : s.Draws v _ := (ParseState.Draws.of_reaches hbefore.reaches).append hv
  refine draws_or_none (hbefore.trans huv).reaches fun w hvw => ?_
  refine draws_or_none (hbefore.trans (huv.trans hvw)).reaches fun x hwx => ensures_pure ?_
  have hall : s.Draws x _ := (hvalue.reach hvw.reaches).reach hwx.reaches
  simpa using hall

/-- The leaves of the statement are drawn from the tokens it passes. -/
def Rule.DrawsStatement (r : Rule (Except Stall (Option Node))) : Prop :=
  ∀ s : ParseState, r.Ensures s fun result t =>
    ∃ node, result = .ok node ∧ s.Draws t (leavesOf node)

theorem draws_gather {one : Rule (Except Stall (Option Node))} (hadv : one.Advances)
    (h : one.DrawsStatement) (closes : TokenKind → Bool) (s : ParseState) :
    (gather one closes).Ensures s fun result t =>
      ∃ nodes, result = .ok nodes ∧ s.Draws t (allLeaves nodes) := by
  have hstep : ∀ (done : List Node) t a, s.Draws t (allLeaves done.reverse) →
      t.cursor.current? = some a → one.Ensures t fun result u =>
        ∃ node, result = .ok node ∧ s.Draws u (allLeaves (node.toList ++ done).reverse) := by
    intro done t a ht _
    refine (h t).mono fun result u hu => ?_
    obtain ⟨node, hnode, hdraws⟩ := hu
    -- The nodes found so far have the newest in front, their leaves are in the order of the tokens.
    have hreverse : node.toList.reverse = node.toList := by cases node <;> rfl
    refine ⟨node, hnode, ?_⟩
    rw [List.reverse_append, hreverse, allLeaves_append]
    exact ht.append hdraws
  refine (ensures_gatherOnto hadv hstep (.of_reaches (.refl _))).mono fun result t ht => ?_
  obtain ⟨nodes, hnodes, hdraws, _⟩ := ht
  exact ⟨nodes.reverse, hnodes, hdraws⟩

theorem draws_ok_none (hst : s.cursor.Reaches t.cursor) :
    (pure (.ok none) : Rule (Except Stall (Option Node))).Ensures t fun result u =>
      ∃ node, result = .ok node ∧ s.Draws u (leavesOf node) :=
  ensures_pure ⟨none, rfl, .of_reaches hst⟩

theorem draws_or_ok_none {p : Rule Bool} {r : Rule (Except Stall (Option Node))}
    (hst : s.cursor.Reaches t.cursor)
    (hr : ∀ u, t.Leads u → r.Ensures u fun result v =>
      ∃ node, result = .ok node ∧ s.Draws v (leavesOf node)) :
    (p >>= fun found => if found = true then r else pure (.ok none)).Ensures t fun result v =>
      ∃ node, result = .ok node ∧ s.Draws v (leavesOf node) :=
  (ensures_leads p t).ite (fun u htu _ => hr u htu) fun _ htu =>
    draws_ok_none (hst.trans htu.reaches)

theorem blockStatement_draws {one : Rule (Except Stall (Option Node))} (block : Block)
    (he : expression.Draws) (hadv : one.Advances) (h : one.DrawsStatement) (a : Anchor) :
    (blockStatement block expression one a).DrawsStatement := by
  intro s
  refine .deeper (.within ((ensures_leads skip _).bind fun _ t hst _ => ?_))
  refine draws_or_ok_none hst.reaches fun u htu => ?_
  have hsu := hst.trans htu
  refine (condition_draws he u).bind fun test v huv hv => ?_
  have htest : s.Draws v _ := (ParseState.Draws.of_reaches hsu.reaches).append hv
  refine draws_or_ok_none (hsu.trans huv).reaches fun w hvw => ?_
  refine draws_or_ok_none (hsu.trans (huv.trans hvw)).reaches fun x hwx => ?_
  refine (draws_gather hadv h _ x).bind fun result y hxy hy => ?_
  obtain ⟨body, rfl, hbody⟩ := hy
  have hboth := (htest.reach (hvw.trans hwx).reaches).append hbody
  refine draws_or_ok_none (hsu.trans (huv.trans (hvw.trans (hwx.trans hxy)))).reaches
    fun z hyz => ensures_pure ⟨_, rfl, ?_⟩
  have hall : s.Draws z _ := hboth.reach hyz.reaches
  rw [leavesOf_some, leaves_block]
  exact hall

theorem nestedStatement_draws {inner : BlockParts} (h : ∀ parts ∈ inner, PartsHave Rule.Draws DrawsStatement parts)
    (block : Block) (a : Anchor) : (nestedStatement inner block a).DrawsStatement := by
  cases inner with
  | none =>
    intro s
    exact (ensures_leads _ s).bind fun _ t hst _ => draws_ok_none hst.reaches
  | some parts =>
    have hp := h parts rfl
    exact blockStatement_draws block hp.expression hp.advances hp.statement a

theorem draws_statementFrom {inner : BlockParts} (he : expression.Draws)
    (h : ∀ parts ∈ inner, PartsHave Rule.Draws DrawsStatement parts) (ha : s.cursor.current? = some a) :
    (statementFrom expression inner a).Ensures s fun result t =>
      ∃ node, result = .ok node ∧ s.Draws t (leavesOf node) := by
  unfold statementFrom
  split
  · exact .map ((declaration_draws he a s).mono fun node t ht => ⟨node, rfl, ht⟩)
  · exact nestedStatement_draws h .conditional a s
  · exact nestedStatement_draws h .loop a s
  · exact .map ((printing_draws he a s).mono fun node t ht => ⟨node, rfl, ht⟩)
  · next hk => exact .map ((draws_assignment he ha hk).mono fun node t ht => ⟨node, rfl, ht⟩)
  · refine (ensures_leads _ s).bind fun _ t hst _ => ?_
    exact (ensures_leads _ t).bind fun _ u htu _ => draws_ok_none (hst.trans htu).reaches

theorem statement_draws {inner : BlockParts} (he : expression.Draws)
    (h : ∀ parts ∈ inner, PartsHave Rule.Draws DrawsStatement parts) : (statement expression inner).DrawsStatement := by
  intro s
  refine (ensures_look _ s).bind fun o t _ ht => ?_
  obtain ⟨rfl, rfl⟩ := ht
  split
  · exact draws_ok_none (.refl _)
  · next a ha => exact draws_statementFrom he h ha

theorem statementAt_draws (level : Nat) : (statementAt level).DrawsStatement :=
  statementAt_induction expressionAt_draws (fun _ _ => statement_draws) level

end Statement

/-- The leaves of every tree are some of the tokens, in their order. -/
theorem leaves_sublist_of_parse {ts : List Token} {parsed : Parsed} (h : parse ts = .ok parsed) :
    parsed.tree.leaves.Sublist (Token.leaves ts) := by
  have hprogram : program.Ensures (.start ts) fun result t =>
      ∃ nodes, result = .ok (.root nodes) ∧ (ParseState.start ts).Draws t (allLeaves nodes) := by
    refine .within ((draws_gather (statementAt_proceeds Limits.nesting).advances
      (statementAt_draws Limits.nesting) _ _).bind fun result t _ ht => ?_)
    obtain ⟨nodes, rfl, hdraws⟩ := ht
    exact ensures_pure ⟨nodes, rfl, hdraws⟩
  obtain ⟨nodes, htree, used, hu, hl⟩ := hprogram
  obtain ⟨_, _, hrest⟩ := program_ends (.start ts)
  have hused : ts = used := by
    rw [hrest, List.append_nil] at hu
    exact hu
  have hparsed := Except.ok.inj (h.symm.trans (parse_of_runParser htree))
  rw [hparsed, hused]
  exact hl

/-- No leaf is lost where tokens are read as a node. -/
def Reading.Lossless (reading : Reading) : Prop :=
  ∀ ts node, reading ts node → node.leaves = Token.leaves ts

section Readings

variable {reading : Reading}

theorem readsFactor_lossless {inner : Option Reading} (h : ∀ r ∈ inner, Reading.Lossless r) :
    Reading.Lossless (ReadsFactor inner) := by
  intro ts node hnode
  cases hnode with
  | number hk => simp [Token.leaves_cons, Token.leaf?_of_number hk]
  | identifier hk => simp [Token.leaves_cons, Token.leaf?_of_identifier hk]
  | parens hinner hopening hclosing hexpression =>
    have hleaves := h _ hinner _ _ hexpression
    simp [hleaves, Token.leaves_cons, Token.leaf?, Token.leafKind?, hopening, hclosing]

theorem readsChain_lossless {kind : NodeKind} {joins : TokenKind → Bool}
    (h : Reading.Lossless reading)
    (hjoins : ∀ t : Token, joins t.kind = true → t.leaf? = some (.operator, t.text, some t.span)) :
    Reading.Lossless (ReadsChain kind joins reading) := by
  intro ts node hnode
  induction hnode with
  | single hnode => exact h _ _ hnode
  | join _ hj hright ih =>
    rw [leaves_binary, leavesOf_some, leavesOf_some, ih, h _ _ hright]
    simp [Token.leaves_cons, hjoins _ hj]

theorem readsSum_lossless {inner : Option Reading} (h : ∀ r ∈ inner, Reading.Lossless r) :
    Reading.Lossless (ReadsSum inner) :=
  readsChain_lossless
    (readsChain_lossless (readsFactor_lossless h) fun _ => Token.leaf?_of_isMultiplicative)
    fun _ => Token.leaf?_of_isAdditive

theorem readsExpression_lossless (level : Nat) : Reading.Lossless (ReadsExpression level) := by
  induction level with
  | zero => exact readsSum_lossless (by simp)
  | succ level ih => exact readsSum_lossless (by simpa using ih)

theorem readsCondition_lossless (h : Reading.Lossless reading) :
    Reading.Lossless (ReadsCondition reading) := by
  intro ts node hnode
  cases hnode with
  | compare hleft hrel hright =>
    simp [Token.leaves_cons, Token.leaf?_of_isRelational hrel, h _ _ hleft, h _ _ hright]

theorem readsAll_lossless (h : Reading.Lossless reading) {ts : List Token} {nodes : List Node}
    (hnodes : ReadsAll reading ts nodes) : allLeaves nodes = Token.leaves ts := by
  induction hnodes with
  | nil => rfl
  | cons hnode _ ih => rw [allLeaves, Token.leaves_append, h _ _ hnode, ih]

theorem readsStatement_lossless {inner : Option (Reading × Reading)}
    (he : Reading.Lossless reading)
    (h : ∀ r ∈ inner, Reading.Lossless r.1 ∧ Reading.Lossless r.2) :
    Reading.Lossless (ReadsStatement reading inner) := by
  intro ts node hnode
  cases hnode with
  | declaration hopening hname hassign hending hvalue =>
    simp [Token.leaves_cons, Token.leaf?, Token.leafKind?, hopening, hname, hassign, hending,
      he _ _ hvalue]
  | assignment hname hassign hending hvalue =>
    simp [Token.leaves_cons, Token.leaf?, Token.leafKind?, hname, hassign, hending, he _ _ hvalue]
  | printing hopening hleft hright hending hvalue =>
    simp [Token.leaves_cons, Token.leaf?, Token.leafKind?, hopening, hleft, hright, hending,
      he _ _ hvalue]
  | block block hinner hopening hleft hright hleftBrace hrightBrace htest hbody =>
    obtain ⟨hexpression, hstatement⟩ := h _ hinner
    rw [leaves_block, leavesOf_some, readsCondition_lossless hexpression _ _ htest,
      readsAll_lossless hstatement hbody]
    simp [Token.leaves_cons, Token.leaf?, Token.leafKind?, hopening, hleft, hright, hleftBrace,
      hrightBrace]

theorem readsStatementAt_lossless (level : Nat) : Reading.Lossless (ReadsStatementAt level) := by
  induction level with
  | zero => exact readsStatement_lossless (readsExpression_lossless 0) (by simp)
  | succ level ih =>
    refine readsStatement_lossless (readsExpression_lossless (level + 1)) fun r hr => ?_
    cases hr
    exact ⟨readsExpression_lossless level, ih⟩

end Readings

/-- The leaves of a tree, in preorder, are tokens of the source in their order, each used at most once.
Where nothing is wrong they are all of the tokens that can be leaves. -/
theorem parse_leaves (ts : List Token) :
    ∃ parsed, parse ts = .ok parsed ∧ parsed.tree.leaves.Sublist (Token.leaves ts) ∧
      ∀ mode, parsed.diagnostics mode = [] → parsed.tree.leaves = Token.leaves ts := by
  obtain ⟨⟨tree, findings⟩, hparse⟩ := parse_succeeds ts
  refine ⟨_, hparse, leaves_sublist_of_parse hparse, fun mode hquiet => ?_⟩
  have hnone : findings = [] := List.map_eq_nil_iff.mp hquiet
  rw [hnone] at hparse
  obtain ⟨nodes, htree, hnodes⟩ := parse_quiet_iff.mp hparse
  have hleaves : tree.leaves = allLeaves nodes := by
    rw [htree]
    rfl
  rw [hleaves]
  exact readsAll_lossless (readsStatementAt_lossless Limits.nesting) hnodes

theorem parse_leaves_assignment :
    let ts : List Token :=
      [⟨.identifier, "x", 0, 0, ⟨⟨0, 1, 1⟩, ⟨1, 1, 2⟩⟩⟩, ⟨.assign, "=", 1, 1, ⟨⟨1, 1, 2⟩, ⟨2, 1, 3⟩⟩⟩,
        ⟨.number, "7", 2, 2, ⟨⟨2, 1, 3⟩, ⟨3, 1, 4⟩⟩⟩, ⟨.semicolon, ";", 3, 3, ⟨⟨3, 1, 4⟩, ⟨4, 1, 5⟩⟩⟩]
    ∃ parsed, parse ts = .ok parsed ∧ parsed.diagnostics .source = [] ∧
      parsed.tree.leaves = [(.identifier, "x", some ⟨⟨0, 1, 1⟩, ⟨1, 1, 2⟩⟩),
        (.number, "7", some ⟨⟨2, 1, 3⟩, ⟨3, 1, 4⟩⟩)] := by
  intro ts
  have hvalue : ReadsExpression Limits.nesting [ts[2]] (.leaf .number ts[2]) := by
    rw [readsExpression_eq]
    exact .single (.single (.number rfl))
  have hstatement : ReadsStatementAt Limits.nesting ts
      (.interior .assignment ts[0].span
        [some (.leaf .identifier ts[0]), some (.leaf .number ts[2])]) := by
    rw [readsStatementAt_eq]
    exact .assignment rfl rfl rfl hvalue
  have hquiet := parse_quiet_iff.mpr ⟨_, rfl, ReadsAll.cons hstatement .nil⟩
  rw [List.append_nil] at hquiet
  obtain ⟨parsed, hparse, -, hleaves⟩ := parse_leaves ts
  have hnone : parsed.findings = [] :=
    congrArg Parsed.findings (Except.ok.inj (hparse.symm.trans hquiet))
  have hdiagnostics : parsed.diagnostics .source = [] := by
    rw [Parsed.diagnostics, hnone, List.map_nil]
  exact ⟨parsed, hparse, hdiagnostics, hleaves .source hdiagnostics⟩

end YupFront
