import Mathlib.Data.List.Basic
import YupFront.Proofs.Postcondition

/-! The shape of a tree. Whatever is wrong with the tokens, a node has only children that are meant for
its kind, though some can be missing, and it stands for the token that gave rise to it. -/

namespace YupFront

namespace NodeKind

def isStatement : NodeKind → Bool
  | declaration | assignment | ifStatement | whileStatement | printStatement => true
  | _ => false

/-- What stands on the two sides of an operator. -/
def isOperand : NodeKind → Bool
  | identifier | number | expression | term => true
  | _ => false

end NodeKind

namespace Node

mutual

/-- The node and all nodes below it, in preorder. -/
def nodes : Node → List Node
  | ⟨kind, value, children, line, column, span⟩ =>
    ⟨kind, value, children, line, column, span⟩ :: allNodes children
termination_by structural n => n

def allNodes : List Node → List Node
  | [] => []
  | n :: ns => nodes n ++ allNodes ns
termination_by structural ns => ns

end

theorem nodes_eq (n : Node) : n.nodes = n :: allNodes n.children := by
  cases n
  rfl

theorem mem_allNodes {m : Node} {ns : List Node} :
    m ∈ allNodes ns ↔ ∃ n ∈ ns, m ∈ n.nodes := by
  induction ns with
  | nil => simp [allNodes]
  | cons n ns ih => simp [allNodes, ih]

def IsOperand (result : Option Node) : Prop := ∀ n ∈ result, n.kind.isOperand = true

/-- The children of a node that stands for a token. -/
inductive Branches (t : Token) : NodeKind → List Node → Prop where
  | declaration {name : Token} {value : Option Node} : t.kind = .keyword .letKw →
      name.kind = .identifier → IsOperand value →
      Branches t .declaration (leaf .identifier name :: value.toList)
  | assignment {value : Option Node} : t.kind = .identifier → IsOperand value →
      Branches t .assignment (leaf .identifier t :: value.toList)
  | block {block : Block} {test : Option Node} {body : Node} : t.kind = .keyword block.keyword →
      (∀ n ∈ test, n.kind = .condition) → body.kind = .body → body.span = some t.span →
      Branches t block.nodeKind (test.toList ++ [body])
  | body {block : Block} {statements : List Node} : t.kind = .keyword block.keyword →
      (∀ n ∈ statements, n.kind.isStatement = true) → Branches t .body statements
  | printing {value : Option Node} : t.kind = .keyword .printKw → IsOperand value →
      Branches t .printStatement value.toList
  | condition {left right : Option Node} : t.kind.isRelational = true → IsOperand left →
      IsOperand right →
      Branches t .condition (left.toList ++ leaf .relationalOperator t :: right.toList)
  | expression {left right : Option Node} : t.kind.isAdditive = true → IsOperand left →
      IsOperand right → Branches t .expression (left.toList ++ leaf .operator t :: right.toList)
  | term {left right : Option Node} : t.kind.isMultiplicative = true → IsOperand left →
      IsOperand right → Branches t .term (left.toList ++ leaf .operator t :: right.toList)
  | identifier : t.kind = .identifier → Branches t .identifier []
  | number : t.kind = .number → Branches t .number []
  | operator : (t.kind.isAdditive = true ∨ t.kind.isMultiplicative = true) → Branches t .operator []
  | relationalOperator : t.kind.isRelational = true → Branches t .relationalOperator []

structure StandsFor (n : Node) (t : Token) : Prop where
  span : n.span = some t.span
  line : n.line = t.span.start.line
  column : n.column = t.span.start.column
  value : n.value = if n.kind.isLeaf = true then some t.text else none
  branches : Branches t n.kind n.children

/-- Every node of the tree stands for one of the tokens. -/
def Rooted (ts : List Token) (n : Node) : Prop := ∀ m ∈ n.nodes, ∃ t ∈ ts, m.StandsFor t

section Rooted

variable {ts : List Token} {t : Token} {kind : NodeKind} {n : Node}

theorem Branches.eq_nil {children : List Node} (h : Branches t kind children)
    (hk : kind.isLeaf = true) : children = [] := by
  cases h with
  | @block block => cases block <;> cases hk
  | declaration | assignment | body | printing | condition | expression | term => cases hk
  | identifier | number | operator | relationalOperator => rfl

theorem StandsFor.isSome_value (h : n.StandsFor t) : n.value.isSome = n.kind.isLeaf := by
  rw [h.value]
  by_cases hk : n.kind.isLeaf = true <;> simp [hk]

theorem rooted_of_standsFor (ht : t ∈ ts) (h : n.StandsFor t)
    (hchildren : ∀ m ∈ n.children, m.Rooted ts) : n.Rooted ts := by
  intro m hm
  rcases List.mem_cons.mp (nodes_eq n ▸ hm) with rfl | hbelow
  · exact ⟨t, ht, h⟩
  · obtain ⟨child, hchild, hin⟩ := mem_allNodes.mp hbelow
    exact hchildren child hchild m hin

theorem rooted_leaf (ht : t ∈ ts) (hk : kind.isLeaf = true) (h : Branches t kind []) :
    (leaf kind t).Rooted ts := by
  have hvalue : (leaf kind t).value = if kind.isLeaf = true then some t.text else none := by
    rw [if_pos hk]
    rfl
  exact rooted_of_standsFor ht ⟨rfl, rfl, rfl, hvalue, h⟩ fun m hm => absurd hm List.not_mem_nil

theorem children_interior (kind : NodeKind) (span : Span) (children : List (Option Node)) :
    (interior kind span children).children = children.flatMap Option.toList :=
  List.filterMap_eq_flatMap_toList id children

theorem rooted_interior {children : List (Option Node)} (ht : t ∈ ts) (hk : kind.isLeaf = false)
    (h : Branches t kind (children.flatMap Option.toList))
    (hchildren : ∀ child ∈ children, ∀ m ∈ child, m.Rooted ts) :
    (interior kind t.span children).Rooted ts := by
  have hvalue : (interior kind t.span children).value =
      if kind.isLeaf = true then some t.text else none := by
    rw [hk]
    rfl
  rw [← children_interior kind t.span] at h
  refine rooted_of_standsFor ht ⟨rfl, rfl, rfl, hvalue, h⟩ fun m hm => ?_
  rw [children_interior, List.mem_flatMap] at hm
  obtain ⟨child, hchild, hm⟩ := hm
  exact hchildren child hchild m (Option.mem_toList.mp hm)

end Rooted

/-- What was found, if anything, is of one of the kinds, and stands for tokens all through. -/
def Grown (ts : List Token) (kinds : NodeKind → Bool) (result : Option Node) : Prop :=
  ∀ n ∈ result, kinds n.kind = true ∧ n.Rooted ts

section Grown

variable {ts : List Token} {kinds : NodeKind → Bool} {result : Option Node} {n : Node}

theorem grown_none : Grown ts kinds none := by simp [Grown]

theorem grown_some (hk : kinds n.kind = true) (h : n.Rooted ts) : Grown ts kinds (some n) := by
  intro m hm
  obtain rfl := Option.some.inj hm
  exact ⟨hk, h⟩

theorem Grown.kind (h : Grown ts kinds result) : ∀ n ∈ result, kinds n.kind = true :=
  fun n hn => (h n hn).1

theorem Grown.rooted (h : Grown ts kinds result) : ∀ n ∈ result, n.Rooted ts :=
  fun n hn => (h n hn).2

theorem grown_binary {kind : NodeKind} {left right : Option Node} {operator : Token}
    (ht : operator ∈ ts) (hk : kind.isOperand = true) (hinner : kind.isLeaf = false)
    (hoperator : operator.kind.isAdditive = true ∨ operator.kind.isMultiplicative = true)
    (h : Branches operator kind (left.toList ++ leaf .operator operator :: right.toList))
    (hleft : Grown ts NodeKind.isOperand left) (hright : Grown ts NodeKind.isOperand right) :
    Grown ts NodeKind.isOperand (some (binary kind left operator right)) := by
  have hbranches : Branches operator kind
      ([left, some (leaf .operator operator), right].flatMap Option.toList) := by simpa using h
  refine grown_some hk (rooted_interior ht hinner hbranches ?_)
  have hleaf := rooted_leaf ht rfl (.operator hoperator)
  simpa using ⟨hleft.rooted, hleaf, hright.rooted⟩

end Grown

end Node

open Rule Node

theorem ParseState.Leads.tokens_eq {s t : ParseState} (h : s.Leads t) :
    t.cursor.tokens = s.cursor.tokens :=
  h.reaches.tokens_eq.symm

theorem Cursor.mem_of_current? {c : Cursor} {a : Anchor} (h : c.current? = some a) :
    a.token ∈ c.tokens :=
  List.mem_of_getElem? (tokens_current? h)

def Rule.Grows (ts : List Token) (kinds : NodeKind → Bool) (r : Rule (Option Node)) : Prop :=
  ∀ s : ParseState, s.cursor.tokens = ts → r.Ensures s fun result _ => Grown ts kinds result

section Expression

variable {ts : List Token} {kind : NodeKind} {joins : TokenKind → Bool} {s : ParseState}
  {operand expression : Rule (Option Node)} {kinds : NodeKind → Bool} {a : Anchor}

theorem ensures_none (r : Rule α) (s : ParseState) :
    (r >>= fun _ => pure none).Ensures s fun result _ => Grown ts kinds result :=
  (ensures_leads r s).bind fun _ _ _ _ => ensures_pure grown_none

theorem chained_grows (h : operand.Grows ts NodeKind.isOperand)
    (hbinary : ∀ t ∈ ts, ∀ left right, joins t.kind = true → Grown ts NodeKind.isOperand left →
      Grown ts NodeKind.isOperand right →
      Grown ts NodeKind.isOperand (some (binary kind left t right))) :
    (chained kind joins operand).Grows ts NodeKind.isOperand := by
  intro s hs
  have hstep : ∀ left (t : ParseState) (a : Anchor),
      (t.cursor.tokens = ts ∧ Grown ts NodeKind.isOperand left) → t.cursor.current? = some a →
      joins a.token.kind = true → operand.Ensures t.passed fun right u =>
        u.cursor.tokens = ts ∧
          Grown ts NodeKind.isOperand (some (binary kind left a.token right)) := by
    rintro left t a ⟨ht, hleft⟩ ha hj
    have hpassed : t.passed.cursor.tokens = ts := (ParseState.Leads.advance t).tokens_eq.trans ht
    have hmem : a.token ∈ ts := ht ▸ Cursor.mem_of_current? ha
    have hend := (operand.leads t.passed).tokens_eq.trans hpassed
    exact ⟨hend, hbinary _ hmem _ _ hj hleft (h t.passed hpassed)⟩
  refine (h s hs).bind fun left t hst hleft => ?_
  exact (ensures_chainOnto hstep ⟨hst.tokens_eq.trans hs, hleft⟩).mono fun _ _ hinv => hinv.2

theorem grown_leaf {t : Token} (ht : t ∈ ts) (hk : kinds kind = true) (hleaf : kind.isLeaf = true)
    (h : Branches t kind []) : Grown ts kinds (some (leaf kind t)) :=
  grown_some hk (rooted_leaf ht hleaf h)

theorem grown_factorFrom {inner : Option (Rule (Option Node))}
    (h : ∀ e ∈ inner, e.Grows ts NodeKind.isOperand) (hs : s.cursor.tokens = ts)
    (ha : s.cursor.current? = some a) :
    (factorFrom inner a).Ensures s fun result _ => Grown ts NodeKind.isOperand result := by
  have hmem : a.token ∈ ts := hs ▸ Cursor.mem_of_current? ha
  unfold factorFrom
  split
  · next hk =>
    exact (ensures_leads _ s).bind fun _ _ _ _ =>
      ensures_pure (grown_leaf hmem rfl rfl (.number hk))
  · next hk =>
    exact (ensures_leads _ s).bind fun _ _ _ _ =>
      ensures_pure (grown_leaf hmem rfl rfl (.identifier hk))
  · cases inner with
    | none => exact ensures_none (refuse a) s
    | some expression =>
      -- The parentheses are no node of their own.
      have hinner : (parenthesised expression).Ensures s fun result _ =>
          Grown ts NodeKind.isOperand result.1 := by
        refine .deeper ((ensures_leads skip _).bind fun _ t hst _ => ?_)
        refine (h expression rfl t (hst.tokens_eq.trans hs)).bind fun node u _ hu => ?_
        exact (ensures_leads _ u).bind fun _ _ _ _ => ensures_pure hu
      refine hinner.bind fun result t _ ht => ?_
      obtain ⟨node, closing⟩ := result
      cases closing with
      | some closing => exact ensures_pure ht
      | none => exact (ensures_leads _ t).bind fun b u _ _ => ensures_none (report .parenUnclosed b) u
  · exact (ensures_leads _ s).bind fun _ t _ _ => ensures_none skip t

theorem factor_grows {inner : Option (Rule (Option Node))}
    (h : ∀ e ∈ inner, e.Grows ts NodeKind.isOperand) :
    (factor inner).Grows ts NodeKind.isOperand := by
  intro s hs
  refine (ensures_look _ s).bind fun o t _ ho => ?_
  obtain ⟨ho, rfl⟩ := ho
  cases o with
  | none => exact ensures_none (reportPrevious .operandMissing) t
  | some a => exact grown_factorFrom h hs ho.symm

theorem sum_grows {inner : Option (Rule (Option Node))}
    (h : ∀ e ∈ inner, e.Grows ts NodeKind.isOperand) :
    (sum inner).Grows ts NodeKind.isOperand := by
  have hterm : (chained .term TokenKind.isMultiplicative (factor inner)).Grows ts
      NodeKind.isOperand :=
    chained_grows (factor_grows h) fun _ ht _ _ hj hleft hright =>
      grown_binary ht rfl rfl (.inr hj) (.term hj hleft.kind hright.kind) hleft hright
  exact chained_grows hterm fun _ ht _ _ hj hleft hright =>
    grown_binary ht rfl rfl (.inl hj) (.expression hj hleft.kind hright.kind) hleft hright

theorem expressionAt_grows (level : Nat) : (expressionAt level).Grows ts NodeKind.isOperand :=
  expressionAt_induction (fun _ => sum_grows) level

theorem condition_grows (h : expression.Grows ts NodeKind.isOperand) :
    (condition expression).Grows ts (· == .condition) := by
  intro s hs
  refine .within ((h (s.enter .condition) hs).bind fun left t hst hleft => ?_)
  have ht : t.cursor.tokens = ts := hst.tokens_eq.trans hs
  refine (ensures_accept _ t).bind fun o u htu hu => ?_
  cases hu with
  | refused => exact ensures_none (reportPrevious .conditionWithoutRelation) t
  | @taken operator ha hrel =>
    have hmem : operator.token ∈ ts := ht ▸ Cursor.mem_of_current? ha
    refine (h t.passed (htu.tokens_eq.trans ht)).bind fun right v _ hright => ensures_pure ?_
    have hleaf := rooted_leaf hmem rfl (.relationalOperator hrel)
    have hbranches := Branches.condition hrel hleft.kind hright.kind
    refine grown_some rfl (rooted_interior hmem rfl (by simpa using hbranches) ?_)
    simpa using ⟨hleft.rooted, hleaf, hright.rooted⟩

end Expression

section Statement

variable {ts : List Token} {expression : Rule (Option Node)} {s : ParseState} {a : Anchor}

/-- Where a token is missing, what was found is given up. -/
theorem ensures_or {p : Rule Bool} {r : Rule α} {failed : α} {post : α → Prop}
    (hs : s.cursor.tokens = ts) (hfailed : post failed)
    (hr : ∀ t : ParseState, t.cursor.tokens = ts → r.Ensures t fun result _ => post result) :
    (p >>= fun found => if found = true then r else pure failed).Ensures s
      fun result _ => post result :=
  (ensures_leads p s).ite (fun t _ ht => hr t (ht.tokens_eq.trans hs)) fun _ _ =>
    ensures_pure hfailed

theorem grown_declaration (h : expression.Grows ts NodeKind.isOperand) (hs : s.cursor.tokens = ts)
    (ha : s.cursor.current? = some a) (hk : a.token.kind = .keyword .letKw) :
    (declaration expression a).Ensures s fun result _ => Grown ts NodeKind.isStatement result := by
  have hopening : a.token ∈ ts := hs ▸ Cursor.mem_of_current? ha
  refine .within ((ensures_leads skip _).bind fun _ t hst _ => ?_)
  have ht : t.cursor.tokens = ts := hst.tokens_eq.trans hs
  refine (ensures_accept _ t).bind fun o u htu hu => ?_
  cases hu with
  | refused => exact ensures_none (report .declarationWithoutName a) t
  | @taken name hname hidentifier =>
    have hmem : name.token ∈ ts := ht ▸ Cursor.mem_of_current? hname
    have hidentifier : name.token.kind = .identifier := by simpa using hidentifier
    refine ensures_or (htu.tokens_eq.trans ht) grown_none fun v hv => ?_
    refine (h v hv).bind fun value w hvw hvalue => ?_
    refine ensures_or (hvw.tokens_eq.trans hv) grown_none fun x _ => ensures_pure ?_
    have hleaf := rooted_leaf hmem rfl (.identifier hidentifier)
    have hbranches := Branches.declaration hk hidentifier hvalue.kind
    refine grown_some rfl (rooted_interior hopening rfl (by simpa using hbranches) ?_)
    simpa using ⟨hleaf, hvalue.rooted⟩

theorem grown_assignment (h : expression.Grows ts NodeKind.isOperand) (hs : s.cursor.tokens = ts)
    (ha : s.cursor.current? = some a) (hk : a.token.kind = .identifier) :
    (assignment expression a).Ensures s fun result _ => Grown ts NodeKind.isStatement result := by
  have hname : a.token ∈ ts := hs ▸ Cursor.mem_of_current? ha
  refine .within ((ensures_leads skip _).bind fun _ t hst _ => ?_)
  refine ensures_or (hst.tokens_eq.trans hs) grown_none fun u hu => ?_
  refine (h u hu).bind fun value v huv hvalue => ?_
  refine ensures_or (huv.tokens_eq.trans hu) grown_none fun w _ => ensures_pure ?_
  have hleaf := rooted_leaf hname rfl (.identifier hk)
  have hbranches := Branches.assignment hk hvalue.kind
  refine grown_some rfl (rooted_interior hname rfl (by simpa using hbranches) ?_)
  simpa using ⟨hleaf, hvalue.rooted⟩

theorem grown_printing (h : expression.Grows ts NodeKind.isOperand) (hs : s.cursor.tokens = ts)
    (ha : s.cursor.current? = some a) (hk : a.token.kind = .keyword .printKw) :
    (printing expression a).Ensures s fun result _ => Grown ts NodeKind.isStatement result := by
  have hopening : a.token ∈ ts := hs ▸ Cursor.mem_of_current? ha
  refine .within ((ensures_leads skip _).bind fun _ t hst _ => ?_)
  refine ensures_or (hst.tokens_eq.trans hs) grown_none fun u hu => ?_
  refine (h u hu).bind fun value v huv hvalue => ?_
  refine ensures_or (huv.tokens_eq.trans hu) grown_none fun w hw => ?_
  refine ensures_or hw grown_none fun x _ => ensures_pure ?_
  have hbranches := Branches.printing hk hvalue.kind
  refine grown_some rfl (rooted_interior hopening rfl (by simpa using hbranches) ?_)
  simpa using hvalue.rooted

def GrownStatement (ts : List Token) (result : Except Stall (Option Node)) : Prop :=
  ∃ node, result = .ok node ∧ Grown ts NodeKind.isStatement node

theorem grownStatement_none : GrownStatement ts (.ok none) := ⟨none, rfl, grown_none⟩

def Rule.GrowsStatements (ts : List Token) (r : Rule (Except Stall (Option Node))) : Prop :=
  ∀ s : ParseState, s.cursor.tokens = ts → r.Ensures s fun result _ => GrownStatement ts result

theorem grown_gather {one : Rule (Except Stall (Option Node))} (hadv : one.Advances)
    (h : one.GrowsStatements ts) (closes : TokenKind → Bool) (hs : s.cursor.tokens = ts) :
    (gather one closes).Ensures s fun result _ =>
      ∃ nodes, result = .ok nodes ∧ ∀ n ∈ nodes, n.kind.isStatement = true ∧ n.Rooted ts := by
  have hstep : ∀ (done : List Node) (t : ParseState) (a : Anchor),
      (t.cursor.tokens = ts ∧ ∀ n ∈ done, n.kind.isStatement = true ∧ n.Rooted ts) →
      t.cursor.current? = some a → one.Ensures t fun result u =>
        ∃ node, result = .ok node ∧ u.cursor.tokens = ts ∧
          ∀ n ∈ node.toList ++ done, n.kind.isStatement = true ∧ n.Rooted ts := by
    rintro done t a ⟨ht, hdone⟩ -
    obtain ⟨node, hnode, hgrown⟩ := h t ht
    have hall := List.forall_mem_append.mpr ⟨fun n hn => hgrown n (Option.mem_toList.mp hn), hdone⟩
    exact ⟨node, hnode, (one.leads t).tokens_eq.trans ht, hall⟩
  refine (ensures_gatherOnto hadv hstep ⟨hs, by simp⟩).mono fun result t ht => ?_
  obtain ⟨nodes, hnodes, ⟨-, hall⟩, -⟩ := ht
  exact ⟨nodes.reverse, hnodes, fun n hn => hall n (List.mem_reverse.mp hn)⟩

theorem grown_blockStatement {one : Rule (Except Stall (Option Node))} {block : Block}
    (he : expression.Grows ts NodeKind.isOperand) (hadv : one.Advances)
    (h : one.GrowsStatements ts) (hs : s.cursor.tokens = ts) (ha : s.cursor.current? = some a)
    (hk : a.token.kind = .keyword block.keyword) :
    (blockStatement block expression one a).Ensures s fun result _ => GrownStatement ts result := by
  have hopening : a.token ∈ ts := hs ▸ Cursor.mem_of_current? ha
  refine .deeper (.within ((ensures_leads skip _).bind fun _ t hst _ => ?_))
  refine ensures_or (hst.tokens_eq.trans hs) grownStatement_none fun u hu => ?_
  refine (condition_grows he u hu).bind fun test v huv htest => ?_
  refine ensures_or (huv.tokens_eq.trans hu) grownStatement_none fun w hw => ?_
  refine ensures_or hw grownStatement_none fun x hx => ?_
  refine (grown_gather hadv h _ hx).bind fun result y hxy hy => ?_
  obtain ⟨statements, rfl, hall⟩ := hy
  refine ensures_or (hxy.tokens_eq.trans hx) grownStatement_none fun z _ => ensures_pure ?_
  -- The body stands for the keyword, as the statement does.
  let body : Node := .interior .body a.token.span (statements.map some)
  have hbody : body.Rooted ts := by
    have hbranches := Branches.body hk fun n hn => (hall n hn).1
    have hmap : (statements.map some).flatMap Option.toList = statements := by
      simp [List.flatMap_map]
    refine rooted_interior hopening rfl (by rwa [hmap]) ?_
    simpa using fun n hn => (hall n hn).2
  have hbranches : Branches a.token block.nodeKind (test.toList ++ [body]) :=
    .block hk (fun n hn => by simpa using htest.kind n hn) rfl rfl
  have hkind : block.nodeKind.isStatement = true ∧ block.nodeKind.isLeaf = false := by
    cases block <;> exact ⟨rfl, rfl⟩
  refine ⟨_, rfl, grown_some hkind.1 (rooted_interior hopening hkind.2 ?_ ?_)⟩
  · simpa using hbranches
  · simpa using ⟨htest.rooted, hbody⟩

theorem grown_nestedStatement {inner : BlockParts} {block : Block}
    (h : ∀ parts ∈ inner,
      PartsHave (Rule.Grows ts NodeKind.isOperand) (Rule.GrowsStatements ts) parts)
    (hs : s.cursor.tokens = ts) (ha : s.cursor.current? = some a)
    (hk : a.token.kind = .keyword block.keyword) :
    (nestedStatement inner block a).Ensures s fun result _ => GrownStatement ts result := by
  cases inner with
  | none => exact (ensures_leads (refuse a) s).bind fun _ _ _ _ => ensures_pure grownStatement_none
  | some parts =>
    have hp := h parts rfl
    exact grown_blockStatement hp.expression hp.advances hp.statement hs ha hk

theorem grown_statementFrom {inner : BlockParts} (he : expression.Grows ts NodeKind.isOperand)
    (h : ∀ parts ∈ inner,
      PartsHave (Rule.Grows ts NodeKind.isOperand) (Rule.GrowsStatements ts) parts)
    (hs : s.cursor.tokens = ts) (ha : s.cursor.current? = some a) :
    (statementFrom expression inner a).Ensures s fun result _ => GrownStatement ts result := by
  unfold statementFrom
  split
  · next hk => exact .map ((grown_declaration he hs ha hk).mono fun node _ hn => ⟨node, rfl, hn⟩)
  · next hk => exact grown_nestedStatement h hs ha hk
  · next hk => exact grown_nestedStatement h hs ha hk
  · next hk => exact .map ((grown_printing he hs ha hk).mono fun node _ hn => ⟨node, rfl, hn⟩)
  · next hk => exact .map ((grown_assignment he hs ha hk).mono fun node _ hn => ⟨node, rfl, hn⟩)
  · refine (ensures_leads _ s).bind fun _ t _ _ => ?_
    exact (ensures_leads skip t).bind fun _ _ _ _ => ensures_pure grownStatement_none

theorem statement_grows {inner : BlockParts} (he : expression.Grows ts NodeKind.isOperand)
    (h : ∀ parts ∈ inner,
      PartsHave (Rule.Grows ts NodeKind.isOperand) (Rule.GrowsStatements ts) parts) :
    (statement expression inner).GrowsStatements ts := by
  intro s hs
  refine (ensures_look _ s).bind fun o t _ ho => ?_
  obtain ⟨ho, rfl⟩ := ho
  cases o with
  | none => exact ensures_pure grownStatement_none
  | some a => exact grown_statementFrom he h hs ho.symm

theorem statementAt_grows (level : Nat) : (statementAt level).GrowsStatements ts :=
  statementAt_induction expressionAt_grows (fun _ _ => statement_grows) level

end Statement

theorem exists_root_of_parse (ts : List Token) :
    ∃ statements findings, parse ts = .ok ⟨.root statements, findings⟩ ∧
      ∀ n ∈ statements, n.kind.isStatement = true ∧ n.Rooted ts := by
  have hstart : ((ParseState.start ts).enter .program).cursor.tokens = ts := rfl
  have hprogram : program.Ensures (.start ts) fun result _ =>
      ∃ nodes, result = .ok (.root nodes) ∧
        ∀ n ∈ nodes, n.kind.isStatement = true ∧ n.Rooted ts := by
    refine .within ((grown_gather (statementAt_proceeds Limits.nesting).advances
      (statementAt_grows Limits.nesting) _ hstart).bind fun result t _ ht => ?_)
    obtain ⟨nodes, rfl, hall⟩ := ht
    exact ensures_pure ⟨nodes, rfl, hall⟩
  obtain ⟨nodes, htree, hall⟩ := hprogram
  exact ⟨nodes, _, parse_of_runParser htree, hall⟩

/-- Every parse has a tree, and every node of it but the root stands for one of the tokens and has
children that are meant for its kind. Values are on the leaves only. -/
theorem parse_tree_shape (ts : List Token) :
    ∃ tree findings, parse ts = .ok ⟨tree, findings⟩ ∧
      (tree.kind = .program ∧ tree.line = 0 ∧ tree.column = 0 ∧ tree.span = none) ∧
      (∀ n ∈ tree.children, n.kind.isStatement = true) ∧
      (∀ n ∈ allNodes tree.children, ∃ t ∈ ts, n.StandsFor t) ∧
      ∀ n ∈ tree.nodes,
        n.value.isSome = n.kind.isLeaf ∧ (n.kind.isLeaf = true → n.children = []) := by
  obtain ⟨statements, findings, hparse, hall⟩ := exists_root_of_parse ts
  have hbelow : ∀ n ∈ allNodes statements, ∃ t ∈ ts, n.StandsFor t := by
    intro n hn
    obtain ⟨statement, hstatement, hin⟩ := mem_allNodes.mp hn
    exact (hall statement hstatement).2 n hin
  have hroot : ∀ n ∈ (Node.root statements).nodes,
      n.value.isSome = n.kind.isLeaf ∧ (n.kind.isLeaf = true → n.children = []) := by
    intro n hn
    rcases List.mem_cons.mp (nodes_eq _ ▸ hn) with rfl | hn
    · exact ⟨rfl, fun hk => absurd hk Bool.false_ne_true⟩
    · obtain ⟨t, -, hstands⟩ := hbelow n hn
      exact ⟨hstands.isSome_value, hstands.branches.eq_nil⟩
  exact ⟨_, findings, hparse, ⟨rfl, rfl, rfl, rfl⟩, fun n hn => (hall n hn).1, hbelow, hroot⟩

end YupFront
