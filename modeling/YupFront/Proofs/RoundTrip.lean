import YupFront.Proofs.Completeness
import YupFront.Proofs.Spelling

/-! What is written is read back. A writing is read as the tree of its program, and every reading is
of a writing. -/

namespace YupFront

/-! Expressions. -/

/-- How the tokens in a place are read. -/
def Place.reads (inner : Option Reading) : Place → Reading
  | whole | leftOfSum => ReadsSum inner
  | rightOfSum | leftOfProduct => ReadsTerm inner
  | rightOfProduct => ReadsFactor inner

section Place

variable {inner : Option Reading} {p q : Place} {ts : List Token} {node : Node}

theorem Place.reads_of_factor (p : Place) (h : ReadsFactor inner ts node) :
    p.reads inner ts node := by
  cases p with
  | whole | leftOfSum => exact .single (.single h)
  | rightOfSum | leftOfProduct => exact .single h
  | rightOfProduct => exact h

theorem Place.reads_of_term {left right : Expr} {operator : String}
    (hp : (Expr.product left operator right).needsParens p = false)
    (h : ReadsTerm inner ts node) : p.reads inner ts node := by
  cases p with
  | whole | leftOfSum => exact .single h
  | rightOfSum | leftOfProduct => exact h
  | rightOfProduct => cases hp

theorem Place.reads_of_sum {left right : Expr} {operator : String}
    (hp : (Expr.sum left operator right).needsParens p = false)
    (h : ReadsSum inner ts node) : p.reads inner ts node := by
  cases p with
  | whole | leftOfSum => exact h
  | rightOfSum | leftOfProduct | rightOfProduct => cases hp

end Place

theorem Expr.Written.reads {e : Expr} {p : Place} {n : Nat} {ts : List Token}
    (h : e.Written p n ts) : ∃ node, p.reads (innerReading n) ts node ∧ node.shape = e.shape := by
  induction h with
  | @name t p n hk => exact ⟨_, p.reads_of_factor (.identifier hk), rfl⟩
  | @number t p n hk => exact ⟨_, p.reads_of_factor (.number hk), rfl⟩
  | sum hp hk _ _ ihl ihr =>
    obtain ⟨left, hleft, hsl⟩ := ihl
    obtain ⟨right, hright, hsr⟩ := ihr
    exact ⟨_, Place.reads_of_sum hp (.join hleft hk hright),
      by simp [Node.binary, Expr.shape, hsl, hsr]⟩
  | product hp hk _ _ ihl ihr =>
    obtain ⟨left, hleft, hsl⟩ := ihl
    obtain ⟨right, hright, hsr⟩ := ihr
    exact ⟨_, Place.reads_of_term hp (.join hleft hk hright),
      by simp [Node.binary, Expr.shape, hsl, hsr]⟩
  | @parens e opening closing p n ts hopening hclosing _ ih =>
    obtain ⟨node, hnode, hs⟩ := ih
    have hinner : ReadsExpression n ts node := by
      rw [readsExpression_eq]
      exact hnode
    exact ⟨node, p.reads_of_factor (.parens rfl hopening hclosing hinner), hs⟩

def Place.rank : Place → Nat
  | whole | leftOfSum => 0
  | rightOfSum | leftOfProduct => 1
  | rightOfProduct => 2

/-- How tightly an expression holds together. -/
def Expr.rank : Expr → Nat
  | sum .. => 0
  | product .. => 1
  | _ => 2

theorem Expr.needsParens_eq_false_iff {e : Expr} {p : Place} :
    e.needsParens p = false ↔ p.rank ≤ e.rank := by
  cases e <;> cases p <;> simp [needsParens, Place.rank, rank]

theorem Expr.Written.loosen {e : Expr} {p q : Place} {n : Nat} {ts : List Token}
    (h : e.Written p n ts) (hpq : q.rank ≤ p.rank) : e.Written q n ts := by
  have hbare {e : Expr} (hp : e.needsParens p = false) : e.needsParens q = false :=
    needsParens_eq_false_iff.mpr (Nat.le_trans hpq (needsParens_eq_false_iff.mp hp))
  cases h with
  | name hk => exact .name hk
  | number hk => exact .number hk
  | sum hp hk hl hr => exact .sum (hbare hp) hk hl hr
  | product hp hk hl hr => exact .product (hbare hp) hk hl hr
  | parens hopening hclosing h => exact .parens hopening hclosing h

/-- The expressions whose writings for a place are read as a node. -/
def Writes (p : Place) (n : Nat) (ts : List Token) (node : Node) : Prop :=
  ∃ e : Expr, e.Written p n ts ∧ node.shape = e.shape

section Expr

variable {n : Nat} {ts : List Token} {node : Node}

theorem writes_of_factor
    (hinner : ∀ m < n, ∀ ts node, ReadsExpression m ts node → Writes .whole m ts node)
    (h : ReadsFactor (innerReading n) ts node) : Writes .rightOfProduct n ts node := by
  cases h with
  | @number t hk => exact ⟨.number t.text, .number hk, rfl⟩
  | @identifier t hk => exact ⟨.name t.text, .name hk, rfl⟩
  | @parens expression opening closing ts _ hi hopening hclosing hnode =>
    cases n with
    | zero => cases hi
    | succ m =>
      cases hi
      obtain ⟨e, he, hs⟩ := hinner m (Nat.lt_succ_self m) ts node hnode
      exact ⟨e, .parens hopening hclosing he, hs⟩

theorem writes_of_term
    (hfactor : ∀ ts node, ReadsFactor (innerReading n) ts node → Writes .rightOfProduct n ts node)
    (h : ReadsTerm (innerReading n) ts node) : Writes .leftOfProduct n ts node := by
  induction h with
  | single hnode =>
    obtain ⟨e, he, hs⟩ := hfactor _ _ hnode
    exact ⟨e, he.loosen (by decide), hs⟩
  | @join ts us operator left right _ hk hright ih =>
    obtain ⟨l, hl, hsl⟩ := ih
    obtain ⟨r, hr, hsr⟩ := hfactor _ _ hright
    exact ⟨.product l operator.text r, .product rfl hk hl hr,
      by simp [Node.binary, Expr.shape, hsl, hsr]⟩

theorem writes_of_sum
    (hterm : ∀ ts node, ReadsTerm (innerReading n) ts node → Writes .leftOfProduct n ts node)
    (h : ReadsSum (innerReading n) ts node) : Writes .leftOfSum n ts node := by
  induction h with
  | single hnode =>
    obtain ⟨e, he, hs⟩ := hterm _ _ hnode
    exact ⟨e, he.loosen (by decide), hs⟩
  | @join ts us operator left right _ hk hright ih =>
    obtain ⟨l, hl, hsl⟩ := ih
    obtain ⟨r, hr, hsr⟩ := hterm _ _ hright
    exact ⟨.sum l operator.text r, .sum rfl hk hl (hr.loosen (by decide)),
      by simp [Node.binary, Expr.shape, hsl, hsr]⟩

theorem writes_of_expression (h : ReadsExpression n ts node) : Writes .whole n ts node := by
  induction n using Nat.strongRecOn generalizing ts node with
  | ind n ih =>
    rw [readsExpression_eq] at h
    have hfactor (ts node) (h : ReadsFactor (innerReading n) ts node) :=
      writes_of_factor (fun m hm _ _ => ih m hm) h
    obtain ⟨e, he, hs⟩ := writes_of_sum (fun _ _ => writes_of_term hfactor) h
    exact ⟨e, he.loosen (by decide), hs⟩

end Expr

/-! Statements. -/

theorem Expr.Written.reads_whole {e : Expr} {n : Nat} {ts : List Token}
    (h : e.Written .whole n ts) :
    ∃ node, ReadsExpression n ts node ∧ node.shape = e.shape := by
  rw [readsExpression_eq]
  exact h.reads

theorem Comparison.Written.reads {c : Comparison} {n : Nat} {ts : List Token}
    (h : c.Written n ts) :
    ∃ node, ReadsCondition (ReadsExpression n) ts node ∧ node.shape = c.shape := by
  obtain ⟨hk, hl, hr⟩ := h
  obtain ⟨left, hleft, hsl⟩ := hl.reads_whole
  obtain ⟨right, hright, hsr⟩ := hr.reads_whole
  exact ⟨_, .compare hleft hk hright, by simp [Comparison.shape, hsl, hsr]⟩

theorem readsAll_cons {s : Stmt} {rest : List Stmt} {n : Nat} {ts us : List Token} {node : Node}
    (hone : ReadsStatement (ReadsExpression n) (blockReadings n) ts node)
    (hs : node.shape = s.shape)
    (hrest : ∃ nodes, ReadsAll (ReadsStatementAt n) us nodes ∧
      nodes.map Node.shape = Stmt.shapes rest) :
    ∃ nodes, ReadsAll (ReadsStatementAt n) (ts ++ us) nodes ∧
      nodes.map Node.shape = Stmt.shapes (s :: rest) := by
  obtain ⟨nodes, hnodes, hr⟩ := hrest
  rw [← readsStatementAt_eq] at hone
  exact ⟨node :: nodes, .cons hone hnodes, by rw [List.map_cons, Stmt.shapes, hs, hr]⟩

theorem Stmt.Written.reads {ss : List Stmt} {n : Nat} {ts : List Token} (h : Stmt.Written ss n ts) :
    ∃ nodes, ReadsAll (ReadsStatementAt n) ts nodes ∧ nodes.map Node.shape = Stmt.shapes ss := by
  induction h with
  | nil => exact ⟨[], .nil, rfl⟩
  | declaration ho hn ha he hv _ ih =>
    obtain ⟨value, hvalue, hs⟩ := hv.reads_whole
    simpa using readsAll_cons (.declaration ho hn ha he hvalue) (by simp [Stmt.shape, hs]) ih
  | assignment hn ha he hv _ ih =>
    obtain ⟨value, hvalue, hs⟩ := hv.reads_whole
    simpa using readsAll_cons (.assignment hn ha he hvalue) (by simp [Stmt.shape, hs]) ih
  | printing ho hl hr he hv _ ih =>
    obtain ⟨value, hvalue, hs⟩ := hv.reads_whole
    simpa using readsAll_cons (.printing ho hl hr he hvalue) (by simp [Stmt.shape, hs]) ih
  | @block block _ _ _ _ _ _ _ _ n _ _ _ ho hl hr hlb hrb ht _ _ ihbody ihrest =>
    obtain ⟨body, hbody, hsb⟩ := ihbody
    obtain ⟨test, htest, hst⟩ := ht.reads
    simpa using readsAll_cons (.block block rfl ho hl hr hlb hrb htest hbody)
      (by simp [Stmt.shape, hst, hsb]) ihrest

/-- Some statements are written so and have these nodes. -/
def WritesAll (n : Nat) (ts : List Token) (nodes : List Node) : Prop :=
  ∃ ss, Stmt.Written ss n ts ∧ nodes.map Node.shape = Stmt.shapes ss

section Statement

variable {n : Nat} {ts us : List Token} {node : Node} {nodes : List Node}

theorem writes_of_condition (h : ReadsCondition (ReadsExpression n) ts node) :
    ∃ c : Comparison, c.Written n ts ∧ node.shape = c.shape := by
  cases h with
  | compare hleft hk hright =>
    obtain ⟨l, hl, hsl⟩ := writes_of_expression hleft
    obtain ⟨r, hr, hsr⟩ := writes_of_expression hright
    exact ⟨⟨l, _, r⟩, .compare hk hl hr, by simp [Comparison.shape, hsl, hsr]⟩

theorem writesAll_cons
    (hbody : ∀ m < n, ∀ ts nodes, ReadsAll (ReadsStatementAt m) ts nodes → WritesAll m ts nodes)
    (hone : ReadsStatement (ReadsExpression n) (blockReadings n) ts node)
    (hrest : WritesAll n us nodes) : WritesAll n (ts ++ us) (node :: nodes) := by
  obtain ⟨rest, hw, hs⟩ := hrest
  cases hone with
  | @declaration _ name _ _ _ _ ho hn ha he hvalue =>
    obtain ⟨value, hv, hsv⟩ := writes_of_expression hvalue
    exact ⟨.declaration name.text value :: rest, by simpa using .declaration ho hn ha he hv hw,
      by simp [Stmt.shapes, Stmt.shape, hsv, hs]⟩
  | @assignment name _ _ _ _ hn ha he hvalue =>
    obtain ⟨value, hv, hsv⟩ := writes_of_expression hvalue
    exact ⟨.assignment name.text value :: rest, by simpa using .assignment hn ha he hv hw,
      by simp [Stmt.shapes, Stmt.shape, hsv, hs]⟩
  | printing ho hl hr he hvalue =>
    obtain ⟨value, hv, hsv⟩ := writes_of_expression hvalue
    exact ⟨.printing value :: rest, by simpa using .printing ho hl hr he hv hw,
      by simp [Stmt.shapes, Stmt.shape, hsv, hs]⟩
  | block block hinner ho hl hr hlb hrb htest hinside =>
    cases n with
    | zero => cases hinner
    | succ m =>
      cases hinner
      obtain ⟨test, ht, hst⟩ := writes_of_condition htest
      obtain ⟨body, hb, hsb⟩ := hbody m (Nat.lt_succ_self m) _ _ hinside
      exact ⟨.block block test body :: rest, by simpa using .block ho hl hr hlb hrb ht hb hw,
        by simp [Stmt.shapes, Stmt.shape, hst, hsb, hs]⟩

theorem writesAll_of_readsAll (h : ReadsAll (ReadsStatementAt n) ts nodes) :
    WritesAll n ts nodes := by
  induction n using Nat.strongRecOn generalizing ts nodes with
  | ind n ihn =>
    induction h with
    | nil => exact ⟨[], .nil, rfl⟩
    | cons hone _ ih =>
      rw [readsStatementAt_eq] at hone
      exact writesAll_cons (fun m hm _ _ => ihn m hm) hone ih

end Statement

/-- A program of which no more is nested than is allowed has its own tree back from each of its
writings, and every parse without findings is of a writing. The shortest writing of a program is one
if its texts are what they stand for, as they are if the tokens have the kinds of their texts. -/
theorem parse_written (mode : PositionMode) :
    (∀ (ss : List Stmt) (ts : List Token), Stmt.Written ss Limits.nesting ts →
      ∃ parsed, parse ts = .ok parsed ∧ parsed.diagnostics mode = [] ∧
        parsed.tree.shape = Stmt.program ss) ∧
    (∀ (ts : List Token) (parsed : Parsed), parse ts = .ok parsed →
      parsed.diagnostics mode = [] →
      ∃ ss, Stmt.Written ss Limits.nesting ts ∧ parsed.tree.shape = Stmt.program ss ∧
        (Token.Spelled ts → Stmt.AllWellFormed ss)) ∧
    (∀ ss : List Stmt, Stmt.AllWellFormed ss → Stmt.allLevels ss ≤ Limits.nesting →
      Stmt.Written ss Limits.nesting (Stmt.allTokens ss)) := by
  refine ⟨fun ss ts hw => ?_, fun ts parsed hp hd => ?_, fun ss h hn => ?_⟩
  · obtain ⟨nodes, hnodes, hs⟩ := hw.reads
    exact ⟨⟨.root nodes, []⟩, parse_quiet_iff.mpr ⟨nodes, rfl, hnodes⟩, rfl,
      by rw [Node.shape_root, hs, Stmt.program]⟩
  · obtain ⟨tree, findings⟩ := parsed
    obtain rfl : findings = [] := List.map_eq_nil_iff.mp hd
    obtain ⟨nodes, rfl, hnodes⟩ := parse_quiet_iff.mp hp
    obtain ⟨ss, hw, hs⟩ := writesAll_of_readsAll hnodes
    exact ⟨ss, hw, by rw [Node.shape_root, hs, Stmt.program], hw.wellFormed⟩
  · exact Stmt.written_allTokens ss h hn

theorem parse_written_nested :
    let ss : List Stmt :=
      [.assignment "x" (.sum (.name "a") "-" (.sum (.name "b") "-" (.name "c")))]
    Stmt.AllWellFormed ss ∧ Stmt.allLevels ss ≤ Limits.nesting ∧
      Stmt.Written ss Limits.nesting (Stmt.allTokens ss) ∧
      ∃ parsed, parse (Stmt.allTokens ss) = .ok parsed ∧ parsed.diagnostics .source = [] ∧
        parsed.tree.shape = Stmt.program ss ∧
        ∃ found, Stmt.Written found Limits.nesting (Stmt.allTokens ss) ∧
          parsed.tree.shape = Stmt.program found := by
  obtain ⟨hread, hwrite, hshortest⟩ := parse_written .source
  have hwf : Stmt.AllWellFormed
      [.assignment "x" (.sum (.name "a") "-" (.sum (.name "b") "-" (.name "c")))] := by
    simp only [Stmt.AllWellFormed, Stmt.WellFormed, Expr.WellFormed]
    decide
  have hw := hshortest _ hwf (by decide)
  obtain ⟨parsed, hp, hd, hs⟩ := hread _ _ hw
  obtain ⟨found, hfound, hs', -⟩ := hwrite _ parsed hp hd
  exact ⟨hwf, by decide, hw, parsed, hp, hd, hs, found, hfound, hs'⟩

end YupFront
