import YupFront.Proofs.Completeness
import YupFront.Proofs.Language

/-! The parser accepts the language: what can be read is what can be derived. -/

namespace YupFront

def Spells (f : Form) (n : Nat) (ts : List Token) : Prop :=
  Derives f n (ts.map Token.kind)

section Spells

variable {f g : Form} {n : Nat} {ts : List Token}

@[simp] theorem spells_kind_iff {k : TokenKind} :
    Spells (.kind k) n ts ↔ ∃ t, ts = [t] ∧ t.kind = k := by
  simp only [Spells, derives_kind_iff, List.map_eq_singleton_iff]

theorem spells_rule_iff {x : Nonterminal} : Spells (.rule x) n ts ↔ Spells x.form n ts :=
  derives_rule_iff

@[simp] theorem spells_nested_iff :
    Spells (.nested f) n ts ↔ ∃ m, n = m + 1 ∧ Spells f m ts :=
  derives_nested_iff

@[simp] theorem spells_oneOf_iff {fs : List Form} :
    Spells (.oneOf fs) n ts ↔ ∃ f ∈ fs, Spells f n ts :=
  derives_oneOf_iff

@[simp] theorem spells_inOrder_singleton : Spells (.inOrder [f]) n ts ↔ Spells f n ts := .rfl

theorem spells_inOrder_cons {fs : List Form} :
    Spells (.inOrder (f :: g :: fs)) n ts ↔
      ∃ us vs, ts = us ++ vs ∧ Spells f n us ∧ Spells (.inOrder (g :: fs)) n vs := by
  rw [Spells, derives_inOrder_cons]
  constructor
  · rintro ⟨as, bs, hts, ha, hb⟩
    obtain ⟨us, vs, rfl, rfl, rfl⟩ := List.map_eq_append_iff.mp hts
    exact ⟨us, vs, rfl, ha, hb⟩
  · rintro ⟨us, vs, rfl, hu, hv⟩
    exact ⟨_, _, List.map_append, hu, hv⟩

@[simp] theorem spells_inOrder_kind {k : TokenKind} {fs : List Form} :
    Spells (.inOrder (.kind k :: g :: fs)) n ts ↔
      ∃ t us, ts = t :: us ∧ t.kind = k ∧ Spells (.inOrder (g :: fs)) n us := by
  rw [spells_inOrder_cons]
  constructor
  · rintro ⟨_, us, rfl, ht, hu⟩
    obtain ⟨t, rfl, hk⟩ := spells_kind_iff.mp ht
    exact ⟨t, us, rfl, hk, hu⟩
  · rintro ⟨t, us, rfl, hk, hu⟩
    exact ⟨[t], us, rfl, spells_kind_iff.mpr ⟨t, rfl, hk⟩, hu⟩

theorem spells_inOrder_last {k : TokenKind} :
    Spells (.inOrder [f, .kind k]) n ts ↔ ∃ us t, ts = us ++ [t] ∧ t.kind = k ∧ Spells f n us := by
  rw [spells_inOrder_cons]
  constructor
  · rintro ⟨us, _, rfl, hu, ht⟩
    obtain ⟨t, rfl, hk⟩ := spells_kind_iff.mp ht
    exact ⟨us, t, rfl, hk, hu⟩
  · rintro ⟨us, t, rfl, hk, hu⟩
    exact ⟨us, [t], rfl, hu, spells_kind_iff.mpr ⟨t, rfl, hk⟩⟩

theorem spells_inOrder_between {x : Nonterminal} {k : TokenKind} {fs : List Form} :
    Spells (.inOrder (.rule x :: .kind k :: g :: fs)) n ts ↔
      ∃ us t vs, ts = us ++ t :: vs ∧ t.kind = k ∧ Spells (.rule x) n us ∧
        Spells (.inOrder (g :: fs)) n vs := by
  rw [spells_inOrder_cons]
  constructor
  · rintro ⟨us, _, rfl, hu, hrest⟩
    obtain ⟨t, vs, rfl, hk, hv⟩ := spells_inOrder_kind.mp hrest
    exact ⟨us, t, vs, rfl, hk, hu, hv⟩
  · rintro ⟨us, t, vs, rfl, hk, hu, hv⟩
    exact ⟨us, _, rfl, hu, spells_inOrder_kind.mpr ⟨t, vs, rfl, hk, hv⟩⟩

theorem spells_oneOf_kinds (kinds : List TokenKind) :
    Spells (.oneOf (kinds.map .kind)) n ts ↔ ∃ t, ts = [t] ∧ t.kind ∈ kinds := by
  simp only [spells_oneOf_iff, List.mem_map]
  constructor
  · rintro ⟨_, ⟨k, hk, rfl⟩, ht⟩
    obtain ⟨t, rfl, rfl⟩ := spells_kind_iff.mp ht
    exact ⟨t, rfl, hk⟩
  · rintro ⟨t, rfl, hk⟩
    exact ⟨_, ⟨_, hk, rfl⟩, spells_kind_iff.mpr ⟨t, rfl, rfl⟩⟩

/-- What is derived from a repetition falls into parts. -/
theorem spells_many_iff :
    Spells (.many f) n ts ↔ ∃ parts : List (List Token),
      ts = parts.flatten ∧ ∀ part ∈ parts, Spells f n part := by
  constructor
  · intro h
    obtain ⟨parts, hts, hp⟩ := derives_many_iff.mp h
    clear h
    induction parts generalizing ts with
    | nil => exact ⟨[], by simpa using hts, by simp⟩
    | cons part parts ih =>
      obtain ⟨us, vs, rfl, rfl, hv⟩ := List.map_eq_append_iff.mp hts
      obtain ⟨hu, hp⟩ := List.forall_mem_cons.mp hp
      obtain ⟨rest, rfl, hr⟩ := ih hv hp
      exact ⟨us :: rest, rfl, List.forall_mem_cons.mpr ⟨hu, hr⟩⟩
  · rintro ⟨parts, rfl, hp⟩
    exact derives_many_iff.mpr ⟨parts.map (List.map Token.kind), List.map_flatten,
      List.forall_mem_map.mpr hp⟩

end Spells

/-- The token sequences that can be read are those whose kinds can be derived. -/
def Describes (f : Form) (n : Nat) (reading : Reading) : Prop :=
  ∀ ts, (∃ node, reading ts node) ↔ Spells f n ts

section Chain

variable {kind : NodeKind} {joins : TokenKind → Bool} {operand : Reading} {f : Form} {n : Nat}
  {operators : List TokenKind}

/-- An operator with the operand behind it. -/
theorem spells_tail_iff {ts : List Token} :
    Spells (.inOrder [.oneOf (operators.map .kind), f]) n ts ↔
      ∃ t us, ts = t :: us ∧ t.kind ∈ operators ∧ Spells f n us := by
  simp only [spells_inOrder_cons, spells_inOrder_singleton, spells_oneOf_kinds]
  constructor
  · rintro ⟨_, us, rfl, ⟨t, rfl, hk⟩, hu⟩
    exact ⟨t, us, rfl, hk, hu⟩
  · rintro ⟨t, us, rfl, hk, hu⟩
    exact ⟨[t], us, rfl, ⟨t, rfl, hk⟩, hu⟩

/-- The repetition goes on to the right, the reading of a chain to the left. -/
theorem exists_readsChain_of_parts (hf : Describes f n operand)
    (hj : ∀ k, joins k = true ↔ k ∈ operators) (parts : List (List Token))
    (hp : ∀ part ∈ parts, Spells (.inOrder [.oneOf (operators.map .kind), f]) n part)
    {ts : List Token} {node : Node} (hnode : ReadsChain kind joins operand ts node) :
    ∃ whole, ReadsChain kind joins operand (ts ++ parts.flatten) whole := by
  induction parts generalizing ts node with
  | nil => exact ⟨node, by simpa using hnode⟩
  | cons part parts ih =>
    obtain ⟨hpart, hparts⟩ := List.forall_mem_cons.mp hp
    obtain ⟨operator, us, rfl, hk, hu⟩ := spells_tail_iff.mp hpart
    obtain ⟨right, hright⟩ := (hf us).mpr hu
    obtain ⟨whole, hwhole⟩ := ih hparts (.join hnode ((hj _).mpr hk) hright)
    exact ⟨whole, by simpa using hwhole⟩

theorem chain_describes (hf : Describes f n operand)
    (hj : ∀ k, joins k = true ↔ k ∈ operators) :
    Describes (.inOrder [f, .many (.inOrder [.oneOf (operators.map .kind), f])]) n
      (ReadsChain kind joins operand) := by
  intro ts
  simp only [spells_inOrder_cons, spells_inOrder_singleton]
  constructor
  · rintro ⟨node, hnode⟩
    induction hnode with
    | @single ts node hnode =>
      exact ⟨ts, [], by simp, (hf ts).mp ⟨node, hnode⟩, .done⟩
    | @join ts us operator left right _ hk hright ih =>
      obtain ⟨as, bs, rfl, ha, hb⟩ := ih
      obtain ⟨parts, rfl, hp⟩ := spells_many_iff.mp hb
      have htail : Spells (.inOrder [.oneOf (operators.map .kind), f]) n (operator :: us) :=
        spells_tail_iff.mpr ⟨operator, us, rfl, (hj _).mp hk, (hf us).mp ⟨right, hright⟩⟩
      refine ⟨as, (parts ++ [operator :: us]).flatten, by simp, ha, spells_many_iff.mpr
        ⟨_, rfl, fun part hm => ?_⟩⟩
      rcases List.mem_append.mp hm with hm | hm
      · exact hp part hm
      · rwa [List.mem_singleton.mp hm]
  · rintro ⟨as, bs, rfl, ha, hb⟩
    obtain ⟨node, hnode⟩ := (hf as).mpr ha
    obtain ⟨parts, rfl, hp⟩ := spells_many_iff.mp hb
    exact exists_readsChain_of_parts hf hj parts hp (.single hnode)

end Chain

theorem isMultiplicative_iff (k : TokenKind) :
    k.isMultiplicative = true ↔ k ∈ [.multiply, .divide] := by
  cases k <;> simp [TokenKind.isMultiplicative]

theorem isAdditive_iff (k : TokenKind) : k.isAdditive = true ↔ k ∈ [.plus, .minus] := by
  cases k <;> simp [TokenKind.isAdditive]

theorem isRelational_iff (k : TokenKind) :
    k.isRelational = true ↔
      k ∈ [.equal, .notEqual, .less, .greater, .lessEqual, .greaterEqual] := by
  cases k <;> simp [TokenKind.isRelational]

/-- How expressions in parentheses are read with one level less, and what they are derived from. -/
inductive InnerDescribes : Nat → Option Reading → Prop where
  | none : InnerDescribes 0 none
  | some {n : Nat} {expression : Reading} :
      Describes (.rule .expression) n expression → InnerDescribes (n + 1) (some expression)

theorem factor_describes {n : Nat} {inner : Option Reading} (h : InnerDescribes n inner) :
    Describes (.rule .factor) n (ReadsFactor inner) := by
  intro ts
  rw [spells_rule_iff]
  simp only [Nonterminal.form, spells_oneOf_iff, List.mem_cons, List.not_mem_nil, or_false,
    exists_eq_or_imp, exists_eq_left, spells_kind_iff, spells_nested_iff, spells_inOrder_kind,
    spells_inOrder_last]
  constructor
  · rintro ⟨node, hnode⟩
    cases hnode with
    | @number t hk => exact .inl ⟨t, rfl, hk⟩
    | @identifier t hk => exact .inr (.inl ⟨t, rfl, hk⟩)
    | @parens expression opening closing us _ hinner hopening hclosing hnode =>
      obtain _ | ⟨hd⟩ := h <;> cases hinner
      exact .inr (.inr ⟨_, rfl, opening, _, rfl, hopening, us, closing, rfl, hclosing,
        (hd us).mp ⟨_, hnode⟩⟩)
  · rintro (⟨t, rfl, hk⟩ | ⟨t, rfl, hk⟩ |
      ⟨m, rfl, opening, _, rfl, hopening, us, closing, rfl, hclosing, hu⟩)
    · exact ⟨_, .number hk⟩
    · exact ⟨_, .identifier hk⟩
    · obtain _ | ⟨hd⟩ := h
      obtain ⟨node, hnode⟩ := (hd us).mpr hu
      exact ⟨node, .parens rfl hopening hclosing hnode⟩

theorem sum_describes {n : Nat} {inner : Option Reading} (h : InnerDescribes n inner) :
    Describes (.rule .expression) n (ReadsSum inner) := by
  have hterm : Describes (.rule .term) n (ReadsTerm inner) := by
    intro ts
    rw [spells_rule_iff]
    exact chain_describes (factor_describes h) isMultiplicative_iff ts
  intro ts
  rw [spells_rule_iff]
  exact chain_describes hterm isAdditive_iff ts

theorem expression_describes (n : Nat) : Describes (.rule .expression) n (ReadsExpression n) := by
  induction n with
  | zero => exact sum_describes .none
  | succ n ih => exact sum_describes (.some ih)

theorem condition_describes {n : Nat} {expression : Reading}
    (h : Describes (.rule .expression) n expression) :
    Describes (.rule .condition) n (ReadsCondition expression) := by
  have hrelation (ts : List Token) :
      Spells (.rule .relation) n ts ↔ ∃ t, ts = [t] ∧ t.kind.isRelational = true := by
    simp only [isRelational_iff]
    exact spells_rule_iff.trans
      (spells_oneOf_kinds [.equal, .notEqual, .less, .greater, .lessEqual, .greaterEqual])
  intro ts
  rw [spells_rule_iff]
  simp only [Nonterminal.form, spells_inOrder_cons, spells_inOrder_singleton, hrelation]
  constructor
  · rintro ⟨_, @⟨us, vs, operator, left, right, hleft, hk, hright⟩⟩
    exact ⟨us, _, rfl, (h us).mp ⟨left, hleft⟩, [operator], vs, rfl, ⟨operator, rfl, hk⟩,
      (h vs).mp ⟨right, hright⟩⟩
  · rintro ⟨us, _, rfl, hu, _, vs, rfl, ⟨operator, rfl, hk⟩, hv⟩
    obtain ⟨left, hleft⟩ := (h us).mpr hu
    obtain ⟨right, hright⟩ := (h vs).mpr hv
    exact ⟨_, .compare hleft hk hright⟩

theorem all_describes {f : Form} {n : Nat} {one : Reading} (h : Describes f n one)
    (ts : List Token) : (∃ nodes, ReadsAll one ts nodes) ↔ Spells (.many f) n ts := by
  rw [spells_many_iff]
  constructor
  · rintro ⟨nodes, hnodes⟩
    induction hnodes with
    | nil => exact ⟨[], rfl, by simp⟩
    | @cons ts us node nodes hnode _ ih =>
      obtain ⟨parts, rfl, hp⟩ := ih
      exact ⟨ts :: parts, rfl, List.forall_mem_cons.mpr ⟨(h ts).mp ⟨node, hnode⟩, hp⟩⟩
  · rintro ⟨parts, rfl, hp⟩
    induction parts with
    | nil => exact ⟨[], .nil⟩
    | cons part parts ih =>
      obtain ⟨hpart, hparts⟩ := List.forall_mem_cons.mp hp
      obtain ⟨node, hnode⟩ := (h part).mpr hpart
      obtain ⟨nodes, hnodes⟩ := ih hparts
      exact ⟨node :: nodes, .cons hnode hnodes⟩

/-- How conditions' expressions and statements in a block are read with one level less, and what
they are derived from. -/
inductive BlockDescribes : Nat → Option (Reading × Reading) → Prop where
  | none : BlockDescribes 0 none
  | some {n : Nat} {expression statement : Reading} :
      Describes (.rule .expression) n expression → Describes (.rule .statement) n statement →
      BlockDescribes (n + 1) (some (expression, statement))

section Statement

variable {n : Nat} {expression : Reading} {inner : Option (Reading × Reading)} {ts : List Token}

theorem spells_declaration_iff :
    Spells (.rule .declaration) n ts ↔ ∃ opening name assign us ending,
      ts = opening :: name :: assign :: (us ++ [ending]) ∧ opening.kind = .keyword .letKw ∧
        name.kind = .identifier ∧ assign.kind = .assign ∧ ending.kind = .semicolon ∧
        Spells (.rule .expression) n us := by
  rw [spells_rule_iff]
  simp only [Nonterminal.form, spells_inOrder_kind, spells_inOrder_last]
  constructor
  · rintro ⟨opening, _, rfl, ho, name, _, rfl, hn, assign, _, rfl, ha, us, ending, rfl, hs, hu⟩
    exact ⟨opening, name, assign, us, ending, rfl, ho, hn, ha, hs, hu⟩
  · rintro ⟨opening, name, assign, us, ending, rfl, ho, hn, ha, hs, hu⟩
    exact ⟨opening, _, rfl, ho, name, _, rfl, hn, assign, _, rfl, ha, us, ending, rfl, hs, hu⟩

theorem spells_assignment_iff :
    Spells (.rule .assignment) n ts ↔ ∃ name assign us ending,
      ts = name :: assign :: (us ++ [ending]) ∧ name.kind = .identifier ∧
        assign.kind = .assign ∧ ending.kind = .semicolon ∧ Spells (.rule .expression) n us := by
  rw [spells_rule_iff]
  simp only [Nonterminal.form, spells_inOrder_kind, spells_inOrder_last]
  constructor
  · rintro ⟨name, _, rfl, hn, assign, _, rfl, ha, us, ending, rfl, hs, hu⟩
    exact ⟨name, assign, us, ending, rfl, hn, ha, hs, hu⟩
  · rintro ⟨name, assign, us, ending, rfl, hn, ha, hs, hu⟩
    exact ⟨name, _, rfl, hn, assign, _, rfl, ha, us, ending, rfl, hs, hu⟩

theorem spells_printing_iff :
    Spells (.rule .printStatement) n ts ↔ ∃ opening leftParen us rightParen ending,
      ts = opening :: leftParen :: (us ++ [rightParen, ending]) ∧
        opening.kind = .keyword .printKw ∧ leftParen.kind = .leftParen ∧
        rightParen.kind = .rightParen ∧ ending.kind = .semicolon ∧
        Spells (.rule .expression) n us := by
  rw [spells_rule_iff]
  simp only [Nonterminal.form, spells_inOrder_kind, spells_inOrder_between,
    spells_inOrder_singleton, spells_kind_iff]
  constructor
  · rintro ⟨opening, _, rfl, ho, left, _, rfl, hl, us, right, _, rfl, hr, hu, ending, rfl, hs⟩
    exact ⟨opening, left, us, right, ending, rfl, ho, hl, hr, hs, hu⟩
  · rintro ⟨opening, left, us, right, ending, rfl, ho, hl, hr, hs, hu⟩
    exact ⟨opening, _, rfl, ho, left, _, rfl, hl, us, right, _, rfl, hr, hu, ending, rfl, hs⟩

theorem spells_block_iff {word : Keyword} :
    Spells (.block word (.rule .condition) (.rule .statement)) n ts ↔
      ∃ m opening leftParen us rightParen leftBrace vs rightBrace, n = m + 1 ∧
        ts = opening :: leftParen :: (us ++ rightParen :: leftBrace :: (vs ++ [rightBrace])) ∧
        opening.kind = .keyword word ∧ leftParen.kind = .leftParen ∧
        rightParen.kind = .rightParen ∧ leftBrace.kind = .leftBrace ∧
        rightBrace.kind = .rightBrace ∧ Spells (.rule .condition) m us ∧
        Spells (.many (.rule .statement)) m vs := by
  simp only [Form.block, spells_nested_iff, spells_inOrder_kind, spells_inOrder_between,
    spells_inOrder_last]
  constructor
  · rintro ⟨m, rfl, opening, _, rfl, ho, left, _, rfl, hl, us, right, _, rfl, hr, hu, brace, _,
      rfl, hb, vs, close, rfl, hc, hv⟩
    exact ⟨m, opening, left, us, right, brace, vs, close, rfl, rfl, ho, hl, hr, hb, hc, hu, hv⟩
  · rintro ⟨m, opening, left, us, right, brace, vs, close, rfl, rfl, ho, hl, hr, hb, hc, hu, hv⟩
    exact ⟨m, rfl, opening, _, rfl, ho, left, _, rfl, hl, us, right, _, rfl, hr, hu, brace, _,
      rfl, hb, vs, close, rfl, hc, hv⟩

theorem spells_statement_iff :
    Spells (.rule .statement) n ts ↔
      Spells (.rule .declaration) n ts ∨ Spells (.rule .printStatement) n ts ∨
        Spells (.rule .assignment) n ts ∨
        ∃ block : Block,
          Spells (.block block.keyword (.rule .condition) (.rule .statement)) n ts := by
  rw [spells_rule_iff]
  simp only [Nonterminal.form, spells_oneOf_iff, List.mem_cons, List.not_mem_nil, or_false,
    exists_eq_or_imp, exists_eq_left]
  constructor
  · rintro (h | h | h | h | h)
    · exact .inl h
    · exact .inr (.inr (.inr ⟨.conditional, spells_rule_iff.mp h⟩))
    · exact .inr (.inr (.inr ⟨.loop, spells_rule_iff.mp h⟩))
    · exact .inr (.inl h)
    · exact .inr (.inr (.inl h))
  · rintro (h | h | h | ⟨_ | _, h⟩)
    · exact .inl h
    · exact .inr (.inr (.inr (.inl h)))
    · exact .inr (.inr (.inr (.inr h)))
    · exact .inr (.inl (spells_rule_iff.mpr h))
    · exact .inr (.inr (.inl (spells_rule_iff.mpr h)))

theorem statement_describes (he : Describes (.rule .expression) n expression)
    (hi : BlockDescribes n inner) :
    Describes (.rule .statement) n (ReadsStatement expression inner) := by
  intro ts
  simp only [spells_statement_iff, spells_declaration_iff, spells_printing_iff,
    spells_assignment_iff, spells_block_iff]
  constructor
  · rintro ⟨node, hnode⟩
    cases hnode with
    | @declaration _ _ _ _ us value ho hn ha hs hvalue =>
      exact .inl ⟨_, _, _, us, _, rfl, ho, hn, ha, hs, (he us).mp ⟨value, hvalue⟩⟩
    | @assignment _ _ _ us value hn ha hs hvalue =>
      exact .inr (.inr (.inl ⟨_, _, us, _, rfl, hn, ha, hs, (he us).mp ⟨value, hvalue⟩⟩))
    | @printing _ _ _ _ us value ho hl hr hs hvalue =>
      exact .inr (.inl ⟨_, _, us, _, _, rfl, ho, hl, hr, hs, (he us).mp ⟨value, hvalue⟩⟩)
    | @block _ _ block _ _ _ _ _ us vs test body hinner ho hl hr hb hc htest hbody =>
      obtain _ | ⟨he', hs'⟩ := hi <;> cases hinner
      exact .inr (.inr (.inr ⟨block, _, _, _, us, _, _, vs, _, rfl, rfl, ho, hl, hr, hb, hc,
        (condition_describes he' us).mp ⟨test, htest⟩, (all_describes hs' vs).mp ⟨body, hbody⟩⟩))
  · rintro (⟨_, _, _, us, _, rfl, ho, hn, ha, hs, hu⟩ | ⟨_, _, us, _, _, rfl, ho, hl, hr, hs, hu⟩ |
      ⟨_, _, us, _, rfl, hn, ha, hs, hu⟩ |
      ⟨block, _, _, _, us, _, _, vs, _, rfl, rfl, ho, hl, hr, hb, hc, hu, hv⟩)
    · obtain ⟨value, hvalue⟩ := (he us).mpr hu
      exact ⟨_, .declaration ho hn ha hs hvalue⟩
    · obtain ⟨value, hvalue⟩ := (he us).mpr hu
      exact ⟨_, .printing ho hl hr hs hvalue⟩
    · obtain ⟨value, hvalue⟩ := (he us).mpr hu
      exact ⟨_, .assignment hn ha hs hvalue⟩
    · obtain _ | ⟨he', hs'⟩ := hi
      obtain ⟨test, htest⟩ := (condition_describes he' us).mpr hu
      obtain ⟨body, hbody⟩ := (all_describes hs' vs).mpr hv
      exact ⟨_, .block block rfl ho hl hr hb hc htest hbody⟩

end Statement

theorem statementAt_describes (n : Nat) : Describes (.rule .statement) n (ReadsStatementAt n) := by
  induction n with
  | zero => exact statement_describes (expression_describes 0) .none
  | succ n ih =>
    exact statement_describes (expression_describes (n + 1)) (.some (expression_describes n) ih)

/-- A parse has no findings exactly on the programs of the language, with blocks and parentheses
nested as deep as is allowed and no deeper. -/
theorem parse_accepts_iff_derives (mode : PositionMode) (ts : List Token) :
    (∃ parsed, parse ts = .ok parsed ∧ parsed.diagnostics mode = []) ↔
      Derives (.rule .program) Limits.nesting (ts.map Token.kind) := by
  have hprogram : Derives (.rule .program) Limits.nesting (ts.map Token.kind) ↔
      ∃ nodes, ReadsAll (ReadsStatementAt Limits.nesting) ts nodes :=
    derives_rule_iff.trans (all_describes (statementAt_describes Limits.nesting) ts).symm
  rw [hprogram]
  constructor
  · rintro ⟨⟨tree, findings⟩, hparse, hnone⟩
    obtain rfl : findings = [] := List.map_eq_nil_iff.mp hnone
    obtain ⟨nodes, _, hnodes⟩ := parse_quiet_iff.mp hparse
    exact ⟨nodes, hnodes⟩
  · rintro ⟨nodes, hnodes⟩
    exact ⟨⟨.root nodes, []⟩, parse_quiet_iff.mpr ⟨nodes, rfl, hnodes⟩, rfl⟩

end YupFront
