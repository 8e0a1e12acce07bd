import YupFront.Token.Kind

/-! The language as its grammar defines it: a table of forms, and the sequences of token kinds that
can be derived from them. A derivation has so many levels, and a form that is nested takes one from
its first token to its last. -/

namespace YupFront

inductive Nonterminal where
  | program
  | statement
  | declaration
  | assignment
  | ifStatement
  | whileStatement
  | printStatement
  | condition
  | relation
  | expression
  | term
  | factor
deriving DecidableEq, Repr

/-- The right-hand side of a rule. -/
inductive Form where
  | kind (k : TokenKind)
  | rule (name : Nonterminal)
  | empty
  | seq (first second : Form)
  | never
  | either (left right : Form)
  | many (f : Form)
  /-- Open from its first token to its last. -/
  | nested (f : Form)
deriving DecidableEq, Repr

namespace Form

def inOrder : List Form → Form
  | [] => empty
  | [f] => f
  | f :: fs => seq f (inOrder fs)

def oneOf (fs : List Form) : Form := fs.foldr either never

def block (word : Keyword) (condition statement : Form) : Form :=
  nested (inOrder [kind (.keyword word), kind .leftParen, condition, kind .rightParen,
    kind .leftBrace, many statement, kind .rightBrace])

end Form

open Form in
/-- The documented grammar. Blocks and factors in parentheses are what nests. -/
def Nonterminal.form : Nonterminal → Form
  | program => many (rule statement)
  | statement =>
    oneOf [rule declaration, rule ifStatement, rule whileStatement, rule printStatement,
      rule assignment]
  | declaration =>
    inOrder [kind (.keyword .letKw), kind .identifier, kind .assign, rule expression,
      kind .semicolon]
  | assignment => inOrder [kind .identifier, kind .assign, rule expression, kind .semicolon]
  | ifStatement => block .ifKw (rule condition) (rule statement)
  | whileStatement => block .whileKw (rule condition) (rule statement)
  | printStatement =>
    inOrder [kind (.keyword .printKw), kind .leftParen, rule expression, kind .rightParen,
      kind .semicolon]
  | condition => inOrder [rule expression, rule relation, rule expression]
  | relation =>
    oneOf [kind .equal, kind .notEqual, kind .less, kind .greater, kind .lessEqual,
      kind .greaterEqual]
  | expression =>
    inOrder [rule term, many (inOrder [oneOf [kind .plus, kind .minus], rule term])]
  | term =>
    inOrder [rule factor, many (inOrder [oneOf [kind .multiply, kind .divide], rule factor])]
  | factor =>
    oneOf [kind .number, kind .identifier,
      nested (inOrder [kind .leftParen, rule expression, kind .rightParen])]

/-- `Derives f n ks`: the kinds `ks` can be derived from `f` with at most `n` nested forms open at
the same time. -/
inductive Derives : Form → Nat → List TokenKind → Prop where
  | kind {k : TokenKind} {n : Nat} : Derives (.kind k) n [k]
  | rule {x : Nonterminal} {n : Nat} {ks : List TokenKind} :
      Derives x.form n ks → Derives (.rule x) n ks
  | empty {n : Nat} : Derives .empty n []
  | seq {f g : Form} {n : Nat} {ks js : List TokenKind} :
      Derives f n ks → Derives g n js → Derives (.seq f g) n (ks ++ js)
  | left {f g : Form} {n : Nat} {ks : List TokenKind} : Derives f n ks → Derives (.either f g) n ks
  | right {f g : Form} {n : Nat} {ks : List TokenKind} : Derives g n ks → Derives (.either f g) n ks
  | done {f : Form} {n : Nat} : Derives (.many f) n []
  | more {f : Form} {n : Nat} {ks js : List TokenKind} :
      Derives f n ks → Derives (.many f) n js → Derives (.many f) n (ks ++ js)
  | nested {f : Form} {n : Nat} {ks : List TokenKind} :
      Derives f n ks → Derives (.nested f) (n + 1) ks

section Derives

variable {f g : Form} {n : Nat} {ks : List TokenKind}

@[simp] theorem derives_kind_iff {k : TokenKind} : Derives (.kind k) n ks ↔ ks = [k] := by
  constructor
  · rintro ⟨⟩
    rfl
  · rintro rfl
    exact .kind

theorem derives_rule_iff {x : Nonterminal} : Derives (.rule x) n ks ↔ Derives x.form n ks := by
  constructor
  · rintro ⟨⟩
    assumption
  · exact .rule

@[simp] theorem derives_seq_iff :
    Derives (.seq f g) n ks ↔ ∃ as bs, ks = as ++ bs ∧ Derives f n as ∧ Derives g n bs := by
  constructor
  · rintro ⟨⟩
    exact ⟨_, _, rfl, by assumption, by assumption⟩
  · rintro ⟨as, bs, rfl, ha, hb⟩
    exact .seq ha hb

@[simp] theorem derives_nested_iff :
    Derives (.nested f) n ks ↔ ∃ m, n = m + 1 ∧ Derives f m ks := by
  constructor
  · rintro ⟨⟩
    exact ⟨_, rfl, by assumption⟩
  · rintro ⟨m, rfl, h⟩
    exact .nested h

@[simp] theorem derives_inOrder_cons {fs : List Form} :
    Derives (.inOrder (f :: g :: fs)) n ks ↔
      ∃ as bs, ks = as ++ bs ∧ Derives f n as ∧ Derives (.inOrder (g :: fs)) n bs :=
  derives_seq_iff

@[simp] theorem derives_oneOf_iff {fs : List Form} :
    Derives (.oneOf fs) n ks ↔ ∃ f ∈ fs, Derives f n ks := by
  induction fs with
  | nil =>
    constructor
    · rintro ⟨⟩
    · rintro ⟨f, hf, _⟩
      cases hf
  | cons f fs ih =>
    simp only [List.mem_cons, exists_eq_or_imp, ← ih]
    constructor
    · rintro ⟨⟩
      · exact .inl (by assumption)
      · exact .inr (by assumption)
    · rintro (h | h)
      · exact .left h
      · exact .right h

theorem derives_many_iff :
    Derives (.many f) n ks ↔ ∃ parts : List (List TokenKind),
      ks = parts.flatten ∧ ∀ part ∈ parts, Derives f n part := by
  constructor
  · intro h
    generalize hg : Form.many f = g at h
    induction h with
    | done => exact ⟨[], rfl, by simp⟩
    | @more _ _ as _ ha _ _ ih =>
      cases hg
      obtain ⟨parts, rfl, hp⟩ := ih rfl
      exact ⟨as :: parts, rfl, List.forall_mem_cons.mpr ⟨ha, hp⟩⟩
    | _ => cases hg
  · rintro ⟨parts, rfl, hp⟩
    induction parts with
    | nil => exact .done
    | cons part parts ih =>
      obtain ⟨h, hp⟩ := List.forall_mem_cons.mp hp
      exact .more h (ih hp)

end Derives

end YupFront
