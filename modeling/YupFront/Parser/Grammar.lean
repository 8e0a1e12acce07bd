import YupFront.Parser.Rule

/-! The rules of the language.

    program     := statement*
    statement   := declaration | if | while | print | assignment
    declaration := LET IDENTIFIER "=" expression ";"
    assignment  := IDENTIFIER "=" expression ";"
    if | while  := (IF | WHILE) "(" condition ")" "{" statement* "}"
    print       := PRINT "(" expression ")" ";"
    condition   := expression relation expression
    expression  := term (("+" | "-") term)*
    term        := factor (("*" | "/") factor)*
    factor      := NUMBER | IDENTIFIER | "(" expression ")"

Where a rule fails it reports one problem and has no node; its caller goes on without. Blocks and
parentheses are nested by recursion on the number of levels that are left. -/

namespace YupFront

open Rule

/-- An operator with what was found on its two sides. -/
def Node.binary (kind : NodeKind) (left : Option Node) (operator : Token) (right : Option Node) :
    Node :=
  .interior kind operator.span [left, some (.leaf .operator operator), right]

/-- The operators that follow `left`, each with an operand, joined from the left. -/
def chainFrom (kind : NodeKind) (joins : TokenKind → Bool) (operand : Rule (Option Node))
    (left : Option Node) (s : ParseState) : Option Node × ParseState :=
  match h : s.cursor.accept joins with
  | (none, _) => (left, s)
  | (some operator, cursor) =>
    have : cursor.rest.length < s.cursor.rest.length := Cursor.rest_length_accept_lt h
    let right := operand.run { s with cursor }
    chainFrom kind joins operand (some (.binary kind left operator.token right.1)) right.2
termination_by s.cursor.rest.length
decreasing_by
  have hr := (operand.reaches { s with cursor }).rest_length_le
  simp only at hr
  omega

def chainActs (joins : TokenKind → Bool) (operand : Rule (Option Node)) (s : ParseState) :
    List Act :=
  match h : s.cursor.accept joins with
  | (none, _) => []
  | (some _, cursor) =>
    have : cursor.rest.length < s.cursor.rest.length := Cursor.rest_length_accept_lt h
    .advance :: operand.acts { s with cursor } ++
      chainActs joins operand (operand.run { s with cursor }).2
termination_by s.cursor.rest.length
decreasing_by
  have hr := (operand.reaches { s with cursor }).rest_length_le
  simp only at hr
  omega

theorem performAll_chainActs (kind : NodeKind) (joins : TokenKind → Bool)
    (operand : Rule (Option Node)) (left : Option Node) (s : ParseState) :
    Act.performAll (chainActs joins operand s) s = (chainFrom kind joins operand left s).2 := by
  fun_induction chainFrom kind joins operand left s with
  | case1 left s _ h =>
    rw [chainActs]
    split
    · rfl
    · next ha => simp [h] at ha
  | case2 left s operator cursor h _ right ih =>
    have hadvance : Act.perform .advance s = { s with cursor } := by
      rw [Cursor.accept_some h]
      rfl
    rw [chainActs]
    split
    · next ha => simp [h] at ha
    · next ha =>
      obtain ⟨-, rfl⟩ := Prod.mk.inj (h.symm.trans ha)
      rw [List.cons_append, Act.performAll, hadvance, Act.performAll_append, operand.performs]
      exact ih

def chainOnto (kind : NodeKind) (joins : TokenKind → Bool) (operand : Rule (Option Node))
    (left : Option Node) : Rule (Option Node) :=
  ⟨chainFrom kind joins operand left, chainActs joins operand,
    performAll_chainActs kind joins operand left⟩

/-- Operands with operators between them. -/
def chained (kind : NodeKind) (joins : TokenKind → Bool) (operand : Rule (Option Node)) :
    Rule (Option Node) := do
  let left ← operand
  chainOnto kind joins operand left

/-- What is in parentheses, one level further in, and the token that closes them. -/
def parenthesised (expression : Rule (Option Node)) : Rule (Option Node × Option Anchor) :=
  deeper do
    skip
    let node ← expression
    let closing ← take .rightParen
    return (node, closing)

/-- The factor that begins at a token: a name, a number, or an expression in parentheses, for which
a level must be left. -/
def factorFrom (inner : Option (Rule (Option Node))) (a : Anchor) : Rule (Option Node) := do
  match a.token.kind with
  | .number => skip; return some (.leaf .number a.token)
  | .identifier => skip; return some (.leaf .identifier a.token)
  | .leftParen =>
    match inner with
    | none => refuse a; return none
    | some expression =>
      let (node, closing) ← parenthesised expression
      match closing with
      | some _ => return node
      | none => report .parenUnclosed (← previousOr a); return none
  | _ => report .strayOperand a; skip; return none

def factor (inner : Option (Rule (Option Node))) : Rule (Option Node) := do
  match ← peek with
  | none => reportPrevious .operandMissing; return none
  | some a => factorFrom inner a

def sum (inner : Option (Rule (Option Node))) : Rule (Option Node) :=
  chained .expression TokenKind.isAdditive (chained .term TokenKind.isMultiplicative (factor inner))

def expressionAt : Nat → Rule (Option Node)
  | 0 => sum none
  | level + 1 => sum (some (expressionAt level))

/-- Passes a token of the given kind; if it is missing, reports a problem at a token. -/
def require (kind : TokenKind) (problem : Problem) (anchor : Rule Anchor) : Rule Bool := do
  match ← take kind with
  | some _ => return true
  | none => report problem (← anchor); return false

def condition (expression : Rule (Option Node)) : Rule (Option Node) :=
  within .condition do
    let left ← expression
    match ← accept TokenKind.isRelational with
    | none => reportPrevious .conditionWithoutRelation; return none
    | some operator =>
      let right ← expression
      return some (.interior .condition operator.token.span
        [left, some (.leaf .relationalOperator operator.token), right])

def declaration (expression : Rule (Option Node)) (opening : Anchor) : Rule (Option Node) :=
  within .declaration do
    skip
    match ← take .identifier with
    | none => report .declarationWithoutName opening; return none
    | some name =>
      if ← require .assign .declarationWithoutAssign (pure name) then
        let value ← expression
        if ← require .semicolon .declarationUnended (previousOr opening) then
          return some (.interior .declaration opening.token.span
            [some (.leaf .identifier name.token), value])
      return none

def assignment (expression : Rule (Option Node)) (name : Anchor) : Rule (Option Node) :=
  within .assignment do
    skip
    if ← require .assign .assignmentWithoutAssign (pure name) then
      let value ← expression
      if ← require .semicolon .assignmentUnended (previousOr name) then
        return some (.interior .assignment name.token.span
          [some (.leaf .identifier name.token), value])
    return none

def printing (expression : Rule (Option Node)) (opening : Anchor) : Rule (Option Node) :=
  within .printStatement do
    skip
    if ← require .leftParen .printWithoutParen (pure opening) then
      let value ← expression
      if ← require .rightParen .printUnclosed (previousOr opening) then
        if ← require .semicolon .printUnended (previousOr opening) then
          return some (.interior .printStatement opening.token.span [value])
    return none

/-- A statement that passed no token. -/
structure Stall where
  position : Nat
  rules : RuleStack
deriving DecidableEq, Repr

def Stall.message (s : Stall) : String :=
  "statement at token " ++ s.position.repr ++ " consumed no input (context: " ++
    s.rules.render ++ ")"

/-- Statements up to a token that closes them or to the end, behind those already found. -/
def gatherFrom (one : Rule (Except Stall (Option Node))) (closes : TokenKind → Bool)
    (done : List Node) (s : ParseState) : Except Stall (List Node) × ParseState :=
  match s.cursor.current? with
  | none => (.ok done.reverse, s)
  | some a =>
    if closes a.token.kind then (.ok done.reverse, s)
    else
      match h : one.run s with
      | (.error stall, s') => (.error stall, s')
      | (.ok node, s') =>
        have : s.cursor.Reaches s'.cursor := by simpa [h] using one.reaches s
        if s'.cursor.position ≤ s.cursor.position then
          (.error ⟨s.cursor.position, s'.rules⟩, s')
        else gatherFrom one closes (node.toList ++ done) s'
termination_by s.cursor.rest.length
decreasing_by
  exact this.rest_length_lt (by omega)

def gatherActs (one : Rule (Except Stall (Option Node))) (closes : TokenKind → Bool)
    (s : ParseState) : List Act :=
  match s.cursor.current? with
  | none => []
  | some a =>
    if closes a.token.kind then []
    else
      one.acts s ++
        match h : one.run s with
        | (.error _, _) => []
        | (.ok _, s') =>
          have : s.cursor.Reaches s'.cursor := by simpa [h] using one.reaches s
          if s'.cursor.position ≤ s.cursor.position then [] else gatherActs one closes s'
termination_by s.cursor.rest.length
decreasing_by
  exact this.rest_length_lt (by omega)

theorem performAll_gatherActs (one : Rule (Except Stall (Option Node))) (closes : TokenKind → Bool)
    (done : List Node) (s : ParseState) :
    Act.performAll (gatherActs one closes s) s = (gatherFrom one closes done s).2 := by
  fun_induction gatherFrom one closes done s with
  | case1 done s hc =>
    rw [gatherActs, hc]
    rfl
  | case2 done s a hc hk =>
    rw [gatherActs, hc]
    simp only [if_pos hk, Act.performAll]
  | case3 done s a hc hk stall s' h =>
    have hone : Act.performAll (one.acts s) s = s' := by rw [one.performs, h]
    rw [gatherActs, hc]
    simp only [if_neg hk, Act.performAll_append, hone]
    split
    · rfl
    · next ha => simp [h] at ha
  | case4 done s a hc hk node s' h _ hp =>
    have hone : Act.performAll (one.acts s) s = s' := by rw [one.performs, h]
    rw [gatherActs, hc]
    simp only [if_neg hk, Act.performAll_append, hone]
    split
    · rfl
    · next ha =>
      obtain ⟨-, rfl⟩ := Prod.mk.inj (h.symm.trans ha)
      rw [if_pos hp, Act.performAll]
  | case5 done s a hc hk node s' h _ hp ih =>
    have hone : Act.performAll (one.acts s) s = s' := by rw [one.performs, h]
    rw [gatherActs, hc]
    simp only [if_neg hk, Act.performAll_append, hone]
    split
    · next ha => simp [h] at ha
    · next ha =>
      obtain ⟨-, rfl⟩ := Prod.mk.inj (h.symm.trans ha)
      rw [if_neg hp]
      exact ih

def gatherOnto (one : Rule (Except Stall (Option Node))) (closes : TokenKind → Bool)
    (done : List Node) : Rule (Except Stall (List Node)) :=
  ⟨gatherFrom one closes done, gatherActs one closes, performAll_gatherActs one closes done⟩

def gather (one : Rule (Except Stall (Option Node))) (closes : TokenKind → Bool) :
    Rule (Except Stall (List Node)) :=
  gatherOnto one closes []

/-- The statement behind `IF` or `WHILE`, with its parts one level further in. -/
def blockStatement (block : Block) (expression : Rule (Option Node))
    (statement : Rule (Except Stall (Option Node))) (opening : Anchor) :
    Rule (Except Stall (Option Node)) :=
  deeper <| within block.nodeKind do
    skip
    if ← require .leftParen (.blockWithoutParen block) (pure opening) then
      let test ← condition expression
      if ← require .rightParen .conditionUnclosed (previousOr opening) then
        if ← require .leftBrace (.blockWithoutBrace block) (previousOr opening) then
          match ← gather statement (· == .rightBrace) with
          | .error stall => return .error stall
          | .ok body =>
            if ← require .rightBrace (.blockUnclosed block) (pure opening) then
              let body := Node.interior .body opening.token.span (body.map some)
              return .ok (some (.interior block.nodeKind opening.token.span [test, some body]))
    return .ok none

/-- The rules for what lies inside a block; there are none when no level is left. -/
abbrev BlockParts := Option (Rule (Option Node) × Rule (Except Stall (Option Node)))

/-- The statement behind `IF` or `WHILE`, if a level is left for it. -/
def nestedStatement (inner : BlockParts) (block : Block) (opening : Anchor) :
    Rule (Except Stall (Option Node)) :=
  match inner with
  | some parts => blockStatement block parts.1 parts.2 opening
  | none => do refuse opening; return .ok none

/-- The statement that begins at a token, with expressions on its level. -/
def statementFrom (expression : Rule (Option Node)) (inner : BlockParts) (a : Anchor) :
    Rule (Except Stall (Option Node)) :=
  match a.token.kind with
  | .keyword .letKw => .ok <$> declaration expression a
  | .keyword .ifKw => nestedStatement inner .conditional a
  | .keyword .whileKw => nestedStatement inner .loop a
  | .keyword .printKw => .ok <$> printing expression a
  | .identifier => .ok <$> assignment expression a
  | _ => do report .strayToken a; skip; return .ok none

def statement (expression : Rule (Option Node)) (inner : BlockParts) :
    Rule (Except Stall (Option Node)) := do
  match ← peek with
  | none => return .ok none
  | some a => statementFrom expression inner a

/-- A statement with at most so many levels of blocks and parentheses. -/
def statementAt : Nat → Rule (Except Stall (Option Node))
  | 0 => statement (expressionAt 0) none
  | level + 1 => statement (expressionAt (level + 1)) (some (expressionAt level, statementAt level))

/-- The rule is closed also behind a statement that stalled, where it might as well stay open: no
statement stalls. -/
def program : Rule (Except Stall Node) :=
  within .program do
    match ← gather (statementAt Limits.nesting) (fun _ => false) with
    | .ok statements => return .ok (.root statements)
    | .error stall => return .error stall

end YupFront
