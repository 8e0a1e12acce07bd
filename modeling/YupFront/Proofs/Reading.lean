import YupFront.Parser.Grammar

/-! What the tokens of a correct program are read as. A reading relates a stretch of tokens to the
node it stands for. Readings say nothing of cursors, findings or recovery. -/

namespace YupFront

abbrev Reading := List Token → Node → Prop

/-- Readings of a factor; `inner` is how expressions in parentheses are read, if a level is left. -/
inductive ReadsFactor (inner : Option Reading) : Reading where
  | number {t : Token} : t.kind = .number → ReadsFactor inner [t] (.leaf .number t)
  | identifier {t : Token} : t.kind = .identifier → ReadsFactor inner [t] (.leaf .identifier t)
  | parens {expression : Reading} {opening closing : Token} {ts : List Token} {node : Node} :
      inner = some expression → opening.kind = .leftParen → closing.kind = .rightParen →
      expression ts node → ReadsFactor inner (opening :: (ts ++ [closing])) node

theorem ReadsFactor.exists_cons {inner : Option Reading} {ts : List Token} {node : Node}
    (h : ReadsFactor inner ts node) : ∃ t us, ts = t :: us := by
  cases h <;> exact ⟨_, _, rfl⟩

/-- Readings of operands with operators between them. The node of an operator holds all that is to
its left. -/
inductive ReadsChain (kind : NodeKind) (joins : TokenKind → Bool) (operand : Reading) :
    Reading where
  | single {ts : List Token} {node : Node} :
      operand ts node → ReadsChain kind joins operand ts node
  | join {ts us : List Token} {operator : Token} {left right : Node} :
      ReadsChain kind joins operand ts left → joins operator.kind = true → operand us right →
      ReadsChain kind joins operand (ts ++ operator :: us)
        (.binary kind (some left) operator (some right))

def ReadsTerm (inner : Option Reading) : Reading :=
  ReadsChain .term TokenKind.isMultiplicative (ReadsFactor inner)

def ReadsSum (inner : Option Reading) : Reading :=
  ReadsChain .expression TokenKind.isAdditive (ReadsTerm inner)

/-- Readings with at most so many levels of parentheses. -/
def ReadsExpression : Nat → Reading
  | 0 => ReadsSum none
  | level + 1 => ReadsSum (some (ReadsExpression level))

/-- How expressions in parentheses are read when so many levels are left. -/
def innerReading : Nat → Option Reading
  | 0 => none
  | level + 1 => some (ReadsExpression level)

theorem readsExpression_eq (level : Nat) :
    ReadsExpression level = ReadsSum (innerReading level) := by
  cases level <;> rfl

inductive ReadsCondition (expression : Reading) : Reading where
  | compare {ts us : List Token} {operator : Token} {left right : Node} :
      expression ts left → operator.kind.isRelational = true → expression us right →
      ReadsCondition expression (ts ++ operator :: us)
        (.interior .condition operator.span
          [some left, some (.leaf .relationalOperator operator), some right])

/-- Readings of one stretch after the other. -/
inductive ReadsAll (one : Reading) : List Token → List Node → Prop where
  | nil : ReadsAll one [] []
  | cons {ts us : List Token} {node : Node} {nodes : List Node} :
      one ts node → ReadsAll one us nodes → ReadsAll one (ts ++ us) (node :: nodes)

/-- Readings of a statement; `inner` is how conditions' expressions and statements inside a block
are read, if a level is left. -/
inductive ReadsStatement (expression : Reading) (inner : Option (Reading × Reading)) :
    Reading where
  | declaration {opening name assign ending : Token} {ts : List Token} {value : Node} :
      opening.kind = .keyword .letKw → name.kind = .identifier → assign.kind = .assign →
      ending.kind = .semicolon → expression ts value →
      ReadsStatement expression inner (opening :: name :: assign :: (ts ++ [ending]))
        (.interior .declaration opening.span [some (.leaf .identifier name), some value])
  | assignment {name assign ending : Token} {ts : List Token} {value : Node} :
      name.kind = .identifier → assign.kind = .assign → ending.kind = .semicolon →
      expression ts value →
      ReadsStatement expression inner (name :: assign :: (ts ++ [ending]))
        (.interior .assignment name.span [some (.leaf .identifier name), some value])
  | printing {opening leftParen rightParen ending : Token} {ts : List Token} {value : Node} :
      opening.kind = .keyword .printKw → leftParen.kind = .leftParen →
      rightParen.kind = .rightParen → ending.kind = .semicolon → expression ts value →
      ReadsStatement expression inner (opening :: leftParen :: (ts ++ [rightParen, ending]))
        (.interior .printStatement opening.span [some value])
  | block {expression' statement : Reading} (block : Block)
      {opening leftParen rightParen leftBrace rightBrace : Token} {ts us : List Token} {test : Node}
      {body : List Node} :
      inner = some (expression', statement) → opening.kind = .keyword block.keyword →
      leftParen.kind = .leftParen → rightParen.kind = .rightParen → leftBrace.kind = .leftBrace →
      rightBrace.kind = .rightBrace → ReadsCondition expression' ts test →
      ReadsAll statement us body →
      ReadsStatement expression inner
        (opening :: leftParen :: (ts ++ rightParen :: leftBrace :: (us ++ [rightBrace])))
        (.interior block.nodeKind opening.span
          [some test, some (.interior .body opening.span (body.map some))])

/-- A statement has a first token, and that does not close a block. -/
theorem ReadsStatement.head {expression : Reading} {inner : Option (Reading × Reading)}
    {ts : List Token} {node : Node} (h : ReadsStatement expression inner ts node) :
    ∃ t us, ts = t :: us ∧ t.kind ≠ .rightBrace := by
  cases h with
  | declaration hk => exact ⟨_, _, rfl, by simp [hk]⟩
  | assignment hk => exact ⟨_, _, rfl, by simp [hk]⟩
  | printing hk => exact ⟨_, _, rfl, by simp [hk]⟩
  | block block _ hk => exact ⟨_, _, rfl, by simp [hk]⟩

/-- Readings with at most so many levels of blocks and parentheses. -/
def ReadsStatementAt : Nat → Reading
  | 0 => ReadsStatement (ReadsExpression 0) none
  | level + 1 =>
    ReadsStatement (ReadsExpression (level + 1))
      (some (ReadsExpression level, ReadsStatementAt level))

/-- What the parts of a block are read as when so many levels are left. -/
def blockReadings : Nat → Option (Reading × Reading)
  | 0 => none
  | level + 1 => some (ReadsExpression level, ReadsStatementAt level)

theorem readsStatementAt_eq (level : Nat) :
    ReadsStatementAt level = ReadsStatement (ReadsExpression level) (blockReadings level) := by
  cases level <;> rfl

theorem readsStatementAt_ne_nil (level : Nat) (ts : List Token) (node : Node)
    (h : ReadsStatementAt level ts node) : ts ≠ [] := by
  rw [readsStatementAt_eq] at h
  obtain ⟨t, us, rfl, _⟩ := h.head
  simp

end YupFront
