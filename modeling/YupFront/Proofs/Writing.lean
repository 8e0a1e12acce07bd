import YupFront.Parser.Finding
import YupFront.Tree.Basic

/-! Programs apart from any text, and how they are written. A writing puts an operand in parentheses
where its place asks for them, and may put any other in parentheses as well. -/

namespace YupFront

inductive Expr where
  | name (text : String)
  | number (text : String)
  | sum (left : Expr) (operator : String) (right : Expr)
  | product (left : Expr) (operator : String) (right : Expr)
deriving DecidableEq, Repr

structure Comparison where
  left : Expr
  relation : String
  right : Expr
deriving DecidableEq, Repr

inductive Stmt where
  | declaration (name : String) (value : Expr)
  | assignment (name : String) (value : Expr)
  | printing (value : Expr)
  | block (block : Block) (test : Comparison) (body : List Stmt)
deriving Repr

/-- What is left of a tree without its places. -/
structure Shape where
  kind : NodeKind
  value : Option String
  children : List Shape
deriving Repr

namespace Node

mutual

def shape : Node → Shape
  | ⟨kind, value, children, _, _, _⟩ => ⟨kind, value, shapes children⟩
termination_by structural n => n

def shapes : List Node → List Shape
  | [] => []
  | n :: ns => shape n :: shapes ns
termination_by structural ns => ns

end

theorem shapes_eq_map (ns : List Node) : shapes ns = ns.map shape := by
  induction ns with
  | nil => rfl
  | cons n ns ih => rw [shapes, ih, List.map_cons]

@[simp] theorem shape_leaf (kind : NodeKind) (t : Token) :
    (leaf kind t).shape = ⟨kind, some t.text, []⟩ := rfl

@[simp] theorem shape_interior (kind : NodeKind) (span : Span) (children : List (Option Node)) :
    (interior kind span children).shape = ⟨kind, none, (children.filterMap id).map shape⟩ := by
  rw [interior, shape, shapes_eq_map]

@[simp] theorem shape_root (statements : List Node) :
    (root statements).shape = ⟨.program, none, statements.map shape⟩ := by
  rw [root, shape, shapes_eq_map]

end Node

/-! The tree that a program stands for. -/

def Expr.shape : Expr → Shape
  | name text => ⟨.identifier, some text, []⟩
  | number text => ⟨.number, some text, []⟩
  | sum left operator right =>
    ⟨.expression, none, [left.shape, ⟨.operator, some operator, []⟩, right.shape]⟩
  | product left operator right =>
    ⟨.term, none, [left.shape, ⟨.operator, some operator, []⟩, right.shape]⟩

def Comparison.shape (c : Comparison) : Shape :=
  ⟨.condition, none, [c.left.shape, ⟨.relationalOperator, some c.relation, []⟩, c.right.shape]⟩

namespace Stmt

mutual

def shape : Stmt → Shape
  | declaration name value =>
    ⟨.declaration, none, [⟨.identifier, some name, []⟩, value.shape]⟩
  | assignment name value => ⟨.assignment, none, [⟨.identifier, some name, []⟩, value.shape]⟩
  | printing value => ⟨.printStatement, none, [value.shape]⟩
  | block kind test body => ⟨kind.nodeKind, none, [test.shape, ⟨.body, none, shapes body⟩]⟩
termination_by structural s => s

def shapes : List Stmt → List Shape
  | [] => []
  | s :: rest => shape s :: shapes rest
termination_by structural ss => ss

end

def program (statements : List Stmt) : Shape := ⟨.program, none, shapes statements⟩

end Stmt

/-! Writing. -/

inductive Place where
  | whole
  | leftOfSum
  | rightOfSum
  | leftOfProduct
  | rightOfProduct
deriving DecidableEq, Repr

/-- Whether an expression cannot stand in a place as it is. -/
def Expr.needsParens : Expr → Place → Bool
  | sum .., .rightOfSum | sum .., .leftOfProduct | sum .., .rightOfProduct => true
  | product .., .rightOfProduct => true
  | _, _ => false

/-- `e.Written p n ts`: the tokens `ts` write `e` for the place `p`, and at most `n` parentheses are
open at the same time. -/
inductive Expr.Written : Expr → Place → Nat → List Token → Prop where
  | name {t : Token} {p : Place} {n : Nat} :
      t.kind = .identifier → Written (.name t.text) p n [t]
  | number {t : Token} {p : Place} {n : Nat} :
      t.kind = .number → Written (.number t.text) p n [t]
  | sum {left right : Expr} {operator : Token} {p : Place} {n : Nat} {ts us : List Token} :
      (Expr.sum left operator.text right).needsParens p = false →
      operator.kind.isAdditive = true → Written left .leftOfSum n ts →
      Written right .rightOfSum n us →
      Written (.sum left operator.text right) p n (ts ++ operator :: us)
  | product {left right : Expr} {operator : Token} {p : Place} {n : Nat} {ts us : List Token} :
      (Expr.product left operator.text right).needsParens p = false →
      operator.kind.isMultiplicative = true → Written left .leftOfProduct n ts →
      Written right .rightOfProduct n us →
      Written (.product left operator.text right) p n (ts ++ operator :: us)
  | parens {e : Expr} {opening closing : Token} {p : Place} {n : Nat} {ts : List Token} :
      opening.kind = .leftParen → closing.kind = .rightParen → Written e .whole n ts →
      Written e p (n + 1) (opening :: (ts ++ [closing]))

inductive Comparison.Written : Comparison → Nat → List Token → Prop where
  | compare {left right : Expr} {relation : Token} {n : Nat} {ts us : List Token} :
      relation.kind.isRelational = true → left.Written .whole n ts → right.Written .whole n us →
      Written ⟨left, relation.text, right⟩ n (ts ++ relation :: us)

/-- `Stmt.Written ss n ts`: the tokens `ts` write the statements `ss`, and at most `n` blocks and
parentheses are open at the same time. -/
inductive Stmt.Written : List Stmt → Nat → List Token → Prop where
  | nil {n : Nat} : Written [] n []
  | declaration {opening name assign ending : Token} {value : Expr} {rest : List Stmt} {n : Nat}
      {ts us : List Token} :
      opening.kind = .keyword .letKw → name.kind = .identifier → assign.kind = .assign →
      ending.kind = .semicolon → value.Written .whole n ts → Written rest n us →
      Written (.declaration name.text value :: rest) n
        (opening :: name :: assign :: (ts ++ ending :: us))
  | assignment {name assign ending : Token} {value : Expr} {rest : List Stmt} {n : Nat}
      {ts us : List Token} :
      name.kind = .identifier → assign.kind = .assign → ending.kind = .semicolon →
      value.Written .whole n ts → Written rest n us →
      Written (.assignment name.text value :: rest) n (name :: assign :: (ts ++ ending :: us))
  | printing {opening leftParen rightParen ending : Token} {value : Expr} {rest : List Stmt}
      {n : Nat} {ts us : List Token} :
      opening.kind = .keyword .printKw → leftParen.kind = .leftParen →
      rightParen.kind = .rightParen → ending.kind = .semicolon → value.Written .whole n ts →
      Written rest n us →
      Written (.printing value :: rest) n
        (opening :: leftParen :: (ts ++ rightParen :: ending :: us))
  | block {block : Block} {opening leftParen rightParen leftBrace rightBrace : Token}
      {test : Comparison} {body rest : List Stmt} {n : Nat} {ts us vs : List Token} :
      opening.kind = .keyword block.keyword → leftParen.kind = .leftParen →
      rightParen.kind = .rightParen → leftBrace.kind = .leftBrace →
      rightBrace.kind = .rightBrace → test.Written n ts → Written body n us →
      Written rest (n + 1) vs →
      Written (.block block test body :: rest) (n + 1)
        (opening :: leftParen :: (ts ++ rightParen :: leftBrace :: (us ++ rightBrace :: vs)))

/-! Texts that are what they stand for. -/

def Expr.WellFormed : Expr → Prop
  | name text => classify text = .identifier
  | number text => classify text = .number
  | sum left operator right => left.WellFormed ∧ operator ∈ ["+", "-"] ∧ right.WellFormed
  | product left operator right => left.WellFormed ∧ operator ∈ ["*", "/"] ∧ right.WellFormed

def Comparison.WellFormed (c : Comparison) : Prop :=
  c.left.WellFormed ∧ c.relation ∈ ["==", "!=", ">", ">=", "<", "<="] ∧ c.right.WellFormed

namespace Stmt

mutual

def WellFormed : Stmt → Prop
  | declaration name value => classify name = .identifier ∧ value.WellFormed
  | assignment name value => classify name = .identifier ∧ value.WellFormed
  | printing value => value.WellFormed
  | block _ test body => test.WellFormed ∧ AllWellFormed body
termination_by structural s => s

def AllWellFormed : List Stmt → Prop
  | [] => True
  | s :: rest => WellFormed s ∧ AllWellFormed rest
termination_by structural ss => ss

end

end Stmt

/-! The shortest writing. -/

/-- The token with a text, at no place in particular. -/
def Token.spelling (text : String) : Token := ⟨classify text, text, 0, 0, .nowhere⟩

def Token.enclose (parens : Bool) (ts : List Token) : List Token :=
  if parens then spelling "(" :: (ts ++ [spelling ")"]) else ts

namespace Expr

def tokens : Expr → Place → List Token
  | name text, _ => [.spelling text]
  | number text, _ => [.spelling text]
  | sum left operator right, p =>
    Token.enclose ((sum left operator right).needsParens p)
      (left.tokens .leftOfSum ++ .spelling operator :: right.tokens .rightOfSum)
  | product left operator right, p =>
    Token.enclose ((product left operator right).needsParens p)
      (left.tokens .leftOfProduct ++ .spelling operator :: right.tokens .rightOfProduct)

def levels : Expr → Place → Nat
  | name _, _ => 0
  | number _, _ => 0
  | sum left operator right, p =>
    max (left.levels .leftOfSum) (right.levels .rightOfSum) +
      ((sum left operator right).needsParens p).toNat
  | product left operator right, p =>
    max (left.levels .leftOfProduct) (right.levels .rightOfProduct) +
      ((product left operator right).needsParens p).toNat

end Expr

namespace Comparison

def tokens (c : Comparison) : List Token :=
  c.left.tokens .whole ++ .spelling c.relation :: c.right.tokens .whole

def levels (c : Comparison) : Nat := max (c.left.levels .whole) (c.right.levels .whole)

end Comparison

namespace Stmt

mutual

def tokens : Stmt → List Token
  | declaration name value =>
    .spelling "let" :: .spelling name :: .spelling "=" :: (value.tokens .whole ++ [.spelling ";"])
  | assignment name value =>
    .spelling name :: .spelling "=" :: (value.tokens .whole ++ [.spelling ";"])
  | printing value =>
    .spelling "print" :: .spelling "(" :: (value.tokens .whole ++ [.spelling ")", .spelling ";"])
  | block kind test body =>
    .spelling kind.keyword.word :: .spelling "(" ::
      (test.tokens ++ .spelling ")" :: .spelling "\x7b" :: (allTokens body ++ [.spelling "\x7d"]))
termination_by structural s => s

def allTokens : List Stmt → List Token
  | [] => []
  | s :: rest => tokens s ++ allTokens rest
termination_by structural ss => ss

end

mutual

/-- How many blocks and parentheses are open at the same time in the shortest writing. -/
def levels : Stmt → Nat
  | declaration _ value => value.levels .whole
  | assignment _ value => value.levels .whole
  | printing value => value.levels .whole
  | block _ test body => max test.levels (allLevels body) + 1
termination_by structural s => s

def allLevels : List Stmt → Nat
  | [] => 0
  | s :: rest => max (levels s) (allLevels rest)
termination_by structural ss => ss

end

end Stmt

end YupFront
