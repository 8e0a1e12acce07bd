import YupFront.Token.Basic

/-! Syntax trees. All nodes have one shape: a kind, a value on leaves, children in order and the
place of the token that gave rise to the node. -/

namespace YupFront

inductive NodeKind where
  | program
  | declaration
  | assignment
  | ifStatement
  | whileStatement
  | printStatement
  | condition
  | expression
  | term
  | identifier
  | number
  | operator
  | relationalOperator
  | body
deriving DecidableEq, Repr

namespace NodeKind

def all : List NodeKind :=
  [program, declaration, assignment, ifStatement, whileStatement, printStatement, condition,
    expression, term, identifier, number, operator, relationalOperator, body]

def name : NodeKind → String
  | program => "Program"
  | declaration => "Declaration"
  | assignment => "Assignment"
  | ifStatement => "IfStatement"
  | whileStatement => "WhileStatement"
  | printStatement => "PrintStatement"
  | condition => "Condition"
  | expression => "Expression"
  | term => "Term"
  | identifier => "Identifier"
  | number => "Number"
  | operator => "Operator"
  | relationalOperator => "RelationalOperator"
  | body => "Body"

def ofName? (text : String) : Option NodeKind :=
  all.find? fun k => k.name == text

/-- Kinds whose nodes carry a value. -/
def isLeaf : NodeKind → Bool
  | identifier | number | operator | relationalOperator => true
  | _ => false

end NodeKind

structure Node where
  kind : NodeKind
  value : Option String
  children : List Node
  line : Nat
  column : Nat
  span : Option Span
deriving BEq, Repr

namespace Node

/-- A node at the beginning of a span; children that are missing are left out. -/
def interior (kind : NodeKind) (span : Span) (children : List (Option Node)) : Node :=
  ⟨kind, none, children.filterMap id, span.start.line, span.start.column, some span⟩

/-- A leaf with the text and the place of a token. -/
def leaf (kind : NodeKind) (t : Token) : Node :=
  ⟨kind, some t.text, [], t.span.start.line, t.span.start.column, some t.span⟩

/-- The root of a program, which has no place. -/
def root (statements : List Node) : Node :=
  ⟨.program, none, statements, 0, 0, none⟩

def isLeaf (n : Node) : Bool := n.children.isEmpty

mutual

/-- Counts the nodes of a tree on top of `start`. -/
def countFrom (start : Nat) : Node → Nat
  | ⟨_, _, children, _, _, _⟩ => countAllFrom (start + 1) children
termination_by structural n => n

def countAllFrom (start : Nat) : List Node → Nat
  | [] => start
  | n :: ns => countAllFrom (countFrom start n) ns
termination_by structural ns => ns

end

def count (n : Node) : Nat := countFrom 0 n

mutual

/-- Number of nodes on the longest way down. -/
def depth : Node → Nat
  | ⟨_, _, children, _, _, _⟩ => depthAllFrom 0 children + 1
termination_by structural n => n

/-- The greatest depth among some trees and `start`. -/
def depthAllFrom (start : Nat) : List Node → Nat
  | [] => start
  | n :: ns => depthAllFrom (max start (depth n)) ns
termination_by structural ns => ns

end

end Node

end YupFront
