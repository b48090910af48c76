import Resumable.Label.Basic
import Resumable.Source.Span

/-!
# Trees

Expressions, statements and declarations of the language the lowering reads and writes are
one type, `Node`. Two of its shapes only occur in lowered bodies: `instruction`, the tuple
that a body hands to the dispatcher that drives it, and `labelRef`, a label that stands for
the number of a case until the cases are known. A `located` node adds the span it was
lowered from and is otherwise the node inside.

Properties, parameters and clauses are kept apart from `Node` as structures over the type of
their subtrees.
-/

namespace Resumable

/-- The name of a property, a method or an accessor: written bare or as a string literal. -/
inductive PropertyName where
  | bare (name : String)
  | quoted (name : String)
  deriving DecidableEq, Repr, Inhabited

/-- An entry of an object literal. -/
structure Property (α : Type) where
  name : PropertyName
  value : α
  deriving Repr, Inhabited

/-- A parameter of a function. -/
structure Parameter (α : Type) where
  name : String
  rest : Bool := false
  default : Option α := none
  deriving Repr, Inhabited

/-- A clause of a switch; without a test it is the default clause. -/
structure Clause (α : Type) where
  test : Option α
  body : List α
  deriving Repr, Inhabited

inductive Node where
  | number (text : String)
  | string (value : String)
  | boolean (value : Bool)
  | null
  | undefined
  | identifier (name : String)
  | binary (left : Node) (operator : String) (right : Node)
  | unary (operator : String) (operand : Node)
  | call (callee : Node) (arguments : List Node)
  | construct (callee : Node) (arguments : List Node)
  | member (base : Node) (property : String)
  | element (base index : Node)
  | conditional (condition whenTrue whenFalse : Node)
  | parenthesized (inner : Node)
  | array (elements : List Node)
  /-- An element that an array literal leaves out. -/
  | hole
  | object (properties : List (Property Node))
  | functionExpr (name : Option String) (parameters : List (Parameter Node)) (body : List Node)
  | arrow (parameters : List (Parameter Node)) (body : List Node)
  | varDecl (name : String) (initializer : Option Node)
  | varList (declarations : List Node)
  | exprStmt (expression : Node)
  | returnStmt (value : Option Node)
  | ifStmt (condition thenBranch : Node) (elseBranch : Option Node)
  | block (body : List Node)
  | emptyStmt
  | switchStmt (subject : Node) (clauses : List (Clause Node))
  | forStmt (initializer condition increment : Option Node) (body : Node)
  | whileStmt (condition body : Node)
  | withStmt (scope body : Node)
  | throwStmt (value : Node)
  | breakStmt (label : Option String)
  | continueStmt (label : Option String)
  | labeledStmt (label : String) (body : Node)
  | functionDecl (name : String) (parameters : List (Parameter Node)) (body : List Node)
  | method (name : PropertyName) (parameters : List (Parameter Node)) (body : List Node)
  | getter (name : PropertyName) (body : List Node)
  | instruction (tag : Nat) (value : Option Node) (comment : Option String)
  | labelRef (label : Label)
  | located (node : Node) (span : Span)
  deriving Inhabited

namespace Node

/-- `target = value` -/
def assign (target value : Node) : Node := .binary target "=" value

/-- `!(condition)` -/
def not (condition : Node) : Node := .unary "!" (.parenthesized condition)

/-- A conditional statement with one branch. -/
def ifThen (condition thenBranch : Node) : Node := .ifStmt condition thenBranch none

/-- The node with the span it was lowered from, if that is known. -/
def locate (location : Option Span) (node : Node) : Node :=
  match location with
  | some span => .located node span
  | none => node

/-- The node below all `located` wrappers. -/
def unlocated : Node → Node
  | .located node _ => node.unlocated
  | node => node

/-- Whether the node is an expression; in a statement list it then needs an `exprStmt`. -/
def isExpression : Node → Bool
  | .number _ | .string _ | .boolean _ | .null | .undefined | .identifier _
  | .binary .. | .unary .. | .call .. | .construct .. | .member .. | .element ..
  | .conditional .. | .parenthesized _ | .array _ | .hole | .object _
  | .functionExpr .. | .arrow .. | .instruction .. | .labelRef _ => true
  | .located node _ => node.isExpression
  | _ => false

/-- The node as a member of a statement list. -/
def asStatement (node : Node) : Node := if node.isExpression then .exprStmt node else node

def isIdentifier : Node → Bool
  | .identifier _ => true
  | _ => false

def isEmptyStatement : Node → Bool
  | .emptyStmt => true
  | _ => false

/-- Whether the node declares variables. -/
def isVarDeclaration : Node → Bool
  | .varDecl .. | .varList _ => true
  | _ => false

end Node

end Resumable
