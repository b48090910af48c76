import Resumable.Text.Quoted
import Resumable.Tree.Basic

/-!
# Spelling

What printing a node depends on besides its shape: where a declaration of variables stands, when
an expression is put in parentheses, and which statements go on the line of their `case`.

Three places decide how a declaration of variables is written, and `Slot` names them. Inside a
list of declarations and at the head of a loop the wrapper of a located declaration is passed
over.
-/

namespace Resumable

/-- Four spaces for each level. -/
def indentation (depth : Nat) : String := String.ofList (List.replicate (4 * depth) ' ')

/-- Where a declaration of variables is written: as a statement (or any other node in its
place), as one binding of a list, or at the head of a loop. -/
inductive Slot where
  | whole
  | binding
  | head
  deriving DecidableEq, Repr

def PropertyName.text : PropertyName → String
  | .bare name => name
  | .quoted name => Text.quote name

namespace Node

/-- An operator spelled in letters alone is set off from its operand. -/
def unaryGap (operator : String) : String := if operator.toList.all Char.isAlpha then " " else ""

def isFunctionExpr : Node → Bool
  | .functionExpr .. => true
  | _ => false

def isHole : Node → Bool
  | .hole => true
  | _ => false

def isBlock : Node → Bool
  | .block _ => true
  | _ => false

/-- Whether a statement that is just this expression is parenthesized, since its text would
otherwise begin a declaration or a block. -/
def needsParentheses : Node → Bool
  | .functionExpr .. | .object _ => true
  | _ => false

/-- Whether the statement may follow its `case` on the same line. -/
def isShort : Node → Bool
  | .returnStmt _ | .throwStmt _ | .exprStmt _ => true
  | _ => false

/-- Whether the statements of a clause follow its `case` on the same line. -/
def fitsCaseLine : List Node → Bool
  | [node] => node.unlocated.isShort
  | _ => false

/-- A hole in the last place needs a comma of its own to count as an element. -/
def trailingComma (elements : List Node) : String :=
  if elements.getLast?.any (·.unlocated.isHole) then "," else ""

end Node

end Resumable
