import Resumable.Tree.Basic

/-!
# Operations

A function body is described as a flat list of operations in source order. Structured
control flow is gone from it: what is left of it are jumps to labels. `Mode` says what the
list is for; a plain statement list has no jumps and no suspensions.
-/

namespace Resumable

inductive Mode where
  /-- A flat statement list. -/
  | statements
  /-- The body of a function that can be suspended. -/
  | stateMachine
  deriving DecidableEq, Repr, Inhabited

/-- The kinds of operations. -/
inductive OpCode where
  | assign
  | statement
  | jump
  | jumpIfTrue
  | jumpIfFalse
  | yield
  | delegate
  | complete
  | throw
  | endFinally
  deriving DecidableEq, Repr, Inhabited

namespace OpCode

/-- The name of the kind, as messages show it. -/
def name : OpCode → String
  | .assign => "Assign"
  | .statement => "Statement"
  | .jump => "Break"
  | .jumpIfTrue => "BreakIfTrue"
  | .jumpIfFalse => "BreakIfFalse"
  | .yield => "Yield"
  | .delegate => "YieldStar"
  | .complete => "Return"
  | .throw => "Throw"
  | .endFinally => "Endfinally"

def all : List OpCode :=
  [.assign, .statement, .jump, .jumpIfTrue, .jumpIfFalse, .yield, .delegate, .complete, .throw,
    .endFinally]

/-- The kind with exactly this name. -/
def ofName? (name : String) : Option OpCode := all.find? fun code => code.name = name

theorem ofName?_name (code : OpCode) : ofName? code.name = some code := by
  cases code <;> decide +kernel

/-- Whether a list of this mode can hold the operation. -/
def isLegalIn (code : OpCode) (mode : Mode) : Bool :=
  match code with
  | .assign | .statement | .complete | .throw => true
  | _ => mode = .stateMachine

end OpCode

inductive Operation where
  | assign (target value : Node)
  /-- A statement, or an expression in the place of one. -/
  | statement (node : Node)
  | jump (label : Label)
  | jumpIfTrue (label : Label) (condition : Node)
  | jumpIfFalse (label : Label) (condition : Node)
  /-- Suspend, and hand out a value. -/
  | yield (value : Option Node)
  /-- Hand over to another iterator. -/
  | delegate (value : Option Node)
  /-- Complete with a value. -/
  | complete (value : Option Node)
  | throw (value : Node)
  /-- Go on with what was pending when the finally block was entered. -/
  | endFinally
  deriving Inhabited

namespace Operation

def code : Operation → OpCode
  | .assign .. => .assign
  | .statement _ => .statement
  | .jump _ => .jump
  | .jumpIfTrue .. => .jumpIfTrue
  | .jumpIfFalse .. => .jumpIfFalse
  | .yield _ => .yield
  | .delegate _ => .delegate
  | .complete _ => .complete
  | .throw _ => .throw
  | .endFinally => .endFinally

/-- The label the operation may jump to. -/
def target? : Operation → Option Label
  | .jump label | .jumpIfTrue label _ | .jumpIfFalse label _ => some label
  | _ => none

/-- Control never passes to the operation that follows. -/
def isAbrupt : Operation → Bool
  | .jump _ | .yield _ | .delegate _ | .complete _ | .throw _ | .endFinally => true
  | _ => false

/-- The function is over after the operation. -/
def isCompletion : Operation → Bool
  | .complete _ | .throw _ => true
  | _ => false

/-- The function is suspended by the operation. -/
def isSuspension : Operation → Bool
  | .yield _ | .delegate _ => true
  | _ => false

/-- An empty statement: it contributes nothing and is never recorded. -/
def isIdle : Operation → Bool
  | .statement node => node.unlocated.isEmptyStatement
  | _ => false

theorem isAbrupt_of_isCompletion {op : Operation} (h : op.isCompletion = true) :
    op.isAbrupt = true := by
  cases op <;> simp_all [isCompletion, isAbrupt]

end Operation

/-- An operation with the span it was lowered from. -/
structure Recorded where
  operation : Operation
  location : Option Span
  deriving Inhabited

end Resumable
