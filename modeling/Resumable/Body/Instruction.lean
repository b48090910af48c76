import Resumable.Operation.Basic
import Resumable.Options

/-!
# Instructions

A lowered body talks to the dispatcher that drives it by returning instruction tuples and by
reading and writing the fields of a state. Each operation has one statement that does its
work in the body, whatever stands around it.
-/

namespace Resumable

/-- What a body can ask of the dispatcher. -/
inductive Instruction where
  | complete
  | jump
  | yield
  | delegate
  | endFinally
  deriving DecidableEq, Repr, Inhabited

namespace Instruction

/-- The number the dispatcher knows the instruction by. -/
def tag : Instruction → Nat
  | .complete => 2
  | .jump => 3
  | .yield => 4
  | .delegate => 5
  | .endFinally => 6

def comment : Instruction → String
  | .complete => "return"
  | .jump => "break"
  | .yield => "yield"
  | .delegate => "yield*"
  | .endFinally => "endfinally"

def all : List Instruction := [.complete, .jump, .yield, .delegate, .endFinally]

/-- The statement that returns the instruction, with its name in a comment or without. -/
def statement (comments : Bool) (i : Instruction) (value : Option Node) : Node :=
  .returnStmt (some (.instruction i.tag value (if comments then some i.comment else none)))

/-- The statement that asks the dispatcher to go on at a label. -/
def jumpTo (comments : Bool) (label : Label) : Node :=
  jump.statement comments (some (.labelRef label))

end Instruction

/-- A field of the state that the parameter `state` holds. -/
def StateField.of (state : String) (field : StateField) : Node :=
  .member (.identifier state) field.name

/-- What the operation does, before it is made a statement. -/
def Operation.node (comments : Bool) : Operation → Node
  | .assign target value => .assign target value
  | .statement node => node
  | .jump label => Instruction.jumpTo comments label
  | .jumpIfTrue label condition => .ifThen condition (Instruction.jumpTo comments label)
  | .jumpIfFalse label condition => .ifThen condition.not (Instruction.jumpTo comments label)
  | .yield value => Instruction.yield.statement comments value
  | .delegate value => Instruction.delegate.statement comments value
  | .complete value => Instruction.complete.statement comments value
  | .throw value => .throwStmt value
  | .endFinally => Instruction.endFinally.statement comments none

/-- The statement of a recorded operation, at the span it was lowered from. -/
def Recorded.statement (comments : Bool) (r : Recorded) : Node :=
  (r.operation.node comments).asStatement.locate r.location

end Resumable
