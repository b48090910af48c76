import Resumable.Error

/-!
# The recorder

The operations of one function in the order they were recorded. A span written ahead is
attached to the next operation and is used up by it, even when that operation is an empty
statement and leaves no trace.
-/

namespace Resumable

structure Recorder where
  mode : Mode
  operations : List Recorded := []
  /-- The span that the next operation will carry. -/
  pending : Option Span := none
  deriving Inhabited

namespace Recorder

/-- The index of the next operation. -/
def position (r : Recorder) : Nat := r.operations.length

def isEmpty (r : Recorder) : Bool := r.operations.isEmpty

def writeLocation (r : Recorder) (span : Span) : Recorder := { r with pending := some span }

/-- Uses up the pending span. -/
def takeLocation (r : Recorder) : Option Span × Recorder := (r.pending, { r with pending := none })

/-- Refuses an operation that the mode has no place for. -/
def validate (r : Recorder) (code : OpCode) : Except LoweringError Unit :=
  if code.isLegalIn r.mode then .ok () else .error (.unexpectedOperation code)

/-- Appends an operation; the answer tells whether it left a trace. -/
def record (r : Recorder) (op : Operation) : Except LoweringError (Bool × Recorder) := do
  r.validate op.code
  if op.isIdle then
    return (false, { r with pending := none })
  else
    return (true, { r with operations := r.operations ++ [⟨op, r.pending⟩], pending := none })

theorem record_of_isLegalIn {r : Recorder} {op : Operation} (h : op.code.isLegalIn r.mode = true) :
    r.record op = .ok (!op.isIdle, if op.isIdle then { r with pending := none }
      else { r with operations := r.operations ++ [⟨op, r.pending⟩], pending := none }) := by
  unfold record validate
  rw [if_pos h]
  cases op.isIdle <;> rfl

end Recorder

end Resumable
