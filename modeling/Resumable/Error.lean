import Resumable.Function.Shape
import Resumable.Operation.Basic
import Resumable.Region.Basic

/-!
# Errors

The ways in which the calls of a lowering can contradict each other: regions closed out of
turn, branches to labels that do not exist, operations that the mode has no place for. None
of them is about the program being lowered; that is what diagnostics are for.
-/

namespace Resumable

/-- The calls that only make sense for a function body. -/
inductive FunctionCall where
  | addVariable
  | addParameter
  | addFunction
  | defineLabel
  | markLabel
  | createInlineBreak
  | createInlineReturn
  | createResume
  | beginException
  | beginCatch
  | beginFinally
  | endException
  | beginScope
  | endScope
  | beginBreakable
  | endBreakable
  | beginLoop
  | endLoop
  | buildFunction
  deriving DecidableEq, Repr, Inhabited

def FunctionCall.name : FunctionCall → String
  | .addVariable => "add_variable"
  | .addParameter => "add_parameter"
  | .addFunction => "add_function"
  | .defineLabel => "define_label"
  | .markLabel => "mark_label"
  | .createInlineBreak => "create_inline_break"
  | .createInlineReturn => "create_inline_return"
  | .createResume => "create_resume"
  | .beginException => "begin_exception_block"
  | .beginCatch => "begin_catch_block"
  | .beginFinally => "begin_finally_block"
  | .endException => "end_exception_block"
  | .beginScope => "begin_with_block"
  | .endScope => "end_with_block"
  | .beginBreakable => "begin_break_block"
  | .endBreakable => "end_break_block"
  | .beginLoop => "begin_continue_block"
  | .endLoop => "end_continue_block"
  | .buildFunction => "build_function"

inductive LoweringError where
  | undefinedLabel (label : Label)
  | labelAlreadyMarked (label : Label) (position : Nat)
  | unresolvedLabel (label : Label)
  | unexpectedOperation (code : OpCode)
  | functionModeRequired (call : FunctionCall)
  | regionMismatch (expected : RegionKind) (found : Option RegionKind)
  | invalidTransition (phase requested : Phase)
  | unclosedRegions (count : Nat)
  | noBreakTarget (name : Option String)
  | noContinueTarget (name : Option String)
  | nameNotAllowed (shape : FunctionShape)
  | nameMissing (shape : FunctionShape)
  deriving DecidableEq, Repr

namespace LoweringError

/-- The source label a jump was looked for under. -/
def underName : Option String → String
  | some name => s!" for label '{name}'"
  | none => ""

def message : LoweringError → String
  | .undefinedLabel label => s!"label {label.text} was never defined"
  | .labelAlreadyMarked label position =>
    s!"label {label.text} is already marked at operation {position}"
  | .unresolvedLabel label => s!"label {label.text} was defined but never marked"
  | .unexpectedOperation code => s!"Unexpected OpCode: {code.name}"
  | .functionModeRequired call =>
    s!"{call.name} is not available when lowering a statement list"
  | .regionMismatch expected found =>
    s!"expected the innermost region to be {expected.text}, found " ++
      (found.map RegionKind.text).getD "no open region"
  | .invalidTransition phase requested =>
    s!"cannot begin a {requested.text} block in an exception region " ++
      s!"that is already in its {phase.text} phase"
  | .unclosedRegions count => s!"{count} region(s) are still open"
  | .noBreakTarget name => "no enclosing break target" ++ underName name
  | .noContinueTarget name => "no enclosing continue target" ++ underName name
  | .nameNotAllowed shape => s!"a {shape.text} cannot have a name"
  | .nameMissing shape => s!"a {shape.text} requires a name"

end LoweringError

end Resumable
