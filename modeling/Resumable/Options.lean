import Resumable.Datum

/-!
# Options

What can be chosen about a lowering, and the names that cannot be: those of the helpers that
a lowered function calls and of the fields of the state it is driven with.
-/

namespace Resumable

structure Options where
  /-- The preferred name of the state parameter. -/
  stateName : String := "_state"
  /-- The preferred name of the parameter that resolves a promise. -/
  resolveName : String := "_resolve"
  /-- Whether an instruction carries its name in a comment. -/
  instructionComments : Bool := true
  /-- The file that diagnostics name. -/
  fileName : String := ""
  deriving DecidableEq, Repr, Inhabited

namespace Options

/-- The fields of a configuration, in the order in which a list gives them. -/
def fieldNames : List String := ["stateName", "resolveName", "instructionComments", "fileName"]

/-- Reads options from a configuration; a field that is missing takes its default. -/
def ofDatum? (datum : Datum) : Option Options := do
  let fields ← datum.fields? fieldNames
  let defaults : Options := {}
  return {
    stateName := ← Datum.optional fields "stateName" (·.asText?) defaults.stateName
    resolveName := ← Datum.optional fields "resolveName" (·.asText?) defaults.resolveName
    instructionComments :=
      ← Datum.optional fields "instructionComments" (·.asBool?) defaults.instructionComments
    fileName := ← Datum.optional fields "fileName" (·.asText?) defaults.fileName }

end Options

/-- The helper functions that a lowered function calls. -/
inductive Helper where
  /-- Drives a state machine body. -/
  | generator
  /-- Adapts a driven body to the resolution of a promise. -/
  | awaiter
  deriving DecidableEq, Repr

def Helper.name : Helper → String
  | .generator => "__generator"
  | .awaiter => "__awaiter"

/-- The fields of the state that the dispatcher drives a body with. -/
inductive StateField where
  /-- The number of the case to go on with. -/
  | label
  /-- The stack of protected regions. -/
  | trys
  /-- The exception that a catch block handles. -/
  | error
  /-- The value sent in when the body is resumed. -/
  | sent
  deriving DecidableEq, Repr

def StateField.name : StateField → String
  | .label => "label"
  | .trys => "trys"
  | .error => "error"
  | .sent => "sent"

end Resumable
