import Resumable.Session.Recording

/-!
# Names, parameters and declarations

The names a session makes up, and what it puts at the head of the lowered function.
-/

namespace Resumable.Session

/-- Runs an action on the allocator of the session and on the registry. -/
def naming (action : Name.AllocatorM α) : SessionM α := do
  let s ← get
  let (answer, names) ← (action.run s.names : StateM Name.Registry _)
  set { s with names }
  return answer

/-- A name that is free, registered if that is asked for. -/
def createUniqueIdentifier (preferred : Option String) (registered : Bool) : SessionM String :=
  naming (Name.Allocator.create preferred registered)

/-- A free name that is declared as a variable. -/
def declareLocal (preferred : Option String) (registered : Bool) : SessionM String :=
  naming do
    let name ← Name.Allocator.create preferred registered
    Name.Allocator.declare name
    return name

def addVariable (name : String) : SessionM Unit := do
  requireFunction .addVariable
  naming (Name.Allocator.declare name)

/-- Adds a parameter to the lowered function. A default value has no place once the body runs
under the dispatcher, so it is dropped and reported. -/
def addParameter (parameter : Parameter Node) : SessionM Unit := do
  requireFunction .addParameter
  let location ← takeLocation
  if parameter.default.isSome then
    report location .parameterDefault [parameter.name]
  modify fun s => { s with parameters := s.parameters ++ [{ parameter with default := none }] }

/-- Declares a function ahead of the lowered body. -/
def addFunction (declaration : Node) : SessionM Unit := do
  requireFunction .addFunction
  modify fun s => { s with functions := s.functions ++ [declaration] }

/-- An identifier for the value of an expression, which is evaluated once. -/
def ensureIdentifier (expression : Node) : SessionM Node := do
  let (identifier, assignments) ← naming (Name.Allocator.ensureIdentifier expression)
  emitAssignments assignments
  return identifier

/-- The value, or the default if the value is undefined; the value is evaluated once. -/
def valueOrDefault (value default : Node) : SessionM Node := do
  let (expression, assignments) ← naming (Name.Allocator.valueOrDefault value default)
  emitAssignments assignments
  return expression

/-- The name of the state parameter, made up when it is first asked for. -/
def stateName : SessionM String := do
  let s ← get
  match s.state with
  | some name => return name
  | none =>
    let name ← createUniqueIdentifier (some s.options.stateName) false
    modify fun s => { s with state := some name }
    return name

/-- A field of the state. -/
def stateField (field : StateField) : SessionM Node := return field.of (← stateName)

/-- The value that was sent in when the body was resumed. -/
def createResume : SessionM Node := do
  requireFunction .createResume
  stateField .sent

end Resumable.Session
