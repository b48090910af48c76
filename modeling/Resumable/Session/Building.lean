import Resumable.Body.Build
import Resumable.Session.Targets

/-!
# Building

What a finished session is turned into: the body alone, or a function of the shape asked
for. The function declares the variables and the functions of the session, and returns its
body, driven by the dispatcher; an asynchronous one returns a promise that the driven body
resolves.
-/

namespace Resumable

namespace FunctionShape

/-- Refuses a name that the shape has no place for, and the lack of one that it needs. -/
def checkName (shape : FunctionShape) (name : Option String) : Except LoweringError Unit :=
  if name.isSome && !shape.allowsName then .error (.nameNotAllowed shape)
  else if name.isNone && shape.needsName then .error (.nameMissing shape)
  else .ok ()

/-- The function of this shape. -/
def assemble (shape : FunctionShape) (name : Option String) (parameters : List (Parameter Node))
    (body : List Node) : Node :=
  match shape, name with
  | .declaration, some name => .functionDecl name parameters body
  | .method, some name => .method (.bare name) parameters body
  | .getAccessor, some name => .getter (.bare name) body
  | .arrow, _ => .arrow parameters body
  | _, name => .functionExpr name parameters body

end FunctionShape

namespace Session

/-- What the body of the session is built from. -/
def plan (s : Session) (state : String) (forceReturn : Bool) : Body.Plan where
  operations := s.recorder.operations
  labels := s.labels
  regions := s.regions
  state
  splitOnAbrupt := s.mode = .stateMachine
  forceReturn
  comments := s.options.instructionComments

/-- The name that a body reads its state under. A statement list has no state parameter, so
no name is made up for it. -/
def bodyState : SessionM String := do
  let s ← get
  match s.mode with
  | .stateMachine => stateName
  | .statements => return s.state.getD s.options.stateName

/-- Builds the body out of what was recorded so far. Every region has to be closed. -/
def buildStatements (forceReturn : Bool) : SessionM Body := do
  let depth := (← get).regions.depth
  if 0 < depth then
    throw (.unclosedRegions depth)
  let state ← bodyState
  match ((← get).plan state forceReturn).build with
  | .ok body => return body
  | .error e => throw e

/-- The declarations at the head of the lowered function. -/
def hoisted (s : Session) : List Node :=
  let declarations := s.declared.map fun name => Node.varDecl name none
  (if declarations.isEmpty then [] else [.varList declarations]) ++ s.functions

/-- The body, driven by the dispatcher. -/
def driven (state : String) (statements : List Node) : Node :=
  .call (.identifier Helper.generator.name) [.functionExpr none [{ name := state }] statements]

/-- A promise that is resolved by a driven body. -/
def promised (promise : Node) (resolve : String) (body : Node) : Node :=
  .construct promise
    [.functionExpr none [{ name := resolve }]
      [.exprStmt (.call (.identifier resolve) [.call (.identifier Helper.awaiter.name) [body]])]]

/-- Builds the function, in the shape and under the name asked for. -/
def buildFunction (shape : FunctionShape) (name : Option String) : SessionM Node := do
  requireFunction .buildFunction
  if let .error e := shape.checkName name then
    throw e
  let body ← buildStatements true
  let state ← stateName
  let s ← get
  let generator := driven state body.statements
  let result ← match s.kind with
    | .async promise => do
      let resolve ← createUniqueIdentifier (some s.options.resolveName) false
      pure (promised promise resolve generator)
    | _ => pure generator
  return shape.assemble name s.parameters (s.hoisted ++ [.returnStmt (some result)])

end Session

end Resumable
