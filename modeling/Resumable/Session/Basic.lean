import Resumable.Diagnostic
import Resumable.Label.Table
import Resumable.Name.Allocator
import Resumable.Operation.Recorder
import Resumable.Options
import Resumable.Region.Stack

/-!
# Sessions

A session lowers one function or one statement list. It is told of the body in source order,
and keeps what it was told: labels, regions, operations, parameters, and the names it made
up. Calls can fail, and a session goes on after a call that failed, so the state at the
point of failure is part of the outcome: `SessionM` keeps the session and the shared
registry of names on both outcomes.
-/

namespace Resumable

/-- What is being lowered. -/
inductive SessionKind where
  | statements
  | generator
  /-- An asynchronous function, with the constructor of the promise it answers with. -/
  | async (promise : Node)
  deriving Inhabited

namespace SessionKind

def mode : SessionKind → Mode
  | .statements => .statements
  | .generator | .async _ => .stateMachine

def promise? : SessionKind → Option Node
  | .async promise => some promise
  | _ => none

/-- The kind as a line that describes a session shows it. -/
def summary : SessionKind → String
  | .statements => "Statements"
  | .generator => "Generator"
  | .async promise =>
    let shown := match promise with
      | .identifier name => "Identifier(" ++ Text.quote name ++ ")"
      | _ => "_"
    "Async \x7b promise_constructor: " ++ shown ++ " \x7d"

end SessionKind

structure Session where
  kind : SessionKind
  options : Options
  names : Name.Allocator
  recorder : Recorder
  labels : LabelTable := {}
  regions : RegionStack := {}
  parameters : List (Parameter Node) := []
  /-- Functions to declare at the head of the lowered function. -/
  functions : List Node := []
  /-- The name of the state parameter, once one was asked for. -/
  state : Option String := none
  diagnostics : List Diagnostic := []
  deriving Inhabited

/-- A call on a session. -/
abbrev SessionM := ExceptT LoweringError (StateT Session (StateM Name.Registry))

namespace Session

/-- A session for a function declared in a scope where the names `bound` are bound. -/
def start (kind : SessionKind) (options : Options) (scope : Nat) (bound : List String) : Session where
  kind
  options
  names := { scope, bound }
  recorder := { mode := kind.mode }

def mode (s : Session) : Mode := s.recorder.mode

/-- The names to declare at the head of the function, in order. -/
def declared (s : Session) : List String := s.names.declared

/-- A line that describes the state of the session. -/
def summary (s : Session) : String :=
  "CodeGenerator \x7b kind: " ++ s.kind.summary ++
    ", operations: " ++ toString s.recorder.position ++
    ", labels: " ++ toString s.labels.size ++
    ", regions: " ++ toString s.regions.depth ++ ", .. \x7d"

/-- Performs a call, keeping the session and the registry whatever the outcome. -/
def perform (call : SessionM α) (s : Session) (r : Name.Registry) :
    Except LoweringError α × Session × Name.Registry :=
  let ((outcome, s), r) := (call.run.run s).run r
  (outcome, s, r)

/-- Refuses a call that only makes sense for a function body. -/
def requireFunction (call : FunctionCall) : SessionM Unit := do
  if (← get).mode = .statements then
    throw (.functionModeRequired call)

/-- Changes the label table, unless that fails. -/
def updateLabels (change : LabelTable → Except LoweringError LabelTable) : SessionM Unit := do
  match change (← get).labels with
  | .ok labels => modify fun s => { s with labels }
  | .error e => throw e

/-- Attaches a span to the next operation or statement made. -/
def writeLocation (span : Span) : SessionM Unit :=
  modify fun s => { s with recorder := s.recorder.writeLocation span }

/-- Uses up the span written last. -/
def takeLocation : SessionM (Option Span) :=
  modifyGet fun s =>
    let (location, recorder) := s.recorder.takeLocation
    (location, { s with recorder })

/-- Reports a notice at a span, or at the start of the file if there is none. -/
def report (location : Option Span) (notice : Notice) (arguments : List String) : SessionM Unit :=
  modify fun s =>
    let span := location.getD (Span.point 0)
    let diagnostic :=
      Diagnostic.ofNotice s.options.fileName span.start span.length notice arguments
    { s with diagnostics := s.diagnostics ++ [diagnostic] }

/-- Hands over the diagnostics reported since they were last taken. -/
def takeDiagnostics : SessionM (List Diagnostic) :=
  modifyGet fun s => (s.diagnostics, { s with diagnostics := [] })

end Session

end Resumable
