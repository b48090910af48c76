import Resumable.Body.Cursor
import Resumable.Body.Instruction
import Resumable.Label.Table
import Resumable.Tree.Resolve

/-!
# Lowered bodies

A body is cut from the operations of a function. The operations are walked once, in order.
A case is closed where a label is marked, and, in a body that can be suspended, after an
operation that control does not leave by falling through. If no case was ever closed the
body is the flat list of its statements; otherwise it is one switch over the case number in
the state.

Closing a case wraps its statements into the open scopes. The first case closed in an
exception region begins by pushing the labels of the region on the stack of protected
regions, and case 0 sets that stack up if there is any exception region at all. A case that
falls through ends by moving the case number on.

While the walk is under way a label stands for itself in the statements. The walk notes the
case that each operation index falls into, so in the end a label is the number of the case
of the index it is marked at.
-/

namespace Resumable

structure Body where
  /-- The flat statements, or the one switch over the cases. -/
  statements : List Node
  /-- A suspension was lowered, so what is sent in on resumption can be read. -/
  resumes : Bool

namespace Body

/-- The number of cases; 0 for a flat body. -/
def caseCount (b : Body) : Nat :=
  match b.statements.head? with
  | some (.switchStmt _ clauses) => clauses.length
  | _ => 0

def isStateMachine (b : Body) : Bool := 0 < b.caseCount

/-- What a body is built from. -/
structure Plan where
  operations : List Recorded
  labels : LabelTable
  regions : RegionStack
  /-- The name of the state parameter. -/
  state : String
  /-- Whether a case also ends after an abrupt operation. -/
  splitOnAbrupt : Bool
  /-- Whether a body that can run off its end gets a final return. -/
  forceReturn : Bool
  /-- Whether an instruction carries its name in a comment. -/
  comments : Bool

/-- How far the walk over the operations has come. -/
structure Draft where
  closed : List (Clause Node) := []
  /-- The operations of the case that is still open. -/
  run : List Recorded := []
  /-- The case that each index passed so far falls into. -/
  caseOf : List Nat := []
  cursor : RegionCursor
  resumes : Bool := false

namespace Draft

/-- The number of the open case. -/
def number (d : Draft) : Nat := d.closed.length

/-- Control cannot reach the end of the open case. -/
def isAbrupt (d : Draft) : Bool := d.run.getLast?.any (·.operation.isAbrupt)

/-- The function is over at the end of the open case. -/
def isComplete (d : Draft) : Bool := d.run.getLast?.any (·.operation.isCompletion)

end Draft

namespace Plan

/-- The statement of an operation. -/
def statement (p : Plan) (r : Recorded) : Node := r.statement p.comments

/-- `<state>.trys = [];`, if there is any exception region. -/
def setup (p : Plan) : List Node :=
  if p.regions.hasExceptions then
    [.exprStmt (.assign (StateField.trys.of p.state) (.array []))]
  else []

/-- The element of a region tuple for a label that the region may not have. -/
def labelOrHole (label : Label) : Node := if label.isSome then .labelRef label else .hole

/-- `<state>.trys.push([start, catch, finally, end]);` -/
def announce (p : Plan) (id : RegionId) : Node :=
  match p.regions.get? id >>= Region.exception? with
  | some r =>
    .exprStmt (.call (.member (StateField.trys.of p.state) "push") [.array
      [.labelRef r.start, labelOrHole r.catchLabel, labelOrHole r.finallyLabel,
        .labelRef r.stop]])
  | none => .emptyStmt

/-- `<state>.label = next;` -/
def advance (p : Plan) (next : Nat) : Node :=
  .exprStmt (.assign (StateField.label.of p.state) (.number (toString next)))

/-- The statements inside the scope of a region. -/
def inScope (p : Plan) (statements : List Node) (id : RegionId) : List Node :=
  match p.regions.get? id >>= Region.scope? with
  | some r => [.withStmt (.identifier r.object) (.block statements)]
  | none => statements

/-- Closes the open case, with the statements it holds and whether it falls through. -/
def closeWith (p : Plan) (d : Draft) (statements : List Node) (fallsThrough : Bool) : Draft :=
  let wrapped := d.cursor.scopes.foldl p.inScope statements
  let announced := (d.cursor.entered.map p.announce).toList ++ wrapped
  let setUp := if d.number = 0 then p.setup ++ announced else announced
  let body := if fallsThrough then setUp ++ [p.advance (d.number + 1)] else setUp
  { d with
    closed := d.closed ++ [⟨some (.number (toString d.number)), body⟩]
    run := []
    cursor := { d.cursor with entered := none } }

/-- Closes the open case, unless nothing is in it yet. -/
def close (p : Plan) (d : Draft) : Draft :=
  if d.run.isEmpty then d else p.closeWith d (d.run.map p.statement) !d.isAbrupt

/-- Notes the case of an index, and replays the region events up to it. -/
def arrive (p : Plan) (index : Nat) (d : Draft) : Draft :=
  { d with
    caseOf := d.caseOf ++ [d.number]
    cursor := d.cursor.reach p.regions index }

/-- Whether a case ends before the operation with this index. -/
def cutsBefore (p : Plan) (index : Nat) (d : Draft) : Bool :=
  p.labels.hasLabelAt index || (p.splitOnAbrupt && d.isAbrupt)

/-- Takes the operation with this index in. Where cases are only cut at labels, nothing is
reachable after an abrupt operation until the next label. -/
def take (p : Plan) (d : Draft) (r : Recorded) (index : Nat) : Draft :=
  let d := p.arrive index (if p.cutsBefore index d then p.close d else d)
  if d.isAbrupt then d
  else { d with run := d.run ++ [r], resumes := d.resumes || r.operation.isSuspension }

/-- The walk over the operations. -/
def walk (p : Plan) : Draft :=
  p.operations.zipIdx.foldl (fun d (r, index) => p.take d r index)
    { cursor := RegionCursor.start p.regions }

/-- Whether a label is marked after the last operation. -/
def targetsEnd (p : Plan) : Bool := p.labels.hasLabelAt p.operations.length

/-- The walk, with the last case cut off where something still has to come after it. -/
def walkToEnd (p : Plan) : Draft :=
  let d := p.walk
  let needsReturn := p.forceReturn && !d.isComplete
  let cut := p.targetsEnd || (needsReturn && d.isAbrupt && p.splitOnAbrupt)
  p.arrive p.operations.length (if cut then p.close d else d)

/-- The statements of the last case, with the final return if it needs one. -/
def lastStatements (p : Plan) (d : Draft) : List Node :=
  d.run.map p.statement ++
    if p.forceReturn && !d.isComplete then [Instruction.complete.statement p.comments none] else []

/-- The statements of the body, with labels in the place of case numbers. -/
def labeled (p : Plan) (d : Draft) : List Node :=
  let statements := p.lastStatements d
  if d.closed.isEmpty then p.setup ++ statements
  else
    let d := if statements.isEmpty && !p.targetsEnd then d else p.closeWith d statements false
    [.switchStmt (StateField.label.of p.state) d.closed]

/-- The number of the case that a label stands for. -/
def caseNumber? (p : Plan) (d : Draft) (label : Label) : Option Nat :=
  p.labels.position? label >>= fun position => d.caseOf[position]?

/-- Puts case numbers in the place of labels. -/
def number (p : Plan) (d : Draft) (statements : List Node) : Except LoweringError (List Node) :=
  match (statements.mapM (Node.resolve (p.caseNumber? d))).run none with
  | (_, some label) => .error (.unresolvedLabel label)
  | (statements, none) => .ok statements

/-- Builds the body. Every label has to be marked. -/
def build (p : Plan) : Except LoweringError Body :=
  match p.labels.firstUnmarked? with
  | some label => .error (.unresolvedLabel label)
  | none => do
    let d := p.walkToEnd
    return { statements := ← p.number d (p.labeled d), resumes := d.resumes }

end Plan

end Body

end Resumable
