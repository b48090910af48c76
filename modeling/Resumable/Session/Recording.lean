import Resumable.Body.Instruction
import Resumable.Session.Basic

/-!
# Recording operations

Labels and operations are recorded at the place the session has come to, which is the index
of the next operation. The first operation of a session without labels brings a label of its
own, which stands for the entry of the body.
-/

namespace Resumable.Session

def defineLabel : SessionM Label := do
  requireFunction .defineLabel
  modifyGet fun s =>
    let (label, labels) := s.labels.define
    (label, { s with labels })

/-- Marks a label at the next operation. -/
def markLabel (label : Label) : SessionM Unit := do
  requireFunction .markLabel
  let s ← get
  updateLabels (·.mark label s.recorder.position)

/-- Notes that something branches to a label. -/
def noteReference (label : Label) : SessionM Unit := updateLabels (·.noteReference label)

/-- Marks an entry label, if nothing at all was recorded before. -/
def markEntry : SessionM Unit := do
  let s ← get
  if s.recorder.isEmpty && s.labels.isEmpty then
    let (entry, labels) := s.labels.define
    set { s with labels }
    updateLabels (·.mark entry 0)

/-- Records an operation at the place the session has come to. -/
def emit (op : Operation) : SessionM Unit := do
  let s ← get
  if let .error e := s.recorder.validate op.code then
    throw e
  if let some label := op.target? then
    noteReference label
  if let .delegate none := op then
    report s.recorder.pending .missingDelegate []
  markEntry
  let s ← get
  match s.recorder.record op with
  | .ok (_, recorder) => set { s with recorder }
  | .error e => throw e

/-- Records assignments in order. -/
def emitAssignments (assignments : List (Node × Node)) : SessionM Unit :=
  assignments.forM fun (target, value) => emit (.assign target value)

/-- The node at the span written last, which is used up. -/
def located (node : Node) : SessionM Node := return node.locate (← takeLocation)

/-- A jump to a label, for use inside a statement that stays as it is. -/
def createInlineBreak (label : Label) : SessionM Node := do
  requireFunction .createInlineBreak
  noteReference label
  located (Instruction.jumpTo (← get).options.instructionComments label)

/-- A completion with a value, for use inside a statement that stays as it is. -/
def createInlineReturn (value : Option Node) : SessionM Node := do
  requireFunction .createInlineReturn
  located (Instruction.complete.statement (← get).options.instructionComments value)

end Resumable.Session
