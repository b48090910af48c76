import Resumable.Session.Exceptions

/-!
# Scopes and targets

The regions opened over an object, and those that a `break` leaves or a `continue` restarts.
The label that a dispatched target is left to is defined when a jump first asks for it, and
marked when the region is closed. Native targets need no labels.
-/

namespace Resumable.Session

/-- Opens a scope over the object that the identifier `holder` holds. -/
def beginScope (holder : String) : SessionM Unit := do
  requireFunction .beginScope
  let start ← defineLabel
  let stop ← defineLabel
  markLabel start
  discard <| enterRegion (.scope { object := holder, start, stop })

def endScope : SessionM Unit := do
  requireFunction .endScope
  let id ← leaveRegion .scope
  if let some region := (← get).regions.get? id >>= Region.scope? then
    markLabel region.stop

/-- Marks the label that a closed target is left to, if a jump asked for it. -/
def markBreakLabel (id : RegionId) : SessionM Unit := do
  if let some target := (← get).regions.get? id >>= Region.breakTarget? then
    if target.label.isSome then
      markLabel target.label

/-- Opens a target of `break` whose jumps go through labels. -/
def beginBreakable (names : List String) (needsName : Bool) : SessionM Unit := do
  requireFunction .beginBreakable
  discard <| enterRegion (.breakable { names, needsName })

def endBreakable : SessionM Unit := do
  requireFunction .endBreakable
  markBreakLabel (← leaveRegion .breakable)

/-- Opens a loop whose jumps go through labels; `continue` goes to the given one. -/
def beginLoop (continueLabel : Label) (names : List String) : SessionM Unit := do
  requireFunction .beginLoop
  discard <| enterRegion (.loop { names } continueLabel)

def endLoop : SessionM Unit := do
  requireFunction .endLoop
  markBreakLabel (← leaveRegion .loop)

/-- Opens a target of `break` that stays as it is. -/
def beginNativeBreakable (names : List String) (needsName : Bool) : SessionM Unit :=
  discard <| enterRegion (.breakable { names, needsName, native := true })

def endNativeBreakable : SessionM Unit := discard <| leaveRegion .nativeBreakable

/-- Opens a loop that stays as it is. -/
def beginNativeLoop (names : List String) : SessionM Unit :=
  discard <| enterRegion (.loop { names, native := true } Label.none)

def endNativeLoop : SessionM Unit := discard <| leaveRegion .nativeLoop

/-- Where a `break` or a `continue` goes. -/
inductive JumpTarget where
  /-- The jump stays a `break` or a `continue`. -/
  | native
  | label (label : Label)
  deriving DecidableEq, Repr

/-- Where a `break`, with a source label or with none, goes. -/
def findBreakTarget (name : Option String) : SessionM JumpTarget := do
  let s ← get
  let some id := s.regions.breakTarget? name | throw (.noBreakTarget name)
  let some region := s.regions.get? id | throw (.noBreakTarget name)
  let some target := region.breakTarget? | throw (.noBreakTarget name)
  if target.native then
    return .native
  if target.label.isSome then
    noteReference target.label
    return .label target.label
  let (label, labels) := s.labels.define
  set { s with labels, regions := s.regions.replace id (region.setBreakLabel label) }
  noteReference label
  return .label label

/-- Where a `continue`, with a source label or with none, goes. -/
def findContinueTarget (name : Option String) : SessionM JumpTarget := do
  let s ← get
  let some id := s.regions.continueTarget? name | throw (.noContinueTarget name)
  let some (target, continueLabel) := s.regions.get? id >>= Region.loop?
    | throw (.noContinueTarget name)
  if target.native then
    return .native
  noteReference continueLabel
  return .label continueLabel

end Resumable.Session
