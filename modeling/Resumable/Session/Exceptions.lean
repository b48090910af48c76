import Resumable.Session.Naming

/-!
# Protected blocks

A protected block is laid out as its body, then its catch block, then its finally block,
each of them ended by a jump past the whole, so that none runs into the next. A finally
block is ended by the instruction that goes on with what was pending.
-/

namespace Resumable.Session

/-- Opens a region at the place the session has come to. -/
def enterRegion (region : Region) : SessionM RegionId :=
  modifyGet fun s =>
    let (id, regions) := s.regions.enter region s.recorder.position
    (id, { s with regions })

/-- Closes the innermost region, which has to be of the expected kind. -/
def leaveRegion (kind : RegionKind) : SessionM RegionId := do
  let s ← get
  match s.regions.leave kind s.recorder.position with
  | .ok (id, regions) =>
    set { s with regions }
    return id
  | .error e => throw e

/-- Defines a label and marks it at the next operation. -/
def placeLabel : SessionM Label := do
  let label ← defineLabel
  markLabel label
  return label

/-- Opens a protected block; the answer is the label past the whole. -/
def beginException : SessionM Label := do
  requireFunction .beginException
  let start ← defineLabel
  let stop ← defineLabel
  markLabel start
  discard <| enterRegion (.exception { start, stop })
  return stop

/-- The innermost region, which has to be an exception region that has not come as far as
the phase asked for. -/
def currentException (requested : Phase) : SessionM (RegionId × ExceptionRegion) := do
  let s ← get
  match s.regions.expect .exception with
  | .error e => throw e
  | .ok id =>
    match s.regions.get? id >>= Region.exception? with
    | none => throw (.regionMismatch .exception none)
    | some region =>
      if region.phase < requested then
        return (id, region)
      throw (.invalidTransition region.phase requested)

/-- Puts an exception region in the place of `id`. -/
def updateException (id : RegionId) (region : ExceptionRegion) : SessionM Unit :=
  modify fun s => { s with regions := s.regions.replace id (.exception region) }

/-- Begins the catch block, which finds the exception in the variable `name`. -/
def beginCatch (name : String) : SessionM Unit := do
  requireFunction .beginCatch
  let (id, region) ← currentException .catching
  emit (.jump region.stop)
  let label ← placeLabel
  updateException id
    { region with phase := .catching, catchVariable := some name, catchLabel := label }
  emit (.assign (.identifier name) (← stateField .error))

/-- Begins the finally block. -/
def beginFinally : SessionM Unit := do
  requireFunction .beginFinally
  let (id, region) ← currentException .finishing
  emit (.jump region.stop)
  let label ← placeLabel
  updateException id { region with phase := .finishing, finallyLabel := label }

/-- Closes the protected block. The region is closed first, so that the operation that ends
its last block belongs to the region around it. -/
def endException : SessionM Unit := do
  requireFunction .endException
  let id ← leaveRegion .exception
  match (← get).regions.get? id >>= Region.exception? with
  | none => throw (.regionMismatch .exception none)
  | some region =>
    if region.phase < .finishing then
      emit (.jump region.stop)
    else
      emit .endFinally
    markLabel region.stop
    updateException id { region with phase := .done }

end Resumable.Session
