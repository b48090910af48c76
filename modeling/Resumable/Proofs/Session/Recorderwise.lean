import Resumable.Proofs.Session.Outcomes

/-!
# Calls and the recorder

Few steps of a call touch the recorder: an operation that is recorded, a span that is written and a
span that is used up. A relation between sessions that `Recorderwise` describes looks at nothing
else, so it holds across every call that takes none of these steps, and across the others as soon as
it holds across the operations that they record.
-/

namespace Resumable

/-- The request neither records an operation nor touches the span written last. -/
def Request.isSilent : Request → Bool
  | .writeLocation _ | .emit _ | .createInlineBreak _ | .createInlineReturn _ | .beginCatch _
  | .beginFinally | .endException | .addParameter _ | .ensureIdentifier _ | .valueOrDefault .. =>
    false
  | _ => true

namespace Session

variable {α : Type} {R : Session → Session → Prop}

/-- The relation holds whenever the recorder is the same. -/
structure Recorderwise (R : Session → Session → Prop) : Prop extends Composes R where
  still : ∀ {s s'}, s'.recorder = s.recorder → R s s'

/-- The finest such relation. -/
theorem recorderwise_eq : Recorderwise fun s s' => s'.recorder = s.recorder where
  refl _ := rfl
  trans h h' := h'.trans h
  still h := h

namespace Recorderwise

variable (hR : Recorderwise R)

include hR

section Steps

theorem updateLabels (change : LabelTable → Except LoweringError LabelTable) :
    Across R (updateLabels change) := by
  intro s s' h
  apply hR.still
  rcases h.of_updateLabels with ⟨labels, -, rfl⟩ | ⟨-, rfl⟩ <;> rfl

theorem defineLabel : Across R defineLabel :=
  hR.function (Across.modifyGet fun _ => hR.still rfl)

theorem markLabel (l : Label) : Across R (markLabel l) :=
  hR.function (Across.get_bind fun _ => hR.updateLabels _)

theorem noteReference (l : Label) : Across R (noteReference l) := hR.updateLabels _

theorem report (location : Option Span) (notice : Notice) (arguments : List String) :
    Across R (report location notice arguments) := Across.modify fun _ => hR.still rfl

theorem naming (action : Name.AllocatorM α) : Across R (naming action) := by
  intro s s' h
  obtain ⟨names, rfl⟩ := h.of_naming
  exact hR.still rfl

theorem stateName : Across R stateName := by
  apply Across.get_bind
  intro s
  split
  · exact hR.pure _
  · exact hR.bind (hR.naming _) fun _ =>
      hR.bind (Across.modify fun _ => hR.still rfl) fun _ => hR.pure _

theorem enterRegion (region : Region) : Across R (enterRegion region) :=
  Across.modifyGet fun _ => hR.still rfl

theorem leaveRegion (kind : RegionKind) : Across R (leaveRegion kind) := by
  intro s s' h
  apply hR.still
  have h := h.of_get_bind
  split at h
  · next id regions hleave =>
    rcases h.of_bind with h | ⟨u, s₁, hset, h⟩
    · rw [h.of_set]
    · rw [h.of_pure, hset.of_set]
  · rw [h.of_throw]

theorem updateException (id : RegionId) (region : ExceptionRegion) :
    Across R (updateException id region) := Across.modify fun _ => hR.still rfl

theorem placeLabel : Across R placeLabel := hR.toComposes.placeLabel hR.defineLabel hR.markLabel

end Steps

section Requests

/-- A region with labels of its own is opened. -/
theorem opened {f : Label → Label → SessionM α} (hf : ∀ start stop, Across R (f start stop)) :
    Across R (do
      let start ← Session.defineLabel
      let stop ← Session.defineLabel
      Session.markLabel start
      f start stop) := hR.bounds hR.defineLabel hR.markLabel hf

/-- A target of a `break` is closed. -/
theorem closed (kind : RegionKind) :
    Across R (do Session.markBreakLabel (← Session.leaveRegion kind)) :=
  hR.bind (hR.leaveRegion kind) (hR.markBreakLabel hR.markLabel)

/-- The relation holds across every silent request, whatever its outcome. -/
theorem run {request : Request} (hsilent : request.isSilent = true) : Across R request.run := by
  have hdone : ∀ {call : SessionM Unit}, Across R call → Across R (do call; return Reply.done) :=
    fun hcall => hR.reply hcall fun _ => .done
  cases request with
  | defineLabel => exact hR.reply hR.defineLabel .label
  | markLabel label => exact hdone (hR.markLabel label)
  | createResume =>
    exact hR.reply (hR.function (hR.bind hR.stateName fun _ => hR.pure _)) .node
  | beginException =>
    exact hR.reply (hR.function (hR.opened fun _ _ =>
      hR.bind (hR.discard (hR.enterRegion _)) fun _ => hR.pure _)) .label
  | beginScope holder =>
    exact hdone (hR.function (hR.opened fun _ _ => hR.discard (hR.enterRegion _)))
  | endScope => exact hdone (hR.endScope (hR.leaveRegion _) hR.markLabel)
  | beginBreakable names needsName =>
    exact hdone (hR.function (hR.discard (hR.enterRegion _)))
  | endBreakable => exact hdone (hR.function (hR.closed _))
  | beginLoop continueLabel names => exact hdone (hR.function (hR.discard (hR.enterRegion _)))
  | endLoop => exact hdone (hR.function (hR.closed _))
  | beginNativeBreakable names needsName => exact hdone (hR.discard (hR.enterRegion _))
  | endNativeBreakable => exact hdone (hR.discard (hR.leaveRegion _))
  | beginNativeLoop names => exact hdone (hR.discard (hR.enterRegion _))
  | endNativeLoop => exact hdone (hR.discard (hR.leaveRegion _))
  | findBreakTarget name =>
    exact hR.reply (hR.findBreakTarget hR.noteReference (fun _ _ _ => hR.still rfl) name) .target
  | findContinueTarget name =>
    exact hR.reply (hR.findContinueTarget hR.noteReference name) .target
  | createUniqueIdentifier preferred registered => exact hR.reply (hR.naming _) .name
  | declareLocal preferred registered => exact hR.reply (hR.naming _) .name
  | addVariable name => exact hdone (hR.function (hR.naming _))
  | addFunction declaration => exact hdone (hR.function (Across.modify fun _ => hR.still rfl))
  | stateName => exact hR.reply hR.stateName .name
  | takeDiagnostics => exact hR.reply (Across.modifyGet fun _ => hR.still rfl) .diagnostics
  | buildStatements forceReturn =>
    exact hR.reply (hR.buildStatements hR.stateName forceReturn) .body
  | buildFunction shape name =>
    exact hR.reply (hR.buildFunction hR.stateName (fun _ _ => hR.naming _) shape name) .node
  | writeLocation span | emit op | createInlineBreak label | createInlineReturn value
  | beginCatch name | beginFinally | endException | addParameter parameter
  | ensureIdentifier expression | valueOrDefault value default => cases hsilent

end Requests

end Recorderwise

end Session

end Resumable
