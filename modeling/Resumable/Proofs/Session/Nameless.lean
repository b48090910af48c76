import Resumable.Proofs.Session.Outcomes

/-!
# Calls that make up no names

A relation that `Nameless` describes holds across every request that has no business with names,
parameters and declarations of variables, whatever the outcome: it is enough to look at the one
part of the session that each step changes. If it is `Tolerant` as well, then it holds across the
other requests too.
-/

namespace Resumable

/-- The request makes up a name, or is told of one to declare or to bind. -/
def Request.isNaming : Request → Bool
  | .createResume | .beginCatch _ | .createUniqueIdentifier .. | .declareLocal .. | .addVariable _
  | .addParameter _ | .ensureIdentifier _ | .valueOrDefault .. | .stateName | .buildStatements _
  | .buildFunction .. => true
  | _ => false

namespace Session

variable {α β : Type} {s s' : Session} {R : Session → Session → Prop}

/-- The relation holds across each step that changes one part of a session, where that part is
neither its names nor its parameters. -/
structure Nameless (R : Session → Session → Prop) : Prop where
  refl : ∀ s, R s s
  trans : ∀ {s s₁ s'}, R s s₁ → R s₁ s' → R s s'
  labels : ∀ s labels, R s { s with labels }
  recorder : ∀ s recorder, s.recorder.operations <+: recorder.operations →
    R s { s with recorder }
  diagnostics : ∀ s diagnostics, R s { s with diagnostics }
  functions : ∀ s functions, R s { s with functions }
  entered : ∀ s region,
    R s { s with regions := (s.regions.enter region s.recorder.operations.length).2 }
  left : ∀ s kind id regions,
    s.regions.leave kind s.recorder.operations.length = .ok (id, regions) → R s { s with regions }
  replaced : ∀ s id region, R s { s with regions := s.regions.replace id region }

namespace Nameless

/-- It is enough that the relation does not look further than to names, parameters and the kind. -/
theorem of_eq (heq : ∀ {s s' : Session}, s'.kind = s.kind → s'.names = s.names →
      s'.state = s.state → s'.parameters = s.parameters → R s s')
    (htrans : ∀ {s s₁ s'}, R s s₁ → R s₁ s' → R s s') : Nameless R where
  refl _ := heq rfl rfl rfl rfl
  trans := htrans
  labels _ _ := heq rfl rfl rfl rfl
  recorder _ _ _ := heq rfl rfl rfl rfl
  diagnostics _ _ := heq rfl rfl rfl rfl
  functions _ _ := heq rfl rfl rfl rfl
  entered _ _ := heq rfl rfl rfl rfl
  left _ _ _ _ _ := heq rfl rfl rfl rfl
  replaced _ _ _ := heq rfl rfl rfl rfl

variable (hR : Nameless R)

include hR

section Steps

theorem composes : Composes R := ⟨hR.refl, hR.trans⟩

theorem pure (a : α) : Across R (pure a) := hR.composes.pure a

theorem throw (e : LoweringError) : Across R (throw e : SessionM α) := hR.composes.throw e

theorem throw_bind (e : LoweringError) (f : α → SessionM β) :
    Across R (MonadExcept.throw e >>= f) := hR.composes.throw_bind e f

theorem bind {x : SessionM α} {f : α → SessionM β} (hx : Across R x) (hf : ∀ a, Across R (f a)) :
    Across R (x >>= f) := hR.composes.bind hx hf

theorem discard {call : SessionM RegionId} (hcall : Across R call) :
    Across R (Functor.discard call) := hR.composes.discard hcall

theorem reply {call : SessionM α} (hcall : Across R call) (answer : α → Reply) :
    Across R (do return answer (← call)) := hR.composes.reply hcall answer

/-- Past the check for the mode. -/
theorem function {call : FunctionCall} {f : SessionM α} (hf : Across R f) :
    Across R (requireFunction call >>= fun _ => f) := hR.composes.function hf

theorem updateLabels (change : LabelTable → Except LoweringError LabelTable) :
    Across R (updateLabels change) := by
  intro s s' h
  rcases h.of_updateLabels with ⟨labels, -, rfl⟩ | ⟨-, rfl⟩
  · exact hR.labels s labels
  · exact hR.refl s'

theorem defineLabel : Across R defineLabel :=
  hR.function (Across.modifyGet fun s => hR.labels s _)

theorem markLabel (l : Label) : Across R (markLabel l) :=
  hR.function (Across.get_bind fun _ => hR.updateLabels _)

theorem placeLabel : Across R placeLabel := hR.composes.placeLabel hR.defineLabel hR.markLabel

theorem noteReference (l : Label) : Across R (noteReference l) := hR.updateLabels _

theorem takeLocation : Across R takeLocation :=
  Across.modifyGet fun s => hR.recorder s _ (List.prefix_refl _)

theorem located (node : Node) : Across R (located node) :=
  hR.bind hR.takeLocation fun _ => hR.pure _

theorem enterRegion (region : Region) : Across R (enterRegion region) :=
  Across.modifyGet fun s => hR.entered s region

theorem leaveRegion (kind : RegionKind) : Across R (leaveRegion kind) := by
  intro s s' h
  have h := h.of_get_bind
  split at h
  · next id regions hleave =>
    have hleft := hR.left s kind id regions hleave
    rcases h.of_bind with h | ⟨u, s₁, hset, h⟩
    · rwa [h.of_set]
    · rwa [h.of_pure, hset.of_set]
  · rw [h.of_throw]
    exact hR.refl s

theorem updateException (id : RegionId) (region : ExceptionRegion) :
    Across R (updateException id region) := Across.modify fun s => hR.replaced s id _

theorem prepares {s s₁ : Session} (h : Prepares s s₁) : R s s₁ := by
  induction h with
  | refl s => exact hR.refl s
  | note noted later ih => exact hR.trans (hR.labels _ _) ih
  | report diagnostics later ih => exact hR.trans (hR.diagnostics _ _) ih
  | entry operations labels later ih => exact hR.trans (hR.labels _ _) ih

theorem emit (op : Operation) : Across R (emit op) := by
  intro s s' h
  obtain ⟨outcome, hemission⟩ := h.exists_emission
  cases hemission with
  | refused why => exact hR.refl s
  | @placed s₁ legal target prepares =>
    refine hR.trans (hR.prepares prepares) (hR.recorder s₁ _ ?_)
    rw [prepares.recorder, emitted]
    split
    · exact List.prefix_refl _
    · exact List.prefix_append _ _

theorem emitAssignments (assignments : List (Node × Node)) :
    Across R (emitAssignments assignments) :=
  hR.composes.emitAssignments (fun _ _ => hR.emit _) assignments

theorem findBreakTarget (name : Option String) : Across R (findBreakTarget name) :=
  hR.composes.findBreakTarget hR.noteReference
    (fun s id _ => hR.trans (hR.labels s s.labels.define.2) (hR.replaced _ id _)) name

end Steps

section Requests

theorem beginFinally : Across R beginFinally :=
  hR.composes.beginFinally (fun _ => hR.emit _) hR.placeLabel hR.updateException

theorem endException : Across R endException :=
  hR.composes.endException (hR.leaveRegion _) (fun _ => hR.emit _) (hR.emit _) hR.markLabel
    hR.updateException

theorem endTarget (kind : RegionKind) :
    Across R (do Session.markBreakLabel (← Session.leaveRegion kind)) :=
  hR.bind (hR.leaveRegion kind) (hR.composes.markBreakLabel hR.markLabel)

/-- A region with labels of its own is opened. -/
theorem opened {f : Label → Label → SessionM α} (hf : ∀ start stop, Across R (f start stop)) :
    Across R (do
      let start ← Session.defineLabel
      let stop ← Session.defineLabel
      Session.markLabel start
      f start stop) := hR.composes.bounds hR.defineLabel hR.markLabel hf

/-- The relation holds across every request that makes up no names. -/
theorem run {request : Request} (hnaming : request.isNaming = false) : Across R request.run := by
  have hdone : ∀ {call : SessionM Unit}, Across R call → Across R (do call; return Reply.done) :=
    fun hcall => hR.reply hcall fun _ => .done
  cases request with
  | writeLocation span => exact hdone (Across.modify fun s => hR.recorder s _ (List.prefix_refl _))
  | emit op => exact hdone (hR.emit op)
  | defineLabel => exact hR.reply hR.defineLabel .label
  | markLabel label => exact hdone (hR.markLabel label)
  | createInlineBreak label =>
    exact hR.reply (hR.function (hR.bind (hR.noteReference label) fun _ =>
      Across.get_bind fun _ => hR.located _)) .node
  | createInlineReturn value =>
    exact hR.reply (hR.function (Across.get_bind fun _ => hR.located _)) .node
  | beginException =>
    exact hR.reply (hR.function (hR.opened fun _ _ =>
      hR.bind (hR.discard (hR.enterRegion _)) fun _ => hR.pure _)) .label
  | beginFinally => exact hdone hR.beginFinally
  | endException => exact hdone hR.endException
  | beginScope holder =>
    exact hdone (hR.function (hR.opened fun _ _ => hR.discard (hR.enterRegion _)))
  | endScope => exact hdone (hR.composes.endScope (hR.leaveRegion _) hR.markLabel)
  | beginBreakable names needsName =>
    exact hdone (hR.function (hR.discard (hR.enterRegion _)))
  | endBreakable => exact hdone (hR.function (hR.endTarget _))
  | beginLoop continueLabel names => exact hdone (hR.function (hR.discard (hR.enterRegion _)))
  | endLoop => exact hdone (hR.function (hR.endTarget _))
  | beginNativeBreakable names needsName => exact hdone (hR.discard (hR.enterRegion _))
  | endNativeBreakable => exact hdone (hR.discard (hR.leaveRegion _))
  | beginNativeLoop names => exact hdone (hR.discard (hR.enterRegion _))
  | endNativeLoop => exact hdone (hR.discard (hR.leaveRegion _))
  | findBreakTarget name => exact hR.reply (hR.findBreakTarget name) .target
  | findContinueTarget name =>
    exact hR.reply (hR.composes.findContinueTarget hR.noteReference name) .target
  | addFunction declaration =>
    exact hdone (hR.function (Across.modify fun s => hR.functions s _))
  | takeDiagnostics => exact hR.reply (Across.modifyGet fun s => hR.diagnostics s _) .diagnostics
  | createResume | beginCatch name | createUniqueIdentifier preferred registered
  | declareLocal preferred registered | addVariable name | addParameter parameter
  | ensureIdentifier expression | valueOrDefault value default | stateName
  | buildStatements forceReturn | buildFunction shape name => cases hnaming

/-- The catch block asks for the state, last of all. -/
theorem beginCatch (hstate : Across R Session.stateName) (name : String) :
    Across R (beginCatch name) :=
  hR.composes.beginCatch (fun _ => hR.emit _) (fun _ _ => hR.emit _) hR.placeLabel
    hR.updateException hstate name

theorem buildStatements (hstate : Across R Session.stateName) (forceReturn : Bool) :
    Across R (buildStatements forceReturn) := hR.composes.buildStatements hstate forceReturn

theorem buildFunction (hstate : Across R Session.stateName)
    (hresolve : ∀ preferred registered, Across R (createUniqueIdentifier preferred registered))
    (shape : FunctionShape) (name : Option String) : Across R (buildFunction shape name) :=
  hR.composes.buildFunction hstate hresolve shape name

/-- If names do not matter to the relation either, it holds across every request. -/
theorem run_of_tolerant (hT : Tolerant R) (request : Request) : Across R request.run := by
  cases hnaming : request.isNaming with
  | false => exact hR.run hnaming
  | true =>
    cases request with
    | beginCatch name => exact hR.reply (hR.beginCatch hT.stateName name) fun _ => .done
    | createResume | createUniqueIdentifier preferred registered
    | declareLocal preferred registered | addVariable name | addParameter parameter
    | ensureIdentifier expression | valueOrDefault value default | stateName
    | buildStatements forceReturn | buildFunction shape name => exact hT.run rfl
    | _ => cases hnaming

end Requests

end Nameless

end Session

end Resumable
