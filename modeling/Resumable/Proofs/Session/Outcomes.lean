import Resumable.Proofs.Session.Recording

/-!
# Calls, whatever their outcome

A session goes on after a call that failed, so what a session may rely on has to be kept by
calls of both outcomes. `Leaves` relates the session before a call to the one that the call
leaves behind. A relation that `Tolerant` describes holds across every request that leaves the
regions alone and marks no label of the driver's: it is enough to look at a reference that is
noted, at the entry label and at an operation that is recorded.
-/

namespace Resumable

/-- The request neither opens nor closes a region, and neither defines nor marks a label, the
entry label apart. -/
def Request.isQuiet : Request → Bool
  | .defineLabel | .markLabel _ | .findBreakTarget _ | .beginException | .beginCatch _
  | .beginFinally | .endException | .beginScope _ | .endScope | .beginBreakable .. | .endBreakable
  | .beginLoop .. | .endLoop | .beginNativeBreakable .. | .endNativeBreakable
  | .beginNativeLoop _ | .endNativeLoop => false
  | _ => true

namespace Session

variable {α β : Type} {s s' : Session}

/-- The call leaves a session behind, whether it succeeds or not. -/
def Leaves (call : SessionM α) (s s' : Session) : Prop := ∃ r, (perform call s r).2.1 = s'

namespace Leaves

theorem of_bind {x : SessionM α} {f : α → SessionM β} (h : Leaves (x >>= f) s s') :
    Leaves x s s' ∨ ∃ a s₁, Answers x s a s₁ ∧ Leaves (f a) s₁ s' := by
  obtain ⟨r, h⟩ := h
  rw [perform_bind] at h
  split at h
  · next a s₁ r₁ hx => exact Or.inr ⟨a, s₁, ⟨r, r₁, hx⟩, r₁, h⟩
  · next e s₁ r₁ hx => exact Or.inl ⟨r, by rw [hx]; exact h⟩

theorem of_answers {call : SessionM α} {a : α} (h : Answers call s a s') : Leaves call s s' := by
  obtain ⟨r, r', h⟩ := h
  exact ⟨r, by rw [h]⟩

theorem of_pure {a : α} (h : Leaves (pure a) s s') : s' = s := by
  obtain ⟨r, rfl⟩ := h
  rfl

theorem of_throw {e : LoweringError} (h : Leaves (throw e : SessionM α) s s') : s' = s := by
  obtain ⟨r, rfl⟩ := h
  rfl

theorem of_throw_bind {e : LoweringError} {f : α → SessionM β}
    (h : Leaves (MonadExcept.throw e >>= f) s s') : s' = s := by
  rcases h.of_bind with h | ⟨a, s₁, h, -⟩
  · exact h.of_throw
  · exact h.of_throw.elim

theorem of_get_bind {f : Session → SessionM β} (h : Leaves (get >>= f) s s') :
    Leaves (f s) s s' := by
  obtain ⟨r, rfl⟩ := h
  exact ⟨r, rfl⟩

theorem of_set {t : Session} (h : Leaves (set t : SessionM PUnit) s s') : s' = t := by
  obtain ⟨r, rfl⟩ := h
  rfl

theorem of_modify {f : Session → Session} (h : Leaves (modify f : SessionM PUnit) s s') :
    s' = f s := by
  obtain ⟨r, rfl⟩ := h
  rfl

theorem of_modifyGet {f : Session → α × Session} (h : Leaves (modifyGet f : SessionM α) s s') :
    s' = (f s).2 := by
  obtain ⟨r, rfl⟩ := h
  rfl

theorem of_requireFunction {call : FunctionCall} (h : Leaves (requireFunction call) s s') :
    s' = s := by
  unfold requireFunction at h
  have h := h.of_get_bind
  split at h
  · exact h.of_throw
  · exact h.of_pure

theorem of_updateLabels {change : LabelTable → Except LoweringError LabelTable}
    (h : Leaves (updateLabels change) s s') :
    (∃ labels, change s.labels = .ok labels ∧ s' = { s with labels }) ∨
      (∃ e, change s.labels = .error e) ∧ s' = s := by
  unfold updateLabels at h
  have h := h.of_get_bind
  split at h
  · next labels heq => exact Or.inl ⟨labels, heq, h.of_modify⟩
  · next e heq => exact Or.inr ⟨⟨e, heq⟩, h.of_throw⟩

theorem of_naming {action : Name.AllocatorM α} (h : Leaves (naming action) s s') :
    ∃ names, s' = { s with names } := by
  obtain ⟨r, rfl⟩ := h
  exact ⟨_, rfl⟩

theorem exists_emission {op : Operation} (h : Leaves (emit op) s s') :
    ∃ outcome, Emission op s outcome s' := by
  obtain ⟨r, rfl⟩ := h
  exact ⟨_, emission_of_emit rfl⟩

end Leaves

/-- Once there is a name for the state, it stays. -/
def Remembers (s s' : Session) : Prop := ∀ name, s.state = some name → s'.state = some name

/-- The relation does not look at names, spans and declarations, and holds across what a quiet
request does otherwise. -/
structure Tolerant (R : Session → Session → Prop) : Prop where
  trans : ∀ {s s₁ s'}, R s s₁ → R s₁ s' → R s s'
  inert : ∀ {s s' : Session}, s'.recorder.mode = s.recorder.mode →
    s'.recorder.operations = s.recorder.operations → s'.labels = s.labels →
    s'.regions = s.regions → Remembers s s' → R s s'
  note : ∀ {s : Session} {l labels}, s.labels.noteReference l = .ok labels → R s { s with labels }
  entry : ∀ {s : Session}, s.recorder.operations = [] → s.labels.entries = [] →
    R s { s with labels := entryLabels }
  record : ∀ {s : Session} {op}, op.code.isLegalIn s.recorder.mode = true →
    (∀ l, op.target? = some l → (s.labels.find? l).isSome = true) → op.isIdle = false →
    R s (s.push op)

/-- The relation holds between the sessions before and after the call. -/
def Across (R : Session → Session → Prop) (call : SessionM α) : Prop :=
  ∀ s s', Leaves call s s' → R s s'

section Across

variable {R : Session → Session → Prop}

namespace Across

theorem get_bind {f : Session → SessionM β} (hf : ∀ s, Across R (f s)) : Across R (get >>= f) :=
  fun s s' h => hf s s s' h.of_get_bind

theorem modify {f : Session → Session} (hf : ∀ s, R s (f s)) :
    Across R (modify f : SessionM PUnit) := by
  intro s s' h
  rw [h.of_modify]
  exact hf s

theorem modifyGet {f : Session → α × Session} (hf : ∀ s, R s (f s).2) :
    Across R (modifyGet f : SessionM α) := by
  intro s s' h
  rw [h.of_modifyGet]
  exact hf s

end Across

/-- The relation holds where nothing happens, and over one step after another. -/
structure Composes (R : Session → Session → Prop) : Prop where
  refl : ∀ s, R s s
  trans : ∀ {s s₁ s'}, R s s₁ → R s₁ s' → R s s'

namespace Composes

variable (hR : Composes R)

include hR

theorem pure (a : α) : Across R (pure a) := by
  intro s s' h
  rw [h.of_pure]
  exact hR.refl s

theorem throw (e : LoweringError) : Across R (throw e : SessionM α) := by
  intro s s' h
  rw [h.of_throw]
  exact hR.refl s

theorem throw_bind (e : LoweringError) (f : α → SessionM β) :
    Across R (MonadExcept.throw e >>= f) := by
  intro s s' h
  rw [h.of_throw_bind]
  exact hR.refl s

theorem bind {x : SessionM α} {f : α → SessionM β} (hx : Across R x) (hf : ∀ a, Across R (f a)) :
    Across R (x >>= f) := by
  intro s s' h
  rcases h.of_bind with h | ⟨a, s₁, h₁, h₂⟩
  · exact hx s s' h
  · exact hR.trans (hx s s₁ (.of_answers h₁)) (hf a s₁ s' h₂)

theorem requireFunction (call : FunctionCall) : Across R (requireFunction call) := by
  intro s s' h
  rw [h.of_requireFunction]
  exact hR.refl s

/-- Past the check for the mode. -/
theorem function {call : FunctionCall} {f : SessionM α} (hf : Across R f) :
    Across R (Session.requireFunction call >>= fun _ => f) :=
  hR.bind (hR.requireFunction call) fun _ => hf

theorem discard {call : SessionM α} (hcall : Across R call) : Across R (Functor.discard call) :=
  hR.bind hcall fun _ => hR.pure _

theorem reply {call : SessionM α} (hcall : Across R call) (answer : α → Reply) :
    Across R (do return answer (← call)) := hR.bind hcall fun _ => hR.pure _

section Skeletons

theorem placeLabel (hdefine : Across R defineLabel) (hmark : ∀ l, Across R (markLabel l)) :
    Across R placeLabel :=
  hR.bind hdefine fun l => hR.bind (hmark l) fun _ => hR.pure _

/-- The labels of a region that is opened are defined, and the first of them is marked. -/
theorem bounds (hdefine : Across R defineLabel) (hmark : ∀ l, Across R (markLabel l))
    {f : Label → Label → SessionM α} (hf : ∀ start stop, Across R (f start stop)) :
    Across R (do
      let start ← defineLabel
      let stop ← defineLabel
      markLabel start
      f start stop) :=
  hR.bind hdefine fun start => hR.bind hdefine fun stop =>
    hR.bind (hmark start) fun _ => hf start stop

theorem emitAssignments (hassign : ∀ target value, Across R (emit (.assign target value)))
    (assignments : List (Node × Node)) : Across R (emitAssignments assignments) := by
  induction assignments with
  | nil => exact hR.pure ()
  | cons assignment rest ih => exact hR.bind (hassign _ _) fun _ => ih

theorem currentException (requested : Phase) : Across R (currentException requested) := by
  apply Across.get_bind
  intro s
  split
  · exact hR.throw _
  · split
    · exact hR.throw _
    · split
      · exact hR.pure _
      · exact hR.throw _

theorem beginFinally (hjump : ∀ l, Across R (emit (.jump l)))
    (hplace : Across R Session.placeLabel)
    (hupdate : ∀ id region, Across R (updateException id region)) : Across R beginFinally :=
  hR.function (hR.bind (hR.currentException _) fun _ => hR.bind (hjump _) fun _ =>
    hR.bind hplace fun _ => hupdate _ _)

theorem beginCatch (hjump : ∀ l, Across R (emit (.jump l)))
    (hassign : ∀ target value, Across R (emit (.assign target value)))
    (hplace : Across R Session.placeLabel)
    (hupdate : ∀ id region, Across R (updateException id region))
    (hstate : Across R stateName) (name : String) : Across R (beginCatch name) :=
  hR.function (hR.bind (hR.currentException _) fun _ => hR.bind (hjump _) fun _ =>
    hR.bind hplace fun _ => hR.bind (hupdate _ _) fun _ =>
      hR.bind (hR.bind hstate fun _ => hR.pure _) fun _ => hassign _ _)

theorem endException (hleave : Across R (leaveRegion .exception))
    (hjump : ∀ l, Across R (emit (.jump l))) (hend : Across R (emit .endFinally))
    (hmark : ∀ l, Across R (markLabel l))
    (hupdate : ∀ id region, Across R (updateException id region)) : Across R endException := by
  refine hR.function (hR.bind hleave fun id => Across.get_bind fun s => ?_)
  have hclose : ∀ (op : Operation) (r : ExceptionRegion), Across R (emit op) → Across R (do
      emit op
      markLabel r.stop
      updateException id { r with phase := .done }) := fun op r hemit =>
    hR.bind hemit fun _ => hR.bind (hmark _) fun _ => hupdate id _
  split
  · exact hR.throw _
  · dsimp only
    split
    · exact hclose _ _ (hjump _)
    · exact hclose _ _ hend

theorem endScope (hleave : Across R (leaveRegion .scope)) (hmark : ∀ l, Across R (markLabel l)) :
    Across R endScope := by
  refine hR.function (hR.bind hleave fun id => Across.get_bind fun s => ?_)
  split
  · exact hmark _
  · exact hR.pure _

theorem markBreakLabel (hmark : ∀ l, Across R (markLabel l)) (id : RegionId) :
    Across R (markBreakLabel id) := by
  apply Across.get_bind
  intro s
  split
  · split
    · exact hmark _
    · exact hR.pure _
  · exact hR.pure _

/-- A label is noted that is asked for the first time or was asked for before. -/
theorem findBreakTarget (hnote : ∀ l, Across R (noteReference l))
    (hnamed : ∀ (s : Session) (id : RegionId) (region : Region), R s { s with
      labels := s.labels.define.2
      regions := s.regions.replace id (region.setBreakLabel s.labels.define.1) })
    (name : Option String) : Across R (findBreakTarget name) := by
  have hnote : ∀ l : Label, Across R (do
      noteReference l
      return JumpTarget.label l) := fun l => hR.bind (hnote l) fun _ => hR.pure _
  intro s s' h
  have h := h.of_get_bind
  split at h
  · next id hid =>
    split at h
    · next region hget =>
      split at h
      · split at h
        · exact hR.pure _ s s' h
        · split at h
          · exact hnote _ s s' h
          · rcases h.of_bind with h | ⟨u, s₁, hset, h⟩
            · rw [h.of_set]
              exact hnamed s id region
            · refine hR.trans ?_ (hnote _ s₁ s' h)
              rw [hset.of_set]
              exact hnamed s id region
      · exact hR.throw _ s s' h
    · exact hR.throw _ s s' h
  · exact hR.throw _ s s' h

theorem findContinueTarget (hnote : ∀ l, Across R (noteReference l)) (name : Option String) :
    Across R (findContinueTarget name) := by
  apply Across.get_bind
  intro s
  split
  · split
    · split
      · exact hR.pure _
      · exact hR.bind (hnote _) fun _ => hR.pure _
    · exact hR.throw _
  · exact hR.throw _

theorem buildStatements (hstate : Across R stateName) (forceReturn : Bool) :
    Across R (buildStatements forceReturn) := by
  have hbody : Across R bodyState := by
    apply Across.get_bind
    intro s
    split
    · exact hstate
    · exact hR.pure _
  apply Across.get_bind
  intro s
  dsimp only
  split
  · exact hR.throw_bind _ _
  · refine hR.bind hbody fun state => Across.get_bind fun s => ?_
    split
    · exact hR.pure _
    · exact hR.throw _

theorem buildFunction (hstate : Across R stateName)
    (hresolve : ∀ preferred registered, Across R (createUniqueIdentifier preferred registered))
    (shape : FunctionShape) (name : Option String) : Across R (buildFunction shape name) := by
  refine hR.function ?_
  dsimp only
  split
  · exact hR.throw_bind _ _
  · refine hR.bind (hR.buildStatements hstate true) fun body => hR.bind hstate fun state =>
      Across.get_bind fun s => ?_
    split
    · exact hR.bind (hresolve _ _) fun _ => hR.bind (hR.pure _) fun _ => hR.pure _
    · exact hR.bind (hR.pure _) fun _ => hR.pure _

end Skeletons

end Composes

namespace Tolerant

variable (hR : Tolerant R)

include hR

theorem refl (s : Session) : R s s := hR.inert rfl rfl rfl rfl fun _ h => h

theorem composes : Composes R := ⟨hR.refl, hR.trans⟩

theorem pure (a : α) : Across R (pure a) := hR.composes.pure a

theorem throw (e : LoweringError) : Across R (throw e : SessionM α) := hR.composes.throw e

theorem throw_bind (e : LoweringError) (f : α → SessionM β) :
    Across R (MonadExcept.throw e >>= f) := hR.composes.throw_bind e f

theorem bind {x : SessionM α} {f : α → SessionM β} (hx : Across R x) (hf : ∀ a, Across R (f a)) :
    Across R (x >>= f) := hR.composes.bind hx hf

theorem requireFunction (call : FunctionCall) : Across R (requireFunction call) :=
  hR.composes.requireFunction call

theorem noteReference (l : Label) : Across R (noteReference l) := by
  intro s s' h
  rcases h.of_updateLabels with ⟨labels, hlabels, rfl⟩ | ⟨-, rfl⟩
  · exact hR.note hlabels
  · exact hR.refl s'

theorem report (location : Option Span) (notice : Notice) (arguments : List String) :
    Across R (report location notice arguments) :=
  Across.modify fun _ => hR.inert rfl rfl rfl rfl fun _ h => h

theorem prepares {s₁ : Session} (h : Prepares s s₁) : R s s₁ := by
  induction h with
  | refl s => exact hR.refl s
  | note noted later ih => exact hR.trans (hR.note noted) ih
  | @report s _ diagnostics later ih =>
    have hreported : R s { s with diagnostics } := hR.inert rfl rfl rfl rfl fun _ h => h
    exact hR.trans hreported ih
  | entry operations labels later ih => exact hR.trans (hR.entry operations labels) ih

theorem emit (op : Operation) : Across R (emit op) := by
  intro s s' h
  obtain ⟨outcome, hemission⟩ := h.exists_emission
  cases hemission with
  | refused why => exact hR.refl s
  | @placed s₁ legal target prepares =>
    refine hR.trans (hR.prepares prepares) ?_
    rw [← emitted_congr prepares.recorder, emitted]
    cases hidle : op.isIdle with
    | true => exact hR.inert rfl rfl rfl rfl fun _ h => h
    | false =>
      refine hR.record ?_ (fun l hl => prepares.isSome_find? (target l hl)) hidle
      rw [prepares.recorder]
      exact legal

theorem emitAssignments (assignments : List (Node × Node)) :
    Across R (emitAssignments assignments) :=
  hR.composes.emitAssignments (fun _ _ => hR.emit _) assignments

theorem naming (action : Name.AllocatorM α) : Across R (naming action) := by
  intro s s' h
  obtain ⟨names, rfl⟩ := h.of_naming
  exact hR.inert rfl rfl rfl rfl fun _ h => h

theorem takeLocation : Across R takeLocation :=
  Across.modifyGet fun _ => hR.inert rfl rfl rfl rfl fun _ h => h

theorem writeLocation (span : Span) : Across R (writeLocation span) :=
  Across.modify fun _ => hR.inert rfl rfl rfl rfl fun _ h => h

theorem takeDiagnostics : Across R takeDiagnostics :=
  Across.modifyGet fun _ => hR.inert rfl rfl rfl rfl fun _ h => h

theorem addFunction (declaration : Node) : Across R (addFunction declaration) :=
  hR.bind (hR.requireFunction _) fun _ =>
    Across.modify fun _ => hR.inert rfl rfl rfl rfl fun _ h => h

theorem located (node : Node) : Across R (located node) :=
  hR.bind hR.takeLocation fun _ => hR.pure _

theorem stateName : Across R stateName := by
  intro s s' h
  unfold Session.stateName at h
  have h := h.of_get_bind
  split at h
  · exact hR.pure _ s s' h
  · next hnone =>
    rcases h.of_bind with h | ⟨name, s₁, hname, hrest⟩
    · exact hR.naming _ s s' h
    · obtain ⟨names, rfl⟩ := hname.of_naming
      have hnew : R s { s with names, state := some name } :=
        hR.inert rfl rfl rfl rfl fun _ hold => by rw [hnone] at hold; cases hold
      rcases hrest.of_bind with hset | ⟨u, s₂, hset, hlast⟩
      · rw [hset.of_modify]
        exact hnew
      · rw [hlast.of_pure, hset.of_modify]
        exact hnew

theorem stateField (field : StateField) : Across R (stateField field) :=
  hR.bind hR.stateName fun _ => hR.pure _

theorem addParameter (parameter : Parameter Node) : Across R (addParameter parameter) := by
  refine hR.bind (hR.requireFunction _) fun _ => hR.bind hR.takeLocation fun location => ?_
  have hadd : Across R (MonadStateOf.modifyGet fun s : Session => ((), { s with
      parameters := s.parameters ++ [{ parameter with default := none }] }) : SessionM PUnit) :=
    Across.modify fun _ => hR.inert rfl rfl rfl rfl fun _ h => h
  dsimp only
  split
  · exact hR.bind (hR.report _ _ _) fun _ => hadd
  · exact hadd

theorem buildStatements (forceReturn : Bool) : Across R (buildStatements forceReturn) :=
  hR.composes.buildStatements hR.stateName forceReturn

theorem buildFunction (shape : FunctionShape) (name : Option String) :
    Across R (buildFunction shape name) :=
  hR.composes.buildFunction hR.stateName (fun _ _ => hR.naming _) shape name

theorem findContinueTarget (name : Option String) : Across R (findContinueTarget name) :=
  hR.composes.findContinueTarget hR.noteReference name

theorem reply {call : SessionM α} (hcall : Across R call) (answer : α → Reply) :
    Across R (do return answer (← call)) := hR.composes.reply hcall answer

/-- The relation holds across every quiet request. -/
theorem run {request : Request} (hquiet : request.isQuiet = true) : Across R request.run := by
  cases request with
  | writeLocation span => exact hR.reply (hR.writeLocation span) fun _ => .done
  | emit op => exact hR.reply (hR.emit op) fun _ => .done
  | createInlineBreak label =>
    exact hR.reply (hR.bind (hR.requireFunction _) fun _ =>
      hR.bind (hR.noteReference label) fun _ =>
      Across.get_bind fun _ => hR.located _) .node
  | createInlineReturn value =>
    exact hR.reply (hR.bind (hR.requireFunction _) fun _ => Across.get_bind fun _ => hR.located _)
      .node
  | createResume =>
    exact hR.reply (hR.bind (hR.requireFunction _) fun _ => hR.stateField _) .node
  | findContinueTarget name => exact hR.reply (hR.findContinueTarget name) .target
  | createUniqueIdentifier preferred registered => exact hR.reply (hR.naming _) .name
  | declareLocal preferred registered => exact hR.reply (hR.naming _) .name
  | addVariable name =>
    exact hR.reply (hR.bind (hR.requireFunction _) fun _ => hR.naming _) fun _ => .done
  | addParameter parameter => exact hR.reply (hR.addParameter parameter) fun _ => .done
  | addFunction declaration => exact hR.reply (hR.addFunction declaration) fun _ => .done
  | ensureIdentifier expression =>
    exact hR.reply (hR.bind (hR.naming _) fun _ => hR.bind (hR.emitAssignments _) fun _ =>
      hR.pure _) .node
  | valueOrDefault value default =>
    exact hR.reply (hR.bind (hR.naming _) fun _ => hR.bind (hR.emitAssignments _) fun _ =>
      hR.pure _) .node
  | stateName => exact hR.reply hR.stateName .name
  | takeDiagnostics => exact hR.reply hR.takeDiagnostics .diagnostics
  | buildStatements forceReturn => exact hR.reply (hR.buildStatements forceReturn) .body
  | buildFunction shape name => exact hR.reply (hR.buildFunction shape name) .node
  | defineLabel | markLabel label | findBreakTarget name | beginException | beginCatch name
  | beginFinally | endException | beginScope holder | endScope | beginBreakable names needsName
  | endBreakable | beginLoop continueLabel names | endLoop
  | beginNativeBreakable names needsName | endNativeBreakable | beginNativeLoop names
  | endNativeLoop => cases hquiet

end Tolerant

end Across

end Session

end Resumable
