import Resumable.Proofs.Session.Soundness

/-!
# Calls that fail

What is left of a session by a call that fails. A call checks what it is asked for before it
changes anything, so a failure leaves the session as it was. There is one way for a call to fail
half-way: a region is closed, and the label past its end was marked before.
-/

namespace Resumable

/-- The kind of region that the request closes, if it marks a label at the end of the region. -/
def Request.marking? : Request → Option RegionKind
  | .endException => some .exception
  | .endScope => some .scope
  | .endBreakable => some .breakable
  | .endLoop => some .loop
  | _ => none

namespace Session

variable {α β : Type} {s s' s₁ : Session} {e : LoweringError} {l : Label} {op : Operation}
  {id : RegionId} {rest : List RegionId} {region : Region} {kind : RegionKind}

/-- The call fails with an error, and leaves a session behind. -/
def Fails (call : SessionM α) (s : Session) (e : LoweringError) (s' : Session) : Prop :=
  ∃ r r', perform call s r = (.error e, s', r')

/-- Nothing but the names made up may differ. -/
structure Untouched (s s' : Session) : Prop where
  labels : s'.labels = s.labels
  regions : s'.regions = s.regions
  recorder : s'.recorder = s.recorder
  parameters : s'.parameters = s.parameters
  functions : s'.functions = s.functions
  declared : s'.declared = s.declared
  diagnostics : s'.diagnostics = s.diagnostics

namespace Untouched

theorem refl (s : Session) : Untouched s s := ⟨rfl, rfl, rfl, rfl, rfl, rfl, rfl⟩

theorem of_eq (h : s' = s) : Untouched s s' := h ▸ refl s'

theorem trans (h : Untouched s s₁) (h' : Untouched s₁ s') : Untouched s s' where
  labels := h'.labels.trans h.labels
  regions := h'.regions.trans h.regions
  recorder := h'.recorder.trans h.recorder
  parameters := h'.parameters.trans h.parameters
  functions := h'.functions.trans h.functions
  declared := h'.declared.trans h.declared
  diagnostics := h'.diagnostics.trans h.diagnostics

end Untouched

namespace Fails

/-- A sequence fails with its first part, or with its second on the session the first leaves. -/
theorem of_bind {x : SessionM α} {f : α → SessionM β} (h : Fails (x >>= f) s e s') :
    Fails x s e s' ∨ ∃ a s₁, Answers x s a s₁ ∧ Fails (f a) s₁ e s' := by
  obtain ⟨r, r', h⟩ := h
  rw [perform_bind] at h
  split at h
  · next a s₁ r₁ hx => exact .inr ⟨a, s₁, ⟨r, r₁, hx⟩, r₁, r', h⟩
  · next e₁ s₁ r₁ hx =>
    cases h
    exact .inl ⟨r, r', hx⟩

theorem of_throw {e' : LoweringError} (h : Fails (throw e' : SessionM α) s e s') :
    e = e' ∧ s' = s := by
  obtain ⟨r, r', h⟩ := h
  cases h
  exact ⟨rfl, rfl⟩

theorem of_throw_bind {e' : LoweringError} {f : α → SessionM β}
    (h : Fails (MonadExcept.throw e' >>= f) s e s') : e = e' ∧ s' = s := by
  rcases h.of_bind with h | ⟨a, s₁, h, -⟩
  · exact h.of_throw
  · exact h.of_throw.elim

theorem of_get_bind {f : Session → SessionM β} (h : Fails (get >>= f) s e s') :
    Fails (f s) s e s' := by
  obtain ⟨r, r', h⟩ := h
  exact ⟨r, r', h⟩

theorem of_pure {a : α} (h : Fails (pure a) s e s') : False := by
  obtain ⟨r, r', h⟩ := h
  cases h

theorem of_requireFunction {call : FunctionCall} (h : Fails (requireFunction call) s e s') :
    s' = s ∧ s.recorder.mode = .statements := by
  unfold requireFunction at h
  have h := h.of_get_bind
  split at h
  · next hmode => exact ⟨h.of_throw.2, hmode⟩
  · exact h.of_pure.elim

/-- Past the check for the mode, a call fails with what follows. -/
theorem of_requireFunction_bind {call : FunctionCall} {f : Unit → SessionM β}
    (h : Fails (requireFunction call >>= f) s e s') :
    s' = s ∧ s.recorder.mode = .statements ∨
      s.recorder.mode ≠ .statements ∧ Fails (f ()) s e s' := by
  rcases h.of_bind with hfirst | ⟨u, s₁, hfirst, hrest⟩
  · exact .inl hfirst.of_requireFunction
  · obtain rfl := hfirst.of_requireFunction
    refine .inr ⟨fun hmode => ?_, hrest⟩
    unfold requireFunction at hfirst
    have hfirst := hfirst.of_get_bind
    rw [if_pos (show s₁.mode = .statements from hmode)] at hfirst
    exact hfirst.of_throw

theorem of_updateLabels {change : LabelTable → Except LoweringError LabelTable}
    (h : Fails (updateLabels change) s e s') : change s.labels = .error e ∧ s' = s := by
  unfold updateLabels at h
  have h := h.of_get_bind
  split at h
  · obtain ⟨r, r', h⟩ := h
    cases h
  · next e₁ heq =>
    obtain ⟨rfl, rfl⟩ := h.of_throw
    exact ⟨heq, rfl⟩

end Fails

/-- The call does not fail. -/
def Sure (call : SessionM α) : Prop := ∀ s e s', ¬ Fails call s e s'

/-- A failure of the call leaves the session as it was. -/
def Atomic (call : SessionM α) : Prop := ∀ s e s', Fails call s e s' → Untouched s s'

namespace Sure

theorem pure (a : α) : Sure (pure a) := by
  rintro s e s' ⟨r, r', h⟩
  cases h

theorem get : Sure get := by
  rintro s e s' ⟨r, r', h⟩
  cases h

theorem modify (f : Session → Session) : Sure (modify f : SessionM PUnit) := by
  rintro s e s' ⟨r, r', h⟩
  cases h

theorem modifyGet (f : Session → α × Session) : Sure (modifyGet f : SessionM α) := by
  rintro s e s' ⟨r, r', h⟩
  cases h

theorem naming (action : Name.AllocatorM α) : Sure (naming action) := by
  rintro s e s' ⟨r, r', h⟩
  cases h

theorem bind {x : SessionM α} {f : α → SessionM β} (hx : Sure x) (hf : ∀ a, Sure (f a)) :
    Sure (x >>= f) := by
  intro s e s' h
  rcases h.of_bind with h | ⟨a, s₁, -, h⟩
  · exact hx s e s' h
  · exact hf a s₁ e s' h

theorem atomic {call : SessionM α} (h : Sure call) : Atomic call :=
  fun s e s' hf => (h s e s' hf).elim

theorem takeLocation : Sure takeLocation := modifyGet _

theorem report (location : Option Span) (notice : Notice) (arguments : List String) :
    Sure (report location notice arguments) := modify _

theorem located (node : Node) : Sure (located node) := takeLocation.bind fun _ => pure _

theorem stateName : Sure stateName := by
  apply get.bind
  intro s
  split
  · exact pure _
  · exact (naming _).bind fun _ => (modify _).bind fun _ => pure _

theorem stateField (field : StateField) : Sure (stateField field) :=
  stateName.bind fun _ => pure _

end Sure

namespace Atomic

theorem throw (e : LoweringError) : Atomic (throw e : SessionM α) :=
  fun _ _ _ h => .of_eq h.of_throw.2

theorem throw_bind (e : LoweringError) (f : α → SessionM β) :
    Atomic (MonadExcept.throw e >>= f) :=
  fun _ _ _ h => .of_eq h.of_throw_bind.2

/-- What follows the only step that can fail does not matter. -/
theorem bind {x : SessionM α} {f : α → SessionM β} (hx : Atomic x) (hf : ∀ a, Sure (f a)) :
    Atomic (x >>= f) := by
  intro s e s' h
  rcases h.of_bind with h | ⟨a, s₁, -, h⟩
  · exact hx s e s' h
  · exact (hf a s₁ e s' h).elim

theorem get_bind {f : Session → SessionM β} (hf : ∀ s, Atomic (f s)) : Atomic (get >>= f) :=
  fun s e s' h => hf s s e s' h.of_get_bind

theorem requireFunction_bind {call : FunctionCall} {f : Unit → SessionM β} (hf : Atomic (f ())) :
    Atomic (requireFunction call >>= f) := by
  intro s e s' h
  rcases h.of_requireFunction_bind with ⟨h, -⟩ | ⟨-, h⟩
  · exact .of_eq h
  · exact hf s e s' h

theorem updateLabels (change : LabelTable → Except LoweringError LabelTable) :
    Atomic (updateLabels change) :=
  fun _ _ _ h => .of_eq h.of_updateLabels.2

theorem noteReference (l : Label) : Atomic (noteReference l) := updateLabels _

end Atomic

section Steps

theorem not_isDefined_of_noteReference (h : Fails (noteReference l) s e s') : ¬ s.IsDefined l := by
  obtain ⟨h, -⟩ := Fails.of_updateLabels h
  unfold LabelTable.noteReference at h
  unfold IsDefined
  cases hf : s.labels.find? l with
  | none => simp
  | some entry => simp [hf] at h

/-- A label that is not defined cannot be marked, and neither can one that is marked. -/
theorem Fails.of_markLabel (h : Fails (markLabel l) s e s') :
    s' = s ∧ (s.recorder.mode = .statements ∨ ¬ s.IsDefined l ∨
      ∃ q, s.labels.position? l = some q ∧ e = .labelAlreadyMarked l q) := by
  unfold markLabel at h
  rcases h.of_requireFunction_bind with ⟨heq, hmode⟩ | ⟨-, hmark⟩
  · exact ⟨heq, .inl hmode⟩
  · obtain ⟨h, rfl⟩ := hmark.of_get_bind.of_updateLabels
    refine ⟨rfl, .inr ?_⟩
    unfold LabelTable.mark at h
    cases hf : s'.labels.find? l with
    | none => exact .inl (by simp [IsDefined, hf])
    | some entry =>
      cases hpos : entry.position with
      | none => simp [hf, hpos] at h
      | some q =>
        simp only [hf, hpos, Except.error.injEq] at h
        exact .inr ⟨q, by rw [LabelTable.position?, hf]; exact hpos, h.symm⟩

theorem not_fails_defineLabel (hmode : s.recorder.mode ≠ .statements) :
    ¬ Fails defineLabel s e s' := by
  intro h
  unfold defineLabel at h
  rcases h.of_requireFunction_bind with ⟨-, hstatements⟩ | ⟨-, hdefine⟩
  · exact hmode hstatements
  · exact Sure.modifyGet _ s e s' hdefine

theorem not_fails_markLabel_define {t : Session} (hmode : s.recorder.mode ≠ .statements)
    (ht : t = { s with labels := s.labels.define.2 }) :
    ¬ Fails (markLabel s.labels.define.1) t e s' := by
  intro h
  subst ht
  obtain ⟨-, hstatements | hundefined | ⟨q, hq, -⟩⟩ := h.of_markLabel
  · exact hmode hstatements
  · exact hundefined (by rw [IsDefined, LabelTable.find?_define_fresh]; rfl)
  · rw [LabelTable.position?, LabelTable.find?_define_fresh] at hq
    cases hq

/-- An operation is refused if the mode has no place for it or if it jumps to no label. -/
theorem Fails.of_emit (h : Fails (emit op) s e s') :
    s' = s ∧ (op.code.isLegalIn s.recorder.mode = false ∨
      ∃ l, op.target? = some l ∧ ¬ s.IsDefined l) := by
  obtain ⟨r, r', h⟩ := h
  cases emission_of_emit h with
  | refused why =>
    refine ⟨rfl, why.imp_right fun ⟨l, hl, hnone⟩ => ⟨l, hl, ?_⟩⟩
    simp [IsDefined, hnone]

theorem Sure.emit_assign (target value : Node) : Sure (emit (.assign target value)) := by
  intro s e s' h
  obtain ⟨-, hillegal | ⟨l, htarget, -⟩⟩ := h.of_emit
  · cases hillegal
  · cases htarget

theorem Sure.emitAssignments (assignments : List (Node × Node)) :
    Sure (emitAssignments assignments) := by
  induction assignments with
  | nil => exact .pure ()
  | cons assignment rest ih => exact (Sure.emit_assign _ _).bind fun _ => ih

theorem Fails.of_leaveRegion (h : Fails (leaveRegion kind) s e s') : s' = s := by
  unfold leaveRegion at h
  have h := h.of_get_bind
  split at h
  · rcases h.of_bind with hset | ⟨u, s₁, -, hlast⟩
    · obtain ⟨r, r', hset⟩ := hset
      cases hset
    · exact hlast.of_pure.elim
  · exact h.of_throw.2

theorem Sure.enterRegion (region : Region) : Sure (enterRegion region) := .modifyGet _

/-- A label can be defined and marked at once. -/
theorem not_fails_placeLabel (hmode : s.recorder.mode ≠ .statements) :
    ¬ Fails placeLabel s e s' := by
  intro h
  unfold placeLabel at h
  rcases h.of_bind with hdefine | ⟨label, s₁, hdefine, hrest⟩
  · exact not_fails_defineLabel hmode hdefine
  · obtain ⟨rfl, rfl⟩ := hdefine.defineLabel_eq
    rcases hrest.of_bind with hmark | ⟨u, s₂, -, hlast⟩
    · exact not_fails_markLabel_define hmode rfl hmark
    · exact hlast.of_pure

/-- The labels of a region can be defined, and the first of them marked. -/
theorem not_fails_opening {f : Label → Label → SessionM β} (hf : ∀ start stop, Sure (f start stop))
    (hmode : s.recorder.mode ≠ .statements) :
    ¬ Fails (do
      let start ← defineLabel
      let stop ← defineLabel
      markLabel start
      f start stop) s e s' := by
  intro h
  rcases h.of_bind with hstart | ⟨start, s₁, hstart, h₁⟩
  · exact not_fails_defineLabel hmode hstart
  obtain ⟨rfl, rfl⟩ := hstart.defineLabel_eq
  rcases h₁.of_bind with hstop | ⟨stop, s₂, hstop, h₂⟩
  · refine not_fails_defineLabel ?_ hstop
    exact hmode
  obtain ⟨rfl, rfl⟩ := hstop.defineLabel_eq
  rcases h₂.of_bind with hmark | ⟨u, s₃, -, hlast⟩
  · obtain ⟨-, hstatements | hundefined | ⟨q, hq, -⟩⟩ := hmark.of_markLabel
    · exact hmode hstatements
    · refine hundefined (LabelTable.isSome_find?_define ?_)
      rw [LabelTable.find?_define_fresh]
      rfl
    · have hnone : s.labels.define.2.define.2.position? s.labels.define.1 = none := by
        rw [LabelTable.position?_define, LabelTable.position?_define, LabelTable.position?,
          LabelTable.find?_define_eq_none]
        rfl
      rw [hnone] at hq
      cases hq
  · exact hf _ _ s₃ e s' hlast

end Steps

section Requests

/-- Making up a name changes nothing else. -/
theorem Answers.untouched_createUniqueIdentifier {preferred : Option String} {registered : Bool}
    {name : String} (h : Answers (createUniqueIdentifier preferred registered) s name s') :
    Untouched s s' := by
  obtain ⟨r, r', h⟩ := h
  cases registered <;> cases h <;> exact ⟨rfl, rfl, rfl, rfl, rfl, rfl, rfl⟩

theorem Answers.untouched_stateName {name : String} (h : Answers stateName s name s') :
    Untouched s s' := by
  unfold stateName at h
  have h := h.of_get_bind
  split at h
  · exact .of_eq h.of_pure.2
  · obtain ⟨name', s₁, hname, hrest⟩ := h.of_bind
    obtain ⟨u, s₂, hset, hlast⟩ := hrest.of_bind
    obtain ⟨-, rfl⟩ := hlast.of_pure
    obtain rfl := hset.of_modify
    exact hname.untouched_createUniqueIdentifier.trans ⟨rfl, rfl, rfl, rfl, rfl, rfl, rfl⟩

theorem Answers.untouched_bodyState {state : String} (h : Answers bodyState s state s') :
    Untouched s s' := by
  unfold bodyState at h
  have h := h.of_get_bind
  split at h
  · exact h.untouched_stateName
  · exact .of_eq h.of_pure.2

/-- Building a body changes nothing but the names made up. -/
theorem Answers.untouched_buildStatements {forceReturn : Bool} {body : Body}
    (h : Answers (buildStatements forceReturn) s body s') : Untouched s s' := by
  unfold buildStatements at h
  have h := h.of_get_bind
  dsimp only at h
  split at h
  · obtain ⟨u, s₁, hthrow, -⟩ := h.of_bind
    exact hthrow.of_throw.elim
  · obtain ⟨state, s₁, hstate, hrest⟩ := h.of_bind
    have hbuild := hrest.of_get_bind
    split at hbuild
    · obtain ⟨-, rfl⟩ := hbuild.of_pure
      exact hstate.untouched_bodyState
    · exact hbuild.of_throw.elim

theorem Atomic.buildStatements (forceReturn : Bool) : Atomic (buildStatements forceReturn) := by
  have hsure : Sure bodyState := by
    apply Sure.get.bind
    intro s
    split
    · exact .stateName
    · exact .pure _
  apply Atomic.get_bind
  intro s
  dsimp only
  split
  · exact .throw_bind _ _
  · intro s e s' h
    rcases h.of_bind with hstate | ⟨state, s₁, hstate, hrest⟩
    · exact (hsure s e s' hstate).elim
    · have hbuild := hrest.of_get_bind
      split at hbuild
      · exact hbuild.of_pure.elim
      · obtain ⟨-, rfl⟩ := hbuild.of_throw
        exact hstate.untouched_bodyState

theorem Atomic.buildFunction (shape : FunctionShape) (name : Option String) :
    Atomic (buildFunction shape name) := by
  apply Atomic.requireFunction_bind
  dsimp only
  split
  · exact .throw_bind _ _
  · refine (Atomic.buildStatements true).bind fun body => Sure.stateName.bind fun state =>
      Sure.get.bind fun s => ?_
    split
    · exact (Sure.naming _).bind fun _ => (Sure.pure _).bind fun _ => .pure _
    · exact (Sure.pure _).bind fun _ => .pure _

theorem Atomic.emit (op : Operation) : Atomic (emit op) := fun _ _ _ h => .of_eq h.of_emit.1

theorem Atomic.addParameter (parameter : Parameter Node) : Atomic (addParameter parameter) := by
  refine .requireFunction_bind (Sure.atomic (Sure.takeLocation.bind fun location => ?_))
  dsimp only
  split
  · exact (Sure.report _ _ _).bind fun _ => .modify _
  · exact .modify _

theorem Atomic.findContinueTarget (name : Option String) : Atomic (findContinueTarget name) := by
  apply Atomic.get_bind
  intro s
  split
  · split
    · split
      · exact (Sure.pure _).atomic
      · exact (Atomic.noteReference _).bind fun _ => .pure _
    · exact .throw _
  · exact .throw _

theorem Atomic.findBreakTarget (name : Option String) : Atomic (findBreakTarget name) := by
  intro s e s' h
  unfold Session.findBreakTarget at h
  have h := h.of_get_bind
  split at h
  · split at h
    · split at h
      · split at h
        · exact h.of_pure.elim
        · split at h
          · rcases h.of_bind with hnote | ⟨u, s₁, -, hlast⟩
            · exact Atomic.noteReference _ s e s' hnote
            · exact hlast.of_pure.elim
          · -- the label is new, so the reference to it can be noted
            rcases h.of_bind with ⟨r, r', hset⟩ | ⟨u, s₁, hset, hrest⟩
            · cases hset
            · obtain rfl := hset.of_set
              rcases hrest.of_bind with hnote | ⟨v, s₂, -, hlast⟩
              · refine (not_isDefined_of_noteReference hnote ?_).elim
                show (s.labels.define.2.find? s.labels.define.1).isSome = true
                rw [LabelTable.find?_define_fresh]
                rfl
              · exact hlast.of_pure.elim
      · exact .of_eq h.of_throw.2
    · exact .of_eq h.of_throw.2
  · exact .of_eq h.of_throw.2

theorem Atomic.beginException : Atomic beginException := by
  intro s e s' h
  unfold Session.beginException at h
  rcases h.of_requireFunction_bind with ⟨heq, -⟩ | ⟨hmode, h⟩
  · exact .of_eq heq
  · refine (not_fails_opening (fun start stop => ?_) hmode h).elim
    exact (Sure.bind (.enterRegion _) fun _ => .pure _).bind fun _ => .pure _

theorem Atomic.beginScope (holder : String) : Atomic (beginScope holder) := by
  intro s e s' h
  unfold Session.beginScope at h
  rcases h.of_requireFunction_bind with ⟨heq, -⟩ | ⟨hmode, h⟩
  · exact .of_eq heq
  · refine (not_fails_opening (fun start stop => ?_) hmode h).elim
    exact Sure.bind (.enterRegion _) fun _ => .pure _

theorem Fails.of_currentException {requested : Phase}
    (h : Fails (currentException requested) s e s') : s' = s := by
  unfold currentException at h
  have h := h.of_get_bind
  split at h
  · exact h.of_throw.2
  · split at h
    · exact h.of_throw.2
    · split at h
      · exact h.of_pure.elim
      · exact h.of_throw.2

/-- Beginning a handler fails before anything is recorded, or not at all. -/
theorem untouched_of_handler {requested : Phase}
    {f : RegionId → ExceptionRegion → Label → SessionM β}
    (hf : ∀ id r label, Sure (f id r label)) (hmode : s.recorder.mode ≠ .statements)
    (h : Fails (do
      let (id, region) ← currentException requested
      emit (.jump region.stop)
      let label ← placeLabel
      f id region label) s e s') : Untouched s s' := by
  rcases h.of_bind with hcurrent | ⟨⟨id, r⟩, s₁, hcurrent, h₁⟩
  · exact .of_eq hcurrent.of_currentException
  obtain ⟨rfl, -⟩ := hcurrent.of_currentException
  rcases h₁.of_bind with hjump | ⟨u, s₂, hjump, h₂⟩
  · exact .of_eq hjump.of_emit.1
  rcases h₂.of_bind with hplace | ⟨label, s₃, -, hlast⟩
  · refine (not_fails_placeLabel ?_ hplace).elim
    rw [hjump.of_emit.mode]
    exact hmode
  · exact (hf id r label s₃ e s' hlast).elim

theorem Atomic.beginCatch (name : String) : Atomic (beginCatch name) := by
  intro s e s' h
  unfold Session.beginCatch at h
  rcases h.of_requireFunction_bind with ⟨heq, -⟩ | ⟨hmode, h⟩
  · exact .of_eq heq
  · refine untouched_of_handler (f := fun id r label => do
      updateException id
        { r with phase := .catching, catchVariable := some name, catchLabel := label }
      Session.emit (.assign (.identifier name) (← Session.stateField .error)))
      (fun id r label => ?_) hmode h
    exact (Sure.modify _).bind fun _ => (Sure.stateField _).bind fun _ => .emit_assign _ _

theorem Atomic.beginFinally : Atomic beginFinally := by
  intro s e s' h
  unfold Session.beginFinally at h
  rcases h.of_requireFunction_bind with ⟨heq, -⟩ | ⟨hmode, h⟩
  · exact .of_eq heq
  · exact untouched_of_handler (f := fun id r label =>
      updateException id { r with phase := .finishing, finallyLabel := label })
      (fun id r label => .modify _) hmode h

end Requests

/-- What a failing request leaves behind: the session as it was, or a session in which the
innermost region is closed, though its last label was marked before. -/
inductive Failure (s s' : Session) (request : Request) (e : LoweringError) : Prop where
  | untouched (same : Untouched s s')
  | overtaken {kind : RegionKind} {id : RegionId} {rest : List RegionId} {region : Region}
      {l : Label} {q : Nat} (marking : request.marking? = some kind)
      (live : s.regions.live = id :: rest) (found : s.regions.get? id = some region)
      (ofKind : region.kind = kind) (owed : l ∈ region.owed)
      (marked : s'.labels.position? l = some q) (error : e = .labelAlreadyMarked l q)
      (regions : s'.regions = s.regions.closed id rest s.recorder.operations.length)
      (unmarked : s'.labels.unmarked = s.labels.unmarked)

section Closing

variable {request : Request}

/-- The label past the end of a closed region is defined, so it can only have been marked before. -/
theorem Fails.failure_of_markLabel (h : Fails (markLabel l) s₁ e s')
    (hmarking : request.marking? = some kind) (hlive : s.regions.live = id :: rest)
    (hget : s.regions.get? id = some region) (hkind : region.kind = kind) (howed : l ∈ region.owed)
    (hregions : s₁.regions = s.regions.closed id rest s.recorder.operations.length)
    (hunmarked : s₁.labels.unmarked = s.labels.unmarked)
    (hmode : s₁.recorder.mode ≠ .statements) (hdefined : s₁.IsDefined l) :
    Failure s s' request e := by
  obtain ⟨rfl, hstatements | hundefined | ⟨q, hq, he⟩⟩ := h.of_markLabel
  · exact absurd hstatements hmode
  · exact absurd hdefined hundefined
  · exact .overtaken hmarking hlive hget hkind howed hq he hregions hunmarked

/-- A label stays defined if it keeps its mark, or the lack of one. -/
theorem IsDefined.kept (h : s.IsDefined l)
    (hlabels : ∀ l q, s.labels.position? l = some q → s'.labels.position? l = some q)
    (hunmarked : ∀ l ∈ s.labels.unmarked, l ∈ s'.labels.unmarked) : s'.IsDefined l := by
  cases hpos : s.labels.position? l with
  | none =>
    have hmem := hunmarked l (LabelTable.mem_unmarked_iff.2 ⟨h, hpos⟩)
    exact (LabelTable.mem_unmarked_iff.1 hmem).1
  | some q =>
    obtain ⟨entry, hfind, -⟩ := Option.bind_eq_some_iff.1 (hlabels l q hpos)
    rw [IsDefined, hfind]
    rfl

/-- The operation that ends a closed block can be recorded, so only marking its end can fail. -/
theorem failure_of_close {r : ExceptionRegion} (hlive : s.regions.live = id :: rest)
    (hget : s.regions.get? id = some (.exception r)) (hmode : s.recorder.mode ≠ .statements)
    (hdefined : s.IsDefined r.stop)
    (hs₁ : s₁ = { s with regions := s.regions.closed id rest s.recorder.operations.length })
    (hlegal : op.code.isLegalIn s.recorder.mode = true)
    (htarget : ∀ l, op.target? = some l → l = r.stop)
    (h : Fails (do
      emit op
      markLabel r.stop
      updateException id { r with phase := .done }) s₁ e s') :
    Failure s s' .endException e := by
  subst hs₁
  rcases h.of_bind with hemit | ⟨u, s₂, hemit, hrest⟩
  · obtain ⟨-, hillegal | ⟨l, hl, hundefined⟩⟩ := hemit.of_emit
    · rw [show op.code.isLegalIn s.recorder.mode = false from hillegal] at hlegal
      cases hlegal
    · exact absurd hdefined (htarget l hl ▸ hundefined)
  · obtain ⟨hrecord, hunmarked⟩ := hemit.settles_emit
    have hdefined' : s₂.IsDefined r.stop :=
      hdefined.kept hrecord.labels fun l hl => by rw [hunmarked]; exact hl
    rcases hrest.of_bind with hmark | ⟨v, s₃, -, hlast⟩
    · refine hmark.failure_of_markLabel rfl hlive hget rfl (List.mem_singleton_self _)
        hrecord.regions hunmarked ?_ hdefined'
      rw [hrecord.mode]
      exact hmode
    · exact (Sure.modify _ _ _ _ hlast).elim

variable (hdefined : ∀ l ∈ s.regions.owed, s.IsDefined l)

include hdefined

theorem failure_of_endException (h : Fails endException s e s') :
    Failure s s' .endException e := by
  unfold endException at h
  rcases h.of_requireFunction_bind with ⟨heq, -⟩ | ⟨hmode, h⟩
  · exact .untouched (.of_eq heq)
  rcases h.of_bind with hleave | ⟨id, s₁, hleave, h₁⟩
  · exact .untouched (.of_eq hleave.of_leaveRegion)
  obtain ⟨region, hget, hkind, rest, hlive, hs₁⟩ := hleave.of_leaveRegion
  cases region with
  | exception r =>
    have hstop := hdefined r.stop (RegionStack.mem_owed (hlive ▸ List.mem_cons_self) hget
      (List.mem_singleton_self _))
    have hfound : (s₁.regions.get? id >>= Region.exception?) = some r := by
      rw [hs₁]
      exact congrArg (· >>= Region.exception?) hget
    have hfunction : s.recorder.mode = .stateMachine := by
      cases hm : s.recorder.mode with
      | statements => exact absurd hm hmode
      | stateMachine => rfl
    have h₂ := h₁.of_get_bind
    rw [hfound] at h₂
    dsimp only at h₂
    split at h₂
    · refine failure_of_close hlive hget hmode hstop hs₁ ?_ (fun l hl => ?_) h₂
      · rw [hfunction]
        rfl
      · exact (Option.some.inj hl).symm
    · refine failure_of_close hlive hget hmode hstop hs₁ ?_ (fun l hl => ?_) h₂
      · rw [hfunction]
        rfl
      · cases hl
  | scope r => cases hkind
  | breakable target => cases hn : target.native <;> simp [Region.kind, hn] at hkind
  | loop target label => cases hn : target.native <;> simp [Region.kind, hn] at hkind

theorem failure_of_endScope (h : Fails endScope s e s') : Failure s s' .endScope e := by
  unfold endScope at h
  rcases h.of_requireFunction_bind with ⟨heq, -⟩ | ⟨hmode, h⟩
  · exact .untouched (.of_eq heq)
  rcases h.of_bind with hleave | ⟨id, s₁, hleave, h₁⟩
  · exact .untouched (.of_eq hleave.of_leaveRegion)
  obtain ⟨region, hget, hkind, rest, hlive, rfl⟩ := hleave.of_leaveRegion
  have h₂ := h₁.of_get_bind
  split at h₂
  · next r hr =>
    obtain ⟨found, hfound, hscope⟩ := Option.bind_eq_some_iff.1 hr
    obtain rfl : region = found := Option.some.inj (hget.symm.trans hfound)
    have howed : r.stop ∈ region.owed := by
      cases region <;> cases hscope
      exact List.mem_singleton_self _
    have hstop := hdefined r.stop (RegionStack.mem_owed (hlive ▸ List.mem_cons_self) hget howed)
    exact h₂.failure_of_markLabel rfl hlive hget hkind howed rfl rfl hmode hstop
  · exact h₂.of_pure.elim

theorem failure_of_endTarget (hmarking : request.marking? = some kind)
    (hkind : kind = .breakable ∨ kind = .loop) (hmode : s.recorder.mode ≠ .statements)
    (h : Fails (do markBreakLabel (← leaveRegion kind)) s e s') : Failure s s' request e := by
  rcases h.of_bind with hleave | ⟨id, s₁, hleave, h₁⟩
  · exact .untouched (.of_eq hleave.of_leaveRegion)
  obtain ⟨region, hget, hof, rest, hlive, rfl⟩ := hleave.of_leaveRegion
  obtain ⟨target, htarget, hnative⟩ :=
    Region.exists_target_of_kind (hkind.imp hof.trans hof.trans)
  have hfound : (s.regions.get? id >>= Region.breakTarget?) = some target := by
    rw [hget]
    exact htarget
  unfold markBreakLabel at h₁
  have h₂ := h₁.of_get_bind
  split at h₂
  · next t ht =>
    obtain rfl : target = t := Option.some.inj (hfound.symm.trans ht)
    split at h₂
    · next hsome =>
      have howed : target.label ∈ region.owed := by
        rw [Region.owed_of_target htarget hnative, if_pos hsome]
        exact List.mem_singleton_self _
      have hlabel := hdefined _ (RegionStack.mem_owed (hlive ▸ List.mem_cons_self) hget howed)
      exact h₂.failure_of_markLabel hmarking hlive hget hof howed rfl rfl hmode hlabel
    · exact h₂.of_pure.elim
  · exact h₂.of_pure.elim

/-- A request that fails leaves the session as it was, or closes a region past which a label was
marked before. -/
theorem failure_of_fails (h : Fails request.run s e s') : Failure s s' request e := by
  have hreply : ∀ {α : Type} {call : SessionM α} {answer : α → Reply},
      Fails (do return answer (← call)) s e s' → Fails call s e s' := by
    intro α call answer h
    rcases h.of_bind with h | ⟨a, s₁, -, h⟩
    · exact h
    · exact h.of_pure.elim
  have hsure : ∀ {α : Type} {call : SessionM α}, Fails call s e s' → Sure call →
      Failure s s' request e := fun h hcall => (hcall s e s' h).elim
  have hatomic : ∀ {α : Type} {call : SessionM α}, Fails call s e s' → Atomic call →
      Failure s s' request e := fun h hcall => .untouched (hcall s e s' h)
  cases request with
  | writeLocation span => exact hsure (hreply h) (.modify _)
  | emit op => exact hatomic (hreply h) (.emit op)
  | defineLabel => exact hatomic (hreply h) (.requireFunction_bind (Sure.modifyGet _).atomic)
  | markLabel label =>
    exact hatomic (hreply h)
      (.requireFunction_bind (Atomic.get_bind fun s => Atomic.updateLabels _))
  | createInlineBreak label =>
    exact hatomic (hreply h) (.requireFunction_bind ((Atomic.noteReference label).bind fun _ =>
      Sure.get.bind fun _ => Sure.located _))
  | createInlineReturn value =>
    exact hatomic (hreply h) (.requireFunction_bind (Sure.get.bind fun _ => Sure.located _).atomic)
  | createResume => exact hatomic (hreply h) (.requireFunction_bind (Sure.stateField _).atomic)
  | beginException => exact hatomic (hreply h) .beginException
  | beginCatch name => exact hatomic (hreply h) (.beginCatch name)
  | beginFinally => exact hatomic (hreply h) .beginFinally
  | endException => exact failure_of_endException hdefined (hreply h)
  | beginScope holder => exact hatomic (hreply h) (.beginScope holder)
  | endScope => exact failure_of_endScope hdefined (hreply h)
  | beginBreakable names needsName =>
    exact hatomic (hreply h) (.requireFunction_bind
      ((Sure.enterRegion _).bind fun _ => .pure _).atomic)
  | endBreakable =>
    rcases (hreply h).of_requireFunction_bind with ⟨heq, -⟩ | ⟨hmode, hend⟩
    · exact .untouched (.of_eq heq)
    · exact failure_of_endTarget hdefined rfl (.inl rfl) hmode hend
  | beginLoop continueLabel names =>
    exact hatomic (hreply h) (.requireFunction_bind
      ((Sure.enterRegion _).bind fun _ => .pure _).atomic)
  | endLoop =>
    rcases (hreply h).of_requireFunction_bind with ⟨heq, -⟩ | ⟨hmode, hend⟩
    · exact .untouched (.of_eq heq)
    · exact failure_of_endTarget hdefined rfl (.inr rfl) hmode hend
  | beginNativeBreakable names needsName =>
    exact hsure (hreply h) ((Sure.enterRegion _).bind fun _ => .pure _)
  | endNativeBreakable =>
    exact hatomic (hreply h) (Atomic.bind (fun _ _ _ h => .of_eq h.of_leaveRegion) fun _ => .pure _)
  | beginNativeLoop names =>
    exact hsure (hreply h) ((Sure.enterRegion _).bind fun _ => .pure _)
  | endNativeLoop =>
    exact hatomic (hreply h) (Atomic.bind (fun _ _ _ h => .of_eq h.of_leaveRegion) fun _ => .pure _)
  | findBreakTarget name => exact hatomic (hreply h) (.findBreakTarget name)
  | findContinueTarget name => exact hatomic (hreply h) (.findContinueTarget name)
  | createUniqueIdentifier preferred registered => exact hsure (hreply h) (.naming _)
  | declareLocal preferred registered => exact hsure (hreply h) (.naming _)
  | addVariable name => exact hatomic (hreply h) (.requireFunction_bind (Sure.naming _).atomic)
  | addParameter parameter => exact hatomic (hreply h) (.addParameter parameter)
  | addFunction declaration =>
    exact hatomic (hreply h) (.requireFunction_bind (Sure.modify _).atomic)
  | ensureIdentifier expression =>
    exact hsure (hreply h) ((Sure.naming _).bind fun _ => (Sure.emitAssignments _).bind fun _ =>
      .pure _)
  | valueOrDefault value default =>
    exact hsure (hreply h) ((Sure.naming _).bind fun _ => (Sure.emitAssignments _).bind fun _ =>
      .pure _)
  | stateName => exact hsure (hreply h) .stateName
  | takeDiagnostics => exact hsure (hreply h) (.modifyGet _)
  | buildStatements forceReturn => exact hatomic (hreply h) (.buildStatements forceReturn)
  | buildFunction shape name => exact hatomic (hreply h) (.buildFunction shape name)

end Closing

end Session

end Resumable
