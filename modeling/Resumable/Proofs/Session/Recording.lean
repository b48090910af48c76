import Resumable.Proofs.Session.Emission

/-!
# Calls that leave the regions alone

What a successful call does to the operations and the labels of a session when it has no
business with the regions: it adds operations, and it marks labels at most at the place the
session comes to.
-/

namespace Resumable.Session

/-- The second session comes from the first by recording the given operations. -/
structure Recording (s s' : Session) (ops : List Operation) : Prop where
  mode : s'.recorder.mode = s.recorder.mode
  regions : s'.regions = s.regions
  operations : ∃ more, s'.recorder.operations = s.recorder.operations ++ more ∧
    more.map Recorded.operation = ops
  labels : ∀ l q, s.labels.position? l = some q → s'.labels.position? l = some q
  marked : ∀ l q, s'.labels.position? l = some q →
    s.labels.position? l = some q ∨ q ≤ s'.recorder.operations.length

/-- A successful call only records. -/
def Quiet {α : Type} (call : SessionM α) : Prop :=
  ∀ s a s', Answers call s a s' → ∃ ops, Recording s s' ops

variable {α β : Type} {s s' s₁ : Session} {ops ops' : List Operation}

namespace Recording

/-- Labels are marked at most at the place the session is at, and nothing else changes. -/
theorem of_labels (hmode : s'.recorder.mode = s.recorder.mode) (hregions : s'.regions = s.regions)
    (hops : s'.recorder.operations = s.recorder.operations)
    (hlabels : ∀ l q, s.labels.position? l = some q → s'.labels.position? l = some q)
    (hmarked : ∀ l q, s'.labels.position? l = some q →
      s.labels.position? l = some q ∨ q ≤ s.recorder.operations.length) :
    Recording s s' [] where
  mode := hmode
  regions := hregions
  operations := ⟨[], by rw [hops, List.append_nil], rfl⟩
  labels := hlabels
  marked := by rw [hops]; exact hmarked

theorem refl (s : Session) : Recording s s [] :=
  .of_labels rfl rfl rfl (fun _ _ h => h) fun _ _ h => Or.inl h

theorem trans (h : Recording s s₁ ops) (h' : Recording s₁ s' ops') :
    Recording s s' (ops ++ ops') where
  mode := h'.mode.trans h.mode
  regions := h'.regions.trans h.regions
  operations := by
    obtain ⟨more, hmore, hops⟩ := h.operations
    obtain ⟨more', hmore', hops'⟩ := h'.operations
    exact ⟨more ++ more', by rw [hmore', hmore, List.append_assoc],
      by rw [List.map_append, hops, hops']⟩
  labels l q hq := h'.labels l q (h.labels l q hq)
  marked l q hq := by
    rcases h'.marked l q hq with hq | hq
    · rcases h.marked l q hq with hq | hq
      · exact Or.inl hq
      · obtain ⟨more', hmore', -⟩ := h'.operations
        refine Or.inr (Nat.le_trans hq ?_)
        rw [hmore', List.length_append]
        exact Nat.le_add_right _ _
    · exact Or.inr hq

end Recording

namespace Quiet

theorem pure (a : α) : Quiet (pure a) := by
  intro s b s' h
  obtain ⟨-, rfl⟩ := h.of_pure
  exact ⟨[], .refl s'⟩

theorem throw (e : LoweringError) : Quiet (throw e : SessionM α) :=
  fun _ _ _ h => h.of_throw.elim

theorem throw_bind (e : LoweringError) (f : α → SessionM β) :
    Quiet (MonadExcept.throw e >>= f) := by
  intro s b s' h
  obtain ⟨a, s₁, hthrow, -⟩ := h.of_bind
  exact hthrow.of_throw.elim

theorem get : Quiet get := by
  intro s t s' h
  obtain ⟨-, rfl⟩ := h.of_get
  exact ⟨[], .refl s'⟩

theorem bind {x : SessionM α} {f : α → SessionM β} (hx : Quiet x) (hf : ∀ a, Quiet (f a)) :
    Quiet (x >>= f) := by
  intro s b s' h
  obtain ⟨a, s₁, h₁, h₂⟩ := h.of_bind
  obtain ⟨ops, hr⟩ := hx s a s₁ h₁
  obtain ⟨ops', hr'⟩ := hf a s₁ b s' h₂
  exact ⟨ops ++ ops', hr.trans hr'⟩

theorem modify {f : Session → Session} (hf : ∀ s, Recording s (f s) []) :
    Quiet (modify f : SessionM PUnit) := by
  intro s a s' h
  rw [h.of_modify]
  exact ⟨[], hf s⟩

theorem modifyGet {f : Session → α × Session} (hf : ∀ s, Recording s (f s).2 []) :
    Quiet (modifyGet f : SessionM α) := by
  intro s a s' h
  have heq := h.of_modifyGet
  exact ⟨[], by rw [show s' = (f s).2 from congrArg Prod.snd heq]; exact hf s⟩

end Quiet

theorem Recording.note {l : Label} {labels : LabelTable}
    (h : s.labels.noteReference l = .ok labels) : Recording s { s with labels } [] := by
  have hpos := LabelTable.position?_noteReference h
  refine .of_labels rfl rfl rfl (fun l q hq => ?_) fun l q hq => Or.inl ?_
  · exact (hpos l).trans hq
  · exact (hpos l).symm.trans hq

theorem Answers.of_noteReference {l : Label} {a : Unit} (h : Answers (noteReference l) s a s') :
    Recording s s' [] := by
  obtain ⟨labels, hlabels, rfl⟩ := h.of_updateLabels
  exact .note hlabels

/-- The label is marked at the place the session is at. -/
theorem Answers.of_mark {l : Label} {a : Unit}
    (h : Answers (updateLabels (·.mark l s.recorder.position)) s a s') :
    Recording s s' [] ∧ s'.labels.position? l = some s.recorder.operations.length := by
  obtain ⟨labels, hlabels, rfl⟩ := h.of_updateLabels
  obtain ⟨hnone, hpos⟩ := LabelTable.position?_mark hlabels
  refine ⟨.of_labels rfl rfl rfl (fun l' q hq => ?_) fun l' q hq => ?_, ?_⟩
  · show labels.position? l' = some q
    rw [hpos, if_neg]
    · exact hq
    · rintro rfl
      rw [hnone] at hq
      cases hq
  · change labels.position? l' = some q at hq
    rw [hpos] at hq
    split at hq
    · exact Or.inr (Nat.le_of_eq (Option.some.inj hq).symm)
    · exact Or.inl hq
  · show labels.position? l = _
    rw [hpos, if_pos rfl]
    rfl

theorem Answers.of_markLabel {l : Label} {a : Unit} (h : Answers (markLabel l) s a s') :
    Recording s s' [] ∧ s'.labels.position? l = some s.recorder.operations.length := by
  unfold markLabel at h
  exact h.of_requireFunction_bind.of_get_bind.of_mark

theorem Recording.define (s : Session) :
    Recording s { s with labels := s.labels.define.2 } [] := by
  refine .of_labels rfl rfl rfl (fun l q hq => ?_) fun l q hq => Or.inl ?_
  · exact (LabelTable.position?_define _ _).trans hq
  · exact (LabelTable.position?_define _ _).symm.trans hq

theorem Answers.of_defineLabel {l : Label} (h : Answers defineLabel s l s') :
    Recording s s' [] := by
  unfold defineLabel at h
  have heq : (l, s') = (s.labels.define.1, { s with labels := s.labels.define.2 }) :=
    h.of_requireFunction_bind.of_modifyGet
  obtain ⟨-, rfl⟩ := Prod.mk.inj heq
  exact .define s

theorem Answers.of_placeLabel {l : Label} (h : Answers placeLabel s l s') :
    Recording s s' [] := by
  unfold placeLabel at h
  obtain ⟨l', s₁, hdefine, hrest⟩ := h.of_bind
  obtain ⟨u, s₂, hmark, hlast⟩ := hrest.of_bind
  obtain ⟨-, rfl⟩ := hlast.of_pure
  exact hdefine.of_defineLabel.trans hmark.of_markLabel.1

theorem Answers.of_report {location : Option Span} {notice : Notice} {arguments : List String}
    {a : Unit} (h : Answers (report location notice arguments) s a s') : Recording s s' [] := by
  rw [h.of_modify]
  exact .of_labels rfl rfl rfl (fun _ _ h => h) fun _ _ h => Or.inl h

theorem Recording.entry (hlabels : s.labels.entries = []) :
    Recording s { s with labels := entryLabels } [] := by
  refine .of_labels rfl rfl rfl (fun l q hq => ?_) fun l q hq => .inr ?_
  · simp [LabelTable.position?, LabelTable.find?, hlabels] at hq
  · obtain ⟨e, hfind, hposition⟩ := Option.bind_eq_some_iff.1 hq
    obtain ⟨-, hentry⟩ := LabelTable.find?_eq_some_iff.1 hfind
    obtain rfl := List.mem_singleton.1 (List.mem_of_getElem? hentry)
    cases hposition
    exact Nat.zero_le _

theorem Recording.of_prepares (h : Prepares s s₁) : Recording s s₁ [] := by
  induction h with
  | refl s => exact .refl s
  | note noted later ih => exact (Recording.note noted).trans ih
  | @report s _ diagnostics later ih =>
    have hreported : Recording s { s with diagnostics } [] :=
      .of_labels rfl rfl rfl (fun _ _ h => h) fun _ _ h => Or.inl h
    exact hreported.trans ih
  | entry operations labels later ih => exact (Recording.entry labels).trans ih

/-- An operation is recorded, unless it is an empty statement. -/
theorem Answers.of_emit {op : Operation} {a : Unit} (h : Answers (emit op) s a s') :
    Recording s s' (if op.isIdle then [] else [op]) := by
  obtain ⟨r, r', h⟩ := h
  cases emission_of_emit h with
  | @placed s₁ legal target prepares =>
    have hplaced : Recording s₁ { s₁ with recorder := s₁.emitted op }
        (if op.isIdle then [] else [op]) := by
      unfold emitted
      cases op.isIdle with
      | true => exact .of_labels rfl rfl rfl (fun _ _ h => h) fun _ _ h => Or.inl h
      | false => exact ⟨rfl, rfl, ⟨_, rfl, rfl⟩, fun _ _ h => h, fun _ _ h => Or.inl h⟩
    rw [← emitted_congr prepares.recorder]
    exact (Recording.of_prepares prepares).trans hplaced

theorem Answers.of_naming_recording {action : Name.AllocatorM α} {a : α}
    (h : Answers (naming action) s a s') : Recording s s' [] := by
  obtain ⟨names, rfl⟩ := h.of_naming
  exact .of_labels rfl rfl rfl (fun _ _ h => h) fun _ _ h => Or.inl h

theorem Answers.of_stateName {a : String} (h : Answers stateName s a s') : Recording s s' [] := by
  unfold stateName at h
  have h := h.of_get_bind
  split at h
  · obtain ⟨-, rfl⟩ := h.of_pure
    exact .refl s'
  · obtain ⟨name, s₁, hname, hrest⟩ := h.of_bind
    obtain ⟨u, s₂, hmodify, hlast⟩ := hrest.of_bind
    obtain ⟨-, rfl⟩ := hlast.of_pure
    have hset : Recording s₁ s' [] := by
      rw [hmodify.of_modify]
      exact .of_labels rfl rfl rfl (fun _ _ h => h) fun _ _ h => Or.inl h
    exact hname.of_naming_recording.trans hset

theorem Answers.of_stateField {field : StateField} {a : Node}
    (h : Answers (stateField field) s a s') : Recording s s' [] := by
  obtain ⟨name, s₁, hname, hrest⟩ := Answers.of_bind h
  obtain ⟨-, rfl⟩ := hrest.of_pure
  exact hname.of_stateName

/-- A body is built when no region is open, of what was recorded. -/
theorem Answers.of_buildStatements {forceReturn : Bool} {body : Body}
    (h : Answers (buildStatements forceReturn) s body s') :
    Recording s s' [] ∧ s.regions.live = [] ∧
      ∃ state, (s'.plan state forceReturn).build = .ok body := by
  have hstate : ∀ {t t' : Session} {state : String}, Answers bodyState t state t' →
      Recording t t' [] := by
    intro t t' state h
    unfold bodyState at h
    have h := h.of_get_bind
    split at h
    · exact h.of_stateName
    · obtain ⟨-, rfl⟩ := h.of_pure
      exact .refl t'
  unfold buildStatements at h
  have h := h.of_get_bind
  dsimp only at h
  split at h
  · obtain ⟨u, s₁, hthrow, -⟩ := h.of_bind
    exact hthrow.of_throw.elim
  · next hdepth =>
    obtain ⟨state, s₁, hs, hrest⟩ := h.of_bind
    have hbuild := hrest.of_get_bind
    split at hbuild
    · next body' heq =>
      obtain ⟨rfl, rfl⟩ := hbuild.of_pure
      exact ⟨hstate hs, List.length_eq_zero_iff.1 (Nat.eq_zero_of_not_pos hdepth), state, heq⟩
    · exact hbuild.of_throw.elim

namespace Quiet

theorem of_recording {call : SessionM α}
    (h : ∀ {s a s'}, Answers call s a s' → Recording s s' []) : Quiet call :=
  fun _ _ _ ha => ⟨[], h ha⟩

theorem requireFunction (call : FunctionCall) : Quiet (requireFunction call) :=
  fun s _ s' h => ⟨[], by rw [h.of_requireFunction]; exact .refl s⟩

theorem emit (op : Operation) : Quiet (emit op) := fun _ _ _ h => ⟨_, h.of_emit⟩

theorem emitAssignments (assignments : List (Node × Node)) :
    Quiet (emitAssignments assignments) := by
  induction assignments with
  | nil => exact .pure ()
  | cons assignment rest ih => exact (Quiet.emit _).bind fun _ => ih

theorem naming (action : Name.AllocatorM α) : Quiet (naming action) :=
  .of_recording Answers.of_naming_recording

theorem takeLocation : Quiet takeLocation :=
  .modifyGet fun _ => .of_labels rfl rfl rfl (fun _ _ h => h) fun _ _ h => Or.inl h

theorem writeLocation (span : Span) : Quiet (writeLocation span) :=
  .modify fun _ => .of_labels rfl rfl rfl (fun _ _ h => h) fun _ _ h => Or.inl h

theorem takeDiagnostics : Quiet takeDiagnostics :=
  .modifyGet fun _ => .of_labels rfl rfl rfl (fun _ _ h => h) fun _ _ h => Or.inl h

theorem located (node : Node) : Quiet (located node) := takeLocation.bind fun _ => .pure _

theorem stateName : Quiet stateName := .of_recording Answers.of_stateName

theorem createInlineBreak (label : Label) : Quiet (createInlineBreak label) :=
  (requireFunction _).bind fun _ => (of_recording Answers.of_noteReference).bind fun _ =>
    get.bind fun _ => located _

theorem createInlineReturn (value : Option Node) : Quiet (createInlineReturn value) :=
  (requireFunction _).bind fun _ => get.bind fun _ => located _

theorem createResume : Quiet createResume :=
  (requireFunction _).bind fun _ => .of_recording Answers.of_stateField

theorem addVariable (name : String) : Quiet (addVariable name) :=
  (requireFunction _).bind fun _ => naming _

theorem addParameter (parameter : Parameter Node) : Quiet (addParameter parameter) := by
  refine (requireFunction _).bind fun _ => takeLocation.bind fun location => ?_
  have hadd : Quiet (MonadStateOf.modifyGet fun s : Session => ((), { s with
      parameters := s.parameters ++ [{ parameter with default := none }] }) : SessionM PUnit) :=
    .modify fun _ => .of_labels rfl rfl rfl (fun _ _ h => h) fun _ _ h => Or.inl h
  dsimp only
  split
  · exact (of_recording Answers.of_report).bind fun _ => hadd
  · exact hadd

theorem addFunction (declaration : Node) : Quiet (addFunction declaration) :=
  (requireFunction _).bind fun _ => .modify fun _ =>
    .of_labels rfl rfl rfl (fun _ _ h => h) fun _ _ h => Or.inl h

theorem ensureIdentifier (expression : Node) : Quiet (ensureIdentifier expression) :=
  (naming _).bind fun _ => (emitAssignments _).bind fun _ => .pure _

theorem valueOrDefault (value default : Node) : Quiet (valueOrDefault value default) :=
  (naming _).bind fun _ => (emitAssignments _).bind fun _ => .pure _

theorem buildStatements (forceReturn : Bool) : Quiet (buildStatements forceReturn) :=
  of_recording fun h => (Answers.of_buildStatements h).1

theorem buildFunction (shape : FunctionShape) (name : Option String) :
    Quiet (buildFunction shape name) := by
  apply (requireFunction _).bind
  intro _
  dsimp only
  split
  · exact throw_bind _ _
  · refine (buildStatements true).bind fun body => stateName.bind fun state => get.bind fun s => ?_
    split
    · exact (naming _).bind fun _ => .bind (.pure _) fun _ => .pure _
    · exact .bind (.pure _) fun _ => .pure _

theorem findContinueTarget (name : Option String) : Quiet (findContinueTarget name) := by
  apply get.bind
  intro s
  split
  · split
    · split
      · exact .pure _
      · exact (of_recording Answers.of_noteReference).bind fun _ => .pure _
    · exact throw _
  · exact throw _

end Quiet

end Resumable.Session
