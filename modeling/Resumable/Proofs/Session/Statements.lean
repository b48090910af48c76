import Resumable.Proofs.Body.Flat
import Resumable.Proofs.Session.Attempts
import Resumable.Proofs.Session.Verdicts

/-!
# Plain statement lists

A session for a statement list refuses whatever only makes sense for a function body. What is left
are operations that control passes in order until one completes the function, an entry label, and
targets that stay as they are. So whatever was called on it, and whatever failed of that, the body
is the flat list of the statements that control gets to.
-/

namespace Resumable

/-- The request only makes sense for a function body. -/
def Request.needsFunction : Request → Bool
  | .defineLabel | .markLabel _ | .createInlineBreak _ | .createInlineReturn _ | .createResume
  | .beginException | .beginCatch _ | .beginFinally | .endException | .beginScope _ | .endScope
  | .beginBreakable .. | .endBreakable | .beginLoop .. | .endLoop | .addVariable _
  | .addParameter _ | .addFunction _ | .buildFunction .. => true
  | _ => false

/-- The labels that the nodes of a request mention. -/
def Request.references : Request → List Label
  | .emit op => op.references
  | .createInlineReturn value => Node.referencesOption value
  | .addParameter parameter => Node.referencesOption parameter.default
  | .addFunction declaration => declaration.references
  | .ensureIdentifier expression => expression.references
  | .valueOrDefault value default => value.references ++ default.references
  | _ => []

namespace Session

variable {α : Type} {options : Options} {scope : Nat} {bound : List String}
  {s s' s₁ : Session} {history : List (Request × Except LoweringError Reply)} {request : Request}
  {reply : Reply} {region : Region} {id : RegionId} {u : Unit}

/-- A call that only makes sense for a function body is refused before it does anything. -/
theorem eq_of_needsFunction (hneeds : request.needsFunction = true)
    (hmode : s.recorder.mode = .statements) (h : Leaves request.run s s') : s' = s := by
  have hrefused : ∀ {α : Type} {call : FunctionCall} {f : Unit → SessionM α} (answer : α → Reply),
      Leaves (do return answer (← requireFunction call >>= f)) s s' → s' = s := by
    intro α call f answer h
    have hcall : ∀ t, Leaves (requireFunction call >>= f) s t → t = s := by
      intro t ht
      rcases ht.of_bind with ht | ⟨u, s₁, hfirst, -⟩
      · exact ht.of_requireFunction
      · unfold requireFunction at hfirst
        have hfirst := hfirst.of_get_bind
        rw [if_pos (show s.mode = .statements from hmode)] at hfirst
        exact hfirst.of_throw.elim
    rcases h.of_bind with h | ⟨a, s₁, hfirst, hlast⟩
    · exact hcall s' h
    · rw [hlast.of_pure]
      exact hcall s₁ (.of_answers hfirst)
  cases request with
  | defineLabel => exact hrefused .label h
  | markLabel label => exact hrefused (fun _ => .done) h
  | createInlineBreak label => exact hrefused .node h
  | createInlineReturn value => exact hrefused .node h
  | createResume => exact hrefused .node h
  | beginException => exact hrefused .label h
  | beginCatch name => exact hrefused (fun _ => .done) h
  | beginFinally => exact hrefused (fun _ => .done) h
  | endException => exact hrefused (fun _ => .done) h
  | beginScope holder => exact hrefused (fun _ => .done) h
  | endScope => exact hrefused (fun _ => .done) h
  | beginBreakable names needsName => exact hrefused (fun _ => .done) h
  | endBreakable => exact hrefused (fun _ => .done) h
  | beginLoop continueLabel names => exact hrefused (fun _ => .done) h
  | endLoop => exact hrefused (fun _ => .done) h
  | addVariable name => exact hrefused (fun _ => .done) h
  | addParameter parameter => exact hrefused (fun _ => .done) h
  | addFunction declaration => exact hrefused (fun _ => .done) h
  | buildFunction shape name => exact hrefused .node h
  | _ => cases hneeds

/-- The session is as a plain statement list leaves it: it holds nothing that a jump could go to or
that could suspend the body. -/
structure IsPlain (s : Session) : Prop where
  mode : s.recorder.mode = .statements
  legal : ∀ r ∈ s.recorder.operations, r.operation.code.isLegalIn .statements = true
  single : s.labels.size ≤ 1
  entry : ∀ l, s.IsDefined l → s.labels.position? l = some 0
  native : ∀ region ∈ s.regions.regions, ∃ target, region.breakTarget? = some target ∧
    target.native = true
  unprotected : s.regions.hasExceptions = false

namespace IsPlain

theorem start (options : Options) (scope : Nat) (bound : List String) :
    (Session.start .statements options scope bound).IsPlain where
  mode := rfl
  legal _ hr := absurd hr List.not_mem_nil
  single := Nat.zero_le 1
  entry l hl := by
    obtain ⟨hpos, hle⟩ := LabelTable.isSome_find?_iff.1 hl
    exact absurd hpos (Nat.not_lt.2 hle)
  native _ hregion := absurd hregion List.not_mem_nil
  unprotected := rfl

/-- Labels that are not more, and that are marked where they were. -/
theorem of_labels {labels : LabelTable} (h : s.IsPlain) (hsize : labels.size ≤ 1)
    (hentry : ∀ l, (labels.find? l).isSome = true → labels.position? l = some 0) :
    IsPlain { s with labels } := ⟨h.mode, h.legal, hsize, hentry, h.native, h.unprotected⟩

theorem of_regions (h : s.IsPlain) (hmode : s'.recorder.mode = s.recorder.mode)
    (hops : s'.recorder.operations = s.recorder.operations) (hlabels : s'.labels = s.labels)
    (hnative : ∀ region ∈ s'.regions.regions, region ∈ s.regions.regions ∨
      ∃ target, region.breakTarget? = some target ∧ target.native = true)
    (hexceptions : s'.regions.hasExceptions = s.regions.hasExceptions) : s'.IsPlain where
  mode := hmode.trans h.mode
  legal := by
    rw [hops]
    exact h.legal
  single := by
    rw [hlabels]
    exact h.single
  entry := by
    unfold IsDefined
    rw [hlabels]
    exact h.entry
  native region hregion := (hnative region hregion).elim (h.native region) id
  unprotected := hexceptions.trans h.unprotected

end IsPlain

theorem tolerant_isPlain : Tolerant fun s s' => s.IsPlain → s'.IsPlain where
  trans h h' hs := h' (h hs)
  inert hmode hops hlabels hregions _ hs := by
    refine hs.of_regions hmode hops hlabels (fun region hregion => Or.inl ?_) (by rw [hregions])
    rwa [← hregions]
  note {s l labels} h hs := by
    refine hs.of_labels ?_ fun l' hl' => ?_
    · obtain ⟨e, -, rfl⟩ := LabelTable.exists_of_noteReference h
      rw [LabelTable.size_setEntry]
      exact hs.single
    · rw [LabelTable.isSome_find?_noteReference h] at hl'
      rw [LabelTable.position?_noteReference h]
      exact hs.entry l' hl'
  entry _ _ hs := by
    refine hs.of_labels (Nat.le_refl 1) fun l hl => ?_
    obtain ⟨hpos, hle⟩ := LabelTable.isSome_find?_iff.1 hl
    obtain rfl : l = ⟨1⟩ := by
      cases l
      exact congrArg Label.mk (Nat.le_antisymm hle hpos)
    rfl
  record {s op} hlegal _ _ hs := by
    refine ⟨hs.mode, fun r hr => ?_, hs.single, hs.entry, hs.native, hs.unprotected⟩
    rcases List.mem_append.1 hr with hr | hr
    · exact hs.legal r hr
    · obtain rfl := List.mem_singleton.1 hr
      rw [hs.mode] at hlegal
      exact hlegal

section Targets

theorem isPlain_beginNativeTarget {target : BreakTarget}
    (hregion : region.breakTarget? = some target) (hnative : target.native = true) :
    Across (fun s s' => s.IsPlain → s'.IsPlain) (discard (enterRegion region)) := by
  have henter : Across (fun s s' => s.IsPlain → s'.IsPlain) (enterRegion region) := by
    refine Across.modifyGet fun s hs => hs.of_regions rfl rfl rfl (fun r hr => ?_) ?_
    · exact (List.mem_append.1 hr).imp_right fun hr => by
        rw [List.mem_singleton.1 hr]
        exact ⟨target, hregion, hnative⟩
    · have hnone : region.exception? = none := by
        cases region <;> first | rfl | cases hregion
      show (s.regions.hasExceptions || region.exception?.isSome) = s.regions.hasExceptions
      rw [hnone]
      exact Bool.or_false _
  exact tolerant_isPlain.bind henter fun _ => tolerant_isPlain.pure _

theorem isPlain_endNativeTarget (kind : RegionKind) :
    Across (fun s s' => s.IsPlain → s'.IsPlain) (discard (leaveRegion kind)) := by
  have hleave : Across (fun s s' => s.IsPlain → s'.IsPlain) (leaveRegion kind) := by
    intro s s' h
    have h := h.of_get_bind
    split at h
    · next id regions heq =>
      obtain ⟨-, rfl⟩ := RegionStack.leave_eq_ok_iff.1 heq
      rcases h.of_bind with h | ⟨_, s₁, hset, h⟩
      · rw [h.of_set]
        exact fun hs => hs.of_regions rfl rfl rfl (fun _ hr => Or.inl hr) rfl
      · rw [h.of_pure, hset.of_set]
        exact fun hs => hs.of_regions rfl rfl rfl (fun _ hr => Or.inl hr) rfl
    · rw [h.of_throw]
      exact id
  exact tolerant_isPlain.bind hleave fun _ => tolerant_isPlain.pure _

/-- Jumps stay as they are, so no label is made for one. -/
theorem isPlain_findBreakTarget (name : Option String) :
    Across (fun s s' => s.IsPlain → s'.IsPlain) (findBreakTarget name) := by
  intro s s' h hs
  unfold findBreakTarget at h
  have h := h.of_get_bind
  split at h
  · next id hid =>
    split at h
    · next region hget =>
      obtain ⟨target, htarget, hnative⟩ := hs.native region (List.mem_of_getElem? hget)
      split at h
      · next t ht =>
        obtain rfl : target = t := Option.some.inj (htarget.symm.trans ht)
        rw [if_pos hnative] at h
        rw [h.of_pure]
        exact hs
      · rw [h.of_throw]
        exact hs
    · rw [h.of_throw]
      exact hs
  · rw [h.of_throw]
    exact hs

end Targets

/-- Every request leaves a plain statement list plain, whatever its outcome. -/
theorem isPlain_run (request : Request) :
    Across (fun s s' => s.IsPlain → s'.IsPlain) request.run := by
  intro s s' h hs
  by_cases hneeds : request.needsFunction = true
  · rw [eq_of_needsFunction hneeds hs.mode h]
    exact hs
  by_cases hquiet : request.isQuiet = true
  · exact tolerant_isPlain.run hquiet s s' h hs
  have hdone : ∀ {call : SessionM Unit}, Across (fun s s' => s.IsPlain → s'.IsPlain) call →
      Across (fun s s' => s.IsPlain → s'.IsPlain) (do call; return Reply.done) := fun hcall =>
    tolerant_isPlain.reply hcall fun _ => .done
  cases request with
  | beginNativeBreakable names needsName =>
    exact hdone (isPlain_beginNativeTarget rfl rfl) s s' h hs
  | endNativeBreakable => exact hdone (isPlain_endNativeTarget _) s s' h hs
  | beginNativeLoop names => exact hdone (isPlain_beginNativeTarget rfl rfl) s s' h hs
  | endNativeLoop => exact hdone (isPlain_endNativeTarget _) s s' h hs
  | findBreakTarget name =>
    exact tolerant_isPlain.reply (isPlain_findBreakTarget name) .target s s' h hs
  | _ => first | exact absurd rfl hneeds | exact absurd rfl hquiet

theorem Reachable.isPlain (h : Reachable (Session.start .statements options scope bound) s) :
    s.IsPlain := by
  induction h with
  | start => exact .start options scope bound
  | request request before leaves ih => exact isPlain_run request _ _ leaves ih

section Mentions

/-- What a session mentions after something was recorded. -/
theorem Recording.mentioned {ops : List Operation} (h : Recording s s' ops) :
    s'.mentioned = s.mentioned ++ ops.flatMap Operation.references := by
  obtain ⟨more, hmore, rfl⟩ := h.operations
  rw [Session.mentioned, hmore, List.flatMap_append, List.flatMap_map]
  rfl

theorem mentioned_of_operations (h : s'.recorder.operations = s.recorder.operations) :
    s'.mentioned = s.mentioned := congrArg (List.flatMap _) h

theorem Answers.of_emitAssignments {assignments : List (Node × Node)}
    (h : Answers (emitAssignments assignments) s u s') :
    Recording s s' (assignments.map fun (target, value) => .assign target value) := by
  induction assignments generalizing s with
  | nil =>
    rw [(Answers.of_pure h).2]
    exact .refl s
  | cons assignment rest ih =>
    obtain ⟨v, s₁, hfirst, hrest⟩ := Answers.of_bind h
    exact hfirst.of_emit.trans (ih hrest)

/-- An expression is only put into an assignment. -/
theorem Answers.of_ensureIdentifier {expression identifier : Node}
    {assignments : List (Node × Node)}
    (h : Answers (naming (Name.Allocator.ensureIdentifier expression)) s
      (identifier, assignments) s') :
    ∀ assignment ∈ assignments, ∃ name, assignment = (.identifier name, expression) := by
  obtain ⟨r, r', h⟩ := h
  unfold Name.Allocator.ensureIdentifier at h
  split at h
  · cases h
    exact fun _ hassignment => absurd hassignment List.not_mem_nil
  · cases h
    intro assignment hassignment
    exact ⟨_, List.mem_singleton.1 hassignment⟩

theorem Answers.of_valueOrDefault {value default expression : Node}
    {assignments : List (Node × Node)}
    (h : Answers (naming (Name.Allocator.valueOrDefault value default)) s
      (expression, assignments) s') :
    ∀ assignment ∈ assignments, ∃ name, assignment = (.identifier name, value) := by
  obtain ⟨r, r', h⟩ := h
  unfold Name.Allocator.valueOrDefault Name.Allocator.ensureIdentifier at h
  split at h
  · cases h
    exact fun _ hassignment => absurd hassignment List.not_mem_nil
  · cases h
    intro assignment hassignment
    exact ⟨_, List.mem_singleton.1 hassignment⟩

/-- Assigning a value that mentions no label leaves what is mentioned as it was. -/
theorem mentioned_of_emitAssignments {assignments : List (Node × Node)} {value : Node}
    (h : Answers (emitAssignments assignments) s₁ u s')
    (hfirst : s₁.recorder.operations = s.recorder.operations)
    (hassigned : ∀ assignment ∈ assignments, ∃ name, assignment = (.identifier name, value))
    (hvalue : value.references = []) : s'.mentioned = s.mentioned := by
  rw [h.of_emitAssignments.mentioned, mentioned_of_operations hfirst, List.flatMap_map,
    List.flatMap_eq_nil_iff.2, List.append_nil]
  intro assignment hassignment
  obtain ⟨name, rfl⟩ := hassigned assignment hassignment
  exact hvalue

theorem Answers.of_findContinueTarget {name : Option String} {answer : JumpTarget}
    (h : Answers (findContinueTarget name) s answer s') : Recording s s' [] := by
  unfold findContinueTarget at h
  have h := h.of_get_bind
  split at h
  · split at h
    · split at h
      · rw [h.of_pure.2]
        exact .refl s
      · obtain ⟨u, s₁, hnote, hlast⟩ := h.of_bind
        rw [hlast.of_pure.2]
        exact hnote.of_noteReference
    · exact h.of_throw.elim
  · exact h.of_throw.elim

/-- Opening and closing targets records nothing. -/
theorem Answers.operations_of_target (h : Answers request.run s reply s')
    (htarget : (request.target?.isSome || request.closedTarget?.isSome) = true) :
    s'.recorder.operations = s.recorder.operations := by
  cases effect_of_answers h with
  | targetBegun opens operations => exact operations
  | targetEnded closes live found ofKind operations => exact operations
  | recorded quiet =>
    have hloud : request.isQuiet = false := by cases request <;> first | rfl | cases htarget
    rw [hloud] at quiet
    cases quiet
  | _ => cases htarget

/-- A request of a plain statement list whose nodes mention no label adds no mention. -/
theorem Answers.mentioned_eq (h : Answers request.run s reply s') (hs : s.IsPlain)
    (hplain : request.references = []) : s'.mentioned = s.mentioned := by
  have hsilent : Recording s s' [] → s'.mentioned = s.mentioned := fun hrecording => by
    rw [hrecording.mentioned]
    exact List.append_nil _
  by_cases hneeds : request.needsFunction = true
  · rw [eq_of_needsFunction hneeds hs.mode (.of_answers h)]
  by_cases htarget : (request.target?.isSome || request.closedTarget?.isSome) = true
  · exact mentioned_of_operations (h.operations_of_target htarget)
  cases request with
  | writeLocation span =>
    obtain ⟨u, hcall, -⟩ := Answers.of_reply h
    exact mentioned_of_operations (by rw [hcall.of_modify]; rfl)
  | emit op =>
    obtain ⟨u, hcall, -⟩ := Answers.of_reply h
    rw [hcall.of_emit.mentioned]
    split
    · exact List.append_nil _
    · rw [List.flatMap_singleton, show op.references = [] from hplain, List.append_nil]
  | findBreakTarget name =>
    cases effect_of_answers h with
    | breakFound recording unmarked => exact hsilent recording
    | breakNamed live found asked dispatched unnamed present operations =>
      exact mentioned_of_operations operations
    | recorded quiet => cases quiet
    | targetBegun opens => cases opens
    | targetEnded closes => cases closes
  | findContinueTarget name =>
    obtain ⟨answer, hcall, -⟩ := Answers.of_reply h
    exact hsilent hcall.of_findContinueTarget
  | createUniqueIdentifier preferred registered =>
    obtain ⟨name, hcall, -⟩ := Answers.of_reply h
    exact hsilent hcall.of_naming_recording
  | declareLocal preferred registered =>
    obtain ⟨name, hcall, -⟩ := Answers.of_reply h
    exact hsilent hcall.of_naming_recording
  | ensureIdentifier expression =>
    obtain ⟨node, hcall, -⟩ := Answers.of_reply h
    obtain ⟨⟨identifier, assignments⟩, s₁, hname, hrest⟩ := Answers.of_bind hcall
    obtain ⟨u, s₂, hassign, hlast⟩ := hrest.of_bind
    obtain ⟨-, rfl⟩ := hlast.of_pure
    obtain ⟨names, rfl⟩ := hname.of_naming
    exact mentioned_of_emitAssignments hassign rfl hname.of_ensureIdentifier hplain
  | valueOrDefault value default =>
    obtain ⟨node, hcall, -⟩ := Answers.of_reply h
    obtain ⟨⟨identifier, assignments⟩, s₁, hname, hrest⟩ := Answers.of_bind hcall
    obtain ⟨u, s₂, hassign, hlast⟩ := hrest.of_bind
    obtain ⟨-, rfl⟩ := hlast.of_pure
    obtain ⟨names, rfl⟩ := hname.of_naming
    exact mentioned_of_emitAssignments hassign rfl hname.of_valueOrDefault
      (List.append_eq_nil_iff.1 hplain).1
  | stateName =>
    obtain ⟨name, hcall, -⟩ := Answers.of_reply h
    exact hsilent hcall.of_stateName
  | takeDiagnostics =>
    obtain ⟨diagnostics, hcall, -⟩ := Answers.of_reply h
    exact mentioned_of_operations (by rw [(Prod.mk.inj hcall.of_modifyGet).2])
  | buildStatements forceReturn =>
    obtain ⟨body, hcall, -⟩ := Answers.of_reply h
    exact hsilent hcall.of_buildStatements.1
  | _ => first | exact absurd rfl hneeds | exact absurd rfl htarget

/-- A plain statement list whose calls mention no label mentions none. -/
theorem Attempts.mentioned_eq_nil
    (h : Attempts (Session.start .statements options scope bound) history s)
    (hplain : ∀ x ∈ history, x.1.references = []) : s.mentioned = [] := by
  induction h with
  | start => rfl
  | @call history s s' request outcome r r' before performed ih =>
    have hbefore := ih fun x hx => hplain x (List.mem_append_left _ hx)
    have hs := before.reachable.isPlain
    cases outcome with
    | ok reply =>
      have hrequest := hplain (request, .ok reply) (List.mem_append_right _ List.mem_cons_self)
      rw [Answers.mentioned_eq ⟨r, r', performed⟩ hs hrequest]
      exact hbefore
    | error e =>
      cases failure_of_fails before.accounted.defined ⟨r, r', performed⟩ with
      | untouched same =>
        exact (mentioned_of_operations (congrArg _ same.recorder)).trans hbefore
      | overtaken marking live found ofKind owed =>
        -- the regions stay as they are, so none of them owes a label
        obtain ⟨target, htarget, hnative⟩ := hs.native _ (List.mem_of_getElem? found)
        rw [Region.owed_of_native htarget hnative] at owed
        cases owed

end Mentions

section Building

theorem mem_of_isLegalIn {code : OpCode} (h : code.isLegalIn .statements = true) :
    code ∈ [OpCode.assign, .statement, .complete, .throw] := by
  cases code <;> first | decide | cases h

variable {registry : Name.Registry} {forceReturn : Bool}

/-- Nothing cuts the operations of a plain statement list. -/
theorem IsPlain.isJoined (h : s.IsPlain) (state : String) (forceReturn : Bool) :
    (s.plan state forceReturn).IsJoined where
  joined := decide_eq_false fun hmode => by
    have hstatements : s.mode = .statements := h.mode
    rw [hstatements] at hmode
    cases hmode
  labels i hi := by
    obtain ⟨l, hl⟩ := LabelTable.exists_position?_of_hasLabelAt hi
    obtain ⟨e, he, -⟩ := Option.bind_eq_some_iff.1 hl
    have hentry := h.entry l (by rw [IsDefined]; exact Option.isSome_of_eq_some he)
    exact Option.some.inj (hl.symm.trans hentry)
  abrupt r hr := by
    have hlegal := h.legal r hr
    cases hop : r.operation <;> rw [hop] at hlegal <;> first | rfl | cases hlegal
  sustained r hr := by
    have hlegal := h.legal r hr
    cases hop : r.operation <;> rw [hop] at hlegal <;> first | rfl | cases hlegal

/-- The plan of a plain statement list is that of a flat body. -/
theorem IsPlain.isFlat (h : s.IsPlain) (hmentioned : s.mentioned = []) (state : String)
    (forceReturn : Bool) : (s.plan state forceReturn).IsFlat where
  toIsJoined := h.isJoined state forceReturn
  marked := by
    refine LabelTable.firstUnmarked?_eq_none_iff.2 (List.eq_nil_iff_forall_not_mem.2 fun l hl => ?_)
    obtain ⟨hdefined, hnone⟩ := LabelTable.mem_unmarked_iff.1 hl
    cases (h.entry l hdefined).symm.trans hnone
  unprotected := h.unprotected
  plain r hr := by
    have hlegal := h.legal r hr
    have htarget : r.operation.target? = none := by
      cases hop : r.operation <;> rw [hop] at hlegal <;> first | rfl | cases hlegal
    rw [Operation.references_node, htarget, List.flatMap_eq_nil_iff.1 hmentioned r hr]
    rfl

/-- Building a plain statement list makes up no name. -/
theorem IsPlain.perform_buildStatements (h : s.IsPlain) (hclosed : ¬ 0 < s.regions.depth) :
    perform (buildStatements forceReturn) s registry =
      ((s.plan (s.state.getD s.options.stateName) forceReturn).build, s, registry) := by
  have hstate : perform bodyState s registry =
      (.ok (s.state.getD s.options.stateName), s, registry) := by
    unfold bodyState
    rw [perform_get_bind, show s.mode = .statements from h.mode]
    rfl
  exact perform_buildStatements_of_bodyState hclosed hstate

end Building

/-- A session for a statement list, whatever was called on it and whatever failed of that, if no
node of a call mentions a label. Its operations are assignments, statements, completions and
throws; it has at most one label, marked at the beginning; all its regions stay as they are.
Building fails for open regions and for nothing else, and the body is the flat list of the
translations of the operations up to and including the first completion or throw, with a return
after them if one is asked for and there is none of the two. The session stays as it was. -/
theorem flat_of_attempts
    (h : Attempts (start .statements options scope bound) history s)
    (hplain : ∀ x ∈ history, x.1.references = []) :
    (∀ r ∈ s.recorder.operations,
      r.operation.code ∈ [OpCode.assign, .statement, .complete, .throw]) ∧
    (s.labels.size ≤ 1 ∧ ∀ l, s.IsDefined l → s.labels.position? l = some 0) ∧
    (∀ region ∈ s.regions.regions, ∃ target, region.breakTarget? = some target ∧
      target.native = true) ∧
    ∃ kept dropped statements, s.recorder.operations = kept ++ dropped ∧
      (∀ r ∈ kept.dropLast, ¬r.operation.Completes) ∧
      (dropped ≠ [] → ∃ r, kept.getLast? = some r ∧ r.operation.Completes) ∧
      List.Forall₂ (Recorded.Translates s.options.instructionComments) kept statements ∧
      ∀ forceReturn registry, perform (buildStatements forceReturn) s registry =
        if 0 < s.regions.depth then (.error (.unclosedRegions s.regions.depth), s, registry)
        else (.ok ⟨statements ++
          if forceReturn = true ∧ ∀ r ∈ s.recorder.operations, ¬r.operation.Completes then
            [.returnTuple s.options.instructionComments 2 "return" none]
          else [], false⟩, s, registry) := by
  have hs := h.reachable.isPlain
  obtain ⟨dropped, hsplit, hgoesOn, hlast⟩ :=
    Body.exists_eq_reached_append s.recorder.operations
  refine ⟨fun r hr => ?_, ⟨hs.single, hs.entry⟩, hs.native, Body.reached s.recorder.operations,
    dropped, _, hsplit, hgoesOn, hlast, Recorded.forall₂_translates_iff.2 rfl,
    fun forceReturn registry => ?_⟩
  · exact mem_of_isLegalIn (hs.legal r hr)
  · split
    · next hopen => exact perform_buildStatements_of_open hopen
    · next hclosed =>
      have hflat := hs.isFlat (h.mentioned_eq_nil hplain) (s.state.getD s.options.stateName)
        forceReturn
      have hreturn : (forceReturn && !s.recorder.operations.any (·.operation.isCompletion)) = true ↔
          forceReturn = true ∧ ∀ r ∈ s.recorder.operations, ¬r.operation.Completes := by
        simp [Operation.completes_iff]
      rw [hs.perform_buildStatements hclosed, hflat.build_eq]
      simp only [← hreturn]
      rfl

/-- A statement list with a jump that is refused, an empty statement, a loop that stays as it is,
and a statement that control does not get to. -/
def listing : List Request :=
  [.emit (.jump ⟨1⟩), .emit (.statement .emptyStmt), .beginNativeLoop ["a"],
    .findBreakTarget (some "a"), .endNativeLoop, .writeLocation ⟨0, 5⟩,
    .emit (.assign (.identifier "x") (.number "1")), .emit (.complete (some (.identifier "x"))),
    .emit (.statement (.identifier "y"))]

theorem flat_of_attempts_listing : ∃ history s kept dropped,
    Attempts (start .statements {} 0 []) history s ∧ s.labels.size = 1 ∧
      s.recorder.operations = [⟨.assign (.identifier "x") (.number "1"), some ⟨0, 5⟩⟩,
        ⟨.complete (some (.identifier "x")), none⟩, ⟨.statement (.identifier "y"), none⟩] ∧
      s.recorder.operations = kept ++ dropped ∧ kept.length = 2 ∧
      perform (buildStatements true) s {} =
        (.ok ⟨[.located (.exprStmt (.binary (.identifier "x") "=" (.number "1"))) ⟨0, 5⟩,
          .returnStmt (some (.instruction 2 (some (.identifier "x")) (some "return")))],
          false⟩, s, {}) := by
  have hattempts := attempts_recount (start .statements {} 0 []) {} listing
  have hoperations : (recount (start .statements {} 0 []) {} listing).2.recorder.operations =
      [⟨.assign (.identifier "x") (.number "1"), some ⟨0, 5⟩⟩,
        ⟨.complete (some (.identifier "x")), none⟩, ⟨.statement (.identifier "y"), none⟩] := rfl
  have hcheck : ((recount (start .statements {} 0 []) {} listing).1.all
        (fun x => x.1.references.isEmpty) &&
      decide ((recount (start .statements {} 0 []) {} listing).2.labels.size = 1) &&
      decide ((recount (start .statements {} 0 []) {} listing).2.regions.depth = 0) &&
      (recount (start .statements {} 0 []) {} listing).2.options.instructionComments) = true := by
    decide +kernel
  generalize recount (start .statements {} 0 []) {} listing = last at hattempts hoperations hcheck
  simp only [Bool.and_eq_true, decide_eq_true_eq, List.all_eq_true, List.isEmpty_iff] at hcheck
  obtain ⟨⟨⟨hplain, hsize⟩, hdepth⟩, hcomments⟩ := hcheck
  obtain ⟨-, -, -, kept, dropped, statements, hsplit, hgoesOn, hlast, htranslated, hbuild⟩ :=
    flat_of_attempts hattempts hplain
  have hover : ¬∀ r ∈ last.2.recorder.operations, ¬r.operation.Completes := by
    rw [hoperations]
    decide
  have hkept : Body.reached last.2.recorder.operations = kept := by
    rw [hsplit]
    exact Body.reached_append hgoesOn hlast
  rw [hoperations] at hkept
  subst hkept
  have hstatements := Recorded.forall₂_translates_iff.1 htranslated
  rw [hcomments] at hstatements
  subst hstatements
  have hbody := hbuild true {}
  rw [if_neg (by rw [hdepth]; exact Nat.lt_irrefl 0), if_neg fun h => hover h.2] at hbody
  exact ⟨last.1, last.2, _, dropped, hattempts, hsize, hoperations, hsplit, rfl, hbody⟩

end Session

end Resumable
