import Resumable.Proofs.Session.Blocks

/-!
# What holds after any calls

Each request takes a session forward, and so does any sequence of requests that succeed. A
session is in order when it starts, so it is in order after every such sequence.
-/

namespace Resumable.Session

variable {s s' s₁ : Session} {requests : List Request}

theorem advances_beginScope (holder : String) : Advances (beginScope holder) :=
  (Quiet.requireFunction _).advances.bind fun _ =>
    (Quiet.of_recording Answers.of_defineLabel).advances.bind fun _ =>
      (Quiet.of_recording Answers.of_defineLabel).advances.bind fun _ =>
        (Quiet.of_recording fun h => h.of_markLabel.1).advances.bind fun _ =>
          (advances_enterRegion rfl).bind fun _ => (Quiet.pure _).advances

theorem quiet_markBreakLabel (id : RegionId) : Quiet (markBreakLabel id) := by
  apply Quiet.get.bind
  intro s
  split
  · split
    · exact .of_recording fun h => h.of_markLabel.1
    · exact .pure _
  · exact .pure _

theorem advances_endScope : Advances endScope := by
  refine (Quiet.requireFunction _).advances.bind fun _ =>
    (advances_leaveRegion (by decide)).bind fun id => Quiet.advances (Quiet.get.bind fun s => ?_)
  split
  · exact .of_recording fun h => h.of_markLabel.1
  · exact .pure _

theorem advances_beginBreakable (names : List String) (needsName : Bool) :
    Advances (beginBreakable names needsName) :=
  (Quiet.requireFunction _).advances.bind fun _ =>
    (advances_enterRegion rfl).bind fun _ => (Quiet.pure _).advances

theorem advances_endBreakable : Advances endBreakable :=
  (Quiet.requireFunction _).advances.bind fun _ =>
    (advances_leaveRegion (by decide)).bind fun _ => (quiet_markBreakLabel _).advances

theorem advances_beginLoop (label : Label) (names : List String) :
    Advances (beginLoop label names) :=
  (Quiet.requireFunction _).advances.bind fun _ =>
    (advances_enterRegion rfl).bind fun _ => (Quiet.pure _).advances

theorem advances_endLoop : Advances endLoop :=
  (Quiet.requireFunction _).advances.bind fun _ =>
    (advances_leaveRegion (by decide)).bind fun _ => (quiet_markBreakLabel _).advances

theorem advances_beginNativeBreakable (names : List String) (needsName : Bool) :
    Advances (beginNativeBreakable names needsName) :=
  (advances_enterRegion rfl).bind fun _ => (Quiet.pure _).advances

theorem advances_endNativeBreakable : Advances endNativeBreakable :=
  (advances_leaveRegion (by decide)).bind fun _ => (Quiet.pure _).advances

theorem advances_beginNativeLoop (names : List String) : Advances (beginNativeLoop names) :=
  (advances_enterRegion rfl).bind fun _ => (Quiet.pure _).advances

theorem advances_endNativeLoop : Advances endNativeLoop :=
  (advances_leaveRegion (by decide)).bind fun _ => (Quiet.pure _).advances

/-- A target of `break` gets a label. It is no exception region, and does not become one. -/
theorem Advance.setBreakLabel {id : RegionId} {region : Region} {target : BreakTarget}
    (hget : s.regions.get? id = some region) (htarget : region.breakTarget? = some target)
    (label : Label) :
    Advance s { s with regions := s.regions.replace id (region.setBreakLabel label) } := by
  have hnone : region.exception? = none ∧ (region.setBreakLabel label).exception? = none := by
    cases region with
    | exception r => cases htarget
    | scope r => cases htarget
    | breakable t => exact ⟨rfl, rfl⟩
    | loop t l => exact ⟨rfl, rfl⟩
  refine ⟨rfl, fun _ _ h => h, fun i r hr => ?_, fun hs => ?_⟩
  · refine ⟨r, ?_, rfl, rfl⟩
    show (s.regions.replace id (region.setBreakLabel label)).exception? i = some r
    rw [RegionStack.exception?_replace hget]
    by_cases heq : i = id
    · subst heq
      rw [RegionStack.exception?, hget] at hr
      exact absurd (hnone.1.symm.trans hr) (by simp)
    · rw [if_neg heq]
      exact hr
  · refine Laid.replace hs hget (by rw [hnone.1, hnone.2]) fun r r' hr _ => ?_
    rw [hnone.1] at hr
    cases hr

theorem advances_findBreakTarget (name : Option String) : Advances (findBreakTarget name) := by
  intro s a s' h
  unfold findBreakTarget at h
  have h := h.of_get_bind
  split at h
  · next id hid =>
    split at h
    · next region hget =>
      split at h
      · next target htarget =>
        have hnew : ∀ {label : Label} {labels : LabelTable}, s.labels.define = (label, labels) →
            Answers (do
              set { s with labels, regions := s.regions.replace id (region.setBreakLabel label) }
              noteReference label
              return .label label : SessionM JumpTarget) s a s' → Advance s s' := by
          intro label labels hdefine hnew
          obtain ⟨u, s₁, hset, h₁⟩ := hnew.of_bind
          obtain ⟨v, s₂, hnote, h₂⟩ := h₁.of_bind
          obtain ⟨-, rfl⟩ := h₂.of_pure
          obtain rfl : s.labels.define.2 = labels := congrArg Prod.snd hdefine
          have hset' := Advance.setBreakLabel (s := { s with labels := s.labels.define.2 }) hget
            htarget label
          rw [← hset.of_set] at hset'
          exact (Recording.define s).advance.trans (hset'.trans hnote.of_noteReference.advance)
        split at h
        · obtain ⟨-, rfl⟩ := h.of_pure
          exact .refl s'
        · split at h
          · obtain ⟨u, s₁, hnote, hlast⟩ := h.of_bind
            obtain ⟨-, rfl⟩ := hlast.of_pure
            exact hnote.of_noteReference.advance
          · exact hnew rfl h
      · exact h.of_throw.elim
    · exact h.of_throw.elim
  · exact h.of_throw.elim

/-- Every request takes the session forward. -/
theorem advances_run (request : Request) : Advances request.run := by
  have hdone : ∀ {α : Type} {call : SessionM α} (reply : α → Reply), Advances call →
      Advances (do return reply (← call)) := fun _ h => h.bind fun _ => (Quiet.pure _).advances
  cases request with
  | writeLocation span => exact hdone (fun _ => .done) (Quiet.writeLocation span).advances
  | emit op => exact hdone (fun _ => .done) (Quiet.emit op).advances
  | defineLabel => exact hdone .label (Quiet.of_recording Answers.of_defineLabel).advances
  | markLabel label =>
    exact hdone (fun _ => .done) (Quiet.of_recording fun h => h.of_markLabel.1).advances
  | createInlineBreak label => exact hdone .node (Quiet.createInlineBreak label).advances
  | createInlineReturn value => exact hdone .node (Quiet.createInlineReturn value).advances
  | createResume => exact hdone .node Quiet.createResume.advances
  | beginException => exact hdone .label fun _ _ _ h => h.of_beginException.1
  | beginCatch name => exact hdone (fun _ => .done) (advances_beginCatch name)
  | beginFinally => exact hdone (fun _ => .done) advances_beginFinally
  | endException => exact hdone (fun _ => .done) advances_endException
  | beginScope holder => exact hdone (fun _ => .done) (advances_beginScope holder)
  | endScope => exact hdone (fun _ => .done) advances_endScope
  | beginBreakable names needsName =>
    exact hdone (fun _ => .done) (advances_beginBreakable names needsName)
  | endBreakable => exact hdone (fun _ => .done) advances_endBreakable
  | beginLoop label names => exact hdone (fun _ => .done) (advances_beginLoop label names)
  | endLoop => exact hdone (fun _ => .done) advances_endLoop
  | beginNativeBreakable names needsName =>
    exact hdone (fun _ => .done) (advances_beginNativeBreakable names needsName)
  | endNativeBreakable => exact hdone (fun _ => .done) advances_endNativeBreakable
  | beginNativeLoop names => exact hdone (fun _ => .done) (advances_beginNativeLoop names)
  | endNativeLoop => exact hdone (fun _ => .done) advances_endNativeLoop
  | findBreakTarget name => exact hdone .target (advances_findBreakTarget name)
  | findContinueTarget name => exact hdone .target (Quiet.findContinueTarget name).advances
  | createUniqueIdentifier preferred registered => exact hdone .name (Quiet.naming _).advances
  | declareLocal preferred registered => exact hdone .name (Quiet.naming _).advances
  | addVariable name => exact hdone (fun _ => .done) (Quiet.addVariable name).advances
  | addParameter parameter =>
    exact hdone (fun _ => .done) (Quiet.addParameter parameter).advances
  | addFunction declaration =>
    exact hdone (fun _ => .done) (Quiet.addFunction declaration).advances
  | ensureIdentifier expression => exact hdone .node (Quiet.ensureIdentifier expression).advances
  | valueOrDefault value default => exact hdone .node (Quiet.valueOrDefault value default).advances
  | stateName => exact hdone .name Quiet.stateName.advances
  | takeDiagnostics => exact hdone .diagnostics Quiet.takeDiagnostics.advances
  | buildStatements forceReturn => exact hdone .body (Quiet.buildStatements forceReturn).advances
  | buildFunction shape name => exact hdone .node (Quiet.buildFunction shape name).advances

/-- So does any sequence of requests. -/
theorem Runs.advance (h : Runs s requests s') : Advance s s' := by
  induction h with
  | nil s => exact .refl s
  | cons first rest ih => exact (advances_run _ _ _ _ first).trans ih

theorem inOrder_start (kind : SessionKind) (options : Options) (scope : Nat) (bound : List String) :
    (start kind options scope bound).InOrder := Laid.empty

end Resumable.Session
