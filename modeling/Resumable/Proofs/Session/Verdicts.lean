import Resumable.Proofs.Session.Soundness

/-!
# What a build answers

For every session that any calls can lead to, whether they succeeded or not: building fails for
open regions first, then for a label that is not marked, then for a label that the operations
mention and nobody defined, and otherwise answers with a body in which numbers stand for labels.
-/

namespace Resumable.Session

variable {kind : SessionKind} {options : Options} {scope : Nat} {bound : List String}
  {s : Session} {forceReturn : Bool} {registry : Name.Registry}

/-- What the nodes of the recorded operations mention, in order. -/
def mentioned (s : Session) : List Label :=
  s.recorder.operations.flatMap fun r => r.operation.references

/-- There always is a name for the state, and making it up changes nothing to build from. -/
theorem perform_stateName (s : Session) (registry : Name.Registry) :
    ∃ state s' registry', perform stateName s registry = (.ok state, s', registry') ∧
      ∀ forceReturn, s'.plan state forceReturn = s.plan state forceReturn := by
  unfold stateName
  rw [perform_get_bind]
  cases s.state with
  | some name => exact ⟨name, s, registry, rfl, fun _ => rfl⟩
  | none => exact ⟨_, _, _, rfl, fun _ => rfl⟩

theorem perform_buildStatements_of_open (hdepth : 0 < s.regions.depth) :
    perform (buildStatements forceReturn) s registry =
      (.error (.unclosedRegions s.regions.depth), s, registry) := by
  unfold buildStatements
  rw [perform_bind]
  show perform (if 0 < s.regions.depth then _ else _) s registry = _
  rw [if_pos hdepth]
  rfl

/-- Once every region is closed and there is a name for the state, the outcome is that of building
the plan. -/
theorem perform_buildStatements_of_bodyState {state : String} {s' : Session}
    {registry' : Name.Registry} (hclosed : ¬ 0 < s.regions.depth)
    (hstate : perform bodyState s registry = (.ok state, s', registry')) :
    perform (buildStatements forceReturn) s registry =
      ((s'.plan state forceReturn).build, s', registry') := by
  unfold buildStatements
  rw [perform_get_bind]
  show perform (if 0 < s.regions.depth then _ else _) s registry = _
  rw [if_neg hclosed, perform_bind, hstate]
  dsimp only
  rw [perform_get_bind]
  cases (s'.plan state forceReturn).build <;> rfl

/-- In a function there always is a name. -/
theorem perform_buildStatements (registry : Name.Registry) (forceReturn : Bool)
    (hmode : s.recorder.mode = .stateMachine) (hdepth : s.regions.depth = 0) : ∃ state s' registry',
      perform (buildStatements forceReturn) s registry =
        ((s.plan state forceReturn).build, s', registry') := by
  obtain ⟨state, s', registry', hname, hplan⟩ := perform_stateName s registry
  refine ⟨state, s', registry', ?_⟩
  have hstate : perform bodyState s registry = (.ok state, s', registry') := by
    unfold bodyState
    rw [perform_get_bind, show s.mode = .stateMachine from hmode]
    exact hname
  rw [perform_buildStatements_of_bodyState (hdepth ▸ Nat.lt_irrefl 0) hstate, hplan]

theorem IsSound.plan (hs : s.IsSound) (state : String) (forceReturn : Bool) :
    Sound (s.plan state forceReturn).operations (s.plan state forceReturn).labels
      (s.plan state forceReturn).regions := hs

/-- Once every label is marked, building only complains of labels that nobody defined. -/
theorem not_isDefined_of_unresolved {l : Label} {s' : Session} {registry' : Name.Registry}
    (hs : s.IsSound) (hmode : s.recorder.mode = .stateMachine) (hun : s.labels.unmarked = [])
    (h : perform (buildStatements forceReturn) s registry =
      (.error (.unresolvedLabel l), s', registry')) : ¬ s.IsDefined l := by
  by_cases hdepth : 0 < s.regions.depth
  · rw [perform_buildStatements_of_open hdepth] at h
    cases h
  · obtain ⟨state, s₁, r₁, hbuild⟩ := perform_buildStatements registry forceReturn hmode
      (Nat.eq_zero_of_not_pos hdepth)
    have hsplit : (s.plan state forceReturn).splitOnAbrupt = true := decide_eq_true hmode
    have hnone := LabelTable.firstUnmarked?_eq_none_iff.2 hun
    rw [hbuild] at h
    have hfail := (Prod.mk.inj h).1
    cases hfind : ((s.plan state forceReturn).unplaced.flatMap Node.references).find?
        (fun l => ((s.plan state forceReturn).caseOf? l).isNone) with
    | none =>
      have hok := (Body.Plan.build_eq_ok_iff hsplit).2 ⟨hnone, fun l hl => by
        simpa [Option.isSome_iff_ne_none] using List.find?_eq_none.1 hfind l hl, rfl⟩
      rw [hok] at hfail
      cases hfail
    | some l' =>
      rw [Body.Plan.build_of_find?_references hsplit hnone hfind] at hfail
      cases hfail
      have hbad := List.find?_some hfind
      rw [Body.Plan.isNone_caseOf? (hs.plan state forceReturn) hun] at hbad
      intro hdefined
      have hfind : s.labels.find? l = none := Option.isNone_iff_eq_none.1 hbad
      rw [IsDefined, hfind] at hdefined
      cases hdefined

/-- What building answers. Open regions come first, with their number; then the label with the
lowest number that is not marked; then the first label that the operations mention and nobody
defined. Otherwise there is a body: the statements laid out for it, with the number of an
existing case in the place of every label. -/
theorem outcome_of_reachable (hkind : kind.mode = .stateMachine)
    (h : Reachable (start kind options scope bound) s) (registry : Name.Registry)
    (forceReturn : Bool) :
    ∃ outcome s' registry',
      perform (buildStatements forceReturn) s registry = (outcome, s', registry') ∧
      (0 < s.regions.depth → outcome = .error (.unclosedRegions s.regions.depth)) ∧
      (s.regions.depth = 0 → ∀ l ∈ s.labels.unmarked,
        (∀ l' ∈ s.labels.unmarked, l.number ≤ l'.number) →
          outcome = .error (.unresolvedLabel l)) ∧
      (s.regions.depth = 0 → s.labels.unmarked = [] →
        ∀ l, s.mentioned.find? (fun l => (s.labels.find? l).isNone) = some l →
          outcome = .error (.unresolvedLabel l)) ∧
      (s.regions.depth = 0 → s.labels.unmarked = [] → (∀ l ∈ s.mentioned, s.IsDefined l) →
        ∃ state body, outcome = .ok body ∧
          (s.plan state forceReturn).NumberedBy body
            ((s.plan state forceReturn).labeled (s.plan state forceReturn).walkToEnd)) := by
  have hkept := h.kept (isSound_start kind options scope bound)
  have hmode : s.recorder.mode = .stateMachine := hkept.mode.trans hkind
  by_cases hdepth : 0 < s.regions.depth
  · refine ⟨_, _, _, perform_buildStatements_of_open hdepth, fun _ => rfl, ?_, ?_, ?_⟩ <;>
      exact fun hzero => absurd hdepth (by rw [hzero]; exact Nat.lt_irrefl 0)
  · obtain ⟨state, s', registry', hbuild⟩ := perform_buildStatements registry forceReturn hmode
      (Nat.eq_zero_of_not_pos hdepth)
    have hs : (s.plan state forceReturn).splitOnAbrupt = true := decide_eq_true hmode
    have hsound := hkept.sound.plan state forceReturn
    refine ⟨_, s', registry', hbuild, fun hopen => absurd hopen hdepth, fun _ l hl hmin => ?_,
      fun _ hun l hl => ?_, fun _ hun hdefined => ?_⟩
    · apply Body.Plan.build_of_firstUnmarked?
      exact LabelTable.firstUnmarked?_eq_some_iff.2 ⟨hl, hmin⟩
    · apply Body.Plan.build_of_find?_references hs
      · exact LabelTable.firstUnmarked?_eq_none_iff.2 hun
      · rw [Body.Plan.find?_references_unplaced hsound hun, Body.Plan.undefined, List.head?_filter]
        exact hl
    · have hnone : (s.plan state forceReturn).undefined (s.plan state forceReturn).mentioned = [] :=
        Body.Plan.undefined_eq_nil hdefined
      have hnumbers := Body.Plan.find?_references_unplaced hsound hun
      rw [hnone, List.head?_nil, List.find?_eq_none] at hnumbers
      have hok := (Body.Plan.build_eq_ok_iff hs).2
        ⟨LabelTable.firstUnmarked?_eq_none_iff.2 hun, fun l hl => by
          simpa [Option.isSome_iff_ne_none] using hnumbers l hl, rfl⟩
      refine ⟨state, _, hok, ?_⟩
      rw [Body.Plan.walkToEnd_eq hs, Body.Plan.labeled_draftPast]
      exact Body.Plan.numberedBy_of_build_eq_ok hs hok

/-- A session that goes on after calls that fail: no region is there to be closed, and no label
to jump to. One of its operations mentions a label. -/
def fumbled : List Request :=
  [.endException, .defineLabel, .emit (.jump ⟨7⟩), .emit (.statement (.labelRef ⟨1⟩)),
    .emit (.yield none), .markLabel ⟨1⟩]

theorem outcome_fumbled : ∃ s body s' registry',
    Reachable (start .generator {} 0 []) s ∧ s.mentioned = [⟨1⟩] ∧
      perform (buildStatements true) s {} = (.ok body, s', registry') ∧
      body.statements.flatMap Node.references = [] := by
  have hcheck : (decide ((attemptAll (start .generator {} 0 []) {} fumbled).mentioned = [⟨1⟩]) &&
      decide ((attemptAll (start .generator {} 0 []) {} fumbled).labels.unmarked = []) &&
      decide ((attemptAll (start .generator {} 0 []) {} fumbled).regions.depth = 0) &&
      ((attemptAll (start .generator {} 0 []) {} fumbled).labels.find? ⟨1⟩).isSome) = true := by
    decide +kernel
  have hreach : Reachable (start .generator {} 0 [])
      (attemptAll (start .generator {} 0 []) {} fumbled) :=
    reachable_attemptAll fumbled .start
  generalize attemptAll (start .generator {} 0 []) {} fumbled = s at hcheck hreach
  simp only [Bool.and_eq_true, decide_eq_true_eq] at hcheck
  obtain ⟨⟨⟨hmentioned, hun⟩, hdepth⟩, hdefined⟩ := hcheck
  obtain ⟨outcome, s', registry', hbuild, -, -, -, hok⟩ := outcome_of_reachable rfl hreach {} true
  obtain ⟨state, body, rfl, hnumbered⟩ := hok hdepth hun fun l hl => by
    rw [hmentioned] at hl
    obtain rfl := List.mem_singleton.1 hl
    exact hdefined
  exact ⟨s, body, s', registry', hreach, hmentioned, hbuild, hnumbered.settled⟩

end Resumable.Session
