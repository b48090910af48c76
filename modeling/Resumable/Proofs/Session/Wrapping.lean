import Resumable.Proofs.Body.Frames
import Resumable.Proofs.Body.Translation
import Resumable.Proofs.Session.Announcement
import Resumable.Proofs.Session.Growth

/-!
# Operations in their scopes

For every session: the scopes around the statement of an operation in the finished body are those
that were open when the operation was recorded, and nothing but operations stands in a scope.
-/

namespace Resumable.Session

variable {kind : SessionKind} {options : Options} {scope : Nat} {bound : List String}
  {s s' s₁ s₂ : Session} {requests : List Request} {forceReturn : Bool} {body : Body} {i : Nat}

/-- Building records nothing. -/
theorem operations_of_buildStatements (h : Answers (buildStatements forceReturn) s body s') :
    s'.recorder.operations = s.recorder.operations := by
  obtain ⟨more, hmore, hnil⟩ := h.of_buildStatements.1.operations
  rw [hmore, List.map_eq_nil_iff.1 hnil, List.append_nil]

/-- The scopes that are open before what follows an operation are those that were open when it
was recorded. -/
theorem scopesBefore_of_records {p : Body.Plan} (hregions : p.regions = s.regions)
    (h : Records (start kind options scope bound) requests s i s₁ s₂) :
    p.regions.scopesBefore (i + 1) = s₁.regions.openScopes ∧
      s₂.regions.openScopes = s₁.regions.openScopes := by
  obtain ⟨before, request, reply, after, -, hbefore, hrequest, hafter, hle, hlt⟩ := h
  have hinOrder := hbefore.advance.inOrder (inOrder_start kind options scope bound)
  have hinOrder' := (advances_run request _ _ _ hrequest).inOrder hinOrder
  obtain ⟨hearly, hsame⟩ := hrequest.steady hinOrder (Nat.lt_of_le_of_lt hle hlt)
  obtain ⟨late, hlate, hoffsets⟩ := hafter.grows.events
  have hlog : p.regions.logBefore (i + 1) = s₂.regions.events := by
    rw [hregions]
    refine Laid.logBefore_eq hlate (fun e he => ?_) fun e he => ?_
    · have := hearly e he
      omega
    · have := (hoffsets e he).1
      omega
  have hscopes : ∀ id ∈ s₂.regions.live, p.regions.scope? id = s₂.regions.scope? id := by
    intro id hid
    rw [hregions]
    exact hafter.grows.scopes id (hinOrder'.history.region_lt.2 id hid)
  refine ⟨?_, hsame⟩
  rw [RegionStack.scopesBefore, hlog, hinOrder'.history.foldl_track, ← hsame,
    RegionStack.openScopes]
  exact List.filterMap_congr hscopes

/-- The scopes of a finished body. Case by case, what is set up and announced comes first, then the
statements of the operations in scopes, and then the move to the next case. Every operation was
recorded by some request, and its translation stands in the scopes that were open then, the
outermost outside. The last case, where a final return may follow the operations, has no scope. -/
theorem scopes_around_operations (hkind : kind.mode = .stateMachine)
    (hruns : Runs (start kind options scope bound) requests s)
    (hbuild : Answers (buildStatements forceReturn) s body s') :
    ∃ state p, p = s'.plan state forceReturn ∧ p.build = .ok body ∧
      ∃ (entered : Nat → Option RegionId) (scopes : Nat → List ScopeRegion),
        p.LaidOut body entered scopes ∧ scopes p.cuts.length = [] ∧
        (∀ i < p.operations.length,
          ∃ s₁ s₂, Records (start kind options scope bound) requests s i s₁ s₂) ∧
        ∀ i s₁ s₂, Records (start kind options scope bound) requests s i s₁ s₂ →
          ∃ x, s₂.recorder.operations[i]? = some x ∧ p.operations[i]? = some x ∧
            x.Translates p.comments (p.statement x) ∧
            (p.content (p.caseAt i))[i - p.bound (p.caseAt i)]? = some (p.statement x) ∧
            scopes (p.caseAt i) = s₁.regions.openScopes ∧
            s₂.regions.openScopes = s₁.regions.openScopes := by
  obtain ⟨state, p, hp, hb, hsplits, hregions, hlive, hlabels, hlaid⟩ :=
    exists_plan hkind hruns hbuild
  have hops : p.operations = s.recorder.operations := by
    rw [hp]
    exact operations_of_buildStatements hbuild
  have hmarked : ∀ e ∈ p.regions.events, (p.regions.scope? e.region).isSome = true →
      p.labels.hasLabelAt e.offset = true := by
    intro e he hscope
    obtain ⟨late, hlate, hall⟩ := hruns.grows.events
    rw [hregions] at he hscope
    rw [hlate, show (start kind options scope bound).regions.events = [] from rfl,
      List.nil_append] at he
    obtain ⟨l, hl⟩ := (hall e he).2.2 hscope
    exact LabelTable.hasLabelAt_of_position? (hlabels l _ hl)
  refine ⟨state, p, hp, hb, _, p.scopesOf,
    Body.Plan.laidOut_of_build_eq_ok hlaid hlive hsplits hb,
    Body.Plan.scopesOf_last hlaid hlive, fun i hi => ?_, fun i s₁ s₂ hrecords => ?_⟩
  · rw [hops] at hi
    exact hruns.exists_records (Nat.zero_le _) hi
  · obtain ⟨hbefore, hsame⟩ := scopesBefore_of_records hregions hrecords
    obtain ⟨before, request, reply, after, -, -, -, hafter, -, hlt⟩ := hrecords
    obtain ⟨more, hmore⟩ := hafter.grows.operations
    have hx := List.getElem?_eq_getElem hlt
    have hpx : p.operations[i]? = some s₂.recorder.operations[i] := by
      rw [hops, hmore, List.getElem?_append_left hlt, hx]
    have hi := (List.getElem?_eq_some_iff.1 hpx).1
    refine ⟨_, hx, hpx, Recorded.translates_statement _ _, ?_, ?_, hsame⟩
    · rw [Body.Plan.getElem?_content hi, hpx]
      rfl
    · rw [Body.Plan.scopesOf_caseAt hlaid hi hmarked, hbefore]

/-- A scope in a scope, with a suspension before and one inside. -/
def nested : List Request :=
  [.emit (.yield none), .beginScope "outer", .beginScope "inner"] ++
    .emit (.yield (some (.identifier "a"))) :: [.endScope, .endScope]

/-- Whether the second of three cases has its yield in both scopes. -/
def showsNested : List Node → Bool
  | [.switchStmt (.member (.identifier "_state") "label") [_, ⟨some (.number "1"),
      [.withStmt (.identifier "outer") (.block [.withStmt (.identifier "inner") (.block
        [.returnStmt (some (.instruction 4 (some (.identifier "a")) (some "yield")))])])]⟩, _]] =>
    true
  | _ => false

theorem scopes_nested : ∃ s body s' state p entered scopes,
    Runs (start .generator {} 0 []) nested s ∧ Answers (buildStatements true) s body s' ∧
      p = s'.plan state true ∧ p.LaidOut body entered scopes ∧
      (scopes (p.caseAt 1)).map ScopeRegion.object = ["inner", "outer"] ∧
      ∃ first last, body.statements = [.switchStmt (.member (.identifier "_state") "label")
        [first, ⟨some (.number "1"), [.withStmt (.identifier "outer") (.block
          [.withStmt (.identifier "inner") (.block [.returnStmt (some (.instruction 4
            (some (.identifier "a")) (some "yield")))])])]⟩, last]] := by
  have hcheck : (runAll (start .generator {} 0 []) {}
      [.emit (.yield none), .beginScope "outer", .beginScope "inner"]).any (fun x =>
      (runAll x.1 x.2 [.emit (.yield (some (.identifier "a")))]).any fun y =>
        decide (x.1.recorder.operations.length = 1 ∧ y.1.recorder.operations.length = 2 ∧
          x.1.regions.openScopes.map ScopeRegion.object = ["inner", "outer"]) &&
        (lower y.1 y.2 [.endScope, .endScope] true).any fun z =>
          showsNested z.2.1.statements) = true := by
    decide +kernel
  obtain ⟨⟨s₁, r₁⟩, hfirst, hrest⟩ := (Option.any_eq_true _ _).1 hcheck
  obtain ⟨⟨s₂, r₂⟩, hsecond, hfacts⟩ := (Option.any_eq_true _ _).1 hrest
  simp only [Bool.and_eq_true, decide_eq_true_eq] at hfacts
  obtain ⟨⟨hlen, hlen', hobjects⟩, hlower⟩ := hfacts
  obtain ⟨⟨s, body, s'⟩, hsome, hshape⟩ := (Option.any_eq_true _ _).1 hlower
  obtain ⟨hlast, hbuild⟩ := of_lower hsome
  have hbefore := runs_of_runAll hfirst
  cases runs_of_runAll hsecond with
  | cons hrequest hnil =>
    cases hnil with
    | nil =>
      have hruns := hbefore.append (.cons hrequest hlast)
      obtain ⟨state, p, hp, -, entered, scopes, hlaid, -, -, hall⟩ :=
        scopes_around_operations rfl hruns hbuild
      obtain ⟨x, -, -, -, -, hscopes, -⟩ := hall 1 s₁ s₂
        ⟨_, _, _, _, rfl, hbefore, hrequest, hlast, by omega, by omega⟩
      refine ⟨s, body, s', state, p, entered, scopes, hruns, hbuild, hp, hlaid, ?_, ?_⟩
      · rw [hscopes]
        exact hobjects
      · unfold showsNested at hshape
        split at hshape
        · next first last hstatements => exact ⟨first, last, hstatements⟩
        · cases hshape

end Resumable.Session
