import Resumable.Proofs.Session.Failures
import Resumable.Proofs.Session.Capture
import Resumable.Proofs.Session.Verdicts
import Resumable.Tree.Printer

/-!
# Building again

Once a build has settled the name of the state, the session builds the same body from what it has
recorded, and builds it without making up another name. So a second build comes to what the first
one came to, unless the function answers with a promise: the parameter that resolves it gets a name
of its own in every build.
-/

namespace Resumable.Session

variable {s s' : Session} {state : String} {forceReturn : Bool} {body : Body}
  {shape : FunctionShape} {functionName : Option String} {node : Node}

/-- There is a name for bodies to read the state under. -/
def HasState (s : Session) (state : String) : Prop :=
  match s.mode with
  | .stateMachine => s.state = some state
  | .statements => s.state.getD s.options.stateName = state

/-- A body can be built from the session without making up a name for the state. -/
structure Rebuilds (s : Session) (forceReturn : Bool) (body : Body) : Prop where
  closed : s.regions.depth = 0
  body_eq : ∃ state, HasState s state ∧ (s.plan state forceReturn).build = .ok body

section Bodies

theorem perform_stateName_of_state (h : s.state = some state) (r : Name.Registry) :
    perform stateName s r = (.ok state, s, r) := by
  unfold stateName
  rw [perform_get_bind, h]
  rfl

theorem HasState.perform_bodyState (h : HasState s state) (r : Name.Registry) :
    perform bodyState s r = (.ok state, s, r) := by
  unfold bodyState
  rw [perform_get_bind]
  unfold HasState at h
  cases hmode : s.mode with
  | stateMachine =>
    rw [hmode] at h
    exact perform_stateName_of_state h r
  | statements =>
    rw [hmode] at h
    rw [h]
    rfl

theorem Answers.hasState (h : Answers bodyState s state s') : HasState s' state := by
  have hmode : s'.mode = s.mode := by
    rw [mode, mode, h.untouched_bodyState.recorder]
  unfold bodyState at h
  have h := h.of_get_bind
  unfold HasState
  split at h
  next hmachine =>
    rw [hmode, hmachine]
    exact h.names_stateName.2
  next hlist =>
    obtain ⟨rfl, rfl⟩ := h.of_pure
    rw [hlist]

theorem Rebuilds.perform_buildStatements (h : Rebuilds s forceReturn body) (r : Name.Registry) :
    perform (buildStatements forceReturn) s r = (.ok body, s, r) := by
  obtain ⟨hclosed, state, hstate, hbuild⟩ := h
  rw [perform_buildStatements_of_bodyState (by omega) (hstate.perform_bodyState r), hbuild]

/-- A body that was built can be built again. -/
theorem Answers.rebuilds (h : Answers (buildStatements forceReturn) s body s') :
    Rebuilds s' forceReturn body := by
  have hregions := h.untouched_buildStatements.regions
  unfold buildStatements at h
  have h := h.of_get_bind
  dsimp only at h
  split at h
  next =>
    obtain ⟨u, s₁, hthrow, -⟩ := h.of_bind
    exact hthrow.of_throw.elim
  next hclosed =>
    obtain ⟨state, s₁, hstate, hrest⟩ := h.of_bind
    have hbuild := hrest.of_get_bind
    split at hbuild
    next body' heq =>
      obtain ⟨rfl, rfl⟩ := hbuild.of_pure
      rw [← hregions] at hclosed
      exact ⟨by omega, state, hstate.hasState, heq⟩
    next => exact hbuild.of_throw.elim

/-- More names taken do not matter. -/
theorem Rebuilds.of_names (h : Rebuilds s forceReturn body) (names : Name.Allocator) :
    Rebuilds { s with names } forceReturn body := ⟨h.closed, h.body_eq⟩

end Bodies

/-- The function that returns this result. -/
def function (s : Session) (shape : FunctionShape) (name : Option String) (result : Node) : Node :=
  shape.assemble name s.parameters (s.hoisted ++ [.returnStmt (some result)])

section Functions

theorem Untouched.function_eq (h : Untouched s s') (result : Node) :
    s'.function shape functionName result = s.function shape functionName result := by
  rw [function, function, hoisted, hoisted, h.parameters, h.declared, h.functions]

/-- Every shape keeps the statements it is given. -/
theorem assemble_injective {parameters : List (Parameter Node)} {body body' : List Node}
    (h : shape.assemble functionName parameters body =
      shape.assemble functionName parameters body') : body = body' := by
  cases shape <;> cases functionName <;> simpa [FunctionShape.assemble] using h

/-- Functions that return differently differ. -/
theorem function_injective {result result' : Node}
    (h : s.function shape functionName result = s.function shape functionName result') :
    result = result' := by
  simpa using assemble_injective h

theorem promised_injective {promise body : Node} {resolve resolve' : String}
    (h : promised promise resolve body = promised promise resolve' body) : resolve = resolve' := by
  simp [promised] at h
  exact h

theorem promise?_eq_none {kind : SessionKind} (h : ∀ promise, kind ≠ .async promise) :
    kind.promise? = none := by
  cases kind with
  | async promise => exact absurd rfl (h promise)
  | statements => rfl
  | generator => rfl

/-- What follows once the body of a function is built and the state has a name. -/
inductive Finishes (s : Session) (shape : FunctionShape) (name : Option String) (driver : Node) :
    Node → Session → Prop where
  | returned (hkind : s.kind.promise? = none) :
      Finishes s shape name driver (s.function shape name driver) s
  | promised {promise : Node} {resolve : String} {s' : Session}
      (hkind : s.kind.promise? = some promise)
      (hresolve : Answers (createUniqueIdentifier (some s.options.resolveName) false) s resolve s') :
      Finishes s shape name driver
        (s.function shape name (Session.promised promise resolve driver)) s'

theorem Answers.of_stateName_of_state {name : String} (h : Answers stateName s name s')
    (hstate : s.state = some state) : name = state ∧ s' = s := by
  obtain ⟨r, r', h⟩ := h
  rw [perform_stateName_of_state hstate] at h
  cases h
  exact ⟨rfl, rfl⟩

/-- In a function the name of the state is the one that the session keeps. -/
theorem HasState.state_eq (h : HasState s state) (hmode : s.mode ≠ .statements) :
    s.state = some state := by
  unfold HasState at h
  split at h
  next => exact h
  next hlist => exact absurd hlist hmode

/-- A function is finished from its body. -/
theorem Answers.finishes (h : Answers (buildFunction shape functionName) s node s') :
    ∃ body state s₁, s₁.mode ≠ .statements ∧ shape.checkName functionName = .ok () ∧
      Answers (buildStatements true) s body s₁ ∧ s₁.state = some state ∧
      Finishes s₁ shape functionName (driven state body.statements) node s' := by
  have hmode : s.mode ≠ .statements := by
    intro hlist
    obtain ⟨u, s₁, hfunction, -⟩ := Answers.of_bind h
    unfold requireFunction at hfunction
    have hthrow := hfunction.of_get_bind
    rw [if_pos hlist] at hthrow
    exact hthrow.of_throw
  have h := Answers.of_requireFunction_bind h
  dsimp only at h
  split at h
  next =>
    obtain ⟨u, s₁, hthrow, -⟩ := h.of_bind
    exact hthrow.of_throw.elim
  next hallowed =>
    have hname : shape.checkName functionName = .ok () := by
      cases hcheck : shape.checkName functionName with
      | ok u => rfl
      | error e => exact absurd hcheck (hallowed e)
    obtain ⟨body, s₁, hbody, h⟩ := h.of_bind
    have hmode₁ : s₁.mode ≠ .statements := by
      rwa [mode, hbody.untouched_buildStatements.recorder]
    obtain ⟨state, hhas, -⟩ := hbody.rebuilds.body_eq
    have hstate := hhas.state_eq hmode₁
    obtain ⟨name, s₂, hanswer, hrest⟩ := h.of_bind
    obtain ⟨rfl, rfl⟩ := hanswer.of_stateName_of_state hstate
    have hrest := hrest.of_get_bind
    refine ⟨body, name, s₂, hmode₁, hname, hbody, hstate, ?_⟩
    split at hrest
    next promise hkind =>
      obtain ⟨resolve, s₃, hresolve, hlast⟩ := hrest.of_bind
      obtain ⟨result, s₄, hpure, hlast⟩ := hlast.of_bind
      obtain ⟨rfl, rfl⟩ := hpure.of_pure
      obtain ⟨rfl, rfl⟩ := hlast.of_pure
      exact .promised (by rw [hkind]; rfl) hresolve
    next hkind =>
      obtain ⟨result, s₃, hpure, hlast⟩ := hrest.of_bind
      obtain ⟨rfl, rfl⟩ := hpure.of_pure
      obtain ⟨rfl, rfl⟩ := hlast.of_pure
      exact .returned (promise?_eq_none hkind)

/-- A function is built whenever its body can be built again. -/
theorem Rebuilds.exists_finishes (h : Rebuilds s true body) (hmode : s.mode ≠ .statements)
    (hname : shape.checkName functionName = .ok ()) (hstate : s.state = some state)
    (r : Name.Registry) :
    ∃ node s' r', perform (buildFunction shape functionName) s r = (.ok node, s', r') ∧
      Finishes s shape functionName (driven state body.statements) node s' := by
  have hfunction : perform (requireFunction .buildFunction) s r = (.ok (), s, r) := by
    unfold requireFunction
    rw [perform_get_bind]
    rw [if_neg hmode]
    rfl
  unfold buildFunction
  rw [perform_bind, hfunction]
  dsimp only
  rw [hname]
  dsimp only
  rw [perform_bind, h.perform_buildStatements r]
  dsimp only
  rw [perform_bind, perform_stateName_of_state hstate]
  dsimp only
  rw [perform_get_bind]
  split
  next promise hkind =>
    exact ⟨_, _, _, rfl, .promised (by rw [hkind]; rfl) ⟨r, _, rfl⟩⟩
  next hkind =>
    exact ⟨_, _, _, rfl, .returned (promise?_eq_none hkind)⟩

theorem Answers.kind_buildStatements (h : Answers (buildStatements forceReturn) s body s') :
    s'.kind = s.kind := by
  obtain ⟨reserved, hnames⟩ :=
    nameless_reserves.buildStatements reserves_stateName forceReturn s s' (.of_answers h)
  exact hnames.kind

/-- A function that is not asynchronous is built the same way again. -/
theorem rebuilt_of_promise?_eq_none (h : Answers (buildFunction shape functionName) s node s')
    (hkind : s.kind.promise? = none) (r : Name.Registry) :
    ∃ r', perform (buildFunction shape functionName) s' r = (.ok node, s', r') := by
  obtain ⟨body, state, s₁, hmode, hname, hbody, hstate, hfinishes⟩ := h.finishes
  rw [← hbody.kind_buildStatements] at hkind
  cases hfinishes with
  | promised hpromise => rw [hkind] at hpromise; cases hpromise
  | returned =>
    obtain ⟨node', s'', r', hperform, hagain⟩ :=
      hbody.rebuilds.exists_finishes hmode hname hstate r
    cases hagain with
    | promised hpromise => rw [hkind] at hpromise; cases hpromise
    | returned => exact ⟨r', hperform⟩

/-- A name that was made up is taken from then on, and nothing else has changed. -/
theorem Answers.of_createUniqueIdentifier {preferred : Option String} {registered : Bool}
    {name : String} (h : Answers (createUniqueIdentifier preferred registered) s name s') :
    name ∉ s.names.issued ∧ name ∈ s'.names.issued ∧ ∃ names, s' = { s with names } := by
  obtain ⟨r, r', names, hcreated, rfl⟩ := h.exists_created
  refine ⟨hcreated.unissued, ?_, names, rfl⟩
  simp [hcreated.issued]

/-- A function that answers with a promise is built again but for the name of one parameter. -/
theorem rebuilt_of_promise?_eq_some {promise : Node}
    (h : Answers (buildFunction shape functionName) s node s')
    (hkind : s.kind.promise? = some promise) :
    ∃ resolve driver, node = s.function shape functionName (promised promise resolve driver) ∧
      ∀ r, ∃ resolve' s'' r', resolve' ≠ resolve ∧ Untouched s' s'' ∧
        perform (buildFunction shape functionName) s' r =
          (.ok (s.function shape functionName (promised promise resolve' driver)), s'', r') := by
  obtain ⟨body, state, s₁, hmode, hname, hbody, hstate, hfinishes⟩ := h.finishes
  have hsame := hbody.untouched_buildStatements
  rw [← hbody.kind_buildStatements] at hkind
  cases hfinishes with
  | returned hnone => rw [hkind] at hnone; cases hnone
  | @promised promise' resolve _ hpromise hresolve =>
    obtain rfl : promise' = promise := Option.some.inj (hpromise.symm.trans hkind)
    obtain ⟨-, hissued, names, hs'⟩ := hresolve.of_createUniqueIdentifier
    have hsame' := hsame.trans hresolve.untouched_createUniqueIdentifier
    have hrebuilds : Rebuilds s' true body := hs' ▸ hbody.rebuilds.of_names names
    have hmode' : s'.mode ≠ .statements := by rwa [hs']
    have hstate' : s'.state = some state := by rwa [hs']
    have hkind' : s'.kind.promise? = some promise' := by rwa [hs']
    refine ⟨resolve, driven state body.statements, hsame.function_eq _, fun r => ?_⟩
    obtain ⟨node', s'', r', hperform, hagain⟩ :=
      hrebuilds.exists_finishes hmode' hname hstate' r
    cases hagain with
    | returned hnone => rw [hkind'] at hnone; cases hnone
    | @promised promise'' resolve' _ hpromise' hresolve' =>
      obtain rfl : promise'' = promise' := Option.some.inj (hpromise'.symm.trans hkind')
      refine ⟨resolve', s'', r', ?_, hresolve'.untouched_createUniqueIdentifier, ?_⟩
      · rintro rfl
        exact hresolve'.of_createUniqueIdentifier.1 hissued
      · rw [hperform, hsame'.function_eq]

theorem Answers.untouched_buildFunction (h : Answers (buildFunction shape functionName) s node s') :
    Untouched s s' := by
  obtain ⟨body, state, s₁, -, -, hbody, -, hfinishes⟩ := h.finishes
  cases hfinishes with
  | returned => exact hbody.untouched_buildStatements
  | promised _ hresolve =>
    exact hbody.untouched_buildStatements.trans hresolve.untouched_createUniqueIdentifier

end Functions

/-- A build changes nothing but the names made up, and the same build is made again on whatever the
first one left: with the same answer, except that a function that answers with a promise differs in
the name of the parameter that resolves it. -/
theorem rebuilt_of_answers (s : Session) (forceReturn : Bool) (shape : FunctionShape)
    (name : Option String) :
    (∀ body s', Answers (buildStatements forceReturn) s body s' →
        Untouched s s' ∧ ∀ r, perform (buildStatements forceReturn) s' r = (.ok body, s', r)) ∧
      ∀ node s', Answers (buildFunction shape name) s node s' →
        Untouched s s' ∧
          match s.kind.promise? with
          | none => ∀ r, ∃ r', perform (buildFunction shape name) s' r = (.ok node, s', r')
          | some promise =>
            ∃ resolve driver, node = s.function shape name (promised promise resolve driver) ∧
              ∀ r, ∃ resolve' node' s'' r', resolve' ≠ resolve ∧ node' ≠ node ∧
                node' = s.function shape name (promised promise resolve' driver) ∧
                perform (buildFunction shape name) s' r = (.ok node', s'', r') ∧
                Untouched s' s'' := by
  constructor
  · intro body s' h
    exact ⟨h.untouched_buildStatements, h.rebuilds.perform_buildStatements⟩
  · intro node s' h
    refine ⟨h.untouched_buildFunction, ?_⟩
    split
    next hkind => exact rebuilt_of_promise?_eq_none h hkind
    next promise hkind =>
      obtain ⟨resolve, driver, rfl, hagain⟩ := rebuilt_of_promise?_eq_some h hkind
      refine ⟨resolve, driver, rfl, fun r => ?_⟩
      obtain ⟨resolve', s'', r', hne, hsame, hperform⟩ := hagain r
      refine ⟨resolve', _, s'', r', hne, fun heq => ?_, rfl, hperform, hsame⟩
      exact hne (promised_injective (function_injective heq))

/-- A session of some kind for a function that yields once. -/
def yieldingOnce (kind : SessionKind) : Session :=
  (recount (start kind {} 0 []) {} [.emit (.yield (some (.identifier "a")))]).2

theorem exists_answers_of_isOk {α : Type} {call : SessionM α} (r : Name.Registry)
    (h : (perform call s r).1.isOk = true) : ∃ a s', Answers call s a s' := by
  generalize hperform : perform call s r = attempt at h
  obtain ⟨outcome, s', r'⟩ := attempt
  cases outcome with
  | ok a => exact ⟨a, s', r, r', hperform⟩
  | error e => cases h

/-- The generator is built twice in the same way, the asynchronous function is not. -/
theorem rebuilt_yielding_once :
    (∃ body s', Answers (buildStatements true) (yieldingOnce .generator) body s' ∧
        perform (buildStatements true) s' {} = (.ok body, s', {})) ∧
      (∃ node s' r', Answers (buildFunction .method (some "m")) (yieldingOnce .generator) node s' ∧
        perform (buildFunction .method (some "m")) s' {} = (.ok node, s', r')) ∧
      ∃ node s' node' s'' r',
        Answers (buildFunction .arrow none) (yieldingOnce (.async (.identifier "Promise"))) node s' ∧
          perform (buildFunction .arrow none) s' {} = (.ok node', s'', r') ∧ node' ≠ node ∧
          Untouched s' s'' := by
  obtain ⟨body, t, hbody⟩ : ∃ body t, Answers (buildStatements true) (yieldingOnce .generator)
      body t := exists_answers_of_isOk {} (by decide +kernel)
  obtain ⟨method, u, hmethod⟩ : ∃ node u, Answers (buildFunction .method (some "m"))
      (yieldingOnce .generator) node u := exists_answers_of_isOk {} (by decide +kernel)
  obtain ⟨arrow, v, harrow⟩ : ∃ node v, Answers (buildFunction .arrow none)
      (yieldingOnce (.async (.identifier "Promise"))) node v :=
    exists_answers_of_isOk {} (by decide +kernel)
  refine ⟨⟨body, t, hbody, ((rebuilt_of_answers _ true .method none).1 _ _ hbody).2 {}⟩, ?_, ?_⟩
  · obtain ⟨-, hagain⟩ := (rebuilt_of_answers _ true .method (some "m")).2 _ _ hmethod
    obtain ⟨r', hperform⟩ := hagain {}
    exact ⟨method, u, r', hmethod, hperform⟩
  · obtain ⟨-, resolve, driver, -, hagain⟩ :=
      (rebuilt_of_answers _ true .arrow none).2 _ _ harrow
    obtain ⟨resolve', node', v', r', -, hne, -, hperform, hsame⟩ := hagain {}
    exact ⟨arrow, v, node', v', r', harrow, hperform, hne, hsame⟩

/-- The text of a second build right after the first is not that of the first. -/
theorem rebuilt_with_other_name : ∃ node s' r' node' s'' r'',
    perform (buildFunction .declaration (some "f"))
        (yieldingOnce (.async (.identifier "Promise"))) {} = (.ok node, s', r') ∧
      perform (buildFunction .declaration (some "f")) s' r' = (.ok node', s'', r'') ∧
      node'.print ≠ node.print :=
  ⟨_, _, _, _, _, _, rfl, rfl, by decide +kernel⟩

end Resumable.Session
