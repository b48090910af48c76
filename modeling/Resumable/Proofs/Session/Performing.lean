import Resumable.Session.Request

/-!
# Calls that succeed

What is known of a call once it has succeeded, by the steps it is made of. `Answers` leaves the
registry of names out, which other sessions share and may have changed between two calls.
`Runs` is a session in which one call after the other succeeds.
-/

namespace Resumable.Session

variable {α β : Type} {s s' : Session}

/-- The call succeeds with an answer, and leaves a session behind. -/
def Answers (call : SessionM α) (s : Session) (a : α) (s' : Session) : Prop :=
  ∃ r r', perform call s r = (.ok a, s', r')

/-- The second part of a sequence is performed unless the first fails. -/
theorem perform_bind (x : SessionM α) (f : α → SessionM β) (s : Session) (r : Name.Registry) :
    perform (x >>= f) s r = match perform x s r with
      | (.ok a, s₁, r₁) => perform (f a) s₁ r₁
      | (.error e, s₁, r₁) => (.error e, s₁, r₁) := by
  simp only [perform, bind, ExceptT.bind, ExceptT.run, ExceptT.mk, StateT.bind, StateT.run]
  cases x s r with
  | mk first r₁ =>
    obtain ⟨outcome, s₁⟩ := first
    cases outcome <;> rfl

theorem perform_get_bind (f : Session → SessionM α) (s : Session) (r : Name.Registry) :
    perform (get >>= f) s r = perform (f s) s r := rfl

/-- The requests all succeed, one after the other. -/
inductive Runs : Session → List Request → Session → Prop where
  | nil (s : Session) : Runs s [] s
  | cons {s s₁ s₂ : Session} {request : Request} {reply : Reply} {requests : List Request}
      (first : Answers request.run s reply s₁) (rest : Runs s₁ requests s₂) :
      Runs s (request :: requests) s₂

/-- The session after the requests and the registry they leave, if all of them succeed. -/
def runAll : Session → Name.Registry → List Request → Option (Session × Name.Registry)
  | s, r, [] => some (s, r)
  | s, r, request :: requests =>
    match perform request.run s r with
    | (.ok _, s', r') => runAll s' r' requests
    | (.error _, _, _) => none

theorem runs_of_runAll {r r' : Name.Registry} {requests : List Request}
    (h : runAll s r requests = some (s', r')) : Runs s requests s' := by
  induction requests generalizing s r with
  | nil =>
    obtain ⟨rfl, rfl⟩ := Prod.mk.inj (Option.some.inj h)
    exact .nil s
  | cons request requests ih =>
    unfold runAll at h
    split at h
    · next reply s₁ r₁ heq => exact .cons ⟨r, r₁, heq⟩ (ih h)
    · cases h

/-- The session after the requests, the body that is built then, and the session that is left. -/
def lower (s : Session) (r : Name.Registry) (requests : List Request) (forceReturn : Bool) :
    Option (Session × Body × Session) := do
  let (s₁, r₁) ← runAll s r requests
  match perform (buildStatements forceReturn) s₁ r₁ with
  | (.ok body, s', _) => some (s₁, body, s')
  | (.error _, _, _) => none

theorem of_lower {s₁ : Session} {r : Name.Registry} {requests : List Request} {forceReturn : Bool}
    {body : Body} (h : lower s r requests forceReturn = some (s₁, body, s')) :
    Runs s requests s₁ ∧ Answers (buildStatements forceReturn) s₁ body s' := by
  obtain ⟨⟨s₂, r₂⟩, hruns, hbuild⟩ := Option.bind_eq_some_iff.1 h
  dsimp only at hbuild
  split at hbuild
  · next body' s₃ r₃ heq =>
    obtain ⟨rfl, hrest⟩ := Prod.mk.inj (Option.some.inj hbuild)
    obtain ⟨rfl, rfl⟩ := Prod.mk.inj hrest
    exact ⟨runs_of_runAll hruns, ⟨r₂, r₃, heq⟩⟩
  · cases hbuild

theorem Runs.append {s₁ : Session} {requests requests' : List Request} (h : Runs s requests s₁)
    (h' : Runs s₁ requests' s') : Runs s (requests ++ requests') s' := by
  induction h with
  | nil => exact h'
  | cons first _ ih => exact .cons first (ih h')

theorem Runs.of_append {requests requests' : List Request}
    (h : Runs s (requests ++ requests') s') : ∃ s₁, Runs s requests s₁ ∧ Runs s₁ requests' s' := by
  induction requests generalizing s with
  | nil => exact ⟨s, .nil s, h⟩
  | cons request requests ih =>
    cases h with
    | cons first rest =>
      obtain ⟨s₁, hbefore, hafter⟩ := ih rest
      exact ⟨s₁, .cons first hbefore, hafter⟩

namespace Answers

theorem of_pure {a b : α} (h : Answers (pure a) s b s') : b = a ∧ s' = s := by
  obtain ⟨r, r', h⟩ := h
  cases h
  exact ⟨rfl, rfl⟩

theorem of_throw {e : LoweringError} {a : α} (h : Answers (throw e) s a s') : False := by
  obtain ⟨r, r', h⟩ := h
  cases h

/-- A sequence succeeds if its parts do, the second on the session that the first leaves. -/
theorem of_bind {x : SessionM α} {f : α → SessionM β} {b : β} (h : Answers (x >>= f) s b s') :
    ∃ a s₁, Answers x s a s₁ ∧ Answers (f a) s₁ b s' := by
  obtain ⟨r, r', h⟩ := h
  rw [perform_bind] at h
  split at h
  · next a s₁ r₁ hx => exact ⟨a, s₁, ⟨r, r₁, hx⟩, ⟨r₁, r', h⟩⟩
  · cases h

theorem of_get {t : Session} (h : Answers get s t s') : t = s ∧ s' = s := by
  obtain ⟨r, r', h⟩ := h
  cases h
  exact ⟨rfl, rfl⟩

theorem of_get_bind {f : Session → SessionM β} {b : β} (h : Answers (get >>= f) s b s') :
    Answers (f s) s b s' := by
  obtain ⟨t, s₁, hget, hrest⟩ := h.of_bind
  obtain ⟨rfl, rfl⟩ := hget.of_get
  exact hrest

theorem of_set {t : Session} {a : PUnit} (h : Answers (set t) s a s') : s' = t := by
  obtain ⟨r, r', h⟩ := h
  cases h
  rfl

theorem of_modify {f : Session → Session} {a : PUnit} (h : Answers (modify f) s a s') :
    s' = f s := by
  obtain ⟨r, r', h⟩ := h
  cases h
  rfl

theorem of_modifyGet {f : Session → α × Session} {a : α} (h : Answers (modifyGet f) s a s') :
    (a, s') = f s := by
  obtain ⟨r, r', h⟩ := h
  cases h
  rfl

theorem of_requireFunction {call : FunctionCall} {a : Unit}
    (h : Answers (requireFunction call) s a s') : s' = s := by
  unfold requireFunction at h
  have h := h.of_get_bind
  split at h
  · exact h.of_throw.elim
  · exact h.of_pure.2

theorem of_requireFunction_bind {call : FunctionCall} {f : Unit → SessionM β} {b : β}
    (h : Answers (requireFunction call >>= f) s b s') : Answers (f ()) s b s' := by
  obtain ⟨u, s₁, hfunction, hrest⟩ := h.of_bind
  obtain rfl := hfunction.of_requireFunction
  exact hrest

theorem of_updateLabels {change : LabelTable → Except LoweringError LabelTable} {a : Unit}
    (h : Answers (updateLabels change) s a s') :
    ∃ labels, change s.labels = .ok labels ∧ s' = { s with labels } := by
  unfold updateLabels at h
  have h := h.of_get_bind
  split at h
  · next labels heq => exact ⟨labels, heq, h.of_modify⟩
  · exact h.of_throw.elim

theorem of_naming {action : Name.AllocatorM α} {a : α} (h : Answers (naming action) s a s') :
    ∃ names, s' = { s with names } := by
  obtain ⟨r, r', h⟩ := h
  cases h
  exact ⟨_, rfl⟩

end Answers

end Resumable.Session
