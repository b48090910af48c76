import Resumable.Error

/-!
# The region stack

The regions of one function, in the order they were opened, with the stack of those still
open and a log of the openings and closings. The log carries the operation index of each
event, so a walk over the operations can tell which regions enclose each of them.
-/

namespace Resumable

/-- A region is named by its place in the order of openings. -/
abbrev RegionId := Nat

inductive RegionAction where
  | opened
  | closed
  deriving DecidableEq, Repr, Inhabited

structure RegionEvent where
  action : RegionAction
  region : RegionId
  /-- The index of the operation before which the event happened. -/
  offset : Nat
  deriving DecidableEq, Repr, Inhabited

structure RegionStack where
  /-- Every region ever opened. -/
  regions : List Region := []
  /-- The regions still open, the innermost first. -/
  live : List RegionId := []
  events : List RegionEvent := []
  /-- An exception region was opened at some time. -/
  hasExceptions : Bool := false
  deriving DecidableEq, Repr, Inhabited

namespace RegionStack

def depth (s : RegionStack) : Nat := s.live.length

def get? (s : RegionStack) (id : RegionId) : Option Region := s.regions[id]?

/-- Puts another region in the place of `id`. -/
def replace (s : RegionStack) (id : RegionId) (region : Region) : RegionStack :=
  { s with regions := s.regions.set id region }

/-- Opens a region before the operation with index `offset`. -/
def enter (s : RegionStack) (region : Region) (offset : Nat) : RegionId × RegionStack :=
  let id := s.regions.length
  (id,
    { regions := s.regions ++ [region]
      live := id :: s.live
      events := s.events ++ [⟨.opened, id, offset⟩]
      hasExceptions := s.hasExceptions || region.exception?.isSome })

/-- The innermost open region with its kind. -/
def innermost? (s : RegionStack) : Option (RegionId × RegionKind) := do
  let id ← s.live.head?
  let region ← s.get? id
  return (id, region.kind)

/-- The innermost open region, which has to be of the expected kind. -/
def expect (s : RegionStack) (kind : RegionKind) : Except LoweringError RegionId :=
  match s.innermost? with
  | some (id, found) =>
    if found = kind then .ok id else .error (.regionMismatch kind (some found))
  | none => .error (.regionMismatch kind none)

/-- Closes the innermost open region, which has to be of the expected kind. -/
def leave (s : RegionStack) (kind : RegionKind) (offset : Nat) :
    Except LoweringError (RegionId × RegionStack) := do
  let id ← s.expect kind
  return (id,
    { s with live := s.live.tail, events := s.events ++ [⟨.closed, id, offset⟩] })

/-- The innermost open region that satisfies `p`. -/
def find? (s : RegionStack) (p : Region → Bool) : Option RegionId :=
  s.live.find? fun id => (s.get? id).any p

/-- The region that a `break`, with a source label or with none, leaves. -/
def breakTarget? (s : RegionStack) (name : Option String) : Option RegionId :=
  s.find? (·.answersBreak name)

/-- The region that a `continue`, with a source label or with none, restarts. -/
def continueTarget? (s : RegionStack) (name : Option String) : Option RegionId :=
  s.find? (·.answersContinue name)

theorem get?_enter (s : RegionStack) (region : Region) (offset : Nat) :
    (s.enter region offset).2.get? (s.enter region offset).1 = some region := by
  simp [enter, get?]

/-- Closing succeeds exactly if the innermost region has the expected kind. -/
theorem leave_eq_ok_iff {s s' : RegionStack} {kind : RegionKind} {offset : Nat} {id : RegionId} :
    s.leave kind offset = .ok (id, s') ↔
      s.innermost? = some (id, kind) ∧
        s' = { s with live := s.live.tail, events := s.events ++ [⟨.closed, id, offset⟩] } := by
  unfold leave expect
  cases s.innermost? with
  | none => simp [bind, Except.bind]
  | some p =>
    obtain ⟨i, k⟩ := p
    by_cases h : k = kind
    · subst h
      simp only [bind, Except.bind, pure, Except.pure, if_true, Except.ok.injEq, Prod.mk.injEq,
        Option.some.injEq, and_true]
      constructor <;> rintro ⟨rfl, rfl⟩ <;> exact ⟨rfl, rfl⟩
    · simp [bind, Except.bind, h]

end RegionStack

end Resumable
