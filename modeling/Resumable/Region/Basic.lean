import Resumable.Label.Basic

/-!
# Regions

The stretches of a function body that a jump or an exception has to respect: blocks that are
protected by a handler, scopes opened over an object, and the targets of `break` and
`continue`. A target is native when its loop or switch stays as it is in the lowered body,
and dispatched when its jumps go through labels.
-/

namespace Resumable

/-- How far an exception region has come. It only ever moves forward. -/
inductive Phase where
  | trying
  | catching
  | finishing
  | done
  deriving DecidableEq, Repr, Inhabited

namespace Phase

def rank : Phase → Nat
  | .trying => 0
  | .catching => 1
  | .finishing => 2
  | .done => 3

instance : LT Phase := ⟨fun a b => a.rank < b.rank⟩

instance (a b : Phase) : Decidable (a < b) := inferInstanceAs (Decidable (a.rank < b.rank))

def text : Phase → String
  | .trying => "try"
  | .catching => "catch"
  | .finishing => "finally"
  | .done => "done"

end Phase

/-- A protected block with its handlers. The labels of the two handlers are `Label.none`
until the handler begins. -/
structure ExceptionRegion where
  phase : Phase := .trying
  start : Label
  catchVariable : Option String := none
  catchLabel : Label := Label.none
  finallyLabel : Label := Label.none
  stop : Label
  deriving DecidableEq, Repr, Inhabited

/-- The scope of the object that the identifier `object` holds. -/
structure ScopeRegion where
  object : String
  start : Label
  stop : Label
  deriving DecidableEq, Repr, Inhabited

/-- What a `break` leaves. Its label is `Label.none` until a jump asks for it. -/
structure BreakTarget where
  label : Label := Label.none
  /-- The source labels the target goes by. -/
  names : List String
  /-- Only a labeled `break` can leave it. -/
  needsName : Bool := false
  native : Bool := false
  deriving DecidableEq, Repr, Inhabited

/-- Whether a jump with this source label, or with none, lands on the target. -/
def BreakTarget.answers (t : BreakTarget) : Option String → Bool
  | none => !t.needsName
  | some name => t.names.contains name

inductive Region where
  | exception (region : ExceptionRegion)
  | scope (region : ScopeRegion)
  | breakable (target : BreakTarget)
  /-- A loop: a target of `break` that `continue` restarts at a label. -/
  | loop (target : BreakTarget) (continueLabel : Label)
  deriving DecidableEq, Repr, Inhabited

/-- What closing a region names: native and dispatched targets are told apart, so that the
one cannot be closed as the other. -/
inductive RegionKind where
  | exception
  | scope
  | breakable
  | nativeBreakable
  | loop
  | nativeLoop
  deriving DecidableEq, Repr, Inhabited

def RegionKind.text : RegionKind → String
  | .exception => "an exception region"
  | .scope => "a with region"
  | .breakable => "a break region"
  | .nativeBreakable => "a native break region"
  | .loop => "a continue region"
  | .nativeLoop => "a native continue region"

namespace Region

def kind : Region → RegionKind
  | .exception _ => .exception
  | .scope _ => .scope
  | .breakable target => if target.native then .nativeBreakable else .breakable
  | .loop target _ => if target.native then .nativeLoop else .loop

/-- What a `break` out of the region leaves. -/
def breakTarget? : Region → Option BreakTarget
  | .breakable target | .loop target _ => some target
  | _ => none

/-- What a `continue` restarts: the target, and the label it goes to. -/
def loop? : Region → Option (BreakTarget × Label)
  | .loop target continueLabel => some (target, continueLabel)
  | _ => none

def exception? : Region → Option ExceptionRegion
  | .exception region => some region
  | _ => none

def scope? : Region → Option ScopeRegion
  | .scope region => some region
  | _ => none

/-- The region with another break label; a region without a target stays as it is. -/
def setBreakLabel (label : Label) : Region → Region
  | .breakable target => .breakable { target with label }
  | .loop target continueLabel => .loop { target with label } continueLabel
  | region => region

/-- Whether a `break` with this source label, or with none, leaves the region. -/
def answersBreak (region : Region) (name : Option String) : Bool :=
  region.breakTarget?.any (·.answers name)

/-- Whether a `continue` with this source label, or with none, restarts the region. -/
def answersContinue (region : Region) (name : Option String) : Bool :=
  region.loop?.any (·.1.answers name)

end Region

end Resumable
