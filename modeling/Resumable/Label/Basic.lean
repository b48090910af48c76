/-!
# Labels

A label names a point of the operation list that a branch may go to. Labels are numbered
from 1 in the order they are defined; `Label.none` stands where there is no label.
-/

namespace Resumable

structure Label where
  number : Nat
  deriving DecidableEq, Repr, Inhabited

namespace Label

/-- The absence of a label. -/
def none : Label := ⟨0⟩

def isNone (l : Label) : Bool := l.number = 0

def isSome (l : Label) : Bool := !l.isNone

/-- The text of a label, as it stands in messages and in unfinished trees. -/
def text (l : Label) : String := "L" ++ toString l.number

end Label

end Resumable
