/-!
# Function shapes

The syntactic forms in which a lowered function can be asked for, and which of them take a
name.
-/

namespace Resumable

inductive FunctionShape where
  | declaration
  | expression
  | method
  | getAccessor
  | arrow
  deriving DecidableEq, Repr, Inhabited

namespace FunctionShape

def text : FunctionShape → String
  | .declaration => "function declaration"
  | .expression => "function expression"
  | .method => "method"
  | .getAccessor => "get accessor"
  | .arrow => "arrow function"

/-- Whether the shape cannot do without a name. -/
def needsName : FunctionShape → Bool
  | .declaration | .method | .getAccessor => true
  | .expression | .arrow => false

/-- Whether the shape has a place for a name. -/
def allowsName : FunctionShape → Bool
  | .arrow => false
  | _ => true

end FunctionShape

end Resumable
