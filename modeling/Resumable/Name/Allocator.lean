import Resumable.Name.Registry
import Resumable.Name.Temporary
import Resumable.Text.Quoted
import Resumable.Tree.Basic

/-!
# The allocator

Hands out the names that a lowered function needs besides its own. A name is free when it
is not bound in the scope of the function, not registered, and not handed out before by the
same allocator. A preferred name is used if it is free; otherwise the next free temporary
is. Places of the temporary sequence that were passed over are never tried again.
-/

namespace Resumable.Name

structure Allocator where
  /-- The scope the function is declared in. -/
  scope : Nat
  /-- The names bound in that scope. -/
  bound : List String
  /-- The place of the next temporary to try. -/
  next : Nat := 0
  /-- Every name handed out. -/
  issued : List String := []
  /-- The names to declare at the head of the function, in order. -/
  declared : List String := []
  deriving Repr, Inhabited

/-- An action on an allocator and on the registry it shares. -/
abbrev AllocatorM := StateT Allocator (StateM Registry)

namespace Allocator

/-- The names that are not free. -/
def taken (a : Allocator) (r : Registry) : List String := a.issued ++ r.names ++ a.bound

/-- The name handed out next, and the place the temporaries go on from. -/
def choose (a : Allocator) (r : Registry) (preferred : Option String) : String × Nat :=
  let taken := a.taken r
  match preferred.filter fun name => !taken.contains name with
  | some name => (name, a.next)
  | none =>
    let place := firstFree taken a.next
    (temporary place, place + 1)

/-- Hands out a free name, and registers it if that is asked for. -/
def create (preferred : Option String) (registered : Bool) : AllocatorM String := do
  let a ← get
  let (name, next) := a.choose (← getThe Registry) preferred
  if registered then
    modifyThe Registry fun r => (r.register name).2
  set { a with next, issued := name :: a.issued }
  return name

/-- Adds a name to the variables to declare. -/
def declare (name : String) : AllocatorM Unit :=
  modify fun a => { a with declared := a.declared ++ [name] }

/-- An identifier for the value of an expression, and the assignments to run before it is
used: the expression itself if it is an identifier, and otherwise a new variable. -/
def ensureIdentifier (expression : Node) : AllocatorM (Node × List (Node × Node)) := do
  if expression.unlocated.isIdentifier then
    return (expression, [])
  let name ← create none false
  declare name
  return (.identifier name, [(.identifier name, expression)])

/-- The value, or the default if the value is undefined, with the assignments to run before;
the value is evaluated once. -/
def valueOrDefault (value default : Node) : AllocatorM (Node × List (Node × Node)) := do
  let (value, assignments) ← ensureIdentifier value
  return (.conditional (.binary value "===" .undefined) default value, assignments)

/-- A line that describes the state of the allocator. -/
def summary (a : Allocator) : String :=
  let shown := ", ".intercalate (a.declared.map Text.quote)
  "Locals \x7b scope: ScopeId(" ++ toString a.scope ++ "), temp_count: " ++ toString a.next ++
    ", variables: [" ++ shown ++ "], .. \x7d"

end Allocator

end Resumable.Name
