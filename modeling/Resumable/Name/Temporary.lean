/-!
# Temporary names

The sequence of names that temporaries are taken from: `_a` to `_z` without `_i`, and then
`_0`, `_1` and so on. `_i` is left out, so that no temporary reads as a loop index.

`firstFree` is the least place of the sequence, from a given one on, whose name is not
taken. No two places have the same name, so among one place more than there are taken names
one is free, and the search never has to look further.
-/

namespace Resumable.Name

/-- The name at a place of the sequence. -/
def temporary (place : Nat) : String :=
  if place < 25 then
    let letter := if place < 8 then place else place + 1
    String.ofList ['_', Char.ofNat ('a'.toNat + letter)]
  else
    "_" ++ toString (place - 25)

/-- The first place from `place` on whose name is not among the taken ones. -/
def firstFree (taken : List String) (place : Nat) : Nat :=
  ((List.range' place (taken.length + 1)).find? fun n => !taken.contains (temporary n)).getD
    (place + taken.length + 1)

end Resumable.Name
