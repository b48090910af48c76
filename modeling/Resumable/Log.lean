/-!
# Log formats

The form in which a trace of the lowering is written.
-/

namespace Resumable

inductive LogFormat where
  | text
  | tree
  | json
  deriving DecidableEq, Repr, Inhabited

namespace LogFormat

/-- Reads the name of a format in any letter case; any other text means plain text. Folding
the ASCII letters is enough, since no other letter has one of these names' letters as its
lower case. -/
def ofName (name : String) : LogFormat :=
  match name.toLower with
  | "tree" => .tree
  | "json" => .json
  | _ => .text

end LogFormat

end Resumable
