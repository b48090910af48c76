/-!
# Message templates

A template holds placeholders such as `{0}`. The arguments are filled in one after another,
each into the text the ones before it left, so a placeholder that an argument brings along,
or completes, is filled by a later argument.
-/

namespace Resumable.Text

/-- Replaces the occurrences of `target` from left to right, none overlapping the one before.
The counter holds how many characters of an occurrence are still to be skipped. -/
def replaceFrom (target replacement : List Char) : Nat → List Char → List Char
  | _, [] => []
  | skip + 1, _ :: rest => replaceFrom target replacement skip rest
  | 0, c :: rest =>
    if target.isPrefixOf (c :: rest) then
      replacement ++ replaceFrom target replacement (target.length - 1) rest
    else
      c :: replaceFrom target replacement 0 rest

/-- Replaces every occurrence of a nonempty `target`. -/
def replaceAll (target replacement text : List Char) : List Char :=
  replaceFrom target replacement 0 text

/-- The placeholder of the argument with the given index. -/
def placeholder (index : Nat) : String := "\x7b" ++ toString index ++ "\x7d"

/-- The template with each argument, in order, put in place of its placeholder. -/
def fill (template : String) (arguments : List String) : String :=
  String.ofList <| arguments.zipIdx.foldl
    (fun text (argument, index) => replaceAll (placeholder index).toList argument.toList text)
    template.toList

end Resumable.Text
