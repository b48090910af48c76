/-!
# Quoted strings

A string literal stands between double quotes. A quote and a backslash are escaped by a
backslash; the line terminators and the tab are written by name or by number, so that a
literal never spans lines. Every other character stands for itself.
-/

namespace Resumable.Text

/-- The characters that stand for `c` inside a quoted string. -/
def escape (c : Char) : List Char :=
  match c with
  | '"' => ['\\', '"']
  | '\\' => ['\\', '\\']
  | '\n' => ['\\', 'n']
  | '\r' => ['\\', 'r']
  | '\t' => ['\\', 't']
  | '\u2028' => ['\\', 'u', '2', '0', '2', '8']
  | '\u2029' => ['\\', 'u', '2', '0', '2', '9']
  | c => [c]

/-- The literal whose value is `s`. -/
def quote (s : String) : String :=
  String.ofList ('"' :: s.toList.flatMap escape ++ ['"'])

end Resumable.Text
