import Resumable.Source.Span

/-!
# Positions in generated text

A position counts the newlines before a place in the text, and the UTF-16 code units
between the last of them and the place. It is kept up to date while text is written: a
newline leads to the beginning of the next line, blanks move it to the right, and any other
text is searched for newlines, so that what follows the last of them is measured.
-/

namespace Resumable

/-- A zero-based line and a zero-based column in UTF-16 code units. -/
structure Position where
  line : Nat
  column : Nat
  deriving DecidableEq, Repr, Inhabited

/-- The number of UTF-16 code units that encode a character. -/
def utf16Width (c : Char) : Nat := if c.toNat < 0x10000 then 1 else 2

/-- The number of UTF-16 code units that encode these characters. -/
def utf16Length : List Char → Nat
  | [] => 0
  | c :: rest => utf16Width c + utf16Length rest

/-- The columns that text on one line takes. ASCII text takes as many as it has characters. -/
def lineWidth (chars : List Char) : Nat :=
  if chars.all (·.toNat < 0x80) then chars.length else utf16Length chars

@[simp] theorem utf16Length_append (a b : List Char) :
    utf16Length (a ++ b) = utf16Length a + utf16Length b := by
  induction a with
  | nil => simp [utf16Length]
  | cons c rest ih =>
    simp only [List.cons_append, utf16Length, ih]
    omega

namespace Position

def start : Position := ⟨0, 0⟩

/-- The beginning of the next line. -/
def nextLine (p : Position) : Position := ⟨p.line + 1, 0⟩

/-- The position so many columns further on the same line. -/
def right (p : Position) (columns : Nat) : Position := { p with column := p.column + columns }

/-- The position just after characters written at `p`. The search answers with the first
newline, and the characters before it do not matter. -/
def afterChars (p : Position) (chars : List Char) : Position :=
  match h : chars.idxOf? '\n' with
  | some offset => p.nextLine.afterChars (chars.drop (offset + 1))
  | none => p.right (lineWidth chars)
termination_by chars.length
decreasing_by
  obtain ⟨hlt, -⟩ := List.idxOf?_eq_some_iff.1 h
  rw [List.length_drop]
  omega

/-- The position just after a text written at `p`. -/
def after (p : Position) (text : String) : Position := p.afterChars text.toList

end Position

/-- A place in the generated text, and the span of the source it was lowered from. -/
structure Mapping where
  position : Position
  span : Span
  deriving DecidableEq, Repr, Inhabited

end Resumable
