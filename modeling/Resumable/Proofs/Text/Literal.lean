import Resumable.Proofs.Text.Units
import Resumable.Text.Quoted

/-!
# Reading string literals

The language reads a string literal character by character. What a character stands for depends
only on the mode the reader is in, `plain` between escapes; so a literal is read the same whatever
is behind it, and what `quote` writes is read back.
-/

namespace Resumable.Text

/-- The characters that end a line. None of them stands in a literal by itself. -/
def isLineTerminator (c : Char) : Bool := c ∈ ['\n', '\r', '\u2028', '\u2029']

/-- The value of a hexadecimal digit. -/
def hexDigit? (c : Char) : Option Nat :=
  if c.isDigit then some (c.toNat - '0'.toNat)
  else if 'a' ≤ c ∧ c ≤ 'f' then some (c.toNat - 'a'.toNat + 10)
  else if 'A' ≤ c ∧ c ≤ 'F' then some (c.toNat - 'A'.toNat + 10)
  else none

namespace Literal

/-- What the reader has seen of an escape. -/
inductive Mode where
  | plain
  /-- Behind a backslash. -/
  | escape
  /-- Behind a backslash and a zero, which no digit may follow. -/
  | zero
  /-- Behind a backslash and a carriage return, which goes with a line feed. -/
  | carriage
  /-- Inside the digits of an escape, so many of them left behind the next one. -/
  | digits (left value : Nat)
  /-- Behind a backslash and a `u`. -/
  | unicode
  /-- Between braces, with the value of the digits read, if there are any. -/
  | braced (value : Option Nat)
  deriving DecidableEq, Repr

/-- What the next character does: it has no place there, it closes the literal, or the reader goes
on with the code units that are now complete. -/
inductive Step where
  | reject
  | close
  | shift (mode : Mode) (units : List Nat)
  deriving DecidableEq, Repr

/-- The next character outside escapes. -/
def advancePlain (c : Char) : Step :=
  if c = '"' then .close
  else if c = '\\' then .shift .escape []
  else if isLineTerminator c then .reject
  else .shift .plain (units c)

/-- The character behind a backslash. A backslash before the end of a line continues the literal on
the next line; before a character that names nothing it is without effect. -/
def advanceEscape (c : Char) : Step :=
  match c with
  | 'b' => .shift .plain [0x08]
  | 't' => .shift .plain [0x09]
  | 'n' => .shift .plain [0x0a]
  | 'v' => .shift .plain [0x0b]
  | 'f' => .shift .plain [0x0c]
  | 'r' => .shift .plain [0x0d]
  | '0' => .shift .zero [0]
  | 'x' => .shift (.digits 1 0) []
  | 'u' => .shift .unicode []
  | '\r' => .shift .carriage []
  | c =>
    if isLineTerminator c then .shift .plain []
    else if c.isDigit then .reject
    else .shift .plain (units c)

/-- A digit of an escape with a fixed number of digits. -/
def advanceDigits (left value : Nat) (c : Char) : Step :=
  match hexDigit? c, left with
  | none, _ => .reject
  | some digit, 0 => .shift .plain [16 * value + digit]
  | some digit, left + 1 => .shift (.digits left (16 * value + digit)) []

/-- A digit between braces, or the closing brace behind at least one of them. -/
def advanceBraced (value : Option Nat) (c : Char) : Step :=
  match hexDigit? c, value with
  | some digit, _ => .shift (.braced (some (16 * value.getD 0 + digit))) []
  | none, some code =>
    if c = '\x7d' ∧ code < 0x110000 then .shift .plain (unitsOf code) else .reject
  | none, none => .reject

def advance (mode : Mode) (c : Char) : Step :=
  match mode with
  | .plain => advancePlain c
  | .escape => advanceEscape c
  | .zero => if c.isDigit then .reject else advancePlain c
  | .carriage => if c = '\n' then .shift .plain [] else advancePlain c
  | .digits left value => advanceDigits left value c
  | .unicode => if c = '\x7b' then .shift (.braced none) [] else advanceDigits 3 0 c
  | .braced value => advanceBraced value c

/-- An answer of the reader with more units in front. -/
def prepend (units : List Nat) (answer : List Nat × List Char) : List Nat × List Char :=
  (units ++ answer.1, answer.2)

/-- Reads up to the quote that closes the literal. The answer is the code units of its value and
the text behind it. -/
def readFrom (mode : Mode) : List Char → Option (List Nat × List Char)
  | [] => none
  | c :: rest =>
    match advance mode c with
    | .reject => none
    | .close => some ([], rest)
    | .shift mode units => (readFrom mode rest).map (prepend units)

/-- The mode after a stretch of text inside the literal, and the code units it stands for. -/
def consume (mode : Mode) : List Char → Option (Mode × List Nat)
  | [] => some (mode, [])
  | c :: rest =>
    match advance mode c with
    | .shift mode units => (consume mode rest).map (Prod.map id (units ++ ·))
    | _ => none

/-- The literal that a text begins with, its value as code units, and the text behind it. -/
def read : List Char → Option (List Nat × List Char)
  | '"' :: rest => readFrom .plain rest
  | _ => none

/-- The value of a text that is one literal. A value that no text has, since a surrogate in it is
without its other half, counts as none. -/
def value? (text : String) : Option String :=
  match read text.toList with
  | some (value, []) => (ofUnits? value).map String.ofList
  | _ => none

section Reading

variable {mode mode' : Mode} {text : List Char} {out : List Nat}

@[simp] theorem prepend_nil : prepend [] = id := by
  funext answer
  simp [prepend]

@[simp] theorem prepend_comp (a b : List Nat) : prepend a ∘ prepend b = prepend (a ++ b) := by
  funext answer
  simp [prepend]

/-- What is read behind a stretch inside the literal comes after what the stretch stands for. -/
theorem readFrom_append (rest : List Char) (h : consume mode text = some (mode', out)) :
    readFrom mode (text ++ rest) = (readFrom mode' rest).map (prepend out) := by
  induction text generalizing mode out with
  | nil =>
    obtain ⟨rfl, rfl⟩ : mode = mode' ∧ [] = out := by simpa [consume] using h
    simp
  | cons c tail ih =>
    rw [consume] at h
    split at h
    next next units hstep =>
      obtain ⟨⟨reached, later⟩, htail, hout⟩ := Option.map_eq_some_iff.1 h
      obtain ⟨rfl, rfl⟩ : reached = mode' ∧ units ++ later = out := by simpa using hout
      simp [readFrom, hstep, ih htail]
    next => cases h

/-- The characters that `escape` writes stand for the one they are written for. -/
theorem consume_escape (c : Char) : consume .plain (escape c) = some (.plain, units c) := by
  unfold Text.escape
  split
  case h_8 hquote hbackslash hfeed hreturn _ hline hparagraph =>
    have hplain : isLineTerminator c = false := by
      simp [isLineTerminator]
      exact ⟨hfeed, hreturn, hline, hparagraph⟩
    have hstep : advancePlain c = .shift .plain (units c) := by
      rw [advancePlain, if_neg hquote, if_neg hbackslash, hplain]
      simp
    simp [consume, advance, hstep]
  all_goals decide

theorem readFrom_flatMap_escape_append (text rest : List Char) :
    readFrom .plain (text.flatMap escape ++ '"' :: rest) = some (text.flatMap units, rest) := by
  induction text with
  | nil => rfl
  | cons c tail ih =>
    rw [List.flatMap_cons, List.append_assoc, readFrom_append _ (consume_escape c), ih,
      List.flatMap_cons]
    rfl

/-- A quoted text is read back, and nothing behind it is read. -/
theorem read_quote_append (s : String) (rest : List Char) :
    read ((quote s).toList ++ rest) = some (s.toList.flatMap units, rest) := by
  simpa [quote, read] using readFrom_flatMap_escape_append s.toList rest

theorem value?_quote (s : String) : value? (quote s) = some s := by
  have hread := read_quote_append s []
  rw [List.append_nil] at hread
  simp [value?, hread, ofUnits?_flatMap_units]

theorem eq_or_mem_escape_of_mem_quote {s : String} {c : Char} (h : c ∈ (quote s).toList) :
    c = '"' ∨ ∃ d ∈ s.toList, c ∈ escape d := by
  simp only [quote, String.toList_ofList, List.cons_append, List.mem_cons, List.mem_append,
    List.mem_flatMap, List.not_mem_nil, or_false] at h
  rcases h with hopen | hinside | hclose
  · exact .inl hopen
  · exact .inr hinside
  · exact .inl hclose

theorem isLineTerminator_of_mem_escape {c d : Char} (h : c ∈ escape d) :
    isLineTerminator c = false := by
  have hall : ∀ l : List Char, (l.all fun c => !isLineTerminator c) = true → c ∈ l →
      isLineTerminator c = false := fun l hl hc => by simpa using List.all_eq_true.1 hl c hc
  unfold Text.escape at h
  split at h
  case h_8 hquote hbackslash hfeed hreturn _ hline hparagraph =>
    obtain rfl := List.mem_singleton.1 h
    simpa [isLineTerminator] using ⟨hfeed, hreturn, hline, hparagraph⟩
  all_goals exact hall _ rfl h

/-- A quoted text stays on its line. -/
theorem isLineTerminator_of_mem_quote {s : String} {c : Char} (h : c ∈ (quote s).toList) :
    isLineTerminator c = false := by
  rcases eq_or_mem_escape_of_mem_quote h with rfl | ⟨d, -, hd⟩
  · decide
  · exact isLineTerminator_of_mem_escape hd

end Reading

end Literal

end Resumable.Text
