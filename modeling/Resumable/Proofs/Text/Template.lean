import Resumable.Proofs.Text.Replacement

/-!
# Filling a template

A template read from left to right is a list of characters and of holes, one for each placeholder.
It is read in one way: no placeholder is the beginning of another one, and none begins inside
another one. `fillAtOnce` puts every argument into its holes and never looks at a text again.
-/

namespace Resumable.Text

/-- A piece of a template. -/
inductive Part where
  | char (c : Char)
  | hole (index : Nat)
  deriving DecidableEq, Repr

def Part.spell : Part → List Char
  | .char c => [c]
  | .hole index => (placeholder index).toList

/-- The text of a template. -/
def spell (parts : List Part) : List Char := parts.flatMap Part.spell

/-- The index whose placeholder the text begins with, among the first so many. -/
def hole? (count : Nat) (text : List Char) : Option Nat :=
  (List.range count).find? fun index => (placeholder index).toList.isPrefixOf text

/-- The parts of a template behind the characters that are still to be skipped. -/
def partsFrom (count : Nat) : Nat → List Char → List Part
  | _, [] => []
  | skip + 1, _ :: rest => partsFrom count skip rest
  | 0, c :: rest =>
    match hole? count (c :: rest) with
    | some index => .hole index :: partsFrom count ((placeholder index).toList.length - 1) rest
    | none => .char c :: partsFrom count 0 rest

/-- The parts of a template with so many arguments. -/
def parts (count : Nat) (template : List Char) : List Part := partsFrom count 0 template

/-- A part with the arguments filled in. The hole of an argument that is not there is kept. -/
def Part.expand (arguments : List String) : Part → List Char
  | .char c => [c]
  | .hole index => (arguments[index]?.getD (placeholder index)).toList

/-- The template with every placeholder of an argument replaced by the argument, all at once. -/
def fillAtOnce (template : String) (arguments : List String) : String :=
  String.ofList ((parts arguments.length template.toList).flatMap (Part.expand arguments))

section Placeholder

variable {i k : Nat} {rest seen unseen : List Char}

theorem toList_placeholder (i : Nat) :
    (placeholder i).toList = '\x7b' :: (Nat.toDigits 10 i ++ ['\x7d']) := by
  simp [placeholder, Nat.toString_eq_repr, Nat.toList_repr]

theorem placeholder_ne_nil (i : Nat) : (placeholder i).toList ≠ [] := by
  simp [toList_placeholder]

theorem isDigit_of_mem_toDigits {c : Char} (h : c ∈ Nat.toDigits 10 i) : c.isDigit = true :=
  Nat.isDigit_of_mem_toDigits (by decide) (by decide) h

/-- The digits before a closing brace are told from what follows them. -/
theorem takeWhile_toDigits_append (i : Nat) (rest : List Char) :
    (Nat.toDigits 10 i ++ '\x7d' :: rest).takeWhile Char.isDigit = Nat.toDigits 10 i := by
  rw [List.takeWhile_append_of_pos fun _ => isDigit_of_mem_toDigits]
  simp

/-- No placeholder is the beginning of another one. -/
theorem eq_of_placeholder_starts
    (h : (placeholder i).toList <+: (placeholder k).toList ++ rest) : i = k := by
  obtain ⟨behind, hbehind⟩ := h
  simp only [toList_placeholder, List.cons_append, List.append_assoc, List.nil_append,
    List.cons.injEq, true_and] at hbehind
  have hdigits := congrArg (List.takeWhile Char.isDigit) hbehind
  rw [takeWhile_toDigits_append, takeWhile_toDigits_append] at hdigits
  have hread := congrArg (fun digits => Nat.ofDigitChars 10 digits 0) hdigits
  simpa [Nat.ofDigitChars_toDigits (show 1 < 10 by decide) (Nat.le_refl 10)] using hread

/-- Only the first character of a placeholder is an opening brace. -/
theorem open_not_mem_of_placeholder (h : (placeholder i).toList = seen ++ unseen)
    (hseen : seen ≠ []) : '\x7b' ∉ unseen := by
  obtain ⟨c, tail, rfl⟩ := List.exists_cons_of_ne_nil hseen
  rw [toList_placeholder, List.cons_append, List.cons.injEq] at h
  intro hmem
  have hbrace : '\x7b' ∈ Nat.toDigits 10 i ++ ['\x7d'] := by
    rw [h.2]
    exact List.mem_append_right _ hmem
  rcases List.mem_append.1 hbrace with hdigit | hclose
  · exact absurd (isDigit_of_mem_toDigits hdigit) (by decide)
  · exact absurd hclose (by decide)

/-- Only the last character of a placeholder is a closing brace. -/
theorem close_not_mem_of_placeholder (h : (placeholder i).toList = seen ++ unseen)
    (hunseen : unseen ≠ []) : '\x7d' ∉ seen := by
  have hspelled : '\x7b' :: Nat.toDigits 10 i = seen ++ unseen.dropLast := by
    have hdropped := congrArg List.dropLast h
    rw [List.dropLast_append_of_ne_nil hunseen, toList_placeholder, ← List.cons_append,
      List.dropLast_concat] at hdropped
    exact hdropped
  intro hmem
  have hbrace : '\x7d' ∈ '\x7b' :: Nat.toDigits 10 i := by
    rw [hspelled]
    exact List.mem_append_left _ hmem
  rcases List.mem_cons.1 hbrace with hopen | hdigit
  · exact absurd hopen (by decide)
  · exact absurd (isDigit_of_mem_toDigits hdigit) (by decide)

theorem prefix_of_hole? {count : Nat} {text : List Char} (h : hole? count text = some i) :
    i < count ∧ (placeholder i).toList <+: text := by
  obtain ⟨hstarts, hrange, -⟩ := List.find?_range_eq_some.1 h
  exact ⟨List.mem_range.1 hrange, List.isPrefixOf_iff_prefix.1 hstarts⟩

theorem hole?_eq_none {count : Nat} {text : List Char} :
    hole? count text = none ↔ ∀ i < count, ¬ (placeholder i).toList <+: text := by
  simp [hole?, List.isPrefixOf_iff_prefix]

end Placeholder

/-- The parts are read as far as they go: every hole is one of an argument, and no placeholder of an
argument begins at a character. -/
def IsParsed (count : Nat) : List Part → Prop
  | [] => True
  | .char c :: rest => hole? count (c :: spell rest) = none ∧ IsParsed count rest
  | .hole index :: rest => index < count ∧ IsParsed count rest

section Parsing

variable {count : Nat}

theorem spell_partsFrom (count skip : Nat) (text : List Char) :
    spell (partsFrom count skip text) = text.drop skip := by
  induction text generalizing skip with
  | nil => simp [partsFrom, spell]
  | cons c rest ih =>
    cases skip with
    | succ skip => simpa [partsFrom] using ih skip
    | zero =>
      rw [partsFrom]
      split
      next index hhole =>
        obtain ⟨-, behind, hbehind⟩ := prefix_of_hole? hhole
        obtain ⟨d, tail, hspelled⟩ := List.exists_cons_of_ne_nil (placeholder_ne_nil index)
        obtain ⟨rfl, rfl⟩ : d = c ∧ tail ++ behind = rest := by simpa [hspelled] using hbehind
        have hrest := ih tail.length
        simp only [spell] at hrest
        simp [spell, Part.spell, hspelled, hrest]
      next => simpa [spell, Part.spell] using ih 0

/-- Nothing of a template is lost. -/
theorem spell_parts (count : Nat) (template : List Char) :
    spell (parts count template) = template := spell_partsFrom count 0 template

theorem isParsed_partsFrom (count skip : Nat) (text : List Char) :
    IsParsed count (partsFrom count skip text) := by
  induction text generalizing skip with
  | nil => trivial
  | cons c rest ih =>
    cases skip with
    | succ skip => exact ih skip
    | zero =>
      rw [partsFrom]
      split
      next index hhole => exact ⟨(prefix_of_hole? hhole).1, ih _⟩
      next hhole =>
        refine ⟨?_, ih 0⟩
        rwa [spell_partsFrom, List.drop_zero]

theorem isParsed_parts (count : Nat) (template : List Char) :
    IsParsed count (parts count template) := isParsed_partsFrom count 0 template

theorem partsFrom_append_skip (skipped rest : List Char) :
    partsFrom count skipped.length (skipped ++ rest) = parts count rest := by
  induction skipped with
  | nil => rfl
  | cons c tail ih => simpa [partsFrom] using ih

theorem hole?_placeholder_append {index : Nat} (hindex : index < count) (rest : List Char) :
    hole? count ((placeholder index).toList ++ rest) = some index := by
  cases hhole : hole? count ((placeholder index).toList ++ rest) with
  | none => exact absurd (List.prefix_append _ _) (hole?_eq_none.1 hhole index hindex)
  | some found => rw [eq_of_placeholder_starts (prefix_of_hole? hhole).2]

theorem parts_placeholder_append {index : Nat} (hindex : index < count) (rest : List Char) :
    parts count ((placeholder index).toList ++ rest) = .hole index :: parts count rest := by
  obtain ⟨c, tail, hspelled⟩ := List.exists_cons_of_ne_nil (placeholder_ne_nil index)
  have hhole := hole?_placeholder_append hindex rest
  rw [hspelled, List.cons_append] at hhole
  simp [parts, partsFrom, hspelled, hhole]
  exact partsFrom_append_skip tail rest

/-- A template is read in one way. -/
theorem parts_spell {ps : List Part} (h : IsParsed count ps) : parts count (spell ps) = ps := by
  induction ps with
  | nil => rfl
  | cons part rest ih =>
    cases part with
    | char c =>
      obtain ⟨hhole, hrest⟩ := h
      have htail : partsFrom count 0 (spell rest) = rest := ih hrest
      have hcons : spell (.char c :: rest) = c :: spell rest := rfl
      rw [hcons, parts, partsFrom, hhole]
      simp only [htail]
    | hole index =>
      obtain ⟨hindex, hrest⟩ := h
      have hcons : spell (.hole index :: rest) = (placeholder index).toList ++ spell rest := rfl
      rw [hcons, parts_placeholder_append hindex, ih hrest]

end Parsing

end Resumable.Text
