import Resumable.Proofs.Text.Elision
import Resumable.Proofs.Tree.Beginnings
import Resumable.Proofs.Tree.Literals

/-!
# Elements of array literals

An array literal of names, numerals and holes is read back element by element, by the rule for
elided elements: no hole is lost, none is added, and each stands where it stood.
-/

namespace Resumable

open Text

namespace Node

/-- The word that is printed for an element; none for a hole. -/
def elementWord? (element : Node) : Option String :=
  match element.unlocated with
  | .identifier name => some name
  | .number text => some text
  | _ => none

/-- The element that an entry stands for. -/
def ofEntry : Option String → Node
  | none => .hole
  | some word => if isNumeral word then .number word else .identifier word

/-- A hole, a name or a numeral, located or not. -/
inductive IsElement : Node → Prop
  | hole : IsElement .hole
  | identifier {name : String} (h : Elision.isEntry name = true) : IsElement (.identifier name)
  | number {text : String} (h : Elision.isEntry text = true) : IsElement (.number text)
  | located {element : Node} {span : Span} (h : IsElement element) :
    IsElement (.located element span)

/-- If it is a name, it does not begin as a numeral does, and if it is a numeral, it does. -/
def IsToldApart (element : Node) : Prop :=
  ∀ word, (element.unlocated = .identifier word → isNumeral word = false) ∧
    (element.unlocated = .number word → isNumeral word = true)

section Elements

variable {element : Node} {elements : List Node}

theorem IsElement.isEntry (h : element.IsElement) :
    ∀ word, element.elementWord? = some word → Elision.isEntry word = true := by
  induction h with
  | hole => nofun
  | identifier h => rintro _ ⟨⟩; exact h
  | number h => rintro _ ⟨⟩; exact h
  | located _ ih => exact ih

theorem IsElement.isHole_iff (h : element.IsElement) :
    element.unlocated.isHole = true ↔ element.elementWord? = none := by
  induction h with
  | hole => decide
  | identifier h => simp [unlocated, isHole, elementWord?]
  | number h => simp [unlocated, isHole, elementWord?]
  | located _ ih => exact ih

theorem IsElement.ofEntry_elementWord? (h : element.IsElement) (hkind : element.IsToldApart) :
    ofEntry element.elementWord? = element.unlocated := by
  induction h with
  | hole => rfl
  | @identifier name h =>
    have hname := (hkind name).1 rfl
    simp [unlocated, elementWord?, ofEntry, hname]
  | @number text h =>
    have htext := (hkind text).2 rfl
    simp [unlocated, elementWord?, ofEntry, htext]
  | located _ ih => exact ih hkind

/-- An element is printed as its word, and a hole leaves no trace. -/
theorem IsElement.text_layoutAs (h : element.IsElement) (depth : Nat) :
    (element.layoutAs .whole depth).text = element.elementWord?.getD "" := by
  induction h with
  | hole => rfl
  | identifier h => simp [layoutAs, elementWord?, unlocated]
  | number h => simp [layoutAs, elementWord?, unlocated]
  | located _ ih =>
    rw [layoutAs, Layout.text, ih]
    exact String.empty_append

variable (h : ∀ element ∈ elements, element.IsElement)
include h

theorem isEntry_of_mem_map (word : String) (hword : some word ∈ elements.map elementWord?) :
    Elision.isEntry word = true := by
  obtain ⟨element, helement, hentry⟩ := List.mem_map.1 hword
  exact (h element helement).isEntry word hentry

theorem toList_trailingComma :
    (trailingComma elements).toList =
      if (elements.map elementWord?).getLast? = some none then [','] else [] := by
  rw [trailingComma, List.getLast?_map]
  cases hlast : elements.getLast? with
  | none => rfl
  | some last =>
    have hhole := (h last (List.mem_of_getLast? hlast)).isHole_iff
    by_cases hentry : last.elementWord? = none
    · simp [hentry, hhole.2 hentry]
    · simp [hentry, mt hhole.1 hentry]

/-- Between the brackets there are the words of the elements. -/
theorem toList_text_array (depth : Nat) :
    ((array elements).layout depth).text.toList =
      '[' :: (Elision.separated (elements.map elementWord?) ++ [']']) := by
  have hwords : (layouts .whole depth elements).map Layout.text =
      elements.map fun element => element.elementWord?.getD "" := by
    rw [layouts_eq_map, List.map_map]
    exact List.map_congr_left fun element helement => (h element helement).text_layoutAs depth
  have hbrackets : "[".toList = ['['] ∧ "]".toList = [']'] ∧ ", ".toList = [',', ' '] := by decide
  simp [layout, layoutAs, Elision.separated, Layout.text_commaSeparated, hwords, hbrackets,
    String.toList_intercalate, toList_trailingComma h, Function.comp_def]

end Elements

end Node

/-- The text of an array literal is read, whatever comes behind it, as one entry for each of its
elements, in their order: none for a hole, and the word of any other. If names and numerals are told
apart by how they begin, the entries stand for the elements. -/
theorem Printer.reads_emit_array (p : Printer) {elements : List Node}
    (h : ∀ element ∈ elements, element.IsElement) :
    ∃ text, (p.emit (.array elements)).output = p.output ++ text ∧
      ∀ rest, ∃ entries, Elision.read? (text.toList ++ rest) = some (entries, rest) ∧
        entries = elements.map Node.elementWord? ∧
        ((∀ element ∈ elements, element.IsToldApart) →
          entries.map Node.ofEntry = elements.map Node.unlocated) := by
  refine ⟨_, p.output_emit _, fun rest => ⟨_, ?_, rfl, fun hkinds => ?_⟩⟩
  · have hread := Elision.read?_separated (Node.isEntry_of_mem_map h) rest
    rw [Node.toList_text_array h]
    simpa using hread
  · rw [List.map_map]
    exact List.map_congr_left fun element helement =>
      (h element helement).ofEntry_elementWord? (hkinds element helement)

/-- Elements with holes in the first place, between others and in the last place. -/
def Node.gapped : List Node :=
  [.located (.located .hole ⟨1, 1⟩) ⟨1, 2⟩, .identifier "a", .hole, .located (.number "1") ⟨5, 6⟩,
    .located .hole ⟨7, 8⟩]

theorem Printer.reads_emit_array_gapped :
    (∀ element ∈ Node.gapped, element.IsElement) ∧
      (∀ element ∈ Node.gapped, element.IsToldApart) ∧
      ∃ text, (({} : Printer).emit (.array Node.gapped)).output = "" ++ text ∧
        Elision.read? (text.toList ++ [';']) =
          some ([none, some "a", none, some "1", none], [';']) ∧
        [none, some "a", none, some "1", none].map Node.ofEntry =
          Node.gapped.map Node.unlocated := by
  have hname : Elision.isEntry "a" = true := by decide +kernel
  have htext : Elision.isEntry "1" = true := by decide +kernel
  have helements : ∀ element ∈ Node.gapped, element.IsElement := by
    simp only [Node.gapped, List.forall_mem_cons]
    exact ⟨.located (.located .hole), .identifier hname, .hole, .located (.number htext),
      .located .hole, nofun⟩
  have hnumerals : isNumeral "a" = false ∧ isNumeral "1" = true := by decide +kernel
  have hkinds : ∀ element ∈ Node.gapped, element.IsToldApart := by
    simp [Node.gapped, Node.IsToldApart, Node.unlocated, hnumerals]
  obtain ⟨text, houtput, hread⟩ := reads_emit_array {} helements
  obtain ⟨entries, hentries, rfl, hnodes⟩ := hread [';']
  exact ⟨helements, hkinds, text, houtput, hentries, hnodes hkinds⟩

end Resumable
