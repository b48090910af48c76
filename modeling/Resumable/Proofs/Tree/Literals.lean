import Resumable.Proofs.Text.Literal
import Resumable.Proofs.Tree.Printing

/-!
# Printed string literals

A string is printed in three places: as an expression, as the key of a property, and as the name of
a method or an accessor. In each of them the page shows one literal that is read back as the string.
-/

namespace Resumable

/-- The text is one string literal, however it goes on, and stands for the value. -/
structure Text.Literal.Spells (text value : String) : Prop where
  /-- The reader closes the literal at the end of the text, and not before. -/
  read_append : ∀ rest : List Char,
    Literal.read (text.toList ++ rest) = some (value.toList.flatMap Text.units, rest)
  value_eq : Literal.value? text = some value
  on_one_line : ∀ c ∈ text.toList, Text.isLineTerminator c = false

open Text

theorem Text.Literal.spells_quote (value : String) : Literal.Spells (quote value) value where
  read_append := Literal.read_quote_append value
  value_eq := Literal.value?_quote value
  on_one_line _ := Literal.isLineTerminator_of_mem_quote

/-- A text spells one value. -/
theorem Text.Literal.Spells.value_unique {text value other : String}
    (h : Literal.Spells text value) (h' : Literal.Spells text other) : value = other :=
  Option.some.inj (h.value_eq.symm.trans h'.value_eq)

/-- The text of a property at a depth of indentation. -/
def Property.text (depth : Nat) (property : Property Node) : String :=
  property.name.layout.text ++ ": " ++ (property.value.layout depth).text

/-- The text of a body in braces, with the statements that put default values in place. -/
def Node.bodyText (depth : Nat) (parameters : List (Parameter Node)) (body : List Node) : String :=
  (Layout.braced depth (defaultLayouts (depth + 1) parameters ++
    layouts .whole (depth + 1) body)).text

theorem Layout.text_commaSeparated (items : List Layout) :
    (commaSeparated items).text = ", ".intercalate (items.map text) := by
  unfold commaSeparated
  induction items with
  | nil => simp [text]
  | cons item rest ih =>
    cases rest with
    | nil => simp
    | cons next rest => simpa [String.append_assoc] using ih

section Places

variable {properties : List (Property Node)} (p : Printer) (value : String)

theorem Node.text_propertyLayouts (depth : Nat) (properties : List (Property Node)) :
    (propertyLayouts depth properties).map Layout.text = properties.map (·.text depth) := by
  induction properties with
  | nil => rfl
  | cons property rest ih =>
    simp [propertyLayouts, Property.text, Node.layout, ih, String.append_assoc]

theorem Printer.output_string :
    (p.emit (.string value)).output = p.output ++ quote value := by
  simp [output_emit, Node.layout, Node.layoutAs]

theorem Printer.output_object (hproperties : properties ≠ []) :
    (p.emit (.object properties)).output =
      p.output ++ "\x7b " ++ ", ".intercalate (properties.map (·.text p.depth)) ++ " \x7d" := by
  simp [output_emit, Node.layout, Node.layoutAs, hproperties, Layout.text_commaSeparated,
    Node.text_propertyLayouts, String.append_assoc]

theorem Printer.output_quoted_method (parameters : List (Parameter Node)) (body : List Node) :
    (p.emit (.method (.quoted value) parameters body)).output =
      p.output ++ quote value ++ "(" ++ (Parameter.listLayout parameters).text ++ ") " ++
        Node.bodyText p.depth parameters body := by
  simp [output_emit, Node.layout, Node.layoutAs, PropertyName.layout, PropertyName.text,
    Node.bodyText, String.append_assoc]

theorem Printer.output_quoted_getter (body : List Node) :
    (p.emit (.getter (.quoted value) body)).output =
      p.output ++ "get " ++ quote value ++ "() " ++ Node.bodyText p.depth [] body := by
  simp [output_emit, Node.layout, Node.layoutAs, PropertyName.layout, PropertyName.text,
    Node.bodyText, Node.defaultLayouts, String.append_assoc]

end Places

/-- Every string is printed as one literal that spells it, wherever it stands, so the texts of
different strings differ. -/
theorem literals_round_trip (value : String) :
    Literal.Spells (quote value) value ∧
      (∀ other, quote other = quote value → other = value) ∧
      ∀ p : Printer,
        (p.emit (.string value)).output = p.output ++ quote value ∧
        (∀ before content after,
          (p.emit (.object (before ++ ⟨.quoted value, content⟩ :: after))).output =
            p.output ++ "\x7b " ++
              ", ".intercalate (before.map (·.text p.depth) ++
                (quote value ++ ": " ++ (content.layout p.depth).text) ::
                  after.map (·.text p.depth)) ++
              " \x7d") ∧
        (∀ parameters body,
          (p.emit (.method (.quoted value) parameters body)).output =
            p.output ++ quote value ++ "(" ++ (Parameter.listLayout parameters).text ++ ") " ++
              Node.bodyText p.depth parameters body) ∧
        ∀ body,
          (p.emit (.getter (.quoted value) body)).output =
            p.output ++ "get " ++ quote value ++ "() " ++ Node.bodyText p.depth [] body := by
  refine ⟨Literal.spells_quote value, fun other h => ?_, fun p => ⟨p.output_string value, ?_,
    p.output_quoted_method value, p.output_quoted_getter value⟩⟩
  · have hother := Literal.spells_quote other
    rw [h] at hother
    exact hother.value_unique (Literal.spells_quote value)
  · intro before content after
    rw [Printer.output_object p (by simp), List.map_append, List.map_cons]
    simp [Property.text, PropertyName.layout, PropertyName.text]

end Resumable
