import Resumable.Tree.Spelling

/-!
# Layouts

What a tree looks like on the page, before it is known where on the page it goes. A layout
is a list of pieces, text and line breaks, with marks in it, one mark at the place where a
located node begins. The depth of indentation is a parameter: a statement inside braces is
laid out one level deeper, and each line that a layout starts itself is indented by four
spaces a level.
-/

namespace Resumable

/-- A stretch of output, or the place where the node lowered from a span begins. -/
inductive Piece where
  | text (s : String)
  /-- The end of a line. -/
  | newline
  /-- The blanks at the beginning of a line at this depth. -/
  | indent (depth : Nat)
  | mark (span : Span)
  deriving DecidableEq, Repr

/-- What a piece adds to the page. -/
def Piece.shown : Piece → String
  | .text s => s
  | .newline => "\n"
  | .indent depth => indentation depth
  | .mark _ => ""

abbrev Layout := List Piece

namespace Layout

/-- A layout of text alone. -/
def lit (s : String) : Layout := [.text s]

/-- The text of a layout. -/
def text : Layout → String
  | [] => ""
  | piece :: rest => piece.shown ++ text rest

/-- The beginning of a new line. -/
def newline (depth : Nat) : Layout := [.newline, .indent depth]

def commaSeparated (items : List Layout) : Layout := (items.intersperse (lit ", ")).flatten

/-- Every item on a line of its own, each line opened by a newline. -/
def onLines (depth : Nat) (items : List Layout) : Layout :=
  items.flatMap fun item => newline depth ++ item

/-- The items between braces, one level deeper than the braces. -/
def braced (depth : Nat) (items : List Layout) : Layout :=
  if items.isEmpty then lit "\x7b \x7d"
  else lit "\x7b" ++ onLines (depth + 1) items ++ newline depth ++ lit "\x7d"

@[simp] theorem text_lit (s : String) : (lit s).text = s := by simp [lit, text, Piece.shown]

@[simp] theorem text_append (a b : Layout) : (a ++ b).text = a.text ++ b.text := by
  induction a with
  | nil => simp [text]
  | cons piece rest ih => simp [text, ih, String.append_assoc]

end Layout

def PropertyName.layout (name : PropertyName) : Layout := Layout.lit name.text

/-- The names of the parameters, with dots before one that takes the rest. -/
def Parameter.listLayout (parameters : List (Parameter α)) : Layout :=
  Layout.lit (", ".intercalate (parameters.map fun p => (if p.rest then "..." else "") ++ p.name))

namespace Node

open Layout

def parenthesizedIf (condition : Bool) (inner : Layout) : Layout :=
  if condition then lit "(" ++ inner ++ lit ")" else inner

mutual

/-- The layout of a node at a depth of indentation. -/
def layoutAs (slot : Slot) (depth : Nat) : Node → Layout
  | .number text => lit text
  | .string value => lit (Text.quote value)
  | .boolean value => lit (if value then "true" else "false")
  | .null => lit "null"
  | .undefined => lit "void 0"
  | .identifier name => lit name
  | .binary left operator right =>
    left.layoutAs .whole depth ++ lit (" " ++ operator ++ " ") ++ right.layoutAs .whole depth
  | .unary operator operand =>
    lit (operator ++ unaryGap operator) ++ operand.layoutAs .whole depth
  | .call callee arguments =>
    parenthesizedIf callee.unlocated.isFunctionExpr (callee.layoutAs .whole depth) ++
      lit "(" ++ commaSeparated (layouts .whole depth arguments) ++ lit ")"
  | .construct callee arguments =>
    lit "new " ++ callee.layoutAs .whole depth ++
      lit "(" ++ commaSeparated (layouts .whole depth arguments) ++ lit ")"
  | .member base property => base.layoutAs .whole depth ++ lit ("." ++ property)
  | .element base index =>
    base.layoutAs .whole depth ++ lit "[" ++ index.layoutAs .whole depth ++ lit "]"
  | .conditional condition whenTrue whenFalse =>
    condition.layoutAs .whole depth ++ lit " ? " ++ whenTrue.layoutAs .whole depth ++
      lit " : " ++ whenFalse.layoutAs .whole depth
  | .parenthesized inner => lit "(" ++ inner.layoutAs .whole depth ++ lit ")"
  | .array elements =>
    lit "[" ++ commaSeparated (layouts .whole depth elements) ++
      lit (trailingComma elements) ++ lit "]"
  | .hole => []
  | .object properties =>
    if properties.isEmpty then lit "\x7b\x7d"
    else lit "\x7b " ++ commaSeparated (propertyLayouts depth properties) ++ lit " \x7d"
  | .functionExpr name parameters body =>
    lit ("function " ++ name.getD "" ++ "(") ++ Parameter.listLayout parameters ++ lit ") " ++
      braced depth (defaultLayouts (depth + 1) parameters ++ layouts .whole (depth + 1) body)
  | .arrow parameters body =>
    lit "(" ++ Parameter.listLayout parameters ++ lit ") => " ++
      braced depth (defaultLayouts (depth + 1) parameters ++ layouts .whole (depth + 1) body)
  | .varDecl name initializer =>
    let declared := lit name ++ optionLayout " = " depth initializer
    match slot with
    | .whole => lit "var " ++ declared ++ lit ";"
    | .binding => declared
    | .head => lit "var " ++ declared
  | .varList declarations =>
    let declared := lit "var " ++ commaSeparated (layouts .binding depth declarations)
    match slot with
    | .head => declared
    | _ => declared ++ lit ";"
  | .exprStmt expression =>
    parenthesizedIf expression.unlocated.needsParentheses (expression.layoutAs .whole depth) ++
      lit ";"
  | .returnStmt value => lit "return" ++ optionLayout " " depth value ++ lit ";"
  | .ifStmt condition thenBranch elseBranch =>
    lit "if (" ++ condition.layoutAs .whole depth ++ lit ") " ++
      thenBranch.layoutAs .whole depth ++
      match elseBranch with
      | none => []
      | some node =>
        (if thenBranch.unlocated.isBlock then lit " else " else newline depth ++ lit "else ") ++
          node.layoutAs .whole depth
  | .block body => braced depth (layouts .whole (depth + 1) body)
  | .emptyStmt => lit ";"
  | .switchStmt subject clauses =>
    lit "switch (" ++ subject.layoutAs .whole depth ++ lit ") \x7b" ++
      onLines (depth + 1) (clauseLayouts (depth + 1) clauses) ++ newline depth ++ lit "\x7d"
  | .forStmt initializer condition increment body =>
    lit "for (" ++ headLayout depth initializer ++ lit ";" ++ optionLayout " " depth condition ++
      lit ";" ++ optionLayout " " depth increment ++ lit ") " ++ body.layoutAs .whole depth
  | .whileStmt condition body =>
    lit "while (" ++ condition.layoutAs .whole depth ++ lit ") " ++ body.layoutAs .whole depth
  | .withStmt scope body =>
    lit "with (" ++ scope.layoutAs .whole depth ++ lit ") " ++ body.layoutAs .whole depth
  | .throwStmt value => lit "throw " ++ value.layoutAs .whole depth ++ lit ";"
  | .breakStmt label => lit ("break" ++ (label.map (" " ++ ·)).getD "" ++ ";")
  | .continueStmt label => lit ("continue" ++ (label.map (" " ++ ·)).getD "" ++ ";")
  | .labeledStmt label body => lit (label ++ ": ") ++ body.layoutAs .whole depth
  | .functionDecl name parameters body =>
    lit ("function " ++ name ++ "(") ++ Parameter.listLayout parameters ++ lit ") " ++
      braced depth (defaultLayouts (depth + 1) parameters ++ layouts .whole (depth + 1) body)
  | .method name parameters body =>
    name.layout ++ lit "(" ++ Parameter.listLayout parameters ++ lit ") " ++
      braced depth (defaultLayouts (depth + 1) parameters ++ layouts .whole (depth + 1) body)
  | .getter name body =>
    lit "get " ++ name.layout ++ lit "() " ++ braced depth (layouts .whole (depth + 1) body)
  | .instruction tag value comment =>
    lit ("[" ++ toString tag) ++
      lit ((comment.map fun c => " /*" ++ c ++ "*/").getD "") ++
      optionLayout ", " depth value ++ lit "]"
  | .labelRef label => lit label.text
  | .located node span =>
    match slot with
    | .whole => .mark span :: node.layoutAs .whole depth
    | .binding => node.layoutAs .binding depth
    | .head =>
      if node.unlocated.isVarDeclaration then node.layoutAs .head depth
      else .mark span :: node.layoutAs .whole depth

/-- The layout of a node that may be missing, with a text before it. -/
def optionLayout (before : String) (depth : Nat) : Option Node → Layout
  | none => []
  | some node => lit before ++ node.layoutAs .whole depth

def headLayout (depth : Nat) : Option Node → Layout
  | none => []
  | some node => node.layoutAs .head depth

def layouts (slot : Slot) (depth : Nat) : List Node → List Layout
  | [] => []
  | node :: rest => node.layoutAs slot depth :: layouts slot depth rest

def propertyLayouts (depth : Nat) : List (Property Node) → List Layout
  | [] => []
  | ⟨name, value⟩ :: rest =>
    (name.layout ++ lit ": " ++ value.layoutAs .whole depth) :: propertyLayouts depth rest

/-- The statements that put the default values of parameters in place. -/
def defaultLayouts (depth : Nat) : List (Parameter Node) → List Layout
  | [] => []
  | ⟨_, _, none⟩ :: rest => defaultLayouts depth rest
  | ⟨name, _, some value⟩ :: rest =>
    (lit ("if (" ++ name ++ " === void 0) \x7b " ++ name ++ " = ") ++
      value.layoutAs .whole depth ++ lit "; \x7d") :: defaultLayouts depth rest

def clauseLayouts (depth : Nat) : List (Clause Node) → List Layout
  | [] => []
  | ⟨test, body⟩ :: rest =>
    ((match test with
      | some node => lit "case " ++ node.layoutAs .whole depth ++ lit ":"
      | none => lit "default:") ++
      (if fitsCaseLine body then lit " " ++ (layouts .whole depth body).flatten
      else onLines (depth + 1) (layouts .whole (depth + 1) body))) :: clauseLayouts depth rest

end

theorem layouts_eq_map (slot : Slot) (depth : Nat) (nodes : List Node) :
    layouts slot depth nodes = nodes.map (·.layoutAs slot depth) := by
  induction nodes with
  | nil => rfl
  | cons node rest ih => simp [layouts, ih]

/-- The layout of a node in a place of its own. -/
def layout (depth : Nat) (node : Node) : Layout := node.layoutAs .whole depth

/-- The layout of a statement list, one statement a line. -/
def listLayout (depth : Nat) (statements : List Node) : Layout :=
  ((layouts .whole depth statements).map (.indent depth :: ·)
    |>.intersperse [.newline]).flatten

end Node

end Resumable
