import Resumable.Source.Position
import Resumable.Tree.Spelling

/-!
# The printer

A page that nodes are printed on one after another: the text so far, the depth of indentation,
the position at the end of the text, and the source mappings not yet taken. Printing a node
writes text and line breaks at the end of the page. What stands between braces is printed one
level deeper: the depth is raised before it and lowered after it. The position is moved on with
whatever is written, so a located node is mapped to where the page ends when it is printed.
-/

namespace Resumable

structure Printer where
  output : String := ""
  depth : Nat := 0
  position : Position := Position.start
  mappings : List Mapping := []

namespace Printer

/-- Writes a text at the end of the page. -/
def text (p : Printer) (s : String) : Printer :=
  { p with output := p.output ++ s, position := p.position.after s }

def textIf (p : Printer) (condition : Bool) (s : String) : Printer :=
  if condition then p.text s else p

/-- Begins a new line. -/
def newline (p : Printer) : Printer :=
  { p with output := p.output ++ "\n", position := p.position.nextLine }

/-- Writes the blanks at the beginning of a line. -/
def indent (p : Printer) : Printer :=
  { p with output := p.output ++ indentation p.depth, position := p.position.right (4 * p.depth) }

/-- Maps the place where the page ends to a span. -/
def mark (p : Printer) (span : Span) : Printer :=
  { p with mappings := p.mappings ++ [⟨p.position, span⟩] }

def setDepth (p : Printer) (depth : Nat) : Printer := { p with depth }

/-- One level deeper. -/
def raise (p : Printer) : Printer := p.setDepth (p.depth + 1)

/-- One level back, as long as there is one. -/
def lower (p : Printer) : Printer := p.setDepth (p.depth - 1)

/-- Writes what `inside` prints between braces, one level deeper than the braces. -/
def braced (p : Printer) (empty : Bool) (inside : Printer → Printer) : Printer :=
  if empty then p.text "\x7b \x7d"
  else (inside (p.text "\x7b").raise).lower.newline.indent.text "\x7d"

/-- Writes the statements of a clause: on the line of its `case` if they fit there, and otherwise
below it, one level deeper. -/
def clauseBody (p : Printer) (fits : Bool) (after below : Printer → Printer) : Printer :=
  if fits then after (p.text " ") else (below p.raise).lower

/-- The names of the parameters, with dots before one that takes the rest. -/
def parameters (p : Printer) (first : Bool) : List (Parameter Node) → Printer
  | [] => p
  | parameter :: rest =>
    (p.textIf (!first) ", " |>.textIf parameter.rest "..." |>.text parameter.name).parameters
      false rest

/-- A jump, with the source label it may name. -/
def jump (p : Printer) (keyword : String) (label : Option String) : Printer :=
  match label with
  | some label => p.text keyword |>.text " " |>.text label |>.text ";"
  | none => p.text keyword |>.text ";"

def comment (p : Printer) : Option String → Printer
  | some comment => p.text " /*" |>.text comment |>.text "*/"
  | none => p

mutual

/-- Prints a node where the page ends. -/
def emitAs (p : Printer) (slot : Slot) : Node → Printer
  | .number text => p.text text
  | .string value => p.text (Text.quote value)
  | .boolean value => p.text (if value then "true" else "false")
  | .null => p.text "null"
  | .undefined => p.text "void 0"
  | .identifier name => p.text name
  | .binary left operator right =>
    p.emitAs .whole left |>.text " " |>.text operator |>.text " " |>.emitAs .whole right
  | .unary operator operand =>
    p.text operator |>.text (Node.unaryGap operator) |>.emitAs .whole operand
  | .call callee arguments =>
    let isFunction := callee.unlocated.isFunctionExpr
    p.textIf isFunction "(" |>.emitAs .whole callee |>.textIf isFunction ")" |>.text "("
      |>.emitItems .whole true arguments |>.text ")"
  | .construct callee arguments =>
    p.text "new " |>.emitAs .whole callee |>.text "(" |>.emitItems .whole true arguments
      |>.text ")"
  | .member base property => p.emitAs .whole base |>.text "." |>.text property
  | .element base index =>
    p.emitAs .whole base |>.text "[" |>.emitAs .whole index |>.text "]"
  | .conditional condition whenTrue whenFalse =>
    p.emitAs .whole condition |>.text " ? " |>.emitAs .whole whenTrue |>.text " : "
      |>.emitAs .whole whenFalse
  | .parenthesized inner => p.text "(" |>.emitAs .whole inner |>.text ")"
  | .array elements =>
    p.text "[" |>.emitItems .whole true elements |>.text (Node.trailingComma elements)
      |>.text "]"
  | .hole => p
  | .object properties =>
    if properties.isEmpty then p.text "\x7b\x7d"
    else p.text "\x7b " |>.emitProperties true properties |>.text " \x7d"
  | .functionExpr name parameters body =>
    p.text "function " |>.text (name.getD "") |>.text "(" |>.parameters true parameters
      |>.text ") " |>.braced (!parameters.any (·.default.isSome) && body.isEmpty) fun p =>
        (p.emitDefaults parameters).emitLines body
  | .arrow parameters body =>
    p.text "(" |>.parameters true parameters |>.text ") => "
      |>.braced (!parameters.any (·.default.isSome) && body.isEmpty) fun p =>
        (p.emitDefaults parameters).emitLines body
  | .varDecl name initializer =>
    p.textIf (slot ≠ .binding) "var " |>.text name |>.emitOption " = " initializer
      |>.textIf (slot = .whole) ";"
  | .varList declarations =>
    p.text "var " |>.emitItems .binding true declarations |>.textIf (slot ≠ .head) ";"
  | .exprStmt expression =>
    let needsParentheses := expression.unlocated.needsParentheses
    p.textIf needsParentheses "(" |>.emitAs .whole expression |>.textIf needsParentheses ")"
      |>.text ";"
  | .returnStmt value => p.text "return" |>.emitOption " " value |>.text ";"
  | .ifStmt condition thenBranch elseBranch =>
    let p := p.text "if (" |>.emitAs .whole condition |>.text ") " |>.emitAs .whole thenBranch
    match elseBranch with
    | none => p
    | some node =>
      (if thenBranch.unlocated.isBlock then p.text " else " else p.newline.indent.text "else ")
        |>.emitAs .whole node
  | .block body => p.braced body.isEmpty fun p => p.emitLines body
  | .emptyStmt => p.text ";"
  | .switchStmt subject clauses =>
    let p := p.text "switch (" |>.emitAs .whole subject |>.text ") \x7b"
    (p.raise.emitClauses clauses).lower.newline.indent.text "\x7d"
  | .forStmt initializer condition increment body =>
    p.text "for (" |>.emitHead initializer |>.text ";" |>.emitOption " " condition |>.text ";"
      |>.emitOption " " increment |>.text ") " |>.emitAs .whole body
  | .whileStmt condition body =>
    p.text "while (" |>.emitAs .whole condition |>.text ") " |>.emitAs .whole body
  | .withStmt scope body =>
    p.text "with (" |>.emitAs .whole scope |>.text ") " |>.emitAs .whole body
  | .throwStmt value => p.text "throw " |>.emitAs .whole value |>.text ";"
  | .breakStmt label => p.jump "break" label
  | .continueStmt label => p.jump "continue" label
  | .labeledStmt label body => p.text label |>.text ": " |>.emitAs .whole body
  | .functionDecl name parameters body =>
    p.text "function " |>.text name |>.text "(" |>.parameters true parameters |>.text ") "
      |>.braced (!parameters.any (·.default.isSome) && body.isEmpty) fun p =>
        (p.emitDefaults parameters).emitLines body
  | .method name parameters body =>
    p.text name.text |>.text "(" |>.parameters true parameters |>.text ") "
      |>.braced (!parameters.any (·.default.isSome) && body.isEmpty) fun p =>
        (p.emitDefaults parameters).emitLines body
  | .getter name body =>
    p.text "get " |>.text name.text |>.text "() " |>.braced body.isEmpty fun p => p.emitLines body
  | .instruction tag value comment =>
    p.text "[" |>.text (toString tag) |>.comment comment |>.emitOption ", " value |>.text "]"
  | .labelRef label => p.text label.text
  | .located node span =>
    match slot with
    | .whole => (p.mark span).emitAs .whole node
    | .binding => p.emitAs .binding node
    | .head =>
      if node.unlocated.isVarDeclaration then p.emitAs .head node
      else (p.mark span).emitAs .whole node

/-- Prints a node that may be missing, with a text before it. -/
def emitOption (p : Printer) (before : String) : Option Node → Printer
  | none => p
  | some node => (p.text before).emitAs .whole node

def emitHead (p : Printer) : Option Node → Printer
  | none => p
  | some node => p.emitAs .head node

/-- Prints nodes with commas between them. -/
def emitItems (p : Printer) (slot : Slot) (first : Bool) : List Node → Printer
  | [] => p
  | node :: rest => ((p.textIf (!first) ", ").emitAs slot node).emitItems slot false rest

def emitProperties (p : Printer) (first : Bool) : List (Property Node) → Printer
  | [] => p
  | ⟨name, value⟩ :: rest =>
    (p.textIf (!first) ", " |>.text name.text |>.text ": " |>.emitAs .whole value).emitProperties
      false rest

/-- Prints statements, each on a new line. -/
def emitLines (p : Printer) : List Node → Printer
  | [] => p
  | node :: rest => (p.newline.indent.emitAs .whole node).emitLines rest

/-- Prints the statements that put the default values of parameters in place. -/
def emitDefaults (p : Printer) : List (Parameter Node) → Printer
  | [] => p
  | ⟨_, _, none⟩ :: rest => p.emitDefaults rest
  | ⟨name, _, some value⟩ :: rest =>
    (p.newline.indent.text "if (" |>.text name |>.text " === void 0) \x7b " |>.text name
      |>.text " = " |>.emitAs .whole value |>.text "; \x7d").emitDefaults rest

/-- Prints what a clause of a switch begins with. -/
def emitTest (p : Printer) : Option Node → Printer
  | some node => p.text "case " |>.emitAs .whole node |>.text ":"
  | none => p.text "default:"

def emitClauses (p : Printer) : List (Clause Node) → Printer
  | [] => p
  | ⟨test, body⟩ :: rest =>
    ((p.newline.indent.emitTest test).clauseBody (Node.fitsCaseLine body)
      (fun p => p.emitItems .whole true body) fun p => p.emitLines body).emitClauses rest

end

/-- Prints a node where the page ends. -/
def emit (p : Printer) (node : Node) : Printer := p.emitAs .whole node

/-- Prints statements, each on a line of its own. -/
def emitList (p : Printer) : List Node → Printer
  | [] => p
  | node :: rest => (p.indent.emit node).emitLines rest

/-- Hands over the mappings recorded since they were last taken. -/
def takeMappings (p : Printer) : List Mapping × Printer := (p.mappings, { p with mappings := [] })

end Printer

/-- The text of a node printed on a page of its own. -/
def Node.print (node : Node) : String := (({} : Printer).emit node).output

/-- The text of a statement list printed on a page of its own. -/
def Node.printList (statements : List Node) : String := (({} : Printer).emitList statements).output

end Resumable
