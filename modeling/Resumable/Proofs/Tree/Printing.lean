import Resumable.Proofs.Source.Position
import Resumable.Proofs.Tree.Layout
import Resumable.Tree.Printer

/-!
# Printing by layouts

The printer raises its depth of indentation before it prints what stands between braces, and lowers
it afterwards. A layout has the depth for a parameter instead. Printing a node comes to writing,
piece by piece, the layout of the node at the depth that the printer has just then. Writing leaves
the depth as it is, so wherever printing raised it, it was lowered again.
-/

namespace Resumable

namespace Layout

@[simp] theorem commaSeparated_singleton (item : Layout) : commaSeparated [item] = item := by
  simp [commaSeparated]

@[simp] theorem commaSeparated_cons_cons (item next : Layout) (rest : List Layout) :
    commaSeparated (item :: next :: rest) =
      item ++ (lit ", " ++ commaSeparated (next :: rest)) := by
  simp [commaSeparated]

end Layout

namespace Printer

open Node Layout

/-- Writes a piece at the end of the page. -/
def put (p : Printer) : Piece → Printer
  | .text s => { p with output := p.output ++ s, position := p.position.after s }
  | .newline => { p with output := p.output ++ "\n", position := p.position.nextLine }
  | .indent depth =>
    { p with output := p.output ++ indentation depth, position := p.position.right (4 * depth) }
  | .mark span => { p with mappings := p.mappings ++ [⟨p.position, span⟩] }

/-- Writes a layout at the end of the page. -/
def write (p : Printer) (layout : Layout) : Printer := layout.foldl put p

section Writing

/-- Writing does not change the depth. -/
@[simp] theorem depth_write (p : Printer) (layout : Layout) : (p.write layout).depth = p.depth := by
  induction layout generalizing p with
  | nil => rfl
  | cons piece rest ih =>
    rw [write, List.foldl_cons]
    refine (ih _).trans ?_
    cases piece <;> rfl

/-- The text of a layout is added at the end. -/
theorem output_write (p : Printer) (layout : Layout) :
    (p.write layout).output = p.output ++ layout.text := by
  induction layout generalizing p with
  | nil => simp [write, Layout.text]
  | cons piece rest ih =>
    rw [write, List.foldl_cons]
    refine (ih _).trans ?_
    cases piece <;> simp [put, Layout.text, Piece.shown, String.append_assoc]

@[simp] theorem write_nil (p : Printer) : p.write [] = p := rfl

@[simp] theorem write_append (p : Printer) (a b : Layout) :
    p.write (a ++ b) = (p.write a).write b := List.foldl_append

/-- The depth of the printer does not matter to what is written. -/
theorem write_setDepth (p : Printer) (depth : Nat) (layout : Layout) :
    (p.setDepth depth).write layout = (p.write layout).setDepth depth := by
  induction layout generalizing p with
  | nil => rfl
  | cons piece rest ih =>
    have hput : (p.setDepth depth).put piece = (p.put piece).setDepth depth := by
      cases piece <;> rfl
    rw [write, List.foldl_cons, hput]
    exact ih (p.put piece)

@[simp] theorem depth_raise (p : Printer) : p.raise.depth = p.depth + 1 := rfl

/-- The depth is back where it was once it was raised, something written, and lowered. -/
@[simp] theorem lower_write_raise (p : Printer) (layout : Layout) :
    (p.raise.write layout).lower = p.write layout := by
  rw [raise, write_setDepth, lower]
  show (p.write layout).setDepth (p.depth + 1 - 1) = _
  rw [Nat.add_sub_cancel, ← depth_write p layout]
  rfl

/-- A text may be written in two parts. -/
@[simp] theorem write_lit_append (p : Printer) (a b : String) :
    p.write (lit (a ++ b)) = (p.write (lit a)).write (lit b) := by
  simp [write, lit, put, Position.after_append, String.append_assoc]

@[simp] theorem write_lit_empty (p : Printer) : p.write (lit "") = p := by
  obtain ⟨output, depth, position, mappings⟩ := p
  have hposition : position.after "" = position := by
    rw [Position.after, String.toList_empty, Position.afterChars]
    rfl
  simp [write, lit, put, hposition]

end Writing

section Parts

variable {items : List Layout} {empty : Bool} {inside : Printer → Printer}

@[simp] theorem text_eq_write (p : Printer) (s : String) : p.text s = p.write (lit s) := rfl

@[simp] theorem textIf_eq_write (p : Printer) (condition : Bool) (s : String) :
    p.textIf condition s = p.write (if condition then lit s else []) := by
  cases condition <;> rfl

@[simp] theorem newline_eq_write (p : Printer) :
    p.newline.indent = p.write (Layout.newline p.depth) := rfl

/-- Braces, around what is written one level deeper. -/
theorem braced_eq_write (hempty : items.isEmpty = empty) (p : Printer)
    (hinside : ∀ q : Printer, q.depth = p.depth + 1 →
      inside q = q.write (onLines (p.depth + 1) items)) :
    p.braced empty inside = p.write (Layout.braced p.depth items) := by
  rw [Printer.braced, Layout.braced, hempty]
  cases empty with
  | true => rfl
  | false =>
    rw [hinside (p.text "\x7b").raise rfl]
    simp

theorem parameters_eq_write (parameters : List (Parameter Node)) (p : Printer) :
    p.parameters true parameters = p.write (Parameter.listLayout parameters) := by
  induction parameters generalizing p with
  | nil => simp [Printer.parameters, Parameter.listLayout]
  | cons parameter rest ih =>
    have hname (q : Printer) : (q.textIf parameter.rest "...").text parameter.name =
        q.write (lit ((if parameter.rest then "..." else "") ++ parameter.name)) := by
      cases parameter.rest <;> simp
    cases rest with
    | nil => simpa [Printer.parameters, Parameter.listLayout] using hname p
    | cons next others =>
      have hstep : p.parameters true (parameter :: next :: others) =
          (((p.textIf parameter.rest "...").text parameter.name).text ", ").parameters true
            (next :: others) := rfl
      rw [hstep, hname, ih]
      simp [Parameter.listLayout]

@[simp] theorem jump_eq_write (p : Printer) (keyword : String) (label : Option String) :
    p.jump keyword label =
      p.write (lit (keyword ++ (label.map (" " ++ ·)).getD "" ++ ";")) := by
  cases label <;> simp [jump]

@[simp] theorem comment_eq_write (p : Printer) (comment : Option String) :
    p.comment comment = p.write (lit ((comment.map fun c => " /*" ++ c ++ "*/").getD "")) := by
  cases comment <;> simp [Printer.comment]

end Parts

section Bodies

variable {parameters : List (Parameter Node)} {body : List Node}

/-- A block, if its statements are printed by their layouts. -/
theorem block_eq_write
    (hbody : ∀ p : Printer, p.emitLines body = p.write (onLines p.depth
      (layouts .whole p.depth body))) (p : Printer) :
    p.braced body.isEmpty (fun p => p.emitLines body) =
      p.write (Layout.braced p.depth (layouts .whole (p.depth + 1) body)) := by
  refine braced_eq_write ?_ p fun q hq => ?_
  · rw [layouts_eq_map, List.isEmpty_map]
  · rw [hbody, hq]

/-- There is nothing between the braces of a function body only if no parameter has a default value
and there is no statement. -/
theorem isEmpty_bodyLayouts (depth : Nat) (parameters : List (Parameter Node)) (body : List Node) :
    (defaultLayouts depth parameters ++ layouts .whole depth body).isEmpty =
      (!parameters.any (·.default.isSome) && body.isEmpty) := by
  induction parameters with
  | nil => simp [defaultLayouts, layouts_eq_map]
  | cons parameter rest ih =>
    obtain ⟨name, isRest, default⟩ := parameter
    cases default with
    | none => simpa [defaultLayouts] using ih
    | some value => simp [defaultLayouts]

/-- The statements of a clause, if they are printed by their layouts. One that stands alone has no
comma. -/
theorem clauseBody_eq_write
    (hitems : ∀ p : Printer, p.emitItems .whole true body = p.write (commaSeparated
      (layouts .whole p.depth body)))
    (hbody : ∀ p : Printer, p.emitLines body = p.write (onLines p.depth
      (layouts .whole p.depth body))) (p : Printer) :
    p.clauseBody (fitsCaseLine body) (fun p => p.emitItems .whole true body)
        (fun p => p.emitLines body) =
      p.write (if fitsCaseLine body then lit " " ++ (layouts .whole p.depth body).flatten
        else onLines (p.depth + 1) (layouts .whole (p.depth + 1) body)) := by
  unfold clauseBody
  split
  · next hfits =>
    obtain ⟨node, rfl⟩ : ∃ node, body = [node] := by
      match body with
      | [node] => exact ⟨node, rfl⟩
    simp [hitems, layouts]
  · simp [hbody]

/-- A function body, if the statements for the default values and its own are printed by their
layouts. -/
theorem body_eq_write
    (hdefaults : ∀ p : Printer, p.emitDefaults parameters = p.write (onLines p.depth
      (defaultLayouts p.depth parameters)))
    (hbody : ∀ p : Printer, p.emitLines body = p.write (onLines p.depth
      (layouts .whole p.depth body))) (p : Printer) :
    p.braced (!parameters.any (·.default.isSome) && body.isEmpty)
        (fun p => (p.emitDefaults parameters).emitLines body) =
      p.write (Layout.braced p.depth
        (defaultLayouts (p.depth + 1) parameters ++ layouts .whole (p.depth + 1) body)) := by
  refine braced_eq_write (isEmpty_bodyLayouts _ parameters body) p fun q hq => ?_
  rw [hdefaults, hbody, depth_write, hq]
  simp [onLines]

end Bodies

mutual

/-- Printing a node comes to writing its layout at the depth of the printer. -/
theorem emitAs_eq_write (slot : Slot) : ∀ (node : Node) (p : Printer),
    p.emitAs slot node = p.write (node.layoutAs slot p.depth)
  | .located node span, p => by
    cases slot with
    | whole =>
      rw [emitAs, emitAs_eq_write .whole node]
      rfl
    | binding => exact emitAs_eq_write .binding node p
    | head =>
      rw [emitAs, layoutAs]
      split
      · exact emitAs_eq_write .head node p
      · rw [emitAs_eq_write .whole node]
        rfl
  | .binary left operator right, p => by
    simp [emitAs, layoutAs, emitAs_eq_write .whole left, emitAs_eq_write .whole right]
  | .unary operator operand, p => by
    simp [emitAs, layoutAs, emitAs_eq_write .whole operand]
  | .call callee arguments, p => by
    cases h : callee.unlocated.isFunctionExpr <;>
      simp [emitAs, layoutAs, parenthesizedIf, h, emitAs_eq_write .whole callee,
        emitItems_eq_write .whole arguments]
  | .construct callee arguments, p => by
    simp [emitAs, layoutAs, emitAs_eq_write .whole callee, emitItems_eq_write .whole arguments]
  | .member base property, p => by
    simp [emitAs, layoutAs, emitAs_eq_write .whole base]
  | .element base index, p => by
    simp [emitAs, layoutAs, emitAs_eq_write .whole base, emitAs_eq_write .whole index]
  | .conditional condition whenTrue whenFalse, p => by
    simp [emitAs, layoutAs, emitAs_eq_write .whole condition, emitAs_eq_write .whole whenTrue,
      emitAs_eq_write .whole whenFalse]
  | .parenthesized inner, p => by
    simp [emitAs, layoutAs, emitAs_eq_write .whole inner]
  | .array elements, p => by
    simp [emitAs, layoutAs, emitItems_eq_write .whole elements]
  | .object properties, p => by
    rw [emitAs, layoutAs]
    split
    · rfl
    · simp [emitProperties_eq_write properties]
  | .functionExpr name parameters body, p => by
    simp [emitAs, layoutAs, parameters_eq_write,
      body_eq_write (emitDefaults_eq_write parameters) (emitLines_eq_write body)]
  | .arrow parameters body, p => by
    simp [emitAs, layoutAs, parameters_eq_write,
      body_eq_write (emitDefaults_eq_write parameters) (emitLines_eq_write body)]
  | .functionDecl name parameters body, p => by
    simp [emitAs, layoutAs, parameters_eq_write,
      body_eq_write (emitDefaults_eq_write parameters) (emitLines_eq_write body)]
  | .method name parameters body, p => by
    simp [emitAs, layoutAs, PropertyName.layout, parameters_eq_write,
      body_eq_write (emitDefaults_eq_write parameters) (emitLines_eq_write body)]
  | .getter name body, p => by
    simp [emitAs, layoutAs, PropertyName.layout, block_eq_write (emitLines_eq_write body)]
  | .varDecl name initializer, p => by
    cases slot <;> simp [emitAs, layoutAs, emitOption_eq_write " = " initializer]
  | .varList declarations, p => by
    cases slot <;> simp [emitAs, layoutAs, emitItems_eq_write .binding declarations]
  | .exprStmt expression, p => by
    cases h : expression.unlocated.needsParentheses <;>
      simp [emitAs, layoutAs, parenthesizedIf, h, emitAs_eq_write .whole expression]
  | .returnStmt value, p => by
    simp [emitAs, layoutAs, emitOption_eq_write " " value]
  | .ifStmt condition thenBranch elseBranch, p => by
    cases elseBranch with
    | none =>
      simp [emitAs, layoutAs, emitAs_eq_write .whole condition, emitAs_eq_write .whole thenBranch]
    | some node =>
      cases h : thenBranch.unlocated.isBlock <;>
        simp [emitAs, layoutAs, h, emitAs_eq_write .whole condition,
          emitAs_eq_write .whole thenBranch, emitAs_eq_write .whole node]
  | .block body, p => by
    rw [emitAs, layoutAs, block_eq_write (emitLines_eq_write body)]
  | .switchStmt subject clauses, p => by
    simp [emitAs, layoutAs, emitAs_eq_write .whole subject, emitClauses_eq_write clauses]
  | .forStmt initializer condition increment body, p => by
    simp [emitAs, layoutAs, emitHead_eq_write initializer, emitOption_eq_write " " condition,
      emitOption_eq_write " " increment, emitAs_eq_write .whole body]
  | .whileStmt condition body, p => by
    simp [emitAs, layoutAs, emitAs_eq_write .whole condition, emitAs_eq_write .whole body]
  | .withStmt scope body, p => by
    simp [emitAs, layoutAs, emitAs_eq_write .whole scope, emitAs_eq_write .whole body]
  | .throwStmt value, p => by
    simp [emitAs, layoutAs, emitAs_eq_write .whole value]
  | .labeledStmt label body, p => by
    simp [emitAs, layoutAs, emitAs_eq_write .whole body]
  | .instruction tag value comment, p => by
    simp [emitAs, layoutAs, emitOption_eq_write ", " value]
  | .breakStmt _, p | .continueStmt _, p => by
    rw [emitAs, layoutAs, jump_eq_write]
  | .number _, _ | .string _, _ | .boolean _, _ | .null, _ | .undefined, _ | .identifier _, _
  | .hole, _ | .emptyStmt, _ | .labelRef _, _ => rfl

theorem emitOption_eq_write (before : String) : ∀ (node : Option Node) (p : Printer),
    p.emitOption before node = p.write (optionLayout before p.depth node)
  | none, _ => rfl
  | some node, p => by simp [emitOption, optionLayout, emitAs_eq_write .whole node]

theorem emitHead_eq_write : ∀ (node : Option Node) (p : Printer),
    p.emitHead node = p.write (headLayout p.depth node)
  | none, _ => rfl
  | some node, p => emitAs_eq_write .head node p

theorem emitItems_eq_write (slot : Slot) : ∀ (nodes : List Node) (p : Printer),
    p.emitItems slot true nodes = p.write (commaSeparated (layouts slot p.depth nodes))
  | [], _ => rfl
  | [node], p => by simp [emitItems, layouts, emitAs_eq_write slot node]
  | node :: next :: rest, p => by
    have hstep : p.emitItems slot true (node :: next :: rest) =
        ((p.emitAs slot node).text ", ").emitItems slot true (next :: rest) := rfl
    rw [hstep, emitItems_eq_write slot (next :: rest), emitAs_eq_write slot node]
    simp [layouts]

theorem emitProperties_eq_write : ∀ (properties : List (Property Node)) (p : Printer),
    p.emitProperties true properties =
      p.write (commaSeparated (propertyLayouts p.depth properties))
  | [], _ => rfl
  | [⟨name, value⟩], p => by
    simp [emitProperties, propertyLayouts, PropertyName.layout, emitAs_eq_write .whole value]
  | ⟨name, value⟩ :: next :: rest, p => by
    have hstep : p.emitProperties true (⟨name, value⟩ :: next :: rest) =
        ((((p.text name.text).text ": ").emitAs .whole value).text ", ").emitProperties true
          (next :: rest) := rfl
    rw [hstep, emitProperties_eq_write (next :: rest), emitAs_eq_write .whole value]
    simp [propertyLayouts, PropertyName.layout]

theorem emitLines_eq_write : ∀ (nodes : List Node) (p : Printer),
    p.emitLines nodes = p.write (onLines p.depth (layouts .whole p.depth nodes))
  | [], _ => rfl
  | node :: rest, p => by
    rw [emitLines, emitLines_eq_write rest, emitAs_eq_write .whole node]
    simp [layouts, onLines]

theorem emitDefaults_eq_write : ∀ (parameters : List (Parameter Node)) (p : Printer),
    p.emitDefaults parameters = p.write (onLines p.depth (defaultLayouts p.depth parameters))
  | [], _ => rfl
  | ⟨_, _, none⟩ :: rest, p => emitDefaults_eq_write rest p
  | ⟨name, _, some value⟩ :: rest, p => by
    rw [emitDefaults, emitDefaults_eq_write rest, emitAs_eq_write .whole value]
    simp [defaultLayouts, onLines]

theorem emitClauses_eq_write : ∀ (clauses : List (Clause Node)) (p : Printer),
    p.emitClauses clauses = p.write (onLines p.depth (clauseLayouts p.depth clauses))
  | [], _ => rfl
  | ⟨test, body⟩ :: rest, p => by
    rw [emitClauses,
      clauseBody_eq_write (emitItems_eq_write .whole body) (emitLines_eq_write body),
      emitClauses_eq_write rest]
    cases test with
    | none => simp [emitTest, clauseLayouts, onLines]
    | some node => simp [emitTest, emitAs_eq_write .whole node, clauseLayouts, onLines]

end

/-- Printing a node writes its layout at the depth of the printer. -/
theorem emit_eq_write (p : Printer) (node : Node) : p.emit node = p.write (node.layout p.depth) :=
  emitAs_eq_write .whole node p

theorem output_emit (p : Printer) (node : Node) :
    (p.emit node).output = p.output ++ (node.layout p.depth).text := by
  rw [emit_eq_write, output_write]

/-- Only the first statement of a list does not begin a new line. -/
theorem listLayout_cons (depth : Nat) (node : Node) (rest : List Node) :
    listLayout depth (node :: rest) =
      .indent depth :: (node.layout depth ++ onLines depth (layouts .whole depth rest)) := by
  induction rest generalizing node with
  | nil => simp [listLayout, layouts, onLines, layout]
  | cons next rest ih =>
    have hnext : listLayout depth (node :: next :: rest) =
        .indent depth :: (node.layout depth ++ (.newline :: listLayout depth (next :: rest))) := by
      simp [listLayout, layouts, layout]
    rw [hnext, ih next]
    simp [layouts, onLines, Layout.newline, layout]

theorem emitList_eq_write (p : Printer) (statements : List Node) :
    p.emitList statements = p.write (listLayout p.depth statements) := by
  cases statements with
  | nil => rfl
  | cons node rest =>
    have hindent : p.indent = p.write [.indent p.depth] := rfl
    rw [emitList, emit_eq_write, emitLines_eq_write, hindent, listLayout_cons]
    simp only [depth_write, ← write_append]
    rfl

end Printer

end Resumable
