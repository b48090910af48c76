import Resumable.Proofs.Tree.Wrappers

/-!
# The marks of a layout

The layout of a tree marks the located nodes that printing maps, in printed order, and each mark
stands right before the layout of its node. `Marks` says so of a layout and a list of located
nodes; laying out goes piece by piece, so it follows for a tree from its parts.
-/

namespace Resumable

def Piece.isMark : Piece → Bool
  | .mark _ => true
  | _ => false

namespace Layout

/-- A layout without marks. -/
def IsPlain (l : Layout) : Prop := ∀ piece ∈ l, piece.isMark = false

/-- The layout marks those of the located nodes that are mapped, in this order, each right before
the layout of the node inside. -/
inductive Marks : Layout → List Wrapper → Prop where
  | nil : Marks [] []
  | piece {piece : Piece} {rest : Layout} {ws : List Wrapper} (plain : piece.isMark = false)
      (after : Marks rest ws) : Marks (piece :: rest) ws
  | mark {w : Wrapper} {depth : Nat} {rest tail : Layout} {ws : List Wrapper}
      (mapped : w.isMapped = true) (here : rest = w.node.layout depth ++ tail)
      (after : Marks rest ws) : Marks (.mark w.span :: rest) (w :: ws)
  | skip {w : Wrapper} {l : Layout} {ws : List Wrapper} (passed : w.isMapped = false)
      (after : Marks l ws) : Marks l (w :: ws)

/-- Layouts one after another, each with the located nodes that it marks. -/
inductive MarksAll : List Layout → List Wrapper → Prop where
  | nil : MarksAll [] []
  | cons {item : Layout} {items : List Layout} {ws vs : List Wrapper} (first : Marks item ws)
      (others : MarksAll items vs) : MarksAll (item :: items) (ws ++ vs)

@[simp] theorem isPlain_nil : IsPlain [] := by simp [IsPlain]

@[simp] theorem isPlain_lit (s : String) : IsPlain (lit s) := by simp [IsPlain, lit, Piece.isMark]

@[simp] theorem isPlain_newline (depth : Nat) : IsPlain (newline depth) := by
  simp [IsPlain, newline, Piece.isMark]

@[simp] theorem isPlain_append {a b : Layout} : IsPlain (a ++ b) ↔ IsPlain a ∧ IsPlain b := by
  simp [IsPlain, or_imp, forall_and]

@[simp] theorem isPlain_listLayout (parameters : List (Parameter α)) :
    IsPlain (Parameter.listLayout parameters) := by
  simp [Parameter.listLayout]

@[simp] theorem isPlain_nameLayout (name : PropertyName) : IsPlain name.layout := by
  cases name <;> simp [PropertyName.layout]

section Closure

variable {a b l item : Layout} {items others : List Layout} {ws vs : List Wrapper} {depth : Nat}

namespace Marks

theorem append (ha : Marks a ws) (hb : Marks b vs) : Marks (a ++ b) (ws ++ vs) := by
  induction ha with
  | nil => exact hb
  | piece plain _ ih => exact .piece plain ih
  | @mark w depth rest tail ws mapped here _ ih =>
    have here' : rest ++ b = w.node.layout depth ++ (tail ++ b) := by rw [here, List.append_assoc]
    exact .mark mapped here' ih
  | skip passed _ ih => exact .skip passed ih

theorem of_isPlain (h : IsPlain l) : Marks l [] := by
  induction l with
  | nil => exact .nil
  | cons piece rest ih =>
    exact .piece (h piece (by simp)) (ih fun p hp => h p (by simp [hp]))

theorem after_plain (h : Marks b ws) (ha : IsPlain a) : Marks (a ++ b) ws :=
  (of_isPlain ha).append h

theorem before_plain (h : Marks a ws) (hb : IsPlain b) : Marks (a ++ b) ws := by
  simpa using h.append (of_isPlain hb)

theorem after_lit (h : Marks b ws) (s : String) : Marks (lit s ++ b) ws :=
  h.after_plain (isPlain_lit s)

theorem before_lit (h : Marks a ws) (s : String) : Marks (a ++ lit s) ws :=
  h.before_plain (isPlain_lit s)

/-- A mark at the beginning of the layout of its node. -/
theorem located {w : Wrapper} (mapped : w.isMapped = true) (h : Marks (w.node.layout depth) ws) :
    Marks (.mark w.span :: w.node.layout depth) (w :: ws) :=
  .mark mapped (List.append_nil _).symm h

theorem parenthesizedIf (h : Marks l ws) (condition : Bool) :
    Marks (Node.parenthesizedIf condition l) ws := by
  unfold Node.parenthesizedIf
  split
  · exact (h.after_lit _).before_lit _
  · exact h

end Marks

namespace MarksAll

theorem append (h : MarksAll items ws) (h' : MarksAll others vs) :
    MarksAll (items ++ others) (ws ++ vs) := by
  induction h with
  | nil => exact h'
  | cons first _ ih =>
    rw [List.append_assoc]
    exact .cons first ih

theorem flatten (h : MarksAll items ws) : Marks items.flatten ws := by
  induction h with
  | nil => exact .nil
  | cons first _ ih => exact first.append ih

theorem onLines (h : MarksAll items ws) : Marks (onLines depth items) ws := by
  induction h with
  | nil => exact .nil
  | cons first _ ih => exact (first.after_plain (by simp)).append ih

theorem commaSeparated (h : MarksAll items ws) : Marks (commaSeparated items) ws := by
  induction h with
  | nil => exact .nil
  | @cons item items ws vs first others ih =>
    cases others with
    | nil => simpa [Layout.commaSeparated] using first
    | cons second others =>
      have hrest := first.append (ih.after_lit ", ")
      simpa [Layout.commaSeparated] using hrest

theorem braced (h : MarksAll items ws) : Marks (braced depth items) ws := by
  unfold Layout.braced
  split
  · next hnil =>
    cases h with
    | nil => exact .of_isPlain (by simp)
    | cons first others => simp at hnil
  · exact (((h.onLines).after_lit _).before_plain (by simp)).before_lit _

end MarksAll

end Closure

end Layout

namespace Node

open Layout

mutual

/-- The layout of a tree marks the located nodes of the tree. -/
theorem marks_layoutAs (slot : Slot) (depth : Nat) : ∀ node : Node,
    Marks (node.layoutAs slot depth) (node.wrappers slot)
  | .located node span => by
    have hwhole := marks_layoutAs .whole depth node
    cases slot with
    | whole =>
      rw [layoutAs, wrappers]
      exact .located (w := ⟨.whole, node, span⟩) rfl hwhole
    | binding =>
      rw [layoutAs, wrappers]
      exact .skip rfl (marks_layoutAs .binding depth node)
    | head =>
      rw [layoutAs, wrappers, Slot.inside]
      cases hdeclares : node.unlocated.isVarDeclaration with
      | true =>
        have hpassed : Wrapper.isMapped ⟨.head, node, span⟩ = false := by
          simp [Wrapper.isMapped, hdeclares]
        exact .skip hpassed (marks_layoutAs .head depth node)
      | false =>
        have hmapped : Wrapper.isMapped ⟨.head, node, span⟩ = true := by
          simp [Wrapper.isMapped, hdeclares]
        exact .located hmapped hwhole
  | .binary left operator right => by
    rw [layoutAs, wrappers]
    exact ((marks_layoutAs .whole depth left).before_lit _).append
      (marks_layoutAs .whole depth right)
  | .unary operator operand => by
    rw [layoutAs, wrappers]
    exact (marks_layoutAs .whole depth operand).after_lit _
  | .call callee arguments => by
    rw [layoutAs, wrappers]
    exact ((((marks_layoutAs .whole depth callee).parenthesizedIf _).before_lit _).append
      (marks_layouts .whole depth arguments).commaSeparated).before_lit _
  | .construct callee arguments => by
    rw [layoutAs, wrappers]
    exact ((((marks_layoutAs .whole depth callee).after_lit _).before_lit _).append
      (marks_layouts .whole depth arguments).commaSeparated).before_lit _
  | .member base property => by
    rw [layoutAs, wrappers]
    exact (marks_layoutAs .whole depth base).before_lit _
  | .element base index => by
    rw [layoutAs, wrappers]
    exact (((marks_layoutAs .whole depth base).before_lit _).append
      (marks_layoutAs .whole depth index)).before_lit _
  | .conditional condition whenTrue whenFalse => by
    rw [layoutAs, wrappers, ← List.append_assoc]
    exact (((((marks_layoutAs .whole depth condition).before_lit _).append
      (marks_layoutAs .whole depth whenTrue)).before_lit _).append
      (marks_layoutAs .whole depth whenFalse))
  | .parenthesized inner => by
    rw [layoutAs, wrappers]
    exact ((marks_layoutAs .whole depth inner).after_lit _).before_lit _
  | .array elements => by
    rw [layoutAs, wrappers]
    exact (((marks_layouts .whole depth elements).commaSeparated.after_lit _).before_lit _).before_lit _
  | .object properties => by
    rw [layoutAs, wrappers]
    split
    · next hnil =>
      rw [List.isEmpty_iff.1 hnil]
      exact .of_isPlain (by simp)
    · exact ((marks_propertyLayouts depth properties).commaSeparated.after_lit _).before_lit _
  | .functionExpr name parameters body => by
    rw [layoutAs, wrappers]
    exact ((marks_defaultLayouts (depth + 1) parameters).append
      (marks_layouts .whole (depth + 1) body)).braced.after_plain (by simp)
  | .arrow parameters body => by
    rw [layoutAs, wrappers]
    exact ((marks_defaultLayouts (depth + 1) parameters).append
      (marks_layouts .whole (depth + 1) body)).braced.after_plain (by simp)
  | .functionDecl name parameters body => by
    rw [layoutAs, wrappers]
    exact ((marks_defaultLayouts (depth + 1) parameters).append
      (marks_layouts .whole (depth + 1) body)).braced.after_plain (by simp)
  | .method name parameters body => by
    rw [layoutAs, wrappers]
    exact ((marks_defaultLayouts (depth + 1) parameters).append
      (marks_layouts .whole (depth + 1) body)).braced.after_plain (by simp)
  | .getter name body => by
    rw [layoutAs, wrappers]
    exact (marks_layouts .whole (depth + 1) body).braced.after_plain (by simp)
  | .varDecl name initializer => by
    have declared := (marks_optionLayout " = " depth initializer).after_lit name
    cases slot with
    | whole =>
      rw [layoutAs, wrappers]
      exact (declared.after_lit _).before_lit _
    | binding =>
      rw [layoutAs, wrappers]
      exact declared
    | head =>
      rw [layoutAs, wrappers]
      exact declared.after_lit _
  | .varList declarations => by
    have declared := (marks_layouts .binding depth declarations).commaSeparated.after_lit "var "
    cases slot with
    | head =>
      rw [layoutAs, wrappers]
      exact declared
    | whole | binding =>
      rw [layoutAs, wrappers]
      · exact declared.before_lit _
      · simp
  | .exprStmt expression => by
    rw [layoutAs, wrappers]
    exact ((marks_layoutAs .whole depth expression).parenthesizedIf _).before_lit _
  | .returnStmt value => by
    rw [layoutAs, wrappers]
    exact ((marks_optionLayout " " depth value).after_lit _).before_lit _
  | .ifStmt condition thenBranch elseBranch => by
    have branches := ((((marks_layoutAs .whole depth condition).after_lit "if (").before_lit
      ") ").append (marks_layoutAs .whole depth thenBranch))
    cases elseBranch with
    | none =>
      rw [layoutAs, wrappers, ← List.append_assoc]
      exact branches.append .nil
    | some node =>
      rw [layoutAs, wrappers, ← List.append_assoc (condition.wrappers .whole)]
      refine branches.append ((marks_layoutAs .whole depth node).after_plain ?_)
      split <;> simp
  | .block body => by
    rw [layoutAs, wrappers]
    exact (marks_layouts .whole (depth + 1) body).braced
  | .switchStmt subject clauses => by
    rw [layoutAs, wrappers]
    exact (((((marks_layoutAs .whole depth subject).after_lit _).before_lit _).append
      (marks_clauseLayouts (depth + 1) clauses).onLines).before_plain (by simp)).before_lit _
  | .forStmt initializer condition increment body => by
    rw [layoutAs, wrappers, ← List.append_assoc, ← List.append_assoc]
    exact (((((((marks_headLayout depth initializer).after_lit _).before_lit _).append
      (marks_optionLayout " " depth condition)).before_lit _).append
      (marks_optionLayout " " depth increment)).before_lit _).append
      (marks_layoutAs .whole depth body)
  | .whileStmt condition body => by
    rw [layoutAs, wrappers]
    exact (((marks_layoutAs .whole depth condition).after_lit _).before_lit _).append
      (marks_layoutAs .whole depth body)
  | .withStmt scope body => by
    rw [layoutAs, wrappers]
    exact (((marks_layoutAs .whole depth scope).after_lit _).before_lit _).append
      (marks_layoutAs .whole depth body)
  | .throwStmt value => by
    rw [layoutAs, wrappers]
    exact ((marks_layoutAs .whole depth value).after_lit _).before_lit _
  | .labeledStmt label body => by
    rw [layoutAs, wrappers]
    exact (marks_layoutAs .whole depth body).after_lit _
  | .instruction tag value comment => by
    rw [layoutAs, wrappers]
    exact ((marks_optionLayout ", " depth value).after_plain (by simp)).before_lit _
  | .number _ | .string _ | .boolean _ | .null | .undefined | .identifier _ | .hole
  | .emptyStmt | .breakStmt _ | .continueStmt _ | .labelRef _ => by
    rw [layoutAs, wrappers]
    exact .of_isPlain (by simp)

theorem marks_optionLayout (before : String) (depth : Nat) : ∀ node : Option Node,
    Marks (optionLayout before depth node) (wrappersOption .whole node)
  | none => .nil
  | some node => (marks_layoutAs .whole depth node).after_lit before

theorem marks_headLayout (depth : Nat) : ∀ node : Option Node,
    Marks (headLayout depth node) (wrappersOption .head node)
  | none => .nil
  | some node => marks_layoutAs .head depth node

theorem marks_layouts (slot : Slot) (depth : Nat) : ∀ nodes : List Node,
    MarksAll (layouts slot depth nodes) (wrappersList slot nodes)
  | [] => .nil
  | node :: rest => .cons (marks_layoutAs slot depth node) (marks_layouts slot depth rest)

theorem marks_propertyLayouts (depth : Nat) : ∀ properties : List (Property Node),
    MarksAll (propertyLayouts depth properties) (wrappersProperties properties)
  | [] => .nil
  | ⟨_, value⟩ :: rest =>
    .cons ((marks_layoutAs .whole depth value).after_plain (by simp))
      (marks_propertyLayouts depth rest)

theorem marks_defaultLayouts (depth : Nat) : ∀ parameters : List (Parameter Node),
    MarksAll (defaultLayouts depth parameters) (wrappersParameters parameters)
  | [] => .nil
  | ⟨_, _, none⟩ :: rest => marks_defaultLayouts depth rest
  | ⟨_, _, some value⟩ :: rest =>
    .cons (((marks_layoutAs .whole depth value).after_lit _).before_lit _)
      (marks_defaultLayouts depth rest)

theorem marks_clauseLayouts (depth : Nat) : ∀ clauses : List (Clause Node),
    MarksAll (clauseLayouts depth clauses) (wrappersClauses clauses)
  | [] => .nil
  | ⟨test, body⟩ :: rest => by
    have statements : Marks
        (if fitsCaseLine body then lit " " ++ (layouts .whole depth body).flatten
          else onLines (depth + 1) (layouts .whole (depth + 1) body))
        (wrappersList .whole body) := by
      split
      · exact (marks_layouts .whole depth body).flatten.after_lit _
      · exact (marks_layouts .whole (depth + 1) body).onLines
    have others := marks_clauseLayouts depth rest
    rw [wrappersClauses, ← List.append_assoc]
    cases test with
    | none =>
      rw [clauseLayouts]
      exact .cons (statements.after_lit _) others
    | some node =>
      rw [clauseLayouts]
      exact .cons ((((marks_layoutAs .whole depth node).after_lit _).before_lit _).append
        statements) others

end

end Node

end Resumable
