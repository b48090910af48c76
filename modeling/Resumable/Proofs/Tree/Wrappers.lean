import Resumable.Proofs.Tree.Substitution
import Resumable.Proofs.Tree.Layout

/-!
# The located nodes of a tree

`wrappers` lists the located nodes anywhere in a tree, in printed order, each with the slot that
it stands in. The slot tells whether printing maps the node. Putting nodes without spans in the
place of labels changes neither the slots nor the spans.
-/

namespace Resumable

/-- The slot that a node stands in whose wrapper stands in this slot. -/
def Slot.inside (slot : Slot) (node : Node) : Slot :=
  match slot with
  | .whole => .whole
  | .binding => .binding
  | .head => if node.unlocated.isVarDeclaration then .head else .whole

/-- A located node, and the slot that it stands in. -/
structure Wrapper where
  slot : Slot
  /-- The node inside. -/
  node : Node
  span : Span

/-- Whether printing maps the located node. It passes over the wrapper of a binding in a list of
declarations, and over the wrapper of a declaration at the head of a loop. -/
def Wrapper.isMapped (w : Wrapper) : Bool :=
  match w.slot with
  | .whole => true
  | .binding => false
  | .head => !w.node.unlocated.isVarDeclaration

/-- The located node with its span. -/
def Wrapper.toNode (w : Wrapper) : Node := .located w.node w.span

/-- The located node with numbers in the place of its labels. -/
def Wrapper.numbered (numberOf : Label → Option Nat) (w : Wrapper) : Wrapper :=
  { w with node := w.node.relabel (Node.numeral numberOf) }

namespace Node

mutual

/-- The located nodes of a tree, in printed order. -/
def wrappers (slot : Slot) : Node → List Wrapper
  | .located node span => ⟨slot, node, span⟩ :: node.wrappers (slot.inside node)
  | .binary left _ right => left.wrappers .whole ++ right.wrappers .whole
  | .unary _ operand => operand.wrappers .whole
  | .call callee arguments => callee.wrappers .whole ++ wrappersList .whole arguments
  | .construct callee arguments => callee.wrappers .whole ++ wrappersList .whole arguments
  | .member base _ => base.wrappers .whole
  | .element base index => base.wrappers .whole ++ index.wrappers .whole
  | .conditional condition whenTrue whenFalse =>
    condition.wrappers .whole ++ (whenTrue.wrappers .whole ++ whenFalse.wrappers .whole)
  | .parenthesized inner => inner.wrappers .whole
  | .array elements => wrappersList .whole elements
  | .object properties => wrappersProperties properties
  | .functionExpr _ parameters body => wrappersParameters parameters ++ wrappersList .whole body
  | .arrow parameters body => wrappersParameters parameters ++ wrappersList .whole body
  | .varDecl _ initializer => wrappersOption .whole initializer
  | .varList declarations => wrappersList .binding declarations
  | .exprStmt expression => expression.wrappers .whole
  | .returnStmt value => wrappersOption .whole value
  | .ifStmt condition thenBranch elseBranch =>
    condition.wrappers .whole ++ (thenBranch.wrappers .whole ++ wrappersOption .whole elseBranch)
  | .block body => wrappersList .whole body
  | .switchStmt subject clauses => subject.wrappers .whole ++ wrappersClauses clauses
  | .forStmt initializer condition increment body =>
    wrappersOption .head initializer ++
      (wrappersOption .whole condition ++ (wrappersOption .whole increment ++ body.wrappers .whole))
  | .whileStmt condition body => condition.wrappers .whole ++ body.wrappers .whole
  | .withStmt scope body => scope.wrappers .whole ++ body.wrappers .whole
  | .throwStmt value => value.wrappers .whole
  | .labeledStmt _ body => body.wrappers .whole
  | .functionDecl _ parameters body => wrappersParameters parameters ++ wrappersList .whole body
  | .method _ parameters body => wrappersParameters parameters ++ wrappersList .whole body
  | .getter _ body => wrappersList .whole body
  | .instruction _ value _ => wrappersOption .whole value
  | .number _ | .string _ | .boolean _ | .null | .undefined | .identifier _ | .hole
  | .emptyStmt | .breakStmt _ | .continueStmt _ | .labelRef _ => []

def wrappersOption (slot : Slot) : Option Node → List Wrapper
  | none => []
  | some node => node.wrappers slot

def wrappersList (slot : Slot) : List Node → List Wrapper
  | [] => []
  | node :: rest => node.wrappers slot ++ wrappersList slot rest

def wrappersProperties : List (Property Node) → List Wrapper
  | [] => []
  | ⟨_, value⟩ :: rest => value.wrappers .whole ++ wrappersProperties rest

def wrappersParameters : List (Parameter Node) → List Wrapper
  | [] => []
  | ⟨_, _, default⟩ :: rest => wrappersOption .whole default ++ wrappersParameters rest

def wrappersClauses : List (Clause Node) → List Wrapper
  | [] => []
  | ⟨test, body⟩ :: rest =>
    wrappersOption .whole test ++ (wrappersList .whole body ++ wrappersClauses rest)

end

@[simp] theorem wrappersList_eq_flatMap (slot : Slot) (nodes : List Node) :
    wrappersList slot nodes = nodes.flatMap (wrappers slot) := by
  induction nodes with
  | nil => rfl
  | cons node rest ih => rw [wrappersList, ih, List.flatMap_cons]

theorem wrappersClauses_eq_flatMap (clauses : List (Clause Node)) :
    wrappersClauses clauses =
      clauses.flatMap fun c => wrappersOption .whole c.test ++ c.body.flatMap (wrappers .whole) := by
  induction clauses with
  | nil => rw [wrappersClauses, List.flatMap_nil]
  | cons c rest ih =>
    rw [wrappersClauses, ih, List.flatMap_cons, wrappersList_eq_flatMap, List.append_assoc]

@[simp] theorem wrappers_asStatement (node : Node) :
    node.asStatement.wrappers .whole = node.wrappers .whole := by
  unfold asStatement
  split
  · rw [wrappers]
  · rfl

section Numbered

variable {numberOf : Label → Option Nat}

/-- A numbered node is a declaration if it was one before. -/
theorem isVarDeclaration_relabel (node : Node) :
    (node.relabel (numeral numberOf)).unlocated.isVarDeclaration =
      node.unlocated.isVarDeclaration := by
  induction node using unlocated.induct with
  | case1 node span ih => simpa [relabel, unlocated] using ih
  | case2 node h =>
    cases node with
    | labelRef label =>
      unfold relabel numeral
      split <;> rfl
    | located node span => exact absurd rfl (h node span)
    | _ => rfl

@[simp] theorem inside_relabel (slot : Slot) (node : Node) :
    slot.inside (node.relabel (numeral numberOf)) = slot.inside node := by
  simp [Slot.inside, isVarDeclaration_relabel]

theorem wrappers_numeral (slot : Slot) (label : Label) :
    (numeral numberOf label).wrappers slot = [] := by
  unfold numeral
  split <;> rw [wrappers]

mutual

/-- Numbering the labels of a tree leaves its located nodes where they are. -/
theorem wrappers_relabel (slot : Slot) : ∀ node : Node,
    (node.relabel (numeral numberOf)).wrappers slot =
      (node.wrappers slot).map (Wrapper.numbered numberOf)
  | .located node span => by
    simp only [relabel, wrappers, inside_relabel, wrappers_relabel _ node, List.map_cons,
      Wrapper.numbered]
  | .labelRef label => by simp only [relabel, wrappers, wrappers_numeral, List.map_nil]
  | .binary left _ right => by
    simp only [relabel, wrappers, wrappers_relabel _ left, wrappers_relabel _ right,
      List.map_append]
  | .unary _ operand => by simp only [relabel, wrappers, wrappers_relabel _ operand]
  | .call callee arguments | .construct callee arguments => by
    simp only [relabel, wrappers, wrappers_relabel _ callee, wrappersList_relabel _ arguments,
      List.map_append]
  | .member base _ => by simp only [relabel, wrappers, wrappers_relabel _ base]
  | .element base index => by
    simp only [relabel, wrappers, wrappers_relabel _ base, wrappers_relabel _ index,
      List.map_append]
  | .conditional condition whenTrue whenFalse => by
    simp only [relabel, wrappers, wrappers_relabel _ condition, wrappers_relabel _ whenTrue,
      wrappers_relabel _ whenFalse, List.map_append]
  | .parenthesized inner => by simp only [relabel, wrappers, wrappers_relabel _ inner]
  | .array elements => by simp only [relabel, wrappers, wrappersList_relabel _ elements]
  | .object properties => by simp only [relabel, wrappers, wrappersProperties_relabel properties]
  | .functionExpr _ parameters body | .arrow parameters body
  | .functionDecl _ parameters body | .method _ parameters body => by
    simp only [relabel, wrappers, wrappersParameters_relabel parameters,
      wrappersList_relabel _ body, List.map_append]
  | .varDecl _ initializer => by simp only [relabel, wrappers, wrappersOption_relabel _ initializer]
  | .varList declarations => by simp only [relabel, wrappers, wrappersList_relabel _ declarations]
  | .exprStmt expression => by simp only [relabel, wrappers, wrappers_relabel _ expression]
  | .returnStmt value => by simp only [relabel, wrappers, wrappersOption_relabel _ value]
  | .ifStmt condition thenBranch elseBranch => by
    simp only [relabel, wrappers, wrappers_relabel _ condition, wrappers_relabel _ thenBranch,
      wrappersOption_relabel _ elseBranch, List.map_append]
  | .block body | .getter _ body => by simp only [relabel, wrappers, wrappersList_relabel _ body]
  | .switchStmt subject clauses => by
    simp only [relabel, wrappers, wrappers_relabel _ subject, wrappersClauses_relabel clauses,
      List.map_append]
  | .forStmt initializer condition increment body => by
    simp only [relabel, wrappers, wrappersOption_relabel _ initializer,
      wrappersOption_relabel _ condition, wrappersOption_relabel _ increment,
      wrappers_relabel _ body, List.map_append]
  | .whileStmt condition body => by
    simp only [relabel, wrappers, wrappers_relabel _ condition, wrappers_relabel _ body,
      List.map_append]
  | .withStmt scope body => by
    simp only [relabel, wrappers, wrappers_relabel _ scope, wrappers_relabel _ body,
      List.map_append]
  | .throwStmt value => by simp only [relabel, wrappers, wrappers_relabel _ value]
  | .labeledStmt _ body => by simp only [relabel, wrappers, wrappers_relabel _ body]
  | .instruction _ value _ => by simp only [relabel, wrappers, wrappersOption_relabel _ value]
  | .number _ | .string _ | .boolean _ | .null | .undefined | .identifier _ | .hole
  | .emptyStmt | .breakStmt _ | .continueStmt _ => by simp only [relabel, wrappers, List.map_nil]

theorem wrappersOption_relabel (slot : Slot) : ∀ node : Option Node,
    wrappersOption slot (relabelOption (numeral numberOf) node) =
      (wrappersOption slot node).map (Wrapper.numbered numberOf)
  | none => rfl
  | some node => by simp only [relabelOption, wrappersOption, wrappers_relabel _ node]

theorem wrappersList_relabel (slot : Slot) : ∀ nodes : List Node,
    wrappersList slot (relabelList (numeral numberOf) nodes) =
      (wrappersList slot nodes).map (Wrapper.numbered numberOf)
  | [] => rfl
  | node :: rest => by
    simp only [relabelList, wrappersList, wrappers_relabel _ node, wrappersList_relabel _ rest,
      List.map_append]

theorem wrappersProperties_relabel : ∀ properties : List (Property Node),
    wrappersProperties (relabelProperties (numeral numberOf) properties) =
      (wrappersProperties properties).map (Wrapper.numbered numberOf)
  | [] => rfl
  | ⟨_, value⟩ :: rest => by
    simp only [relabelProperties, wrappersProperties, wrappers_relabel _ value,
      wrappersProperties_relabel rest, List.map_append]

theorem wrappersParameters_relabel : ∀ parameters : List (Parameter Node),
    wrappersParameters (relabelParameters (numeral numberOf) parameters) =
      (wrappersParameters parameters).map (Wrapper.numbered numberOf)
  | [] => rfl
  | ⟨_, _, default⟩ :: rest => by
    simp only [relabelParameters, wrappersParameters, wrappersOption_relabel _ default,
      wrappersParameters_relabel rest, List.map_append]

theorem wrappersClauses_relabel : ∀ clauses : List (Clause Node),
    wrappersClauses (relabelClauses (numeral numberOf) clauses) =
      (wrappersClauses clauses).map (Wrapper.numbered numberOf)
  | [] => rfl
  | ⟨test, body⟩ :: rest => by
    simp only [relabelClauses, wrappersClauses, wrappersOption_relabel _ test,
      wrappersList_relabel _ body, wrappersClauses_relabel rest, List.map_append]

end

end Numbered

end Node

end Resumable
