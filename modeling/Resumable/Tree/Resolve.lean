import Resumable.Tree.Children

/-!
# Label references

Replacing the label references of a tree, wherever in it they stand. `mapLabelsM` visits
them in printed order; `resolve` puts the numbers of cases in their place and stops at the
first label that has none, leaving the rest of the tree as it is.
-/

namespace Resumable.Node

section Traversal

variable {m : Type → Type} [Monad m]

mutual

/-- Replaces every label reference, in printed order, by the answer of `f`. -/
def mapLabelsM (f : Label → m Node) : Node → m Node
  | .number text => return .number text
  | .string value => return .string value
  | .boolean value => return .boolean value
  | .null => return .null
  | .undefined => return .undefined
  | .identifier name => return .identifier name
  | .binary left operator right =>
    return .binary (← left.mapLabelsM f) operator (← right.mapLabelsM f)
  | .unary operator operand => return .unary operator (← operand.mapLabelsM f)
  | .call callee arguments =>
    return .call (← callee.mapLabelsM f) (← mapLabelsListM f arguments)
  | .construct callee arguments =>
    return .construct (← callee.mapLabelsM f) (← mapLabelsListM f arguments)
  | .member base property => return .member (← base.mapLabelsM f) property
  | .element base index => return .element (← base.mapLabelsM f) (← index.mapLabelsM f)
  | .conditional condition whenTrue whenFalse =>
    return .conditional (← condition.mapLabelsM f) (← whenTrue.mapLabelsM f)
      (← whenFalse.mapLabelsM f)
  | .parenthesized inner => return .parenthesized (← inner.mapLabelsM f)
  | .array elements => return .array (← mapLabelsListM f elements)
  | .hole => return .hole
  | .object properties => return .object (← mapLabelsPropertiesM f properties)
  | .functionExpr name parameters body =>
    return .functionExpr name (← mapLabelsParametersM f parameters) (← mapLabelsListM f body)
  | .arrow parameters body =>
    return .arrow (← mapLabelsParametersM f parameters) (← mapLabelsListM f body)
  | .varDecl name initializer => return .varDecl name (← mapLabelsOptionM f initializer)
  | .varList declarations => return .varList (← mapLabelsListM f declarations)
  | .exprStmt expression => return .exprStmt (← expression.mapLabelsM f)
  | .returnStmt value => return .returnStmt (← mapLabelsOptionM f value)
  | .ifStmt condition thenBranch elseBranch =>
    return .ifStmt (← condition.mapLabelsM f) (← thenBranch.mapLabelsM f)
      (← mapLabelsOptionM f elseBranch)
  | .block body => return .block (← mapLabelsListM f body)
  | .emptyStmt => return .emptyStmt
  | .switchStmt subject clauses =>
    return .switchStmt (← subject.mapLabelsM f) (← mapLabelsClausesM f clauses)
  | .forStmt initializer condition increment body =>
    return .forStmt (← mapLabelsOptionM f initializer) (← mapLabelsOptionM f condition)
      (← mapLabelsOptionM f increment) (← body.mapLabelsM f)
  | .whileStmt condition body =>
    return .whileStmt (← condition.mapLabelsM f) (← body.mapLabelsM f)
  | .withStmt scope body => return .withStmt (← scope.mapLabelsM f) (← body.mapLabelsM f)
  | .throwStmt value => return .throwStmt (← value.mapLabelsM f)
  | .breakStmt label => return .breakStmt label
  | .continueStmt label => return .continueStmt label
  | .labeledStmt label body => return .labeledStmt label (← body.mapLabelsM f)
  | .functionDecl name parameters body =>
    return .functionDecl name (← mapLabelsParametersM f parameters) (← mapLabelsListM f body)
  | .method name parameters body =>
    return .method name (← mapLabelsParametersM f parameters) (← mapLabelsListM f body)
  | .getter name body => return .getter name (← mapLabelsListM f body)
  | .instruction tag value comment => return .instruction tag (← mapLabelsOptionM f value) comment
  | .labelRef label => f label
  | .located node span => return .located (← node.mapLabelsM f) span

def mapLabelsOptionM (f : Label → m Node) : Option Node → m (Option Node)
  | none => return none
  | some node => return some (← node.mapLabelsM f)

def mapLabelsListM (f : Label → m Node) : List Node → m (List Node)
  | [] => return []
  | node :: rest => return (← node.mapLabelsM f) :: (← mapLabelsListM f rest)

def mapLabelsPropertiesM (f : Label → m Node) :
    List (Property Node) → m (List (Property Node))
  | [] => return []
  | ⟨name, value⟩ :: rest =>
    return ⟨name, ← value.mapLabelsM f⟩ :: (← mapLabelsPropertiesM f rest)

def mapLabelsParametersM (f : Label → m Node) :
    List (Parameter Node) → m (List (Parameter Node))
  | [] => return []
  | ⟨name, isRest, default⟩ :: rest =>
    return ⟨name, isRest, ← mapLabelsOptionM f default⟩ :: (← mapLabelsParametersM f rest)

def mapLabelsClausesM (f : Label → m Node) : List (Clause Node) → m (List (Clause Node))
  | [] => return []
  | ⟨test, body⟩ :: rest =>
    return ⟨← mapLabelsOptionM f test, ← mapLabelsListM f body⟩ :: (← mapLabelsClausesM f rest)

end

end Traversal

section Laws

variable {m : Type → Type} [Monad m] [LawfulMonad m]

theorem mapLabelsListM_eq_mapM (f : Label → m Node) (nodes : List Node) :
    mapLabelsListM f nodes = nodes.mapM (mapLabelsM f) := by
  induction nodes with
  | nil => simp [mapLabelsListM]
  | cons node rest ih => simp [mapLabelsListM, ih]

theorem mapLabelsOptionM_eq_mapM (f : Label → m Node) (node : Option Node) :
    mapLabelsOptionM f node = node.mapM (mapLabelsM f) := by
  cases node <;> simp [mapLabelsOptionM]

theorem mapLabelsPropertiesM_eq_mapM (f : Label → m Node) (properties : List (Property Node)) :
    mapLabelsPropertiesM f properties =
      properties.mapM fun p => return { p with value := ← p.value.mapLabelsM f } := by
  induction properties with
  | nil => simp [mapLabelsPropertiesM]
  | cons p rest ih => simp [mapLabelsPropertiesM, ih]

theorem mapLabelsParametersM_eq_mapM (f : Label → m Node) (parameters : List (Parameter Node)) :
    mapLabelsParametersM f parameters = parameters.mapM (·.mapDefaultM (mapLabelsM f)) := by
  induction parameters with
  | nil => simp [mapLabelsParametersM]
  | cons p rest ih =>
    simp [mapLabelsParametersM, ih, Parameter.mapDefaultM, mapLabelsOptionM_eq_mapM]

theorem mapLabelsClausesM_eq_mapM (f : Label → m Node) (clauses : List (Clause Node)) :
    mapLabelsClausesM f clauses = clauses.mapM (·.mapNodesM (mapLabelsM f)) := by
  induction clauses with
  | nil => simp [mapLabelsClausesM]
  | cons c rest ih =>
    simp [mapLabelsClausesM, ih, Clause.mapNodesM, mapLabelsOptionM_eq_mapM,
      mapLabelsListM_eq_mapM]

/-- Away from the references themselves, the labels of a node are those of its children. -/
theorem mapLabelsM_eq_mapChildrenM (f : Label → m Node) {node : Node}
    (h : ∀ label, node ≠ .labelRef label) :
    node.mapLabelsM f = node.mapChildrenM (mapLabelsM f) := by
  cases node <;>
    simp_all [mapLabelsM, mapChildrenM, mapLabelsListM_eq_mapM, mapLabelsOptionM_eq_mapM,
      mapLabelsPropertiesM_eq_mapM, mapLabelsParametersM_eq_mapM, mapLabelsClausesM_eq_mapM]

end Laws

/-- The number that takes the place of one label reference. The state holds the label that
had none, once there is one; after that every reference stays. -/
def resolveLabel (numberOf : Label → Option Nat) (label : Label) : StateM (Option Label) Node := do
  if (← get).isSome then
    return .labelRef label
  match numberOf label with
  | some n => return .number (toString n)
  | none =>
    set (some label)
    return .labelRef label

/-- Replaces the label references by their numbers, up to the first that has none. -/
def resolve (numberOf : Label → Option Nat) (node : Node) : StateM (Option Label) Node :=
  node.mapLabelsM (resolveLabel numberOf)

end Resumable.Node
