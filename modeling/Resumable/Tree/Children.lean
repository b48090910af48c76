import Resumable.Tree.Basic

/-!
# Children

The direct children of a node, in the order they are printed. `mapChildrenM` replaces each
of them by the answer of an action; `replaceChildren` stops offering children once the
state says so, and the children not offered stay as they are.
-/

namespace Resumable

namespace Parameter

/-- Replaces the default value, if there is one. -/
def mapDefaultM {m : Type → Type} [Monad m] (f : α → m α) (p : Parameter α) : m (Parameter α) :=
  return { p with default := ← p.default.mapM f }

end Parameter

namespace Clause

/-- Replaces the test and then the statements of a clause. -/
def mapNodesM {m : Type → Type} [Monad m] (f : α → m α) (c : Clause α) : m (Clause α) :=
  return ⟨← c.test.mapM f, ← c.body.mapM f⟩

end Clause

namespace Node

variable {m : Type → Type} [Monad m]

/-- Replaces every direct child, in printed order, by the answer of `f`. -/
def mapChildrenM (f : Node → m Node) : Node → m Node
  | .number text => return .number text
  | .string value => return .string value
  | .boolean value => return .boolean value
  | .null => return .null
  | .undefined => return .undefined
  | .identifier name => return .identifier name
  | .binary left operator right => return .binary (← f left) operator (← f right)
  | .unary operator operand => return .unary operator (← f operand)
  | .call callee arguments => return .call (← f callee) (← arguments.mapM f)
  | .construct callee arguments => return .construct (← f callee) (← arguments.mapM f)
  | .member base property => return .member (← f base) property
  | .element base index => return .element (← f base) (← f index)
  | .conditional condition whenTrue whenFalse =>
    return .conditional (← f condition) (← f whenTrue) (← f whenFalse)
  | .parenthesized inner => return .parenthesized (← f inner)
  | .array elements => return .array (← elements.mapM f)
  | .hole => return .hole
  | .object properties =>
    return .object (← properties.mapM fun p => return { p with value := ← f p.value })
  | .functionExpr name parameters body =>
    return .functionExpr name (← parameters.mapM (·.mapDefaultM f)) (← body.mapM f)
  | .arrow parameters body =>
    return .arrow (← parameters.mapM (·.mapDefaultM f)) (← body.mapM f)
  | .varDecl name initializer => return .varDecl name (← initializer.mapM f)
  | .varList declarations => return .varList (← declarations.mapM f)
  | .exprStmt expression => return .exprStmt (← f expression)
  | .returnStmt value => return .returnStmt (← value.mapM f)
  | .ifStmt condition thenBranch elseBranch =>
    return .ifStmt (← f condition) (← f thenBranch) (← elseBranch.mapM f)
  | .block body => return .block (← body.mapM f)
  | .emptyStmt => return .emptyStmt
  | .switchStmt subject clauses =>
    return .switchStmt (← f subject) (← clauses.mapM (·.mapNodesM f))
  | .forStmt initializer condition increment body =>
    return .forStmt (← initializer.mapM f) (← condition.mapM f) (← increment.mapM f) (← f body)
  | .whileStmt condition body => return .whileStmt (← f condition) (← f body)
  | .withStmt scope body => return .withStmt (← f scope) (← f body)
  | .throwStmt value => return .throwStmt (← f value)
  | .breakStmt label => return .breakStmt label
  | .continueStmt label => return .continueStmt label
  | .labeledStmt label body => return .labeledStmt label (← f body)
  | .functionDecl name parameters body =>
    return .functionDecl name (← parameters.mapM (·.mapDefaultM f)) (← body.mapM f)
  | .method name parameters body =>
    return .method name (← parameters.mapM (·.mapDefaultM f)) (← body.mapM f)
  | .getter name body => return .getter name (← body.mapM f)
  | .instruction tag value comment => return .instruction tag (← value.mapM f) comment
  | .labelRef label => return .labelRef label
  | .located node span => return .located (← f node) span

/-- Offers the children to `f` until the state is `stopped`. -/
def replaceChildren {σ : Type} (stopped : σ → Bool) (f : Node → StateM σ Node) (node : Node) :
    StateM σ Node :=
  node.mapChildrenM fun child => do
    if stopped (← get) then return child else f child

end Node

end Resumable
