import Resumable.Tree.Resolve

/-!
# Substitution of labels

What resolving the label references of a tree comes to. `references` lists the labels a tree
refers to, in printed order, and `relabel` puts a node in the place of each of them. If every
label has a number, resolving is relabelling by the numbers; otherwise it stops at the first
label that has none.
-/

namespace Resumable.Node

mutual

/-- The labels a tree refers to, in printed order. -/
def references : Node → List Label
  | .labelRef label => [label]
  | .binary left _ right => left.references ++ right.references
  | .unary _ operand => operand.references
  | .call callee arguments => callee.references ++ referencesList arguments
  | .construct callee arguments => callee.references ++ referencesList arguments
  | .member base _ => base.references
  | .element base index => base.references ++ index.references
  | .conditional condition whenTrue whenFalse =>
    condition.references ++ (whenTrue.references ++ whenFalse.references)
  | .parenthesized inner => inner.references
  | .array elements => referencesList elements
  | .object properties => referencesProperties properties
  | .functionExpr _ parameters body => referencesParameters parameters ++ referencesList body
  | .arrow parameters body => referencesParameters parameters ++ referencesList body
  | .varDecl _ initializer => referencesOption initializer
  | .varList declarations => referencesList declarations
  | .exprStmt expression => expression.references
  | .returnStmt value => referencesOption value
  | .ifStmt condition thenBranch elseBranch =>
    condition.references ++ (thenBranch.references ++ referencesOption elseBranch)
  | .block body => referencesList body
  | .switchStmt subject clauses => subject.references ++ referencesClauses clauses
  | .forStmt initializer condition increment body =>
    referencesOption initializer ++
      (referencesOption condition ++ (referencesOption increment ++ body.references))
  | .whileStmt condition body => condition.references ++ body.references
  | .withStmt scope body => scope.references ++ body.references
  | .throwStmt value => value.references
  | .labeledStmt _ body => body.references
  | .functionDecl _ parameters body => referencesParameters parameters ++ referencesList body
  | .method _ parameters body => referencesParameters parameters ++ referencesList body
  | .getter _ body => referencesList body
  | .instruction _ value _ => referencesOption value
  | .located node _ => node.references
  | .number _ | .string _ | .boolean _ | .null | .undefined | .identifier _ | .hole
  | .emptyStmt | .breakStmt _ | .continueStmt _ => []

def referencesOption : Option Node → List Label
  | none => []
  | some node => node.references

def referencesList : List Node → List Label
  | [] => []
  | node :: rest => node.references ++ referencesList rest

def referencesProperties : List (Property Node) → List Label
  | [] => []
  | ⟨_, value⟩ :: rest => value.references ++ referencesProperties rest

def referencesParameters : List (Parameter Node) → List Label
  | [] => []
  | ⟨_, _, default⟩ :: rest => referencesOption default ++ referencesParameters rest

def referencesClauses : List (Clause Node) → List Label
  | [] => []
  | ⟨test, body⟩ :: rest =>
    referencesOption test ++ (referencesList body ++ referencesClauses rest)

end

mutual

/-- The tree with a node in the place of each label reference. -/
def relabel (g : Label → Node) : Node → Node
  | .labelRef label => g label
  | .binary left operator right => .binary (left.relabel g) operator (right.relabel g)
  | .unary operator operand => .unary operator (operand.relabel g)
  | .call callee arguments => .call (callee.relabel g) (relabelList g arguments)
  | .construct callee arguments => .construct (callee.relabel g) (relabelList g arguments)
  | .member base property => .member (base.relabel g) property
  | .element base index => .element (base.relabel g) (index.relabel g)
  | .conditional condition whenTrue whenFalse =>
    .conditional (condition.relabel g) (whenTrue.relabel g) (whenFalse.relabel g)
  | .parenthesized inner => .parenthesized (inner.relabel g)
  | .array elements => .array (relabelList g elements)
  | .object properties => .object (relabelProperties g properties)
  | .functionExpr name parameters body =>
    .functionExpr name (relabelParameters g parameters) (relabelList g body)
  | .arrow parameters body => .arrow (relabelParameters g parameters) (relabelList g body)
  | .varDecl name initializer => .varDecl name (relabelOption g initializer)
  | .varList declarations => .varList (relabelList g declarations)
  | .exprStmt expression => .exprStmt (expression.relabel g)
  | .returnStmt value => .returnStmt (relabelOption g value)
  | .ifStmt condition thenBranch elseBranch =>
    .ifStmt (condition.relabel g) (thenBranch.relabel g) (relabelOption g elseBranch)
  | .block body => .block (relabelList g body)
  | .switchStmt subject clauses => .switchStmt (subject.relabel g) (relabelClauses g clauses)
  | .forStmt initializer condition increment body =>
    .forStmt (relabelOption g initializer) (relabelOption g condition)
      (relabelOption g increment) (body.relabel g)
  | .whileStmt condition body => .whileStmt (condition.relabel g) (body.relabel g)
  | .withStmt scope body => .withStmt (scope.relabel g) (body.relabel g)
  | .throwStmt value => .throwStmt (value.relabel g)
  | .labeledStmt label body => .labeledStmt label (body.relabel g)
  | .functionDecl name parameters body =>
    .functionDecl name (relabelParameters g parameters) (relabelList g body)
  | .method name parameters body =>
    .method name (relabelParameters g parameters) (relabelList g body)
  | .getter name body => .getter name (relabelList g body)
  | .instruction tag value comment => .instruction tag (relabelOption g value) comment
  | .located node span => .located (node.relabel g) span
  | .number text => .number text
  | .string value => .string value
  | .boolean value => .boolean value
  | .null => .null
  | .undefined => .undefined
  | .identifier name => .identifier name
  | .hole => .hole
  | .emptyStmt => .emptyStmt
  | .breakStmt label => .breakStmt label
  | .continueStmt label => .continueStmt label

def relabelOption (g : Label → Node) : Option Node → Option Node
  | none => none
  | some node => some (node.relabel g)

def relabelList (g : Label → Node) : List Node → List Node
  | [] => []
  | node :: rest => node.relabel g :: relabelList g rest

def relabelProperties (g : Label → Node) : List (Property Node) → List (Property Node)
  | [] => []
  | ⟨name, value⟩ :: rest => ⟨name, value.relabel g⟩ :: relabelProperties g rest

def relabelParameters (g : Label → Node) : List (Parameter Node) → List (Parameter Node)
  | [] => []
  | ⟨name, isRest, default⟩ :: rest =>
    ⟨name, isRest, relabelOption g default⟩ :: relabelParameters g rest

def relabelClauses (g : Label → Node) : List (Clause Node) → List (Clause Node)
  | [] => []
  | ⟨test, body⟩ :: rest => ⟨relabelOption g test, relabelList g body⟩ :: relabelClauses g rest

end

@[simp] theorem referencesList_eq_flatMap (nodes : List Node) :
    referencesList nodes = nodes.flatMap references := by
  induction nodes with
  | nil => rfl
  | cons node rest ih => rw [referencesList, ih, List.flatMap_cons]

theorem referencesClauses_eq_flatMap (clauses : List (Clause Node)) :
    referencesClauses clauses =
      clauses.flatMap fun c => referencesOption c.test ++ c.body.flatMap references := by
  induction clauses with
  | nil => rfl
  | cons c rest ih =>
    rw [referencesClauses, ih, List.flatMap_cons, referencesList_eq_flatMap, List.append_assoc]

@[simp] theorem relabelList_eq_map (g : Label → Node) (nodes : List Node) :
    relabelList g nodes = nodes.map (relabel g) := by
  induction nodes with
  | nil => rfl
  | cons node rest ih => rw [relabelList, ih, List.map_cons]

theorem relabelOption_eq_map (g : Label → Node) (node : Option Node) :
    relabelOption g node = node.map (relabel g) := by
  cases node <;> rfl

theorem relabelClauses_eq_map (g : Label → Node) (clauses : List (Clause Node)) :
    relabelClauses g clauses =
      clauses.map fun c => ⟨c.test.map (relabel g), c.body.map (relabel g)⟩ := by
  induction clauses with
  | nil => rfl
  | cons c rest ih =>
    rw [relabelClauses, ih, relabelOption_eq_map, relabelList_eq_map, List.map_cons]

section Unchanged

variable {g : Label → Node}

mutual

/-- Nothing but the references is changed. -/
theorem relabel_eq_self : ∀ node : Node, (∀ l ∈ node.references, g l = .labelRef l) →
    node.relabel g = node
  | .labelRef label, h => h label List.mem_cons_self
  | .binary left _ right, h => by
    obtain ⟨hl, hr⟩ := List.forall_mem_append.1 h
    rw [relabel, relabel_eq_self left hl, relabel_eq_self right hr]
  | .unary _ operand, h => by rw [relabel, relabel_eq_self operand h]
  | .call callee arguments, h => by
    obtain ⟨hc, ha⟩ := List.forall_mem_append.1 h
    rw [relabel, relabel_eq_self callee hc, relabelList_eq_self arguments ha]
  | .construct callee arguments, h => by
    obtain ⟨hc, ha⟩ := List.forall_mem_append.1 h
    rw [relabel, relabel_eq_self callee hc, relabelList_eq_self arguments ha]
  | .member base _, h => by rw [relabel, relabel_eq_self base h]
  | .element base index, h => by
    obtain ⟨hb, hi⟩ := List.forall_mem_append.1 h
    rw [relabel, relabel_eq_self base hb, relabel_eq_self index hi]
  | .conditional condition whenTrue whenFalse, h => by
    obtain ⟨hc, h⟩ := List.forall_mem_append.1 h
    obtain ⟨ht, hf⟩ := List.forall_mem_append.1 h
    rw [relabel, relabel_eq_self condition hc, relabel_eq_self whenTrue ht,
      relabel_eq_self whenFalse hf]
  | .parenthesized inner, h => by rw [relabel, relabel_eq_self inner h]
  | .array elements, h => by rw [relabel, relabelList_eq_self elements h]
  | .object properties, h => by rw [relabel, relabelProperties_eq_self properties h]
  | .functionExpr _ parameters body, h => by
    obtain ⟨hp, hb⟩ := List.forall_mem_append.1 h
    rw [relabel, relabelParameters_eq_self parameters hp, relabelList_eq_self body hb]
  | .arrow parameters body, h => by
    obtain ⟨hp, hb⟩ := List.forall_mem_append.1 h
    rw [relabel, relabelParameters_eq_self parameters hp, relabelList_eq_self body hb]
  | .varDecl _ initializer, h => by rw [relabel, relabelOption_eq_self initializer h]
  | .varList declarations, h => by rw [relabel, relabelList_eq_self declarations h]
  | .exprStmt expression, h => by rw [relabel, relabel_eq_self expression h]
  | .returnStmt value, h => by rw [relabel, relabelOption_eq_self value h]
  | .ifStmt condition thenBranch elseBranch, h => by
    obtain ⟨hc, h⟩ := List.forall_mem_append.1 h
    obtain ⟨ht, he⟩ := List.forall_mem_append.1 h
    rw [relabel, relabel_eq_self condition hc, relabel_eq_self thenBranch ht,
      relabelOption_eq_self elseBranch he]
  | .block body, h => by rw [relabel, relabelList_eq_self body h]
  | .switchStmt subject clauses, h => by
    obtain ⟨hs, hc⟩ := List.forall_mem_append.1 h
    rw [relabel, relabel_eq_self subject hs, relabelClauses_eq_self clauses hc]
  | .forStmt initializer condition increment body, h => by
    obtain ⟨hi, h⟩ := List.forall_mem_append.1 h
    obtain ⟨hc, h⟩ := List.forall_mem_append.1 h
    obtain ⟨hn, hb⟩ := List.forall_mem_append.1 h
    rw [relabel, relabelOption_eq_self initializer hi, relabelOption_eq_self condition hc,
      relabelOption_eq_self increment hn, relabel_eq_self body hb]
  | .whileStmt condition body, h => by
    obtain ⟨hc, hb⟩ := List.forall_mem_append.1 h
    rw [relabel, relabel_eq_self condition hc, relabel_eq_self body hb]
  | .withStmt scope body, h => by
    obtain ⟨hs, hb⟩ := List.forall_mem_append.1 h
    rw [relabel, relabel_eq_self scope hs, relabel_eq_self body hb]
  | .throwStmt value, h => by rw [relabel, relabel_eq_self value h]
  | .labeledStmt _ body, h => by rw [relabel, relabel_eq_self body h]
  | .functionDecl _ parameters body, h => by
    obtain ⟨hp, hb⟩ := List.forall_mem_append.1 h
    rw [relabel, relabelParameters_eq_self parameters hp, relabelList_eq_self body hb]
  | .method _ parameters body, h => by
    obtain ⟨hp, hb⟩ := List.forall_mem_append.1 h
    rw [relabel, relabelParameters_eq_self parameters hp, relabelList_eq_self body hb]
  | .getter _ body, h => by rw [relabel, relabelList_eq_self body h]
  | .instruction _ value _, h => by rw [relabel, relabelOption_eq_self value h]
  | .located node _, h => by rw [relabel, relabel_eq_self node h]
  | .number _, _ | .string _, _ | .boolean _, _ | .null, _ | .undefined, _ | .identifier _, _
  | .hole, _ | .emptyStmt, _ | .breakStmt _, _ | .continueStmt _, _ => rfl

theorem relabelOption_eq_self : ∀ node : Option Node,
    (∀ l ∈ referencesOption node, g l = .labelRef l) → relabelOption g node = node
  | none, _ => rfl
  | some node, h => by rw [relabelOption, relabel_eq_self node h]

theorem relabelList_eq_self : ∀ nodes : List Node,
    (∀ l ∈ referencesList nodes, g l = .labelRef l) → relabelList g nodes = nodes
  | [], _ => rfl
  | node :: rest, h => by
    obtain ⟨hn, hr⟩ := List.forall_mem_append.1 h
    rw [relabelList, relabel_eq_self node hn, relabelList_eq_self rest hr]

theorem relabelProperties_eq_self : ∀ properties : List (Property Node),
    (∀ l ∈ referencesProperties properties, g l = .labelRef l) →
    relabelProperties g properties = properties
  | [], _ => rfl
  | ⟨_, value⟩ :: rest, h => by
    obtain ⟨hv, hr⟩ := List.forall_mem_append.1 h
    rw [relabelProperties, relabel_eq_self value hv, relabelProperties_eq_self rest hr]

theorem relabelParameters_eq_self : ∀ parameters : List (Parameter Node),
    (∀ l ∈ referencesParameters parameters, g l = .labelRef l) →
    relabelParameters g parameters = parameters
  | [], _ => rfl
  | ⟨_, _, default⟩ :: rest, h => by
    obtain ⟨hd, hr⟩ := List.forall_mem_append.1 h
    rw [relabelParameters, relabelOption_eq_self default hd, relabelParameters_eq_self rest hr]

theorem relabelClauses_eq_self : ∀ clauses : List (Clause Node),
    (∀ l ∈ referencesClauses clauses, g l = .labelRef l) → relabelClauses g clauses = clauses
  | [], _ => rfl
  | ⟨test, body⟩ :: rest, h => by
    obtain ⟨ht, h⟩ := List.forall_mem_append.1 h
    obtain ⟨hb, hr⟩ := List.forall_mem_append.1 h
    rw [relabelClauses, relabelOption_eq_self test ht, relabelList_eq_self body hb,
      relabelClauses_eq_self rest hr]

end

end Unchanged

section Relabelled

variable (g : Label → Node)

mutual

/-- The labels of a relabelled tree are those of the nodes that were put into it. -/
theorem references_relabel : ∀ node : Node,
    (node.relabel g).references = node.references.flatMap fun l => (g l).references
  | .labelRef label => (List.flatMap_singleton _ _).symm
  | .binary left _ right => by
    rw [relabel, references, references, List.flatMap_append, references_relabel left,
      references_relabel right]
  | .unary _ operand => by rw [relabel, references, references, references_relabel operand]
  | .call callee arguments => by
    rw [relabel, references, references, List.flatMap_append, references_relabel callee,
      references_relabelList arguments]
  | .construct callee arguments => by
    rw [relabel, references, references, List.flatMap_append, references_relabel callee,
      references_relabelList arguments]
  | .member base _ => by rw [relabel, references, references, references_relabel base]
  | .element base index => by
    rw [relabel, references, references, List.flatMap_append, references_relabel base,
      references_relabel index]
  | .conditional condition whenTrue whenFalse => by
    rw [relabel, references, references, List.flatMap_append, List.flatMap_append,
      references_relabel condition, references_relabel whenTrue, references_relabel whenFalse]
  | .parenthesized inner => by rw [relabel, references, references, references_relabel inner]
  | .array elements => by rw [relabel, references, references, references_relabelList elements]
  | .object properties => by
    rw [relabel, references, references, references_relabelProperties properties]
  | .functionExpr _ parameters body => by
    rw [relabel, references, references, List.flatMap_append,
      references_relabelParameters parameters, references_relabelList body]
  | .arrow parameters body => by
    rw [relabel, references, references, List.flatMap_append,
      references_relabelParameters parameters, references_relabelList body]
  | .varDecl _ initializer => by
    rw [relabel, references, references, references_relabelOption initializer]
  | .varList declarations => by
    rw [relabel, references, references, references_relabelList declarations]
  | .exprStmt expression => by
    rw [relabel, references, references, references_relabel expression]
  | .returnStmt value => by rw [relabel, references, references, references_relabelOption value]
  | .ifStmt condition thenBranch elseBranch => by
    rw [relabel, references, references, List.flatMap_append, List.flatMap_append,
      references_relabel condition, references_relabel thenBranch,
      references_relabelOption elseBranch]
  | .block body => by rw [relabel, references, references, references_relabelList body]
  | .switchStmt subject clauses => by
    rw [relabel, references, references, List.flatMap_append, references_relabel subject,
      references_relabelClauses clauses]
  | .forStmt initializer condition increment body => by
    rw [relabel, references, references, List.flatMap_append, List.flatMap_append,
      List.flatMap_append, references_relabelOption initializer,
      references_relabelOption condition, references_relabelOption increment,
      references_relabel body]
  | .whileStmt condition body => by
    rw [relabel, references, references, List.flatMap_append, references_relabel condition,
      references_relabel body]
  | .withStmt scope body => by
    rw [relabel, references, references, List.flatMap_append, references_relabel scope,
      references_relabel body]
  | .throwStmt value => by rw [relabel, references, references, references_relabel value]
  | .labeledStmt _ body => by rw [relabel, references, references, references_relabel body]
  | .functionDecl _ parameters body => by
    rw [relabel, references, references, List.flatMap_append,
      references_relabelParameters parameters, references_relabelList body]
  | .method _ parameters body => by
    rw [relabel, references, references, List.flatMap_append,
      references_relabelParameters parameters, references_relabelList body]
  | .getter _ body => by rw [relabel, references, references, references_relabelList body]
  | .instruction _ value _ => by
    rw [relabel, references, references, references_relabelOption value]
  | .located node _ => by rw [relabel, references, references, references_relabel node]
  | .number _ | .string _ | .boolean _ | .null | .undefined | .identifier _ | .hole
  | .emptyStmt | .breakStmt _ | .continueStmt _ => rfl

theorem references_relabelOption : ∀ node : Option Node,
    referencesOption (relabelOption g node) =
      (referencesOption node).flatMap fun l => (g l).references
  | none => rfl
  | some node => by
    rw [relabelOption, referencesOption, referencesOption, references_relabel node]

theorem references_relabelList : ∀ nodes : List Node,
    referencesList (relabelList g nodes) =
      (referencesList nodes).flatMap fun l => (g l).references
  | [] => rfl
  | node :: rest => by
    rw [relabelList, referencesList, referencesList, List.flatMap_append,
      references_relabel node, references_relabelList rest]

theorem references_relabelProperties : ∀ properties : List (Property Node),
    referencesProperties (relabelProperties g properties) =
      (referencesProperties properties).flatMap fun l => (g l).references
  | [] => rfl
  | ⟨_, value⟩ :: rest => by
    rw [relabelProperties, referencesProperties, referencesProperties, List.flatMap_append,
      references_relabel value, references_relabelProperties rest]

theorem references_relabelParameters : ∀ parameters : List (Parameter Node),
    referencesParameters (relabelParameters g parameters) =
      (referencesParameters parameters).flatMap fun l => (g l).references
  | [] => rfl
  | ⟨_, _, default⟩ :: rest => by
    rw [relabelParameters, referencesParameters, referencesParameters, List.flatMap_append,
      references_relabelOption default, references_relabelParameters rest]

theorem references_relabelClauses : ∀ clauses : List (Clause Node),
    referencesClauses (relabelClauses g clauses) =
      (referencesClauses clauses).flatMap fun l => (g l).references
  | [] => rfl
  | ⟨test, body⟩ :: rest => by
    rw [relabelClauses, referencesClauses, referencesClauses, List.flatMap_append,
      List.flatMap_append, references_relabelOption test, references_relabelList body,
      references_relabelClauses rest]

end

end Relabelled

/-- What stands in the place of a label: its number, if it has one. -/
def numeral (numberOf : Label → Option Nat) (label : Label) : Node :=
  match numberOf label with
  | some n => .number (toString n)
  | none => .labelRef label

section Resolution

variable {α β : Type} {numberOf : Label → Option Nat}

/-- What a resolving action comes to, by the labels it meets. Once a label was found that has
no number, nothing changes any more. -/
structure Settles (numberOf : Label → Option Nat) (action : StateM (Option Label) α)
    (before after : α) (labels : List Label) : Prop where
  stopped : ∀ l, action.run (some l) = (before, some l)
  done : (∀ l ∈ labels, (numberOf l).isSome = true) → action.run none = (after, none)
  failed : ∀ l, labels.find? (fun l => (numberOf l).isNone) = some l →
    (action.run none).2 = some l

theorem run_bind_eq {σ : Type} (x : StateM σ α) (k : α → StateM σ β) (s : σ) :
    (x >>= k).run s = (k (x.run s).1).run (x.run s).2 := rfl

theorem Settles.pure (a : α) : Settles numberOf (Pure.pure a) a a [] where
  stopped _ := rfl
  done _ := rfl
  failed _ h := by simp at h

/-- The labels of two actions in turn are those of the first and then those of the second. -/
theorem Settles.bind {x : StateM (Option Label) α} {k : α → StateM (Option Label) β} {a a' : α}
    {before after : α → β} {labels labels' : List Label} (hx : Settles numberOf x a a' labels)
    (hk : ∀ v, Settles numberOf (k v) (before v) (after v) labels') :
    Settles numberOf (x >>= k) (before a) (after a') (labels ++ labels') where
  stopped l := by rw [run_bind_eq, hx.stopped l]; exact (hk a).stopped l
  done h := by
    rw [run_bind_eq, hx.done fun l hl => h l (List.mem_append_left _ hl)]
    exact (hk a').done fun l hl => h l (List.mem_append_right _ hl)
  failed l h := by
    rw [run_bind_eq]
    rw [List.find?_append] at h
    cases hf : labels.find? (fun l => (numberOf l).isNone) with
    | some l' =>
      obtain rfl : l' = l := by simpa [hf] using h
      rw [hx.failed l' hf, (hk _).stopped l']
    | none =>
      have hd := hx.done fun l hl => by
        simpa [Option.isSome_iff_ne_none] using List.find?_eq_none.1 hf l hl
      rw [hd]
      exact (hk a').failed l (by simpa [hf] using h)

theorem Settles.map {x : StateM (Option Label) α} {a a' : α} {labels : List Label}
    (hx : Settles numberOf x a a' labels) (k : α → β) :
    Settles numberOf (x >>= fun v => Pure.pure (k v)) (k a) (k a') labels := by
  have h : Settles numberOf (x >>= fun v => Pure.pure (k v)) (k a) (k a') (labels ++ []) :=
    hx.bind fun v => .pure (k v)
  rwa [List.append_nil] at h

theorem resolveLabel_settles (label : Label) :
    Settles numberOf (resolveLabel numberOf label) (.labelRef label) (numeral numberOf label)
      [label] where
  stopped l := rfl
  done h := by
    obtain ⟨n, hn⟩ := Option.isSome_iff_exists.1 (h label List.mem_cons_self)
    rw [numeral, hn]
    unfold resolveLabel
    rw [hn]
    rfl
  failed l h := by
    cases hn : numberOf label with
    | some n => simp [hn] at h
    | none =>
      obtain rfl : label = l := by simpa [hn] using h
      unfold resolveLabel
      rw [hn]
      rfl

mutual

/-- Resolving the references of a tree, from its first one on. -/
theorem resolve_settles : ∀ node : Node,
    Settles numberOf (node.resolve numberOf) node (node.relabel (numeral numberOf)) node.references
  | .labelRef label => resolveLabel_settles label
  | .binary left operator right =>
    have h := (resolve_settles left).bind fun l =>
      (resolve_settles right).map fun r => Node.binary l operator r
    h
  | .unary operator operand => (resolve_settles operand).map (Node.unary operator)
  | .call callee arguments =>
    have h := (resolve_settles callee).bind fun c =>
      (resolveList_settles arguments).map fun as => Node.call c as
    h
  | .construct callee arguments =>
    have h := (resolve_settles callee).bind fun c =>
      (resolveList_settles arguments).map fun as => Node.construct c as
    h
  | .member base property => (resolve_settles base).map fun b => Node.member b property
  | .element base index =>
    have h := (resolve_settles base).bind fun b =>
      (resolve_settles index).map fun i => Node.element b i
    h
  | .conditional condition whenTrue whenFalse =>
    have h := (resolve_settles condition).bind fun c => (resolve_settles whenTrue).bind fun t =>
      (resolve_settles whenFalse).map fun f => Node.conditional c t f
    h
  | .parenthesized inner => (resolve_settles inner).map Node.parenthesized
  | .array elements => (resolveList_settles elements).map Node.array
  | .object properties => (resolveProperties_settles properties).map Node.object
  | .functionExpr name parameters body =>
    have h := (resolveParameters_settles parameters).bind fun ps =>
      (resolveList_settles body).map fun b => Node.functionExpr name ps b
    h
  | .arrow parameters body =>
    have h := (resolveParameters_settles parameters).bind fun ps =>
      (resolveList_settles body).map fun b => Node.arrow ps b
    h
  | .varDecl name initializer => (resolveOption_settles initializer).map (Node.varDecl name)
  | .varList declarations => (resolveList_settles declarations).map Node.varList
  | .exprStmt expression => (resolve_settles expression).map Node.exprStmt
  | .returnStmt value => (resolveOption_settles value).map Node.returnStmt
  | .ifStmt condition thenBranch elseBranch =>
    have h := (resolve_settles condition).bind fun c => (resolve_settles thenBranch).bind fun t =>
      (resolveOption_settles elseBranch).map fun e => Node.ifStmt c t e
    h
  | .block body => (resolveList_settles body).map Node.block
  | .switchStmt subject clauses =>
    have h := (resolve_settles subject).bind fun s =>
      (resolveClauses_settles clauses).map fun cs => Node.switchStmt s cs
    h
  | .forStmt initializer condition increment body =>
    have h := (resolveOption_settles initializer).bind fun i =>
      (resolveOption_settles condition).bind fun c =>
        (resolveOption_settles increment).bind fun n =>
          (resolve_settles body).map fun b => Node.forStmt i c n b
    h
  | .whileStmt condition body =>
    have h := (resolve_settles condition).bind fun c =>
      (resolve_settles body).map fun b => Node.whileStmt c b
    h
  | .withStmt scope body =>
    have h := (resolve_settles scope).bind fun s =>
      (resolve_settles body).map fun b => Node.withStmt s b
    h
  | .throwStmt value => (resolve_settles value).map Node.throwStmt
  | .labeledStmt label body => (resolve_settles body).map (Node.labeledStmt label)
  | .functionDecl name parameters body =>
    have h := (resolveParameters_settles parameters).bind fun ps =>
      (resolveList_settles body).map fun b => Node.functionDecl name ps b
    h
  | .method name parameters body =>
    have h := (resolveParameters_settles parameters).bind fun ps =>
      (resolveList_settles body).map fun b => Node.method name ps b
    h
  | .getter name body => (resolveList_settles body).map (Node.getter name)
  | .instruction tag value comment =>
    (resolveOption_settles value).map fun v => Node.instruction tag v comment
  | .located node span => (resolve_settles node).map fun n => Node.located n span
  | .number _ | .string _ | .boolean _ | .null | .undefined | .identifier _ | .hole
  | .emptyStmt | .breakStmt _ | .continueStmt _ => .pure _

theorem resolveOption_settles : ∀ node : Option Node,
    Settles numberOf (mapLabelsOptionM (resolveLabel numberOf) node) node
      (relabelOption (numeral numberOf) node) (referencesOption node)
  | none => .pure none
  | some node => (resolve_settles node).map some

theorem resolveList_settles : ∀ nodes : List Node,
    Settles numberOf (mapLabelsListM (resolveLabel numberOf) nodes) nodes
      (relabelList (numeral numberOf) nodes) (referencesList nodes)
  | [] => .pure []
  | node :: rest =>
    have h := (resolve_settles node).bind fun n =>
      (resolveList_settles rest).map fun ns => n :: ns
    h

theorem resolveProperties_settles : ∀ properties : List (Property Node),
    Settles numberOf (mapLabelsPropertiesM (resolveLabel numberOf) properties) properties
      (relabelProperties (numeral numberOf) properties) (referencesProperties properties)
  | [] => .pure []
  | ⟨name, value⟩ :: rest =>
    have h := (resolve_settles value).bind fun v =>
      (resolveProperties_settles rest).map fun ps => Property.mk name v :: ps
    h

theorem resolveParameters_settles : ∀ parameters : List (Parameter Node),
    Settles numberOf (mapLabelsParametersM (resolveLabel numberOf) parameters) parameters
      (relabelParameters (numeral numberOf) parameters) (referencesParameters parameters)
  | [] => .pure []
  | ⟨name, isRest, default⟩ :: rest =>
    have h := (resolveOption_settles default).bind fun d =>
      (resolveParameters_settles rest).map fun ps => Parameter.mk name isRest d :: ps
    h

theorem resolveClauses_settles : ∀ clauses : List (Clause Node),
    Settles numberOf (mapLabelsClausesM (resolveLabel numberOf) clauses) clauses
      (relabelClauses (numeral numberOf) clauses) (referencesClauses clauses)
  | [] => .pure []
  | ⟨test, body⟩ :: rest =>
    have h := (resolveOption_settles test).bind fun t =>
      (resolveList_settles body).bind fun b =>
        (resolveClauses_settles rest).map fun cs => Clause.mk t b :: cs
    h

end

/-- Resolving the references of a list of trees, one tree after the other. -/
theorem mapM_resolve_settles (nodes : List Node) :
    Settles numberOf (nodes.mapM (resolve numberOf)) nodes
      (nodes.map (relabel (numeral numberOf))) (nodes.flatMap references) := by
  have h : Settles numberOf _ nodes _ _ := resolveList_settles nodes
  rw [mapLabelsListM_eq_mapM, relabelList_eq_map, referencesList_eq_flatMap] at h
  exact h

end Resolution

end Resumable.Node
