import Resumable.Proofs.Tree.Substitution

/-!
# Filling in references

A tree with its label references taken out is a form with as many blanks, and `fill` writes nodes
into the blanks, in printed order. Visiting the references of a tree with a stateful action comes to
running the action on the list of them and filling in the answers; so resolving fills in numbers up
to the first label that has none, and the labels themselves from there on.
-/

namespace Resumable.Node

mutual

/-- The tree with these nodes in the places of its label references, in printed order. A place that
no node is left for keeps its reference. -/
def fill : Node → List Node → Node
  | .labelRef label, nodes => nodes.headD (.labelRef label)
  | .binary left operator right, nodes =>
    .binary (left.fill (nodes.take left.references.length)) operator
      (right.fill (nodes.drop left.references.length))
  | .unary operator operand, nodes => .unary operator (operand.fill nodes)
  | .call callee arguments, nodes =>
    .call (callee.fill (nodes.take callee.references.length))
      (fillList arguments (nodes.drop callee.references.length))
  | .construct callee arguments, nodes =>
    .construct (callee.fill (nodes.take callee.references.length))
      (fillList arguments (nodes.drop callee.references.length))
  | .member base property, nodes => .member (base.fill nodes) property
  | .element base index, nodes =>
    .element (base.fill (nodes.take base.references.length))
      (index.fill (nodes.drop base.references.length))
  | .conditional condition whenTrue whenFalse, nodes =>
    .conditional (condition.fill (nodes.take condition.references.length))
      (whenTrue.fill
        ((nodes.drop condition.references.length).take whenTrue.references.length))
      (whenFalse.fill
        ((nodes.drop condition.references.length).drop whenTrue.references.length))
  | .parenthesized inner, nodes => .parenthesized (inner.fill nodes)
  | .array elements, nodes => .array (fillList elements nodes)
  | .object properties, nodes => .object (fillProperties properties nodes)
  | .functionExpr name parameters body, nodes =>
    .functionExpr name
      (fillParameters parameters (nodes.take (referencesParameters parameters).length))
      (fillList body (nodes.drop (referencesParameters parameters).length))
  | .arrow parameters body, nodes =>
    .arrow (fillParameters parameters (nodes.take (referencesParameters parameters).length))
      (fillList body (nodes.drop (referencesParameters parameters).length))
  | .varDecl name initializer, nodes => .varDecl name (fillOption initializer nodes)
  | .varList declarations, nodes => .varList (fillList declarations nodes)
  | .exprStmt expression, nodes => .exprStmt (expression.fill nodes)
  | .returnStmt value, nodes => .returnStmt (fillOption value nodes)
  | .ifStmt condition thenBranch elseBranch, nodes =>
    .ifStmt (condition.fill (nodes.take condition.references.length))
      (thenBranch.fill
        ((nodes.drop condition.references.length).take thenBranch.references.length))
      (fillOption elseBranch
        ((nodes.drop condition.references.length).drop thenBranch.references.length))
  | .block body, nodes => .block (fillList body nodes)
  | .switchStmt subject clauses, nodes =>
    .switchStmt (subject.fill (nodes.take subject.references.length))
      (fillClauses clauses (nodes.drop subject.references.length))
  | .forStmt initializer condition increment body, nodes =>
    let afterFirst := nodes.drop (referencesOption initializer).length
    let afterSecond := afterFirst.drop (referencesOption condition).length
    .forStmt (fillOption initializer (nodes.take (referencesOption initializer).length))
      (fillOption condition (afterFirst.take (referencesOption condition).length))
      (fillOption increment (afterSecond.take (referencesOption increment).length))
      (body.fill (afterSecond.drop (referencesOption increment).length))
  | .whileStmt condition body, nodes =>
    .whileStmt (condition.fill (nodes.take condition.references.length))
      (body.fill (nodes.drop condition.references.length))
  | .withStmt scope body, nodes =>
    .withStmt (scope.fill (nodes.take scope.references.length))
      (body.fill (nodes.drop scope.references.length))
  | .throwStmt value, nodes => .throwStmt (value.fill nodes)
  | .labeledStmt label body, nodes => .labeledStmt label (body.fill nodes)
  | .functionDecl name parameters body, nodes =>
    .functionDecl name
      (fillParameters parameters (nodes.take (referencesParameters parameters).length))
      (fillList body (nodes.drop (referencesParameters parameters).length))
  | .method name parameters body, nodes =>
    .method name (fillParameters parameters (nodes.take (referencesParameters parameters).length))
      (fillList body (nodes.drop (referencesParameters parameters).length))
  | .getter name body, nodes => .getter name (fillList body nodes)
  | .instruction tag value comment, nodes => .instruction tag (fillOption value nodes) comment
  | .located node span, nodes => .located (node.fill nodes) span
  | .number text, _ => .number text
  | .string value, _ => .string value
  | .boolean value, _ => .boolean value
  | .null, _ => .null
  | .undefined, _ => .undefined
  | .identifier name, _ => .identifier name
  | .hole, _ => .hole
  | .emptyStmt, _ => .emptyStmt
  | .breakStmt label, _ => .breakStmt label
  | .continueStmt label, _ => .continueStmt label
termination_by structural node => node

def fillOption : Option Node → List Node → Option Node
  | none, _ => none
  | some node, nodes => some (node.fill nodes)
termination_by structural node => node

def fillList : List Node → List Node → List Node
  | [], _ => []
  | node :: rest, nodes =>
    node.fill (nodes.take node.references.length) ::
      fillList rest (nodes.drop node.references.length)
termination_by structural parts => parts

def fillProperties : List (Property Node) → List Node → List (Property Node)
  | [], _ => []
  | ⟨name, value⟩ :: rest, nodes =>
    ⟨name, value.fill (nodes.take value.references.length)⟩ ::
      fillProperties rest (nodes.drop value.references.length)
termination_by structural parts => parts

def fillParameters : List (Parameter Node) → List Node → List (Parameter Node)
  | [], _ => []
  | ⟨name, isRest, default⟩ :: rest, nodes =>
    ⟨name, isRest, fillOption default (nodes.take (referencesOption default).length)⟩ ::
      fillParameters rest (nodes.drop (referencesOption default).length)
termination_by structural parts => parts

def fillClauses : List (Clause Node) → List Node → List (Clause Node)
  | [], _ => []
  | ⟨test, body⟩ :: rest, nodes =>
    let afterTest := nodes.drop (referencesOption test).length
    ⟨fillOption test (nodes.take (referencesOption test).length),
        fillList body (afterTest.take (referencesList body).length)⟩ ::
      fillClauses rest (afterTest.drop (referencesList body).length)
termination_by structural parts => parts

end

section Visiting

variable {σ α β : Type} {f : Label → StateM σ Node}

/-- The answers of an action that is run on a list of labels, in order. -/
def answers (f : Label → StateM σ Node) (labels : List Label) (s : σ) : List Node :=
  ((labels.mapM f).run s).1

/-- The state that is left after that. -/
def stateAfter (f : Label → StateM σ Node) (labels : List Label) (s : σ) : σ :=
  ((labels.mapM f).run s).2

theorem run_mapM_cons (f : Label → StateM σ Node) (label : Label) (labels : List Label) (s : σ) :
    ((label :: labels).mapM f).run s =
      (((f label).run s).1 :: answers f labels ((f label).run s).2,
        stateAfter f labels ((f label).run s).2) := by
  rw [List.mapM_cons]
  rfl

theorem length_answers (labels : List Label) (s : σ) :
    (answers f labels s).length = labels.length := by
  induction labels generalizing s with
  | nil => rfl
  | cons label labels ih =>
    rw [answers, run_mapM_cons, List.length_cons, List.length_cons, ih]

theorem answers_append (labels labels' : List Label) (s : σ) :
    answers f (labels ++ labels') s =
      answers f labels s ++ answers f labels' (stateAfter f labels s) := by
  rw [answers, List.mapM_append]
  rfl

theorem stateAfter_append (labels labels' : List Label) (s : σ) :
    stateAfter f (labels ++ labels') s = stateAfter f labels' (stateAfter f labels s) := by
  rw [stateAfter, List.mapM_append]
  rfl

/-- The action visits these labels, one after another, and fills their answers into a form. -/
def Visits (f : Label → StateM σ Node) (action : StateM σ α) (form : List Node → α)
    (labels : List Label) : Prop :=
  ∀ s, action.run s = (form (answers f labels s), stateAfter f labels s)

theorem Visits.pure (a : α) : Visits f (Pure.pure a) (fun _ => a) [] := fun _ => rfl

/-- Two actions in turn share the answers out. -/
theorem Visits.bind {x : StateM σ α} {k : α → StateM σ β} {form : List Node → α}
    {form' : α → List Node → β} {labels labels' : List Label} (hx : Visits f x form labels)
    (hk : ∀ v, Visits f (k v) (form' v) labels') :
    Visits f (x >>= k)
      (fun nodes => form' (form (nodes.take labels.length)) (nodes.drop labels.length))
      (labels ++ labels') := by
  intro s
  have hlength : (answers f labels s).length = labels.length := length_answers labels s
  rw [run_bind_eq, hx s, hk _ _]
  simp only [answers_append, stateAfter_append, List.take_left' hlength, List.drop_left' hlength]

theorem Visits.map {x : StateM σ α} {form : List Node → α} {labels : List Label}
    (hx : Visits f x form labels) (k : α → β) :
    Visits f (x >>= fun v => Pure.pure (k v)) (fun nodes => k (form nodes)) labels := by
  intro s
  rw [run_bind_eq, hx s]
  rfl

theorem visits_labelRef (label : Label) :
    Visits f (f label) (fill (.labelRef label)) [label] := by
  intro s
  rw [answers, stateAfter, run_mapM_cons]
  rfl

mutual

/-- Visiting the references of a tree, in printed order and no others. -/
theorem mapLabelsM_visits : ∀ node : Node,
    Visits f (node.mapLabelsM f) node.fill node.references
  | .labelRef label => visits_labelRef label
  | .binary left operator right =>
    have h := (mapLabelsM_visits left).bind fun l =>
      (mapLabelsM_visits right).map fun r => Node.binary l operator r
    h
  | .unary operator operand => (mapLabelsM_visits operand).map (Node.unary operator)
  | .call callee arguments =>
    have h := (mapLabelsM_visits callee).bind fun c =>
      (mapLabelsListM_visits arguments).map fun as => Node.call c as
    h
  | .construct callee arguments =>
    have h := (mapLabelsM_visits callee).bind fun c =>
      (mapLabelsListM_visits arguments).map fun as => Node.construct c as
    h
  | .member base property => (mapLabelsM_visits base).map fun b => Node.member b property
  | .element base index =>
    have h := (mapLabelsM_visits base).bind fun b =>
      (mapLabelsM_visits index).map fun i => Node.element b i
    h
  | .conditional condition whenTrue whenFalse =>
    have h := (mapLabelsM_visits condition).bind fun c => (mapLabelsM_visits whenTrue).bind fun t =>
      (mapLabelsM_visits whenFalse).map fun f => Node.conditional c t f
    h
  | .parenthesized inner => (mapLabelsM_visits inner).map Node.parenthesized
  | .array elements => (mapLabelsListM_visits elements).map Node.array
  | .object properties => (mapLabelsPropertiesM_visits properties).map Node.object
  | .functionExpr name parameters body =>
    have h := (mapLabelsParametersM_visits parameters).bind fun ps =>
      (mapLabelsListM_visits body).map fun b => Node.functionExpr name ps b
    h
  | .arrow parameters body =>
    have h := (mapLabelsParametersM_visits parameters).bind fun ps =>
      (mapLabelsListM_visits body).map fun b => Node.arrow ps b
    h
  | .varDecl name initializer => (mapLabelsOptionM_visits initializer).map (Node.varDecl name)
  | .varList declarations => (mapLabelsListM_visits declarations).map Node.varList
  | .exprStmt expression => (mapLabelsM_visits expression).map Node.exprStmt
  | .returnStmt value => (mapLabelsOptionM_visits value).map Node.returnStmt
  | .ifStmt condition thenBranch elseBranch =>
    have h := (mapLabelsM_visits condition).bind fun c =>
      (mapLabelsM_visits thenBranch).bind fun t =>
        (mapLabelsOptionM_visits elseBranch).map fun e => Node.ifStmt c t e
    h
  | .block body => (mapLabelsListM_visits body).map Node.block
  | .switchStmt subject clauses =>
    have h := (mapLabelsM_visits subject).bind fun s =>
      (mapLabelsClausesM_visits clauses).map fun cs => Node.switchStmt s cs
    h
  | .forStmt initializer condition increment body =>
    have h := (mapLabelsOptionM_visits initializer).bind fun i =>
      (mapLabelsOptionM_visits condition).bind fun c =>
        (mapLabelsOptionM_visits increment).bind fun n =>
          (mapLabelsM_visits body).map fun b => Node.forStmt i c n b
    h
  | .whileStmt condition body =>
    have h := (mapLabelsM_visits condition).bind fun c =>
      (mapLabelsM_visits body).map fun b => Node.whileStmt c b
    h
  | .withStmt scope body =>
    have h := (mapLabelsM_visits scope).bind fun s =>
      (mapLabelsM_visits body).map fun b => Node.withStmt s b
    h
  | .throwStmt value => (mapLabelsM_visits value).map Node.throwStmt
  | .labeledStmt label body => (mapLabelsM_visits body).map (Node.labeledStmt label)
  | .functionDecl name parameters body =>
    have h := (mapLabelsParametersM_visits parameters).bind fun ps =>
      (mapLabelsListM_visits body).map fun b => Node.functionDecl name ps b
    h
  | .method name parameters body =>
    have h := (mapLabelsParametersM_visits parameters).bind fun ps =>
      (mapLabelsListM_visits body).map fun b => Node.method name ps b
    h
  | .getter name body => (mapLabelsListM_visits body).map (Node.getter name)
  | .instruction tag value comment =>
    (mapLabelsOptionM_visits value).map fun v => Node.instruction tag v comment
  | .located node span => (mapLabelsM_visits node).map fun n => Node.located n span
  | .number _ | .string _ | .boolean _ | .null | .undefined | .identifier _ | .hole
  | .emptyStmt | .breakStmt _ | .continueStmt _ => .pure _

theorem mapLabelsOptionM_visits : ∀ node : Option Node,
    Visits f (mapLabelsOptionM f node) (fillOption node) (referencesOption node)
  | none => .pure none
  | some node => (mapLabelsM_visits node).map some

theorem mapLabelsListM_visits : ∀ nodes : List Node,
    Visits f (mapLabelsListM f nodes) (fillList nodes) (referencesList nodes)
  | [] => .pure []
  | node :: rest =>
    have h := (mapLabelsM_visits node).bind fun n =>
      (mapLabelsListM_visits rest).map fun ns => n :: ns
    h

theorem mapLabelsPropertiesM_visits : ∀ properties : List (Property Node),
    Visits f (mapLabelsPropertiesM f properties) (fillProperties properties)
      (referencesProperties properties)
  | [] => .pure []
  | ⟨name, value⟩ :: rest =>
    have h := (mapLabelsM_visits value).bind fun v =>
      (mapLabelsPropertiesM_visits rest).map fun ps => Property.mk name v :: ps
    h

theorem mapLabelsParametersM_visits : ∀ parameters : List (Parameter Node),
    Visits f (mapLabelsParametersM f parameters) (fillParameters parameters)
      (referencesParameters parameters)
  | [] => .pure []
  | ⟨name, isRest, default⟩ :: rest =>
    have h := (mapLabelsOptionM_visits default).bind fun d =>
      (mapLabelsParametersM_visits rest).map fun ps => Parameter.mk name isRest d :: ps
    h

theorem mapLabelsClausesM_visits : ∀ clauses : List (Clause Node),
    Visits f (mapLabelsClausesM f clauses) (fillClauses clauses) (referencesClauses clauses)
  | [] => .pure []
  | ⟨test, body⟩ :: rest =>
    have h := (mapLabelsOptionM_visits test).bind fun t =>
      (mapLabelsListM_visits body).bind fun b =>
        (mapLabelsClausesM_visits rest).map fun cs => Clause.mk t b :: cs
    h

end

end Visiting

section Resolving

variable (numberOf : Label → Option Nat)

/-- Once a label was found that has no number, every reference stays. -/
theorem run_mapM_resolveLabel_some (labels : List Label) (l : Label) :
    (labels.mapM (resolveLabel numberOf)).run (some l) = (labels.map labelRef, some l) := by
  induction labels with
  | nil => rfl
  | cons label labels ih =>
    have hrun : (resolveLabel numberOf label).run (some l) = (labelRef label, some l) := rfl
    rw [run_mapM_cons, hrun, answers, stateAfter, ih]
    rfl

/-- Numbers up to the first label that has none, and the labels themselves from there on. -/
theorem exists_run_mapM_resolveLabel (labels : List Label) :
    ∃ before after, labels = before ++ after ∧ (∀ l ∈ before, (numberOf l).isSome = true) ∧
      (∀ l, after.head? = some l → numberOf l = none) ∧
      (labels.mapM (resolveLabel numberOf)).run none =
        (before.map (numeral numberOf) ++ after.map labelRef, after.head?) := by
  induction labels with
  | nil => exact ⟨[], [], rfl, by simp, by simp, rfl⟩
  | cons label labels ih =>
    cases hn : numberOf label with
    | some n =>
      obtain ⟨before, after, rfl, hbefore, hafter, hrun⟩ := ih
      have hlabel : (resolveLabel numberOf label).run none = (numeral numberOf label, none) := by
        simp only [resolveLabel, numeral, hn]
        rfl
      refine ⟨label :: before, after, rfl, by simpa [hn] using hbefore, hafter, ?_⟩
      rw [run_mapM_cons, hlabel, answers, stateAfter, hrun]
      rfl
    | none =>
      have hlabel : (resolveLabel numberOf label).run none = (labelRef label, some label) := by
        simp only [resolveLabel, hn]
        rfl
      refine ⟨[], label :: labels, rfl, by simp, by simpa using hn, ?_⟩
      rw [run_mapM_cons, hlabel, answers, stateAfter, run_mapM_resolveLabel_some]
      rfl

/-- Resolving a tree fills in numbers up to the first reference that has none. -/
theorem exists_run_resolve (node : Node) :
    ∃ before after, node.references = before ++ after ∧
      (∀ l ∈ before, (numberOf l).isSome = true) ∧
      (∀ l, after.head? = some l → numberOf l = none) ∧
      (node.resolve numberOf).run none =
        (node.fill (before.map (numeral numberOf) ++ after.map labelRef), after.head?) := by
  obtain ⟨before, after, hrefs, hbefore, hafter, hrun⟩ :=
    exists_run_mapM_resolveLabel numberOf node.references
  refine ⟨before, after, hrefs, hbefore, hafter, ?_⟩
  rw [resolve, mapLabelsM_visits node none, answers, stateAfter, hrun]

end Resolving

end Resumable.Node
