import Resumable.Proofs.Body.Cases

/-!
# Reading a body

A list may be read off a body statement by statement, such as its label references or its located
nodes. If it goes into scopes and into the cases of the dispatch switch, and finds nothing in what
stands around the statements of the operations, then it is what it reads off these statements, in
the order of the operations.
-/

namespace Resumable.Body.Plan

variable {β : Type} {p : Plan} {f : Node → List β}

/-- What is read off a body comes from the statements of the operations. -/
structure Reads (p : Plan) (f : Node → List β) : Prop where
  setup : p.setup.flatMap f = []
  announce : ∀ id, f (p.announce id) = []
  advance : ∀ next, f (p.advance next) = []
  finish : f (Instruction.complete.statement p.comments none) = []
  scope : ∀ holder statements,
    f (.withStmt (.identifier holder) (.block statements)) = statements.flatMap f
  dispatch : ∀ js : List Nat, f (.switchStmt (StateField.label.of p.state) (js.map p.clause)) =
    js.flatMap fun j => (p.clause j).body.flatMap f

namespace Reads

variable (h : p.Reads f)

include h

theorem foldl_inScope (scopes : List RegionId) (statements : List Node) :
    (scopes.foldl p.inScope statements).flatMap f = statements.flatMap f := by
  induction scopes generalizing statements with
  | nil => rfl
  | cons id scopes ih =>
    rw [List.foldl_cons, ih, inScope]
    split
    · rw [List.flatMap_singleton, h.scope]
    · rfl

theorem framed (j : Nat) (entered : Option RegionId) (scopes : List RegionId)
    (content : List Node) :
    (p.framed j entered scopes content).flatMap f = content.flatMap f := by
  have hsetup : (if j = 0 then p.setup else []).flatMap f = [] := by
    split
    · exact h.setup
    · rfl
  have hannounce : (entered.map p.announce).toList.flatMap f = [] := by
    cases entered with
    | none => rfl
    | some id => rw [Option.map_some, Option.toList_some, List.flatMap_singleton, h.announce]
  rw [Plan.framed, List.flatMap_append, List.flatMap_append, hsetup, hannounce, List.nil_append,
    List.nil_append, h.foldl_inScope]

theorem advanceAfter (j : Nat) : (p.advanceAfter j).flatMap f = [] := by
  unfold Plan.advanceAfter
  split
  · rw [List.flatMap_singleton, h.advance]
  · rfl

theorem content (j : Nat) :
    (p.content j).flatMap f = (p.stretch j).flatMap fun r => f (p.statement r) := by
  have hreturn : (if j = p.cuts.length ∧ p.endsWithReturn = true then
      [Instruction.complete.statement p.comments none] else []).flatMap f = [] := by
    split
    · rw [List.flatMap_singleton, h.finish]
    · rfl
  rw [Plan.content, List.flatMap_append, hreturn, List.append_nil, List.flatMap_map]

/-- Every operation is read once, and the order of the operations is kept. -/
theorem unplaced :
    p.unplaced.flatMap f = p.operations.flatMap fun r => f (p.statement r) := by
  have hall := flatMap_stretch p
  unfold Plan.unplaced
  split
  · next hcuts =>
    rw [hcuts, List.length_nil, Nat.zero_add, List.range_one, List.flatMap_singleton] at hall
    rw [List.flatMap_append, h.setup, List.nil_append, h.content, hall]
  · rw [List.flatMap_singleton, h.dispatch, ← hall, List.flatMap_assoc]
    congr 1
    funext j
    rw [clause, List.flatMap_append, h.framed, h.advanceAfter, List.append_nil, h.content]

end Reads

end Resumable.Body.Plan
