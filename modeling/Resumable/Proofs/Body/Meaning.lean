import Resumable.Proofs.Body.Code
import Resumable.Proofs.Body.Reading
import Resumable.Proofs.Label.Position

/-!
# What the statements of a body mean

A `Runnable` plan has no regions, every label marked, and operations that only the oracle and
the dispatcher look into. Its body can be built, and each statement in it does what its
operation does, with the case of its target in the place of a label.
-/

namespace Resumable

/-- The operation has a meaning outside of every region, and no control is hidden in it. -/
def Operation.IsPlain (state : String) : Operation → Prop
  | .assign target value => (Node.assign target value).IsInert state
  | .statement node => node.IsInert state
  | .endFinally => False
  | _ => True

namespace Body.Plan

/-- There are no regions, every label is marked, and every label that is named is defined. -/
structure Runnable (p : Plan) : Prop where
  splits : p.splitOnAbrupt = true
  returns : p.forceReturn = true
  regions : p.regions = {}
  marked : ∀ l, (p.labels.find? l).isSome = true →
    ∃ i, p.labels.position? l = some i ∧ i ≤ p.operations.length
  defined : ∀ r ∈ p.operations, ∀ l ∈ (r.operation.node p.comments).references,
    (p.labels.find? l).isSome = true
  plain : ∀ r ∈ p.operations, r.operation.IsPlain p.state

/-- What the statement of an operation does in the body. -/
def act (p : Plan) : Operation → Act
  | .assign target value => .shows (.assigned target value)
  | .statement node => .shows (.ofNode node)
  | .jump label => .jump (p.caseAt (p.target label))
  | .jumpIfTrue label condition => .branch (p.placed condition) (p.caseAt (p.target label))
  | .jumpIfFalse label condition => .branch (p.placed condition).not (p.caseAt (p.target label))
  | .yield value => .suspend (.yielded (value.map p.placed))
  | .delegate value => .suspend (.delegated (value.map p.placed))
  | .complete value => .finish (.returned (value.map p.placed))
  | .throw value => .finish (.thrown (p.placed value))
  | .endFinally => .unknown

variable {p : Plan}

theorem bare_placed_statement (p : Plan) (r : Recorded) :
    (p.placed (p.statement r)).bare = (p.placed (r.operation.node p.comments)).bare := by
  have hlocate : ∀ node : Node,
      (p.placed (node.locate r.location)).bare = (p.placed node).bare := by
    intro node
    cases r.location <;> rfl
  rw [statement, Recorded.statement, hlocate, Node.asStatement]
  split <;> rfl

theorem placed_eq_self {node : Node} (h : node.references = []) : p.placed node = node :=
  Node.relabel_eq_self node (by simp [h])

theorem placed_instruction (p : Plan) (i : Instruction) (value : Option Node) :
    p.placed (i.statement p.comments value) = i.statement p.comments (value.map p.placed) := by
  rw [Instruction.statement, placed, Node.relabel, Node.relabelOption, Node.relabel,
    Node.relabelOption_eq_map]
  rfl

/-- A jump to a label goes on in the case of the label. -/
theorem placed_jumpTo_of_caseOf? {l : Label} {k : Nat} (hcase : p.caseOf? l = some k) :
    p.placed (Instruction.jumpTo p.comments l) =
      Instruction.jump.statement p.comments (some (.number (toString k))) := by
  rw [Instruction.jumpTo, placed_instruction, Option.map_some, placed, Node.relabel, Node.numeral,
    hcase]

section Runnable

variable (h : p.Runnable)

include h

/-- A branch to a defined label goes to where a case begins. -/
theorem target_spec {l : Label} (hl : (p.labels.find? l).isSome = true) :
    p.target l ≤ p.operations.length ∧ (p.target l = 0 ∨ p.isCut (p.target l) = true) ∧
      p.caseOf? l = some (p.caseAt (p.target l)) := by
  obtain ⟨i, hi, hle⟩ := h.marked l hl
  have htarget : p.target l = i := by rw [target, hi]; rfl
  rw [htarget]
  refine ⟨hle, ?_, ?_⟩
  · by_cases hpos : 0 < i
    · exact Or.inr (isCut_of_hasLabelAt hpos hle (LabelTable.hasLabelAt_of_position? hi))
    · exact Or.inl (by omega)
  · rw [caseOf?, hi, Option.bind_some, if_pos hle]

theorem placed_jumpTo {l : Label} (hl : (p.labels.find? l).isSome = true) :
    p.placed (Instruction.jumpTo p.comments l) =
      Instruction.jump.statement p.comments
        (some (.number (toString (p.caseAt (p.target l))))) := by
  obtain ⟨-, -, hcase⟩ := target_spec h hl
  exact placed_jumpTo_of_caseOf? hcase

omit h in
theorem ofReturned_jump (c : Option String) (n : Nat) :
    Act.ofReturned (some (.instruction 3 (some (.number (toString n))) c)) = .jump n := by
  simp only [Act.ofReturned, Node.natural?_number]

/-- Each statement does what its operation does. -/
theorem act_statement {r : Recorded} (hr : r ∈ p.operations) :
    Act.ofNode p.state (p.placed (p.statement r)) = p.act r.operation := by
  have hplain := h.plain r hr
  have hdefined := h.defined r hr
  rw [Act.ofNode, bare_placed_statement]
  cases hop : r.operation with
  | assign target value =>
    rw [hop] at hplain
    have hplaced : p.placed (Node.assign target value) = Node.assign target value :=
      placed_eq_self hplain.references
    rw [Operation.node, hplaced]
    exact hplain.shows
  | statement node =>
    rw [hop] at hplain
    rw [Operation.node, placed_eq_self hplain.references]
    exact hplain.shows
  | jump label =>
    have hl : (p.labels.find? label).isSome = true :=
      hdefined label (by rw [hop]; exact List.mem_singleton.2 rfl)
    rw [Operation.node, placed_jumpTo h hl]
    exact ofReturned_jump (if p.comments then some Instruction.jump.comment else none) _
  | jumpIfTrue label condition =>
    have hl : (p.labels.find? label).isSome = true :=
      hdefined label (by rw [hop]; simp [Operation.node, Node.ifThen, Node.references,
        Instruction.jumpTo, Instruction.statement, Node.referencesOption])
    have hplaced : p.placed (.ifThen condition (Instruction.jumpTo p.comments label)) =
        .ifThen (p.placed condition) (p.placed (Instruction.jumpTo p.comments label)) := rfl
    rw [Operation.node, hplaced, placed_jumpTo h hl]
    simp only [Node.ifThen, Node.bare, Instruction.statement, Act.ofBare]
    rw [show Instruction.jump.tag = 3 from rfl, ofReturned_jump]
    rfl
  | jumpIfFalse label condition =>
    have hl : (p.labels.find? label).isSome = true :=
      hdefined label (by rw [hop]; simp [Operation.node, Node.ifThen, Node.references,
        Instruction.jumpTo, Instruction.statement, Node.referencesOption])
    have hplaced : p.placed (.ifThen condition.not (Instruction.jumpTo p.comments label)) =
        .ifThen (p.placed condition).not (p.placed (Instruction.jumpTo p.comments label)) := rfl
    rw [Operation.node, hplaced, placed_jumpTo h hl]
    simp only [Node.ifThen, Node.bare, Instruction.statement, Act.ofBare]
    rw [show Instruction.jump.tag = 3 from rfl, ofReturned_jump]
    rfl
  | yield value => rw [Operation.node, placed_instruction]; rfl
  | delegate value => rw [Operation.node, placed_instruction]; rfl
  | complete value => rw [Operation.node, placed_instruction]; rfl
  | throw value => rfl
  | endFinally =>
    rw [hop] at hplain
    exact hplain.elim

theorem firstUnmarked?_eq_none : p.labels.firstUnmarked? = none := by
  rw [LabelTable.firstUnmarked?, List.find?_eq_none]
  intro l hl
  obtain ⟨n, hn, rfl⟩ := List.mem_map.1 hl
  have hdef : (p.labels.find? ⟨n⟩).isSome = true := by
    rw [LabelTable.isSome_find?_iff]
    have := List.mem_range'_1.1 hn
    exact ⟨by show 0 < n; omega, by show n ≤ _; omega⟩
  obtain ⟨i, hi, -⟩ := h.marked _ hdef
  simp [hi]

end Runnable

theorem references_statement (p : Plan) (r : Recorded) :
    (p.statement r).references = (r.operation.node p.comments).references := by
  have hlocate : ∀ node : Node, (node.locate r.location).references = node.references := by
    intro node
    cases r.location <;> rfl
  rw [statement, Recorded.statement, hlocate, Node.asStatement]
  split <;> rfl

/-- Without regions, nothing but the statements of the operations refers to labels. -/
theorem reads_references (hr : p.regions = {}) : p.Reads Node.references where
  setup := by rw [setup_of_regions hr, List.flatMap_nil]
  announce id := by
    rw [announce, hr]
    rfl
  advance _ := rfl
  finish := rfl
  scope holder statements := by simp [Node.references]
  dispatch js := by
    rw [Node.references, Node.referencesClauses_eq_flatMap, List.flatMap_map]
    rfl

/-- Every label in a body without regions is one of an operation. -/
theorem exists_of_mem_references_unplaced (hr : p.regions = {}) {l : Label}
    (hl : l ∈ p.unplaced.flatMap Node.references) :
    ∃ r ∈ p.operations, l ∈ (r.operation.node p.comments).references := by
  rw [(reads_references hr).unplaced] at hl
  obtain ⟨r, hr, hl⟩ := List.mem_flatMap.1 hl
  rw [references_statement] at hl
  exact ⟨r, hr, hl⟩

/-- The body of a runnable plan. -/
theorem build_of_runnable (h : p.Runnable) :
    p.build = .ok ⟨p.unplaced.map p.placed, p.operations.any (·.operation.isSuspension)⟩ := by
  rw [build_eq_ok_iff h.splits]
  refine ⟨firstUnmarked?_eq_none h, fun l hl => ?_, rfl⟩
  obtain ⟨r, hr, hl⟩ := exists_of_mem_references_unplaced h.regions hl
  obtain ⟨-, -, hcase⟩ := target_spec h (h.defined r hr l hl)
  rw [hcase]
  rfl

end Body.Plan

end Resumable
