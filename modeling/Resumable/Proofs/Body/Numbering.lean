import Resumable.Proofs.Body.Meaning
import Resumable.Proofs.Label.Unmarked
import Resumable.Proofs.Region.Layout

/-!
# What becomes of a build

A build fails for the first label that is not marked, and then for the first reference that has
no number. If the labels are sound, whatever stands around the operations refers to defined
labels, and so do the jumps. Then the first reference without a number is the first label that
the nodes of the operations mention and nobody defined.
-/

namespace Resumable

/-- The labels that the nodes of an operation mention. Where a jump goes to is not one of them. -/
def Operation.references : Operation → List Label
  | .assign target value => target.references ++ value.references
  | .statement node => node.references
  | .jumpIfTrue _ condition | .jumpIfFalse _ condition => condition.references
  | .yield value | .delegate value | .complete value => Node.referencesOption value
  | .throw value => value.references
  | .jump _ | .endFinally => []

theorem Operation.references_node (comments : Bool) (op : Operation) :
    (op.node comments).references = op.references ++ op.target?.toList := by
  cases op <;> simp [Operation.node, Operation.references, Operation.target?, Node.assign,
    Node.ifThen, Node.not, Node.references, Node.referencesOption, Instruction.jumpTo,
    Instruction.statement]

/-- The labels of an exception region: its start, those of its handlers, and its stop. -/
def ExceptionRegion.labels (r : ExceptionRegion) : List Label :=
  r.start :: ([r.catchLabel, r.finallyLabel].filter Label.isSome ++ [r.stop])

theorem ExceptionRegion.mem_labels_iff {r : ExceptionRegion} {l : Label} : l ∈ r.labels ↔
    l = r.start ∨ l.isSome = true ∧ (l = r.catchLabel ∨ l = r.finallyLabel) ∨ l = r.stop := by
  simp [labels, and_comm]

/-- The labels fit the operations and the regions: no label is marked past the end, and jumps
and protected blocks only name labels that are defined. -/
structure Sound (operations : List Recorded) (labels : LabelTable) (regions : RegionStack) :
    Prop where
  marked : ∀ l q, labels.position? l = some q → q ≤ operations.length
  targets : ∀ r ∈ operations, ∀ l, r.operation.target? = some l → (labels.find? l).isSome = true
  regions : ∀ id r, regions.exception? id = some r → ∀ l ∈ r.labels,
    (labels.find? l).isSome = true

namespace Body.Plan

/-- What the nodes of the operations mention, in order. -/
def mentioned (p : Plan) : List Label := p.operations.flatMap fun r => r.operation.references

/-- What nobody defined of these labels. -/
def undefined (p : Plan) (labels : List Label) : List Label :=
  labels.filter fun l => (p.labels.find? l).isNone

variable {p : Plan} {l : Label} {j : Nat}

section Failing

/-- Numbering fails for the first reference that has no number. -/
theorem number_eq_error {d : Draft} {statements : List Node}
    (h : (statements.flatMap Node.references).find? (fun l => (p.caseNumber? d l).isNone) =
      some l) : p.number d statements = .error (.unresolvedLabel l) := by
  have hset : Node.Settles (p.caseNumber? d) _ statements _ _ :=
    Node.mapM_resolve_settles statements
  unfold number
  rw [show (statements.mapM (Node.resolve (p.caseNumber? d))).run none =
    (((statements.mapM (Node.resolve (p.caseNumber? d))).run none).1, some l) from
    Prod.ext rfl (hset.failed l h)]

theorem build_of_firstUnmarked? (h : p.labels.firstUnmarked? = some l) :
    p.build = .error (.unresolvedLabel l) := by
  unfold build
  rw [h]

theorem build_of_find?_references (hs : p.splitOnAbrupt = true)
    (hmarked : p.labels.firstUnmarked? = none)
    (h : (p.unplaced.flatMap Node.references).find? (fun l => (p.caseOf? l).isNone) = some l) :
    p.build = .error (.unresolvedLabel l) := by
  have hnumber : p.number (p.draftPast p.operations.length) p.unplaced =
      .error (.unresolvedLabel l) := by
    apply number_eq_error
    rw [caseNumber?_draftPast]
    exact h
  unfold build
  rw [hmarked]
  simp only [walkToEnd_eq hs, labeled_draftPast, hnumber]
  rfl

end Failing

section References

theorem undefined_append (labels labels' : List Label) :
    p.undefined (labels ++ labels') = p.undefined labels ++ p.undefined labels' :=
  List.filter_append ..

theorem undefined_eq_nil {labels : List Label}
    (h : ∀ l ∈ labels, (p.labels.find? l).isSome = true) : p.undefined labels = [] := by
  rw [undefined, List.filter_eq_nil_iff]
  intro l hl hnone
  have hsome := h l hl
  rw [Option.isNone_iff_eq_none.1 hnone] at hsome
  cases hsome

variable (h : Sound p.operations p.labels p.regions)

include h

/-- What stands around the operations refers to defined labels only. -/
theorem reads_undefined : p.Reads fun node => p.undefined node.references where
  setup := by
    unfold setup
    split <;> rfl
  announce id := by
    rw [announce]
    split
    · next r hr =>
      refine undefined_eq_nil fun l hl => h.regions id r hr l ?_
      have hhole : ∀ label : Label, (labelOrHole label).references =
          [label].filter Label.isSome := by
        intro label
        cases hsome : label.isSome <;> simp [labelOrHole, hsome, Node.references]
      have hlabels : r.labels =
          r.start :: ([r.catchLabel].filter Label.isSome ++
            ([r.finallyLabel].filter Label.isSome ++ [r.stop])) := by
        rw [← List.append_assoc, ← List.filter_append]
        rfl
      rw [hlabels]
      simpa [Node.references, StateField.of, hhole] using hl
    · rfl
  advance _ := rfl
  finish := rfl
  scope holder statements := by simp [Node.references, undefined, List.filter_flatMap]
  dispatch js := by
    rw [Node.references, Node.referencesClauses_eq_flatMap, List.flatMap_map]
    simp [undefined, List.filter_flatMap, clause, Node.referencesOption, Node.references,
      StateField.of]

/-- The body adds nothing to what the operations mention. -/
theorem undefined_unplaced :
    p.undefined (p.unplaced.flatMap Node.references) = p.undefined p.mentioned := by
  have hstatement : ∀ r ∈ p.operations, p.undefined (p.statement r).references =
      p.undefined r.operation.references := by
    intro r hr
    have htarget : p.undefined r.operation.target?.toList = [] :=
      undefined_eq_nil fun l hl => h.targets r hr l (Option.mem_toList.1 hl)
    rw [references_statement, Operation.references_node, undefined_append, htarget,
      List.append_nil]
  have hread := (reads_undefined h).unplaced
  rw [List.flatMap_def, List.flatMap_def, List.map_congr_left hstatement] at hread
  rw [mentioned, undefined, undefined, List.filter_flatMap, List.filter_flatMap]
  exact hread

end References

section Outcome

variable (h : Sound p.operations p.labels p.regions) (hun : p.labels.unmarked = [])

include h hun

/-- Once every label is marked, a label has a number if it is defined. -/
theorem isNone_caseOf? (l : Label) : (p.caseOf? l).isNone = (p.labels.find? l).isNone := by
  cases hfind : p.labels.find? l with
  | none => rw [caseOf?, LabelTable.position?, hfind]; rfl
  | some e =>
    cases hpos : p.labels.position? l with
    | none =>
      have hmem : l ∈ p.labels.unmarked := LabelTable.mem_unmarked_iff.2 ⟨by rw [hfind]; rfl, hpos⟩
      rw [hun] at hmem
      cases hmem
    | some i =>
      rw [caseOf?, hpos, Option.bind_some, if_pos (h.marked l i hpos)]
      rfl

theorem find?_references_unplaced :
    (p.unplaced.flatMap Node.references).find? (fun l => (p.caseOf? l).isNone) =
      (p.undefined p.mentioned).head? := by
  rw [← undefined_unplaced h, undefined, List.head?_filter]
  exact congrArg (fun f => List.find? f _) (funext (isNone_caseOf? h hun))

end Outcome

/-- The body is the draft with the number of an existing case in the place of every label: of
case 0 in a flat body, and of a clause in one that switches. -/
structure NumberedBy (p : Plan) (body : Body) (draft : List Node) : Prop where
  statements : body.statements = draft.map p.placed
  settled : body.statements.flatMap Node.references = []
  existing : ∀ l ∈ draft.flatMap Node.references, ∃ k, p.caseOf? l = some k ∧
    (p.cuts = [] ∧ k = 0 ∨ ∃ clauses content,
      body.statements = [.switchStmt (StateField.label.of p.state) clauses] ∧
        clauses[k]? = some ⟨some (.number (toString k)), content⟩)

/-- What a build comes to, if it is one of a body that can be suspended. -/
theorem numberedBy_of_build_eq_ok {body : Body} (hs : p.splitOnAbrupt = true)
    (hb : p.build = .ok body) : p.NumberedBy body p.unplaced := by
  obtain ⟨-, hcases, rfl⟩ := (build_eq_ok_iff hs).1 hb
  refine ⟨rfl, ?_, fun l hl => ?_⟩
  · -- a number takes the place of each label, and it mentions none itself
    show (p.unplaced.map p.placed).flatMap Node.references = []
    rw [List.flatMap_eq_nil_iff]
    intro node hnode
    obtain ⟨old, hold, rfl⟩ := List.mem_map.1 hnode
    rw [placed, Node.references_relabel, List.flatMap_eq_nil_iff]
    intro l hl
    obtain ⟨k, hk⟩ := Option.isSome_iff_exists.1 (hcases l (List.mem_flatMap.2 ⟨old, hold, hl⟩))
    rw [Node.numeral, hk]
    rfl
  · obtain ⟨k, hk⟩ := Option.isSome_iff_exists.1 (hcases l hl)
    refine ⟨k, hk, ?_⟩
    obtain ⟨i, -, hi⟩ := Option.bind_eq_some_iff.1 hk
    have hle : i ≤ p.operations.length := by
      by_cases hle : i ≤ p.operations.length
      · exact hle
      · rw [if_neg hle] at hi
        cases hi
    rw [if_pos hle] at hi
    obtain rfl := Option.some.inj hi
    have hcase := caseAt_le_length_cuts hle
    by_cases hcuts : p.cuts = []
    · rw [hcuts] at hcase
      exact Or.inl ⟨hcuts, Nat.le_zero.1 hcase⟩
    · refine Or.inr ⟨_, _, ?_, getElem?_placed_clauses hcase⟩
      simp only [unplaced, if_neg hcuts, List.map_cons, List.map_nil, placed_switch]

end Body.Plan

end Resumable
