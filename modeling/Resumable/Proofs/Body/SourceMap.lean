import Resumable.Proofs.Body.Reading
import Resumable.Proofs.Tree.Lines

/-!
# The source map of a body

A body that can be suspended is printed with one mapping for each operation whose location is
known, in the order of the operations. What stands around the statements of the operations has no
located nodes, the stretches of the cases keep the order of the operations, and every statement
begins a line, so the lines of the mappings strictly increase.
-/

namespace Resumable.Body.Plan

open Node Layout

variable {p : Plan} {r : Recorded} {s : Node} {j : Nat}

/-- No node of an operation is located. -/
def IsUnlocated (p : Plan) : Prop :=
  ∀ r ∈ p.operations, (r.operation.node p.comments).wrappers .whole = []

/-- The located statement of an operation as it stands in the body, if its location is known. -/
def placedWrapper? (p : Plan) (r : Recorded) : Option Wrapper :=
  r.location.map fun span => ⟨.whole, p.placed (r.operation.node p.comments).asStatement, span⟩

section Around

theorem wrappers_setup (p : Plan) : ∀ s ∈ p.setup, s.wrappers .whole = [] := by
  intro s hs
  unfold setup at hs
  split at hs
  · obtain rfl := List.mem_singleton.1 hs
    simp [Node.assign, Node.wrappers, StateField.of]
  · cases hs

theorem wrappers_announce (p : Plan) (id : RegionId) : (p.announce id).wrappers .whole = [] := by
  have hlabel : ∀ label : Label, (labelOrHole label).wrappers .whole = [] := by
    intro label
    unfold labelOrHole
    split <;> rw [Node.wrappers]
  unfold announce
  split
  · simp [Node.wrappers, StateField.of, hlabel]
  · rw [Node.wrappers]

theorem wrappers_advance (p : Plan) (next : Nat) : (p.advance next).wrappers .whole = [] := by
  simp [advance, Node.assign, Node.wrappers, StateField.of]

theorem wrappers_finalReturn (p : Plan) :
    (Instruction.complete.statement p.comments none).wrappers .whole = [] := by
  simp [Instruction.statement, Node.wrappers, Node.wrappersOption]

/-- Only the statements of the operations have located nodes. -/
theorem reads_wrappers (p : Plan) : p.Reads (Node.wrappers .whole) where
  setup := List.flatMap_eq_nil_iff.2 (wrappers_setup p)
  announce := wrappers_announce p
  advance := wrappers_advance p
  finish := wrappers_finalReturn p
  scope holder statements := by simp [Node.wrappers]
  dispatch js := by
    rw [Node.wrappers, Node.wrappersClauses_eq_flatMap, List.flatMap_map]
    simp [clause, Node.wrappers, Node.wrappersOption, StateField.of]

end Around

section Wrappers

variable (h : p.IsUnlocated)

include h

/-- The located nodes of a statement in the body: the statement itself, if it is located. -/
theorem wrappers_placed_statement (hr : r ∈ p.operations) :
    (p.placed (p.statement r)).wrappers .whole = (p.placedWrapper? r).toList := by
  have hbare : (p.placed (r.operation.node p.comments).asStatement).wrappers .whole = [] := by
    rw [placed, wrappers_relabel, wrappers_asStatement, h r hr, List.map_nil]
  unfold statement Recorded.statement placedWrapper?
  cases r.location with
  | none => exact hbare
  | some span =>
    rw [Node.locate, placed, Node.relabel, Node.wrappers]
    exact congrArg (List.cons _) hbare

/-- The located nodes of the body are the statements of the located operations, in order. -/
theorem wrappers_placed :
    (p.unplaced.map p.placed).flatMap (Node.wrappers .whole) =
      p.operations.filterMap p.placedWrapper? := by
  have hplaced : ∀ s : Node, (p.placed s).wrappers .whole =
      (s.wrappers .whole).map (Wrapper.numbered p.caseOf?) := wrappers_relabel .whole
  rw [List.flatMap_map, List.filterMap_eq_flatMap_toList]
  simp only [hplaced]
  rw [← List.map_flatMap, (reads_wrappers p).unplaced, List.map_flatMap]
  refine List.flatMap_congr fun r hr => ?_
  rw [← hplaced, wrappers_placed_statement h hr]

end Wrappers

section Lines

theorem onOwnLine_foldl_inScope (p : Plan) (scopes : List RegionId) {statements : List Node}
    (h : ∀ s ∈ statements, OnOwnLine s) : ∀ s ∈ scopes.foldl p.inScope statements, OnOwnLine s := by
  induction scopes generalizing statements with
  | nil => exact h
  | cons id scopes ih =>
    refine ih ?_
    unfold inScope
    split
    · intro s hs
      obtain rfl := List.mem_singleton.1 hs
      exact .scope h
    · exact h

variable (h : p.IsUnlocated)

include h

theorem onOwnLine_statement (hr : r ∈ p.operations) : OnOwnLine (p.statement r) := by
  have hbare : (r.operation.node p.comments).asStatement.wrappers .whole = [] := by
    rw [wrappers_asStatement, h r hr]
  unfold statement Recorded.statement
  cases r.location with
  | none => exact .bare hbare
  | some span => exact .located hbare

theorem onOwnLine_content (j : Nat) : ∀ s ∈ p.content j, OnOwnLine s := by
  intro s hs
  rcases List.mem_append.1 hs with hs | hs
  · obtain ⟨r, hr, rfl⟩ := List.mem_map.1 hs
    exact onOwnLine_statement h (List.mem_of_mem_take (List.mem_of_mem_drop hr))
  · split at hs
    · obtain rfl := List.mem_singleton.1 hs
      exact .bare (wrappers_finalReturn p)
    · cases hs

theorem onOwnLine_clause (j : Nat) : ∀ s ∈ (p.clause j).body, OnOwnLine s := by
  intro s hs
  rcases List.mem_append.1 hs with hs | hs
  · rcases List.mem_append.1 hs with hs | hs
    · split at hs
      · exact .bare (wrappers_setup p s hs)
      · cases hs
    · rcases List.mem_append.1 hs with hs | hs
      · obtain ⟨id, -, rfl⟩ := Option.map_eq_some_iff.1 (Option.mem_toList.1 hs)
        exact .bare (wrappers_announce p id)
      · exact onOwnLine_foldl_inScope p _ (onOwnLine_content h j) s hs
  · exact .bare (List.flatMap_eq_nil_iff.1 ((reads_wrappers p).advanceAfter j) s hs)

/-- Every statement of the body is laid out with at most one mark on a line. -/
theorem isSpread_placed (depth : Nat) (hs : s ∈ p.unplaced.map p.placed) :
    IsSpread false (s.layout depth) := by
  obtain ⟨old, hold, rfl⟩ := List.mem_map.1 hs
  unfold unplaced at hold
  split at hold
  · have hown : OnOwnLine old := by
      rcases List.mem_append.1 hold with hold | hold
      · exact .bare (wrappers_setup p old hold)
      · exact onOwnLine_content h 0 old hold
    exact (hown.relabel p.caseOf?).isSpread depth
  · obtain rfl := List.mem_singleton.1 hold
    rw [placed_switch]
    refine isSpread_switch (by simp [StateField.of, Node.wrappers]) ?_ ?_ depth
    · intro c hc
      obtain ⟨c', hc', rfl⟩ := List.mem_map.1 hc
      obtain ⟨j, -, rfl⟩ := List.mem_map.1 hc'
      simp [placedClause, clause, placed, Node.relabel, Node.wrappersOption, Node.wrappers]
    · intro c hc s hs
      obtain ⟨c', hc', rfl⟩ := List.mem_map.1 hc
      obtain ⟨j, -, rfl⟩ := List.mem_map.1 hc'
      obtain ⟨s', hs', rfl⟩ := List.mem_map.1 hs
      exact (onOwnLine_clause h j s' hs').relabel p.caseOf?

end Lines

/-- Printing a body that can be suspended maps exactly the operations whose location is known, in
their order and with their spans. Each mapping points to where the statement of its operation
begins, and the lines of the mappings strictly increase. -/
theorem mappings_of_build_eq_ok {body : Body} (hs : p.splitOnAbrupt = true) (h : p.IsUnlocated)
    (hb : p.build = .ok body) :
    (({} : Printer).emitList body.statements).output = (listLayout 0 body.statements).text ∧
      PointsTo (listLayout 0 body.statements) (p.operations.filterMap p.placedWrapper?)
        (({} : Printer).emitList body.statements).mappings ∧
      (({} : Printer).emitList body.statements).mappings.map (·.span) =
        p.operations.filterMap (·.location) ∧
      (({} : Printer).emitList body.statements).mappings.Pairwise
        fun m n => m.position.line < n.position.line := by
  obtain ⟨-, -, rfl⟩ := (build_eq_ok_iff hs).1 hb
  have hwrappers := wrappers_placed h
  simp only [Printer.emitList_eq_write]
  generalize hbody : p.unplaced.map p.placed = statements at *
  have hmarks := Printer.marks_listLayout 0 statements
  rw [hwrappers] at hmarks
  have hmapped : (p.operations.filterMap p.placedWrapper?).filter (·.isMapped) =
      p.operations.filterMap p.placedWrapper? := by
    rw [List.filter_eq_self]
    intro w hw
    obtain ⟨r, -, hr⟩ := List.mem_filterMap.1 hw
    obtain ⟨span, -, rfl⟩ := Option.map_eq_some_iff.1 hr
    rfl
  obtain ⟨sites, hsites, hmappings, hon, hordered⟩ :=
    Printer.exists_sites_write hmarks Printer.shows_nil
  have hpoints : PointsTo (listLayout 0 statements) (p.operations.filterMap p.placedWrapper?)
      (({} : Printer).write (listLayout 0 statements)).mappings :=
    ⟨sites, hsites.trans hmapped, hmappings.symm, fun s hs => (hon s hs).1, hordered⟩
  have hspread : IsSpread false (listLayout 0 statements) :=
    isSpread_listLayout 0 fun s hs => isSpread_placed h 0 (hbody ▸ hs)
  obtain ⟨added, hadded, hlines, -⟩ :=
    Printer.pairwise_line_write Printer.shows_nil.current hspread
  refine ⟨?_, hpoints, ?_, ?_⟩
  · exact (Printer.shows_nil.write _).output
  · rw [hpoints.span_eq, List.map_filterMap]
    congr 1
    funext r
    simp [placedWrapper?, Function.comp_def]
  · have hall : (({} : Printer).write (listLayout 0 statements)).mappings = added := hadded
    rw [hall]
    exact hlines

/-- A loop that hands out a value each time round, lowered from known places. -/
def traced : Plan where
  operations := [⟨.jumpIfFalse ⟨2⟩ (.identifier "more"), some ⟨7, 11⟩⟩,
    ⟨.yield (some (.identifier "item")), some ⟨15, 25⟩⟩, ⟨.jump ⟨1⟩, none⟩,
    ⟨.complete none, some ⟨30, 36⟩⟩]
  labels := ⟨[⟨some 0, true⟩, ⟨some 3, true⟩]⟩
  regions := {}
  state := "_state"
  splitOnAbrupt := true
  forceReturn := true
  comments := false

theorem mappings_traced : traced.splitOnAbrupt = true ∧ traced.IsUnlocated ∧
    ∃ body, traced.build = .ok body ∧
      (({} : Printer).emitList body.statements).mappings.map (·.span) =
        [⟨7, 11⟩, ⟨15, 25⟩, ⟨30, 36⟩] ∧
      (({} : Printer).emitList body.statements).mappings.Pairwise
        fun m n => m.position.line < n.position.line := by
  have h : traced.IsUnlocated := by
    simp [IsUnlocated, traced, Operation.node, Instruction.jumpTo, Instruction.statement,
      Node.ifThen, Node.not, Node.wrappers, Node.wrappersOption]
  obtain ⟨-, -, hspans, hlines⟩ := mappings_of_build_eq_ok (p := traced) rfl h rfl
  exact ⟨rfl, h, _, rfl, hspans, hlines⟩

end Resumable.Body.Plan
