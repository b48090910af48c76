import Resumable.Proofs.Body.Partition

/-!
# The cases of a built body

A body that can be suspended is the flat list of its statements if there is no cut. Otherwise
it is one switch over the case number, with one clause for each stretch of operations between
two cuts. The stretches share out the operations, in order. Putting numbers in the place of labels
keeps the switch and its clauses, and changes only what is in them.
-/

namespace Resumable.Body.Plan

variable {p : Plan} {j : Nat}

theorem bound_le_bound_succ (h : j ≤ p.cuts.length) : p.bound j ≤ p.bound (j + 1) := by
  by_cases hj : j = p.cuts.length
  · have hle := bound_le_length (p := p) (j := j) (by omega)
    rw [hj, bound_after_last, ← hj]
    exact hle
  · apply Nat.le_of_not_lt
    intro hlt
    have h1 := caseAt_bound (p := p) (j := j + 1) (by omega)
    have h2 := caseAt_bound h
    have h3 := caseAt_le (p := p) (Nat.le_of_lt hlt)
    omega

theorem flatMap_stretch_eq_take (h : j ≤ p.cuts.length + 1) :
    (List.range j).flatMap p.stretch = p.operations.take (p.bound j) := by
  induction j with
  | zero => simp [bound_zero]
  | succ j ih =>
    have hle := bound_le_bound_succ (p := p) (j := j) (by omega)
    have hsplit := List.take_append_drop (p.bound j) (p.operations.take (p.bound (j + 1)))
    rw [List.take_take, Nat.min_eq_left hle] at hsplit
    rw [List.range_succ, List.flatMap_append, ih (by omega), List.flatMap_singleton, stretch]
    exact hsplit

/-- Every operation is in one stretch, and the stretches keep the order. -/
theorem flatMap_stretch (p : Plan) :
    (List.range (p.cuts.length + 1)).flatMap p.stretch = p.operations := by
  rw [flatMap_stretch_eq_take (Nat.le_refl _), bound_after_last, List.take_length]

/-- A loop that hands out a value each time round. -/
def polling : Plan where
  operations := [⟨.jumpIfFalse ⟨2⟩ (.identifier "more"), none⟩,
    ⟨.yield (some (.identifier "item")), none⟩, ⟨.jump ⟨1⟩, none⟩]
  labels := ⟨[⟨some 0, true⟩, ⟨some 3, true⟩]⟩
  regions := {}
  state := "_state"
  splitOnAbrupt := true
  forceReturn := true
  comments := false

example : (List.range 3).map (fun j => (polling.stretch j).length) = [2, 1, 0] := by decide

theorem sorted_cursorTo (p : Plan) (i : Nat) : (p.cursorTo i).Sorted p.regions := by
  induction i with
  | zero => exact RegionCursor.sorted_start p.regions
  | succ i ih =>
    rw [cursorTo]
    refine RegionCursor.Sorted.reach ?_ i
    split
    · exact ih.announce
    · exact ih

/-- A clause with the numbers of cases in the place of labels. -/
def placedClause (p : Plan) (c : Clause Node) : Clause Node :=
  ⟨c.test.map p.placed, c.body.map p.placed⟩

theorem placed_switch (p : Plan) (clauses : List (Clause Node)) :
    p.placed (.switchStmt (StateField.label.of p.state) clauses) =
      .switchStmt (StateField.label.of p.state) (clauses.map p.placedClause) := by
  rw [placed, Node.relabel, Node.relabelClauses_eq_map]
  rfl

/-- The clause of a case once labels are resolved. -/
theorem getElem?_placed_clauses (h : j ≤ p.cuts.length) :
    (((List.range (p.cuts.length + 1)).map p.clause).map p.placedClause)[j]? =
      some ⟨some (.number (toString j)),
        (p.framed j (p.cursorOf j).entered (p.cursorOf j).scopes (p.content j) ++
          p.advanceAfter j).map p.placed⟩ := by
  rw [List.getElem?_map, List.getElem?_map, List.getElem?_range (by omega)]
  rfl

end Resumable.Body.Plan
