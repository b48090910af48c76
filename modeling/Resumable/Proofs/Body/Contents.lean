import Resumable.Proofs.Body.Frames
import Resumable.Proofs.Body.Translation

/-!
# What the cases hold

A body that can be suspended, written out. Its cuts are read off the operations and the labels, and
the statements between two cuts are the translations of the operations there. What else stands in
a case is written out as well: the setup of the stack of protected regions, the announcement of
a region, the scopes around the statements, the final return, and the move to the next case.
-/

namespace Resumable.Body.Plan

/-- The indices besides 0 that a case begins at. -/
inductive CutAt (p : Plan) : Nat → Prop where
  | label {i : Nat} {l : Label} (first : 0 < i) (last : i ≤ p.operations.length)
      (marked : p.labels.position? l = some i) : CutAt p i
  | abrupt {i : Nat} {r : Recorded} (inside : i + 1 < p.operations.length)
      (before : p.operations[i]? = some r) (leaves : r.operation.Leaves) : CutAt p (i + 1)
  /-- The final return needs a case of its own after an operation that suspends or jumps. -/
  | finish {r : Recorded} (forced : p.forceReturn = true)
      (before : p.operations.getLast? = some r) (leaves : r.operation.Leaves)
      (unfinished : ¬r.operation.Completes) : CutAt p p.operations.length

/-- A return has to follow the last operation. -/
def NeedsReturn (p : Plan) : Prop :=
  p.forceReturn = true ∧ (p.CutAt p.operations.length ∨
    ∀ r, p.operations.getLast? = some r → ¬r.operation.Completes)

/-- Control goes on from the last operation of a case to the case that follows. -/
def FallsThrough (p : Plan) (j : Nat) : Prop :=
  j < p.cuts.length ∧ ∀ r, (p.stretch j).getLast? = some r → ¬r.operation.Leaves

variable {p : Plan} {i j : Nat}

theorem abruptBefore_iff : p.abruptBefore i = true ↔
    ∃ r, (p.operations.take i).getLast? = some r ∧ r.operation.Leaves := by
  simp [abruptBefore, Option.any_eq_true, Operation.leaves_iff]

theorem completeBefore_iff : p.completeBefore i = true ↔
    ∃ r, (p.operations.take i).getLast? = some r ∧ r.operation.Completes := by
  simp [completeBefore, Option.any_eq_true, Operation.completes_iff]

theorem completeBefore_length_eq_false_iff : p.completeBefore p.operations.length = false ↔
    ∀ r, p.operations.getLast? = some r → ¬r.operation.Completes := by
  rw [← Bool.not_eq_true, completeBefore_iff, List.take_length]
  simp

theorem isCut_iff : p.isCut i = true ↔ p.CutAt i := by
  constructor
  · intro h
    simp only [isCut, Bool.and_eq_true, Bool.or_eq_true, Bool.not_eq_true', decide_eq_true_eq] at h
    obtain ⟨⟨hpos, hle⟩, hmarked | ⟨habrupt, hafter⟩⟩ := h
    · obtain ⟨l, hl⟩ := LabelTable.exists_position?_of_hasLabelAt hmarked
      exact .label hpos hle hl
    · obtain ⟨r, hr, hleaves⟩ := abruptBefore_iff.1 habrupt
      by_cases hlt : i < p.operations.length
      · obtain ⟨k, rfl⟩ : ∃ k, i = k + 1 := ⟨i - 1, by omega⟩
        have hin : k < p.operations.length := by omega
        rw [getLast?_take_succ hin, ← List.getElem?_eq_getElem hin] at hr
        exact .abrupt hlt hr hleaves
      · obtain rfl : i = p.operations.length := by omega
        obtain ⟨hforced, hunfinished⟩ := hafter.resolve_left hlt
        rw [List.take_length] at hr
        exact .finish hforced hr hleaves (completeBefore_length_eq_false_iff.1 hunfinished r hr)
  · intro h
    cases h with
    | label first last marked =>
      exact isCut_of_hasLabelAt first last (LabelTable.hasLabelAt_of_position? marked)
    | @abrupt i r inside before leaves =>
      have hin : i < p.operations.length := by omega
      rw [List.getElem?_eq_getElem hin] at before
      have habrupt : p.abruptBefore (i + 1) = true :=
        abruptBefore_iff.2 ⟨r, (getLast?_take_succ hin).trans before, leaves⟩
      simp [isCut, habrupt, inside, Nat.le_of_lt inside]
    | @finish r forced before leaves unfinished =>
      have hpos : 0 < p.operations.length :=
        List.length_pos_of_ne_nil fun hnil => by rw [hnil] at before; cases before
      have habrupt : p.abruptBefore p.operations.length = true :=
        abruptBefore_iff.2 ⟨r, by rw [List.take_length, before], leaves⟩
      have hcomplete : p.completeBefore p.operations.length = false :=
        completeBefore_length_eq_false_iff.2 fun other hother => by
          obtain rfl := Option.some.inj (before.symm.trans hother)
          exact unfinished
      simp [isCut, habrupt, hcomplete, forced, hpos]

theorem mem_cuts_iff : i ∈ p.cuts ↔ p.CutAt i := by
  rw [cuts, List.mem_filter, isCut_iff, List.mem_range]
  refine ⟨And.right, fun h => ⟨?_, h⟩⟩
  have := le_of_isCut (isCut_iff.2 h)
  omega

theorem endsWithReturn_iff : p.endsWithReturn = true ↔ p.NeedsReturn := by
  rw [endsWithReturn, NeedsReturn, Bool.and_eq_true, Bool.or_eq_true, Bool.not_eq_true', isCut_iff,
    completeBefore_length_eq_false_iff]

theorem fallsThrough_iff :
    j < p.cuts.length ∧ p.abruptBefore (p.bound (j + 1)) = false ↔ p.FallsThrough j := by
  refine and_congr_right fun hj => ?_
  obtain ⟨i, hi, hcase, hbound⟩ := exists_isCut_caseAt_eq (p := p) (Nat.succ_pos j) hj
  have hlt : p.bound j < p.bound (j + 1) := by
    have := bound_openCase_lt (pos_of_isCut hi) (le_of_isCut hi)
    rw [caseAt_of_isCut hi] at hcase
    rwa [hbound, ← Nat.succ.inj hcase]
  have hlast : (p.stretch j).getLast? = (p.operations.take (p.bound (j + 1))).getLast? :=
    getLast?_run hlt (by rw [hbound]; exact le_of_isCut hi)
  rw [hlast, ← Bool.not_eq_true, abruptBefore_iff]
  simp

instance (p : Plan) (i : Nat) : Decidable (p.CutAt i) := decidable_of_iff _ isCut_iff

instance (p : Plan) : Decidable p.NeedsReturn := decidable_of_iff _ endsWithReturn_iff

instance (p : Plan) (j : Nat) : Decidable (p.FallsThrough j) :=
  decidable_of_iff _ fallsThrough_iff

/-- `<state>.trys = [];`, if there is an exception region. -/
def preparation (p : Plan) : List Node :=
  if p.regions.hasExceptions then
    [.exprStmt (.binary (.member (.identifier p.state) "trys") "=" (.array []))]
  else []

/-- `<state>.trys.push([start, catch, finally, end]);`, with a hole for a block that the region
does not have. -/
def push (p : Plan) (r : ExceptionRegion) : Node :=
  .exprStmt (.call (.member (.member (.identifier p.state) "trys") "push")
    [.array [.labelRef r.start, if r.catchLabel.isSome then .labelRef r.catchLabel else .hole,
      if r.finallyLabel.isSome then .labelRef r.finallyLabel else .hole, .labelRef r.stop]])

/-- The exception region that a case announces. -/
def enteredOf (p : Plan) (j : Nat) : Option ExceptionRegion :=
  (p.cursorOf j).entered >>= p.regions.exception?

/-- `return [2];`, at the end of the last case if it is needed. -/
def finalReturn (p : Plan) (j : Nat) : List Node :=
  if j = p.cuts.length ∧ p.NeedsReturn then [.returnTuple p.comments 2 "return" none] else []

/-- `<state>.label = j + 1;`, if case `j` falls through. -/
def moveOn (p : Plan) (j : Nat) : List Node :=
  if p.FallsThrough j then
    [.exprStmt (.binary (.member (.identifier p.state) "label") "="
      (.number (toString (j + 1))))]
  else []

/-- A body, case by case, with the statements that each case holds for its operations. -/
structure Cased (p : Plan) (body : Body) (held : Nat → List Node) : Prop where
  cuts : p.cuts.Pairwise (· < ·) ∧ ∀ i, i ∈ p.cuts ↔ p.CutAt i
  /-- The operations are shared out among the cases, in order. -/
  shared : (List.range (p.cuts.length + 1)).flatMap p.stretch = p.operations
  /-- A case holds the translations of the operations between its two cuts. -/
  translated : ∀ j ≤ p.cuts.length,
    List.Forall₂ (Recorded.Translates p.comments) (p.stretch j) (held j)
  flat : p.cuts = [] →
    body.statements = (p.preparation ++ (held 0 ++ p.finalReturn 0)).map p.placed
  switch : p.cuts ≠ [] → body.statements =
    [.switchStmt (.member (.identifier p.state) "label")
      ((List.range (p.cuts.length + 1)).map fun j => ⟨some (.number (toString j)),
        ((if j = 0 then p.preparation else []) ++ ((p.enteredOf j).map p.push).toList ++
          wrap (p.scopesOf j) (held j ++ p.finalReturn j) ++ p.moveOn j).map p.placed⟩)]

theorem content_eq (p : Plan) (j : Nat) :
    p.content j = (p.stretch j).map p.statement ++ p.finalReturn j := by
  simp only [content, finalReturn, endsWithReturn_iff]
  rfl

theorem advanceAfter_eq (p : Plan) (j : Nat) : p.advanceAfter j = p.moveOn j := by
  simp only [advanceAfter, moveOn, fallsThrough_iff]
  rfl

/-- Only exception regions are announced. -/
theorem lead_eq (p : Plan) (j : Nat) :
    p.lead j (p.cursorOf j).entered =
      (if j = 0 then p.preparation else []) ++ ((p.enteredOf j).map p.push).toList := by
  have hpush : (p.cursorOf j).entered.map p.announce = (p.enteredOf j).map p.push := by
    rw [enteredOf]
    cases hentered : (p.cursorOf j).entered with
    | none => rfl
    | some id =>
      obtain ⟨r, hr⟩ := (sorted_cursorTo p _).entered id hentered
      have hregion : p.regions.exception? id = some r := by
        rw [RegionStack.exception?, hr]
        rfl
      have hannounced : p.announce id = p.push r := by
        rw [announce, hr]
        rfl
      rw [Option.map_some, hannounced, Option.bind_eq_bind, Option.bind_some, hregion,
        Option.map_some]
  rw [lead, hpush]
  rfl

/-- The statements of a body that can be suspended, case by case. -/
theorem statements_of_build_eq_ok {body : Body} (hs : p.splitOnAbrupt = true)
    (hb : p.build = .ok body) : ∃ held, p.Cased body held := by
  obtain ⟨-, -, rfl⟩ := (build_eq_ok_iff hs).1 hb
  refine ⟨fun j => (p.stretch j).map p.statement, ?_, flatMap_stretch p, fun j _ => ?_, fun h => ?_,
    fun h => ?_⟩
  · exact ⟨List.pairwise_lt_range.filter _, fun i => mem_cuts_iff⟩
  · exact Recorded.forall₂_translates_iff.2 rfl
  · simp only [unplaced, if_pos h, content_eq]
    rfl
  · simp only [unplaced, if_neg h, List.map_singleton, placed_switch, List.map_map]
    congr 2
    refine List.map_congr_left fun j _ => ?_
    show p.placedClause (p.clause j) = _
    rw [clause, framed_eq, lead_eq, advanceAfter_eq, content_eq]
    rfl

/-- A value is handed out, as long as there are more, in a protected block with a scope. -/
def sheltered : Plan where
  operations := [⟨.assign (.identifier "x") (.number "1"), some ⟨0, 5⟩⟩,
    ⟨.statement (.identifier "f"), none⟩, ⟨.yield (some (.identifier "x")), none⟩,
    ⟨.jumpIfFalse ⟨1⟩ (.identifier "done"), none⟩]
  labels := ⟨[⟨some 1, true⟩, ⟨some 3, true⟩]⟩
  regions :=
    { regions := [.exception { start := ⟨1⟩, stop := ⟨2⟩ },
        .scope { object := "holder", start := ⟨1⟩, stop := ⟨2⟩ }]
      events := [⟨.opened, 0, 1⟩, ⟨.opened, 1, 1⟩, ⟨.closed, 1, 3⟩, ⟨.closed, 0, 3⟩]
      hasExceptions := true }
  state := "_state"
  splitOnAbrupt := true
  forceReturn := true
  comments := false

theorem statements_sheltered : sheltered.splitOnAbrupt = true ∧ sheltered.cuts = [1, 3] ∧
    ∃ body held, sheltered.build = .ok body ∧ sheltered.Cased body held ∧
      held 0 = [.located (.exprStmt (.binary (.identifier "x") "=" (.number "1"))) ⟨0, 5⟩] ∧
      held 1 = [.exprStmt (.identifier "f"),
        .returnStmt (some (.instruction 4 (some (.identifier "x")) none))] ∧
      held 2 = [.ifStmt (.unary "!" (.parenthesized (.identifier "done")))
        (.returnStmt (some (.instruction 3 (some (.labelRef ⟨1⟩)) none))) none] ∧
      body.statements = [.switchStmt (.member (.identifier "_state") "label")
        [⟨some (.number "0"),
          [.exprStmt (.binary (.member (.identifier "_state") "trys") "=" (.array [])),
            .located (.exprStmt (.binary (.identifier "x") "=" (.number "1"))) ⟨0, 5⟩,
            .exprStmt (.binary (.member (.identifier "_state") "label") "=" (.number "1"))]⟩,
          ⟨some (.number "1"),
            [.exprStmt (.call (.member (.member (.identifier "_state") "trys") "push")
                [.array [.number "1", .hole, .hole, .number "2"]]),
              .withStmt (.identifier "holder") (.block [.exprStmt (.identifier "f"),
                .returnStmt (some (.instruction 4 (some (.identifier "x")) none))])]⟩,
          ⟨some (.number "2"),
            [.ifStmt (.unary "!" (.parenthesized (.identifier "done")))
                (.returnStmt (some (.instruction 3 (some (.number "1")) none))) none,
              .returnStmt (some (.instruction 2 none none))]⟩]] := by
  obtain ⟨held, hcased⟩ := statements_of_build_eq_ok (p := sheltered) rfl rfl
  have hheld (j : Nat) (hj : j ≤ 2) : (sheltered.stretch j).map sheltered.statement = held j :=
    Recorded.forall₂_translates_iff.1 (hcased.translated j hj)
  exact ⟨rfl, by decide, _, held, rfl, hcased, (hheld 0 (by decide)).symm,
    (hheld 1 (by decide)).symm, (hheld 2 (by decide)).symm, rfl⟩

end Resumable.Body.Plan
