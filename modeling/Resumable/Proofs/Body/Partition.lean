import Resumable.Proofs.Body.Cuts
import Resumable.Proofs.Body.Scopes
import Resumable.Proofs.Tree.Substitution

/-!
# The partition into cases

What the walk over the operations of a body that can be suspended has built when it gets to an
index: the closed cases are those of the stretches between the cuts passed, and the open one
holds the operations since the last of them. `draftAt` says so for every index, so the body
is known in full: a flat list if there is no cut, and otherwise one switch whose clauses are
the cases in order.
-/

namespace Resumable.Body.Plan

/-- The region cursor when the walk gets to an index. A cut uses up the region entered last. -/
def cursorTo (p : Plan) : Nat → RegionCursor
  | 0 => RegionCursor.start p.regions
  | i + 1 =>
    let c := p.cursorTo i
    (if p.isCut i then { c with entered := none } else c).reach p.regions i

/-- The region cursor that a case is closed with. -/
def cursorOf (p : Plan) (j : Nat) : RegionCursor :=
  p.cursorTo (if j < p.cuts.length then p.bound (j + 1) else p.operations.length + 1)

/-- Whether a final return follows the last operation. -/
def endsWithReturn (p : Plan) : Bool :=
  p.forceReturn && (p.isCut p.operations.length || !p.completeBefore p.operations.length)

/-- The statements that a case holds for its operations. -/
def content (p : Plan) (j : Nat) : List Node :=
  (p.stretch j).map p.statement ++
    if j = p.cuts.length ∧ p.endsWithReturn = true then
      [Instruction.complete.statement p.comments none]
    else []

/-- The content of a case with what stands around it: the setup of the stack of protected
regions, the announcement of the region entered, and the scopes that are open. -/
def framed (p : Plan) (j : Nat) (entered : Option RegionId) (scopes : List RegionId)
    (content : List Node) : List Node :=
  (if j = 0 then p.setup else []) ++ ((entered.map p.announce).toList ++
    scopes.foldl p.inScope content)

/-- What a case that falls through ends with. -/
def advanceAfter (p : Plan) (j : Nat) : List Node :=
  if j < p.cuts.length ∧ p.abruptBefore (p.bound (j + 1)) = false then [p.advance (j + 1)] else []

def clause (p : Plan) (j : Nat) : Clause Node :=
  ⟨some (.number (toString j)),
    p.framed j (p.cursorOf j).entered (p.cursorOf j).scopes (p.content j) ++ p.advanceAfter j⟩

/-- The draft when the walk gets to an index. -/
def draftAt (p : Plan) (i : Nat) : Draft where
  closed := (List.range (p.openCase i)).map p.clause
  run := (p.operations.take i).drop (p.bound (p.openCase i))
  caseOf := (List.range i).map p.caseAt
  cursor := p.cursorTo i
  resumes := (p.operations.take i).any (·.operation.isSuspension)

/-- The draft at an index, after the case before it was closed if a cut is there. -/
def draftPast (p : Plan) (i : Nat) : Draft where
  closed := (List.range (p.caseAt i)).map p.clause
  run := (p.operations.take i).drop (p.bound (p.caseAt i))
  caseOf := (List.range (i + 1)).map p.caseAt
  cursor := p.cursorTo (i + 1)
  resumes := (p.operations.take i).any (·.operation.isSuspension)

theorem closeWith_eq (p : Plan) (d : Draft) (statements : List Node) (fallsThrough : Bool) :
    p.closeWith d statements fallsThrough =
      { d with
        closed := d.closed ++ [⟨some (.number (toString d.number)),
          p.framed d.number d.cursor.entered d.cursor.scopes statements ++
            if fallsThrough then [p.advance (d.number + 1)] else []⟩]
        run := []
        cursor := { d.cursor with entered := none } } := by
  unfold closeWith framed
  by_cases hn : d.number = 0 <;> cases fallsThrough <;> simp [hn]

variable {p : Plan} {i : Nat}

/-- The last operation of a run that is not empty is the one before its end. -/
theorem getLast?_run {b : Nat} (hb : b < i) (hi : i ≤ p.operations.length) :
    ((p.operations.take i).drop b).getLast? = (p.operations.take i).getLast? := by
  rw [List.getLast?_drop, if_neg]
  rw [List.length_take]
  omega

theorem isAbrupt_draftAt (hpos : 0 < i) (hi : i ≤ p.operations.length) :
    (p.draftAt i).isAbrupt = p.abruptBefore i := by
  simp only [Draft.isAbrupt, draftAt, abruptBefore]
  rw [getLast?_run (bound_openCase_lt hpos hi) hi]

theorem isComplete_draftAt (hpos : 0 < i) (hi : i ≤ p.operations.length) :
    (p.draftAt i).isComplete = p.completeBefore i := by
  simp only [Draft.isComplete, draftAt, completeBefore]
  rw [getLast?_run (bound_openCase_lt hpos hi) hi]

theorem run_draftAt_ne_nil (hpos : 0 < i) (hi : i ≤ p.operations.length) :
    (p.draftAt i).run ≠ [] := by
  intro h
  have hlt := bound_openCase_lt hpos hi
  have hlen := congrArg List.length h
  simp only [draftAt, List.length_drop, List.length_take, List.length_nil] at hlen
  omega

/-- What is in a case before its end is reached is what was in the draft at the cut. -/
theorem close_draftAt (hc : p.isCut i = true) :
    p.close (p.draftAt i) =
      { p.draftAt i with
        closed := (List.range (p.caseAt i)).map p.clause
        run := []
        cursor := { p.cursorTo i with entered := none } } := by
  have hpos := pos_of_isCut hc
  have hle := le_of_isCut hc
  have hlt := openCase_lt_length_cuts hc
  have hb : p.bound (p.openCase i + 1) = i := by
    rw [← caseAt_of_isCut hc, bound_caseAt_of_isCut hc]
  have hne : (p.draftAt i).run.isEmpty = false := by
    simpa using run_draftAt_ne_nil hpos hle
  have hnum : (p.draftAt i).number = p.openCase i := by simp [Draft.number, draftAt]
  have hclause : p.clause (p.openCase i) =
      ⟨some (.number (toString (p.openCase i))),
        p.framed (p.openCase i) (p.cursorTo i).entered (p.cursorTo i).scopes
          ((p.draftAt i).run.map p.statement) ++
          if !p.abruptBefore i then [p.advance (p.openCase i + 1)] else []⟩ := by
    have hcontent : p.content (p.openCase i) = (p.draftAt i).run.map p.statement := by
      rw [content, if_neg (by omega), List.append_nil, stretch, hb]
      rfl
    rw [clause, cursorOf, if_pos hlt, hb, hcontent, advanceAfter, hb]
    cases p.abruptBefore i <;> simp [hlt]
  rw [close, hne, closeWith_eq, hnum, isAbrupt_draftAt hpos hle]
  simp only [Bool.false_eq_true, if_false, draftAt]
  rw [caseAt_of_isCut hc, List.range_succ, List.map_append, List.map_singleton, hclause]
  rfl

/-- Getting to an index, where a cut is known to be or not to be. Nothing is open before the
first operation, so it does not matter there whether the case is closed. -/
theorem arrive_draftAt (hi : i ≤ p.operations.length) {c : Bool} (hc : 0 < i → c = p.isCut i) :
    p.arrive i (if c then p.close (p.draftAt i) else p.draftAt i) = p.draftPast i := by
  have hcaseOf : (List.range (i + 1)).map p.caseAt =
      (List.range i).map p.caseAt ++ [p.caseAt i] := by
    rw [List.range_succ, List.map_append, List.map_singleton]
  by_cases hpos : 0 < i
  · rw [hc hpos]
    cases hcut : p.isCut i with
    | true =>
      rw [if_pos rfl, close_draftAt hcut]
      simp only [arrive, draftPast, Draft.number, List.length_map, List.length_range, hcaseOf,
        draftAt, cursorTo, hcut, if_true, bound_caseAt_of_isCut hcut]
      simp
    | false =>
      have hopen := caseAt_of_not_isCut hcut
      simp only [arrive, draftPast, Draft.number, List.length_map, List.length_range, hcaseOf,
        draftAt, cursorTo, hcut, Bool.false_eq_true, if_false, hopen]
  · obtain rfl : i = 0 := by omega
    have hclose : p.close (p.draftAt 0) = p.draftAt 0 := by simp [close, draftAt]
    have hopen := caseAt_of_not_isCut (isCut_zero p)
    rw [hclose, ite_self]
    simp only [arrive, draftPast, Draft.number, List.length_map, List.length_range, hcaseOf,
      draftAt, cursorTo, isCut_zero, Bool.false_eq_true, if_false, hopen]

theorem run_draftPast_of_isCut (hc : p.isCut i = true) : (p.draftPast i).run = [] := by
  simp [draftPast, bound_caseAt_of_isCut hc]

theorem isAbrupt_draftPast (hlt : i < p.operations.length) : (p.draftPast i).isAbrupt = false := by
  cases hcut : p.isCut i with
  | true => simp [Draft.isAbrupt, run_draftPast_of_isCut hcut]
  | false =>
    by_cases hpos : 0 < i
    · have hrun : (p.draftPast i).run = (p.draftAt i).run := by
        simp only [draftPast, draftAt, caseAt_of_not_isCut hcut]
      have habrupt : p.abruptBefore i = false := by
        simp only [isCut, hpos, hlt, Nat.le_of_lt hlt, decide_true, Bool.true_and, Bool.true_or,
          Bool.and_true, Bool.or_eq_false_iff] at hcut
        exact hcut.2
      rw [← habrupt, ← isAbrupt_draftAt hpos (Nat.le_of_lt hlt), Draft.isAbrupt, hrun]
      rfl
    · obtain rfl : i = 0 := by omega
      simp [Draft.isAbrupt, draftPast]

section Walk

variable (hs : p.splitOnAbrupt = true)

include hs

theorem cutsBefore_draftAt (hlt : i < p.operations.length) (hpos : 0 < i) :
    p.cutsBefore i (p.draftAt i) = p.isCut i := by
  rw [cutsBefore, isAbrupt_draftAt hpos (Nat.le_of_lt hlt), hs]
  simp [isCut, hpos, hlt, Nat.le_of_lt hlt]

/-- One operation more. -/
theorem take_draftAt (hlt : i < p.operations.length) :
    p.take (p.draftAt i) p.operations[i] i = p.draftAt (i + 1) := by
  have hb : p.bound (p.openCase (i + 1)) ≤ (p.operations.take i).length := by
    rw [List.length_take, Nat.min_eq_left (Nat.le_of_lt hlt)]
    exact bound_caseAt_le (Nat.le_of_lt hlt)
  have htake : p.operations.take (i + 1) = p.operations.take i ++ [p.operations[i]] := by
    rw [List.take_add_one, List.getElem?_eq_getElem hlt]
    rfl
  rw [take, arrive_draftAt (Nat.le_of_lt hlt) fun hpos => cutsBefore_draftAt hs hlt hpos]
  simp only [isAbrupt_draftPast hlt, Bool.false_eq_true, if_false]
  simp only [draftPast, draftAt, htake, List.drop_append_of_le_length hb, List.any_append,
    List.any_cons, List.any_nil, Bool.or_false]
  rfl

/-- The walk over the operations before an index. -/
theorem foldl_take_eq_draftAt (hi : i ≤ p.operations.length) :
    (p.operations.take i).zipIdx.foldl (fun d (r, index) => p.take d r index)
      { cursor := RegionCursor.start p.regions } = p.draftAt i := by
  induction i with
  | zero => rfl
  | succ i ih =>
    have hlt : i < p.operations.length := by omega
    rw [List.take_add_one, List.getElem?_eq_getElem hlt, Option.toList_some, List.zipIdx_append,
      List.foldl_append, ih (by omega), List.length_take, Nat.min_eq_left (by omega)]
    simpa using take_draftAt hs hlt

theorem walk_eq : p.walk = p.draftAt p.operations.length := by
  have h := foldl_take_eq_draftAt hs (Nat.le_refl _)
  rwa [List.take_length] at h

theorem walkToEnd_eq : p.walkToEnd = p.draftPast p.operations.length := by
  rw [walkToEnd, walk_eq hs]
  apply arrive_draftAt (Nat.le_refl _)
  intro hpos
  rw [isAbrupt_draftAt hpos (Nat.le_refl _), isComplete_draftAt hpos (Nat.le_refl _), hs]
  cases hf : p.forceReturn <;> cases ha : p.abruptBefore p.operations.length <;>
    cases hcomplete : p.completeBefore p.operations.length <;>
    simp [isCut, targetsEnd, hpos, hf, ha, hcomplete]

end Walk

theorem run_draftPast_end (p : Plan) :
    (p.draftPast p.operations.length).run = p.stretch p.cuts.length := by
  rw [draftPast, stretch, bound_after_last, length_cuts]

/-- The last case is complete if nothing is cut off after the operation that completes it. -/
theorem isComplete_draftPast_end (p : Plan) :
    (p.draftPast p.operations.length).isComplete =
      (p.completeBefore p.operations.length && !p.isCut p.operations.length) := by
  cases hcut : p.isCut p.operations.length with
  | true => simp [Draft.isComplete, run_draftPast_of_isCut hcut]
  | false =>
    by_cases hpos : 0 < p.operations.length
    · rw [← isComplete_draftAt hpos (Nat.le_refl _), Draft.isComplete, draftPast,
        caseAt_of_not_isCut hcut]
      simp [Draft.isComplete, draftAt]
    · have hnil : p.operations = [] := List.length_eq_zero_iff.1 (by omega)
      simp [Draft.isComplete, draftPast, completeBefore, hnil]

theorem lastStatements_draftPast (p : Plan) :
    p.lastStatements (p.draftPast p.operations.length) = p.content p.cuts.length := by
  rw [lastStatements, isComplete_draftPast_end, run_draftPast_end, content, endsWithReturn]
  cases p.forceReturn <;> cases p.completeBefore p.operations.length <;>
    cases p.isCut p.operations.length <;> simp

/-- If the last case is empty, it was cut off for the labels marked at the end. -/
theorem targetsEnd_of_content_eq_nil (hne : p.cuts ≠ [])
    (h : p.content p.cuts.length = []) : p.targetsEnd = true := by
  obtain ⟨hstretch, hreturn⟩ := List.append_eq_nil_iff.1 h
  have hend : p.endsWithReturn = false := by
    cases he : p.endsWithReturn with
    | false => rfl
    | true => simp [he] at hreturn
  have hlen := congrArg List.length (List.map_eq_nil_iff.1 hstretch)
  rw [stretch, bound_after_last, List.take_length, List.length_drop, List.length_nil] at hlen
  obtain ⟨i, hi, -, hb⟩ := exists_isCut_caseAt_eq (List.length_pos_iff.2 hne) (Nat.le_refl _)
  have hle := le_of_isCut hi
  obtain rfl : i = p.operations.length := by omega
  cases ht : p.labels.hasLabelAt p.operations.length with
  | true => exact ht
  | false =>
    simp only [endsWithReturn, hi, Bool.true_or, Bool.and_true] at hend
    simp [isCut, ht, hend] at hi

theorem labeled_of_cuts_eq_nil (h : p.cuts = []) :
    p.labeled (p.draftPast p.operations.length) = p.setup ++ p.content 0 := by
  have hnum : p.caseAt p.operations.length = 0 := by rw [← length_cuts, h]; rfl
  have hclosed : (p.draftPast p.operations.length).closed = [] := by simp [draftPast, hnum]
  rw [labeled, lastStatements_draftPast, hclosed, h]
  rfl

theorem labeled_of_cuts_ne_nil (h : p.cuts ≠ []) :
    p.labeled (p.draftPast p.operations.length) =
      [.switchStmt (StateField.label.of p.state)
        ((List.range (p.cuts.length + 1)).map p.clause)] := by
  have hpos : 0 < p.cuts.length := List.length_pos_iff.2 h
  have hnum : (p.draftPast p.operations.length).number = p.cuts.length := by
    rw [Draft.number, draftPast, List.length_map, List.length_range, length_cuts]
  have hclosed : (p.draftPast p.operations.length).closed.isEmpty = false := by
    cases hc : (p.draftPast p.operations.length).closed with
    | nil => rw [Draft.number, hc, List.length_nil] at hnum; omega
    | cons => rfl
  have hlast : p.clause p.cuts.length =
      ⟨some (.number (toString p.cuts.length)),
        p.framed p.cuts.length (p.draftPast p.operations.length).cursor.entered
          (p.draftPast p.operations.length).cursor.scopes (p.content p.cuts.length)⟩ := by
    rw [clause, cursorOf, if_neg (Nat.lt_irrefl _), advanceAfter,
      if_neg fun h => Nat.lt_irrefl _ h.1, List.append_nil]
    rfl
  have hkeep : ((p.content p.cuts.length).isEmpty && !p.targetsEnd) = false := by
    cases hc : p.content p.cuts.length with
    | nil => simp [targetsEnd_of_content_eq_nil h hc]
    | cons => rfl
  rw [labeled, lastStatements_draftPast, hclosed, hkeep]
  simp only [Bool.false_eq_true, if_false, closeWith_eq, hnum, List.append_nil]
  rw [List.range_succ, List.map_append, List.map_singleton, hlast]
  simp only [draftPast, length_cuts]

/-- The number of the case that a label stands for. -/
def caseOf? (p : Plan) (label : Label) : Option Nat :=
  (p.labels.position? label).bind fun i =>
    if i ≤ p.operations.length then some (p.caseAt i) else none

/-- A statement with the numbers of cases in the place of labels. -/
def placed (p : Plan) : Node → Node := Node.relabel (Node.numeral p.caseOf?)

/-- The body, with labels in the place of the numbers of cases. -/
def unplaced (p : Plan) : List Node :=
  if p.cuts = [] then p.setup ++ p.content 0
  else [.switchStmt (StateField.label.of p.state) ((List.range (p.cuts.length + 1)).map p.clause)]

theorem labeled_draftPast (p : Plan) :
    p.labeled (p.draftPast p.operations.length) = p.unplaced := by
  unfold unplaced
  split
  · next h => exact labeled_of_cuts_eq_nil h
  · next h => exact labeled_of_cuts_ne_nil h

theorem caseNumber?_draftPast (p : Plan) :
    p.caseNumber? (p.draftPast p.operations.length) = p.caseOf? := by
  funext label
  unfold caseNumber? caseOf?
  cases p.labels.position? label with
  | none => rfl
  | some i =>
    simp only [draftPast, Option.bind_eq_bind, Option.bind_some, List.getElem?_map]
    by_cases hi : i ≤ p.operations.length
    · rw [if_pos hi, List.getElem?_range (by omega)]
      rfl
    · rw [if_neg hi, List.getElem?_eq_none (by simp; omega)]
      rfl

/-- Numbering succeeds exactly if every label that is referred to has a number. -/
theorem number_eq_ok_iff {d : Draft} {statements result : List Node} :
    p.number d statements = .ok result ↔
      (∀ l ∈ statements.flatMap Node.references, (p.caseNumber? d l).isSome = true) ∧
        result = statements.map (Node.relabel (Node.numeral (p.caseNumber? d))) := by
  have hset : Node.Settles (p.caseNumber? d) _ statements _ _ :=
    Node.mapM_resolve_settles statements
  unfold number
  cases hf : (statements.flatMap Node.references).find? fun l => (p.caseNumber? d l).isNone with
  | none =>
    have hall : ∀ l ∈ statements.flatMap Node.references, (p.caseNumber? d l).isSome = true :=
      fun l hl => by simpa [Option.isSome_iff_ne_none] using List.find?_eq_none.1 hf l hl
    rw [hset.done hall]
    constructor
    · intro h
      exact ⟨hall, (Except.ok.inj h).symm⟩
    · rintro ⟨-, rfl⟩
      rfl
  | some l =>
    have hl := List.mem_of_find?_eq_some hf
    have hnone := List.find?_some hf
    have hfail := hset.failed l hf
    rw [show (statements.mapM (Node.resolve (p.caseNumber? d))).run none =
      (((statements.mapM (Node.resolve (p.caseNumber? d))).run none).1, some l) from
      Prod.ext rfl hfail]
    constructor
    · intro h
      cases h
    · rintro ⟨hall, -⟩
      have := hall l hl
      simp_all

/-- A body that can be suspended, in full. -/
theorem build_eq_ok_iff (hs : p.splitOnAbrupt = true) {body : Body} :
    p.build = .ok body ↔
      p.labels.firstUnmarked? = none ∧
        (∀ l ∈ p.unplaced.flatMap Node.references, (p.caseOf? l).isSome = true) ∧
        body = ⟨p.unplaced.map p.placed, p.operations.any (·.operation.isSuspension)⟩ := by
  have hresumes : (p.draftPast p.operations.length).resumes =
      p.operations.any (·.operation.isSuspension) := by
    rw [draftPast, List.take_length]
  unfold build
  cases p.labels.firstUnmarked? with
  | some l => simp
  | none =>
    simp only [walkToEnd_eq hs, labeled_draftPast, true_and, hresumes]
    have hnum {result : List Node} :
        p.number (p.draftPast p.operations.length) p.unplaced = .ok result ↔ _ ∧ _ :=
      number_eq_ok_iff
    rw [caseNumber?_draftPast] at hnum
    cases hn : p.number (p.draftPast p.operations.length) p.unplaced with
    | error e =>
      refine ⟨fun h => by simp [bind, Except.bind] at h, ?_⟩
      rintro ⟨hall, -⟩
      have := hnum.2 ⟨hall, rfl⟩
      rw [hn] at this
      cases this
    | ok result =>
      obtain ⟨hall, rfl⟩ := hnum.1 hn
      constructor
      · intro h
        exact ⟨hall, (Except.ok.inj h).symm⟩
      · rintro ⟨-, rfl⟩
        rfl

end Resumable.Body.Plan
