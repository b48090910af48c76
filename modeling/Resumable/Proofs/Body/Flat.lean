import Resumable.Proofs.Body.Numbering
import Resumable.Proofs.Body.Translation

/-!
# Flat bodies

The body of a plain statement list. Nothing cuts it into cases: labels are marked at most before
the first operation, and control stops at an operation that completes the function and nowhere
else. What the walk has built at any point are the operations up to and including the first such
one, so the body is the list of their statements.
-/

namespace Resumable.Body

/-- The operations that control gets to from the first one, if only a completion stops it. -/
def reached : List Recorded → List Recorded
  | [] => []
  | r :: rest => if r.operation.isCompletion then [r] else r :: reached rest

section Reached

/-- An operation more is got to unless the function is over before. -/
theorem reached_concat (ops : List Recorded) (r : Recorded) :
    reached (ops ++ [r]) =
      if ops.any (·.operation.isCompletion) then reached ops else reached ops ++ [r] := by
  induction ops with
  | nil => cases h : r.operation.isCompletion <;> simp [reached, h]
  | cons first rest ih =>
    rw [List.cons_append, reached, reached, List.any_cons, ih]
    cases first.operation.isCompletion with
    | true => rfl
    | false =>
      simp only [Bool.false_eq_true, if_false, Bool.false_or]
      split <;> rfl

/-- Control stops where the function is over. -/
theorem any_getLast?_reached (ops : List Recorded) :
    (reached ops).getLast?.any (·.operation.isCompletion) =
      ops.any (·.operation.isCompletion) := by
  induction ops with
  | nil => rfl
  | cons first rest ih =>
    rw [reached, List.any_cons, ← ih]
    cases hfirst : first.operation.isCompletion with
    | true => simp [hfirst]
    | false =>
      simp only [Bool.false_eq_true, if_false, Bool.false_or]
      cases reached rest with
      | nil => simp [hfirst]
      | cons next more => rw [List.getLast?_cons_cons]

theorem mem_of_mem_reached {ops : List Recorded} {r : Recorded} (h : r ∈ reached ops) :
    r ∈ ops := by
  induction ops with
  | nil => exact h
  | cons first rest ih =>
    rw [reached] at h
    split at h
    · exact List.mem_cons.2 (Or.inl (List.mem_singleton.1 h))
    · rcases List.mem_cons.1 h with rfl | h
      · exact List.mem_cons_self
      · exact List.mem_cons_of_mem _ (ih h)

/-- What is got to are the operations up to and including the first that completes the function, or
all of them. -/
theorem exists_eq_reached_append (ops : List Recorded) : ∃ dropped, ops = reached ops ++ dropped ∧
    (∀ r ∈ (reached ops).dropLast, ¬r.operation.Completes) ∧
    (dropped ≠ [] → ∃ r, (reached ops).getLast? = some r ∧ r.operation.Completes) := by
  induction ops with
  | nil => exact ⟨[], rfl, by simp [reached], fun h => absurd rfl h⟩
  | cons first rest ih =>
    obtain ⟨dropped, heq, hgoesOn, hlast⟩ := ih
    cases hfirst : first.operation.isCompletion with
    | true =>
      have hdone := Operation.completes_iff.2 hfirst
      exact ⟨rest, by simp [reached, hfirst], by simp [reached, hfirst],
        fun _ => ⟨first, by simp [reached, hfirst], hdone⟩⟩
    | false =>
      have hopen : ¬first.operation.Completes := fun h => by
        rw [Operation.completes_iff.1 h] at hfirst
        cases hfirst
      have hreached : reached (first :: rest) = first :: reached rest := by simp [reached, hfirst]
      rw [hreached]
      refine ⟨dropped, by rw [List.cons_append, ← heq], fun r hr => ?_, fun hdropped => ?_⟩
      · cases hrest : reached rest with
        | nil => simp [hrest] at hr
        | cons next more =>
          rw [hrest] at hr hgoesOn
          rcases List.mem_cons.1 hr with rfl | hr
          · exact hopen
          · exact hgoesOn r hr
      · obtain ⟨r, hr, hdone⟩ := hlast hdropped
        refine ⟨r, ?_, hdone⟩
        rw [List.getLast?_cons, hr]
        rfl

/-- No other beginning of the operations is like this. -/
theorem reached_append {kept dropped : List Recorded}
    (hgoesOn : ∀ r ∈ kept.dropLast, ¬r.operation.Completes)
    (hlast : dropped ≠ [] → ∃ r, kept.getLast? = some r ∧ r.operation.Completes) :
    reached (kept ++ dropped) = kept := by
  induction kept with
  | nil =>
    cases dropped with
    | nil => rfl
    | cons r rest =>
      obtain ⟨r, hr, -⟩ := hlast (List.cons_ne_nil _ _)
      cases hr
  | cons first rest ih =>
    rw [List.cons_append, reached]
    cases rest with
    | nil =>
      split
      · rfl
      · next hopen =>
        have hdropped : dropped = [] := by
          by_contra hne
          obtain ⟨r, hr, hdone⟩ := hlast hne
          obtain rfl := Option.some.inj hr
          exact hopen (Operation.completes_iff.1 hdone)
        rw [hdropped]
        rfl
    | cons next more =>
      have hopen : ¬first.operation.isCompletion = true := fun h =>
        hgoesOn first List.mem_cons_self (Operation.completes_iff.2 h)
      rw [if_neg hopen, ih (fun r hr => hgoesOn r (List.mem_cons_of_mem _ hr)) hlast]

end Reached

namespace Plan

/-- Nothing cuts the operations of the plan into cases. -/
structure IsJoined (p : Plan) : Prop where
  joined : p.splitOnAbrupt = false
  labels : ∀ i, p.labels.hasLabelAt i = true → i = 0
  abrupt : ∀ r ∈ p.operations, r.operation.isAbrupt = r.operation.isCompletion
  sustained : ∀ r ∈ p.operations, r.operation.isSuspension = false

/-- The plan is that of a plain statement list whose nodes mention no labels. -/
structure IsFlat (p : Plan) : Prop extends IsJoined p where
  marked : p.labels.firstUnmarked? = none
  unprotected : p.regions.hasExceptions = false
  plain : ∀ r ∈ p.operations, (r.operation.node p.comments).references = []

namespace IsJoined

variable {p : Plan}

/-- The draft of a flat body, after these operations. -/
def Drafts (d : Draft) (ops : List Recorded) : Prop :=
  d.closed = [] ∧ d.run = reached ops ∧ d.resumes = false

/-- Before the first operation there is nothing to close. -/
theorem close_of_run_eq_nil {d : Draft} (h : d.run = []) : p.close d = d := by
  rw [close, h]
  rfl

variable (h : p.IsJoined)

include h

theorem isAbrupt_of_drafts {d : Draft} {ops : List Recorded} (hd : Drafts d ops)
    (hops : ∀ r ∈ ops, r ∈ p.operations) :
    d.isAbrupt = ops.any (·.operation.isCompletion) := by
  obtain ⟨-, hrun, -⟩ := hd
  rw [← any_getLast?_reached, Draft.isAbrupt, hrun]
  cases hlast : (reached ops).getLast? with
  | none => rfl
  | some r => exact h.abrupt r (hops r (mem_of_mem_reached (List.mem_of_getLast? hlast)))

/-- No case ends before an operation, for at index 0 the case is empty. -/
theorem drafts_cut {d : Draft} {ops : List Recorded} {i : Nat} (hd : Drafts d ops)
    (hi : ops.length = i) : (if p.cutsBefore i d then p.close d else d) = d := by
  split
  · next hcut =>
    rw [cutsBefore, h.joined, Bool.false_and, Bool.or_false] at hcut
    obtain rfl := h.labels i hcut
    obtain rfl := List.length_eq_zero_iff.1 hi
    exact close_of_run_eq_nil hd.2.1
  · rfl

theorem drafts_take {d : Draft} {ops : List Recorded} {r : Recorded} (hd : Drafts d ops)
    (hops : ∀ x ∈ ops ++ [r], x ∈ p.operations) :
    Drafts (p.take d r ops.length) (ops ++ [r]) := by
  have habrupt := h.isAbrupt_of_drafts hd fun x hx => hops x (List.mem_append_left _ hx)
  have hsuspension := h.sustained r (hops r (List.mem_append_right _ List.mem_cons_self))
  have harrive : (p.arrive ops.length d).isAbrupt = d.isAbrupt := rfl
  rw [take, h.drafts_cut hd rfl]
  simp only [harrive, habrupt]
  split
  · next hover => exact ⟨hd.1, by rw [reached_concat, if_pos hover]; exact hd.2.1, hd.2.2⟩
  · next hover =>
    refine ⟨hd.1, ?_, ?_⟩
    · rw [reached_concat, if_neg hover]
      exact congrArg (· ++ [r]) hd.2.1
    · show (d.resumes || r.operation.isSuspension) = false
      rw [hd.2.2, hsuspension]
      rfl

/-- The walk over the operations before an index. -/
theorem drafts_foldl {i : Nat} (hi : i ≤ p.operations.length) :
    Drafts ((p.operations.take i).zipIdx.foldl (fun d (r, index) => p.take d r index)
      { cursor := RegionCursor.start p.regions }) (p.operations.take i) := by
  induction i with
  | zero => exact ⟨rfl, rfl, rfl⟩
  | succ i ih =>
    have hlt : i < p.operations.length := hi
    have hlen : (p.operations.take i).length = i :=
      List.length_take.trans (Nat.min_eq_left (Nat.le_of_lt hlt))
    have hstep := h.drafts_take (r := p.operations[i]) (ih (Nat.le_of_lt hlt)) fun x hx => by
      rcases List.mem_append.1 hx with hx | hx
      · exact List.mem_of_mem_take hx
      · rw [List.mem_singleton.1 hx]
        exact List.getElem_mem hlt
    rw [hlen] at hstep
    rw [List.take_add_one, List.getElem?_eq_getElem hlt, Option.toList_some, List.zipIdx_append,
      List.foldl_append, hlen, Nat.zero_add]
    exact hstep

theorem drafts_walkToEnd : Drafts p.walkToEnd p.operations := by
  have hwalk := h.drafts_foldl (Nat.le_refl _)
  rw [List.take_length] at hwalk
  have hwalk : Drafts p.walk p.operations := hwalk
  rw [walkToEnd, h.joined, Bool.and_false, Bool.or_false]
  split
  · next hend =>
    have hnil := List.length_eq_zero_iff.1 (h.labels _ hend)
    have hrun : p.walk.run = [] := by rw [hwalk.2.1, hnil]; rfl
    rw [close_of_run_eq_nil hrun]
    exact hwalk
  · exact hwalk

end IsJoined

/-- A flat body: the statements of the operations that control gets to, and a final return if
control can get past them and one is asked for. -/
theorem IsFlat.build_eq {p : Plan} (h : p.IsFlat) : p.build = .ok
    ⟨(reached p.operations).map p.statement ++
      if p.forceReturn && !p.operations.any (·.operation.isCompletion) then
        [Instruction.complete.statement p.comments none]
      else [], false⟩ := by
  obtain ⟨hclosed, hrun, hresumes⟩ := h.toIsJoined.drafts_walkToEnd
  have hlabeled : p.labeled p.walkToEnd = (reached p.operations).map p.statement ++
      if p.forceReturn && !p.operations.any (·.operation.isCompletion) then
        [Instruction.complete.statement p.comments none]
      else [] := by
    rw [labeled, hclosed, lastStatements, Draft.isComplete, hrun, any_getLast?_reached, setup,
      h.unprotected]
    rfl
  have hplain : ∀ node ∈ p.labeled p.walkToEnd, node.references = [] := by
    intro node hnode
    rw [hlabeled] at hnode
    rcases List.mem_append.1 hnode with hnode | hnode
    · obtain ⟨r, hr, rfl⟩ := List.mem_map.1 hnode
      rw [references_statement]
      exact h.plain r (mem_of_mem_reached hr)
    · split at hnode
      · rw [List.mem_singleton.1 hnode]
        rfl
      · cases hnode
  have hnumber : p.number p.walkToEnd (p.labeled p.walkToEnd) =
      .ok (p.labeled p.walkToEnd) := by
    refine number_eq_ok_iff.2 ⟨fun l hl => ?_, ?_⟩
    · rw [List.flatMap_eq_nil_iff.2 hplain] at hl
      cases hl
    · have hself : ∀ node ∈ p.labeled p.walkToEnd,
          node.relabel (Node.numeral (p.caseNumber? p.walkToEnd)) = node := fun node hnode =>
        Node.relabel_eq_self node (by simp [hplain node hnode])
      rw [List.map_congr_left hself, List.map_id']
  unfold build
  rw [h.marked]
  dsimp only
  rw [hnumber, hresumes, hlabeled]
  rfl

end Plan

end Resumable.Body
