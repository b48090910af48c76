import Resumable.Proofs.Body.Cases
import Resumable.Proofs.Body.Execution

/-!
# The code from an index on

In a body without regions the clauses of the switch, one after the other, are the statements of
the operations with the moves between the cases in them. `code` is what is left of them from an
operation on, so entering a case is to come upon the code of the index that the case begins at.
-/

namespace Resumable.Body.Plan

/-- The move to the next case after the operation before an index, if it falls into one there. -/
def move (p : Plan) (i : Nat) : List Node :=
  if p.isCut i = true ∧ p.abruptBefore i = false then [p.advance (p.caseAt i)] else []

/-- The statement of an operation, and the move to the next case if one follows. -/
def piece (p : Plan) (i : Nat) : List Node :=
  (p.operations[i]?.map p.statement).toList ++ p.move (i + 1)

/-- The final return, if there is one. -/
def closing (p : Plan) : List Node :=
  if p.endsWithReturn = true then [Instruction.complete.statement p.comments none] else []

/-- The statements from an operation on. -/
def code (p : Plan) (i : Nat) : List Node :=
  (List.range' i (p.operations.length - i)).flatMap p.piece ++ p.closing

variable {p : Plan} {i j : Nat}

theorem code_length (p : Plan) : p.code p.operations.length = p.closing := by
  rw [code, Nat.sub_self]
  rfl

theorem code_eq (h : i < p.operations.length) :
    p.code i = p.statement p.operations[i] :: (p.move (i + 1) ++ p.code (i + 1)) := by
  rw [code, show p.operations.length - i = p.operations.length - (i + 1) + 1 by omega,
    List.range'_succ, List.flatMap_cons, piece, List.getElem?_eq_getElem h]
  simp [code]

theorem move_of_not_isCut (h : p.isCut i = false) : p.move i = [] := by
  simp [move, h]

theorem advanceAfter_eq_move (h : j < p.cuts.length) :
    p.advanceAfter j = p.move (p.bound (j + 1)) := by
  obtain ⟨i, hi, hc, hb⟩ := exists_isCut_caseAt_eq (p := p) (j := j + 1) (by omega) (by omega)
  simp [advanceAfter, move, h, hb, hi, hc]

/-- Inside a case there is no cut, so the code is that of the operations up to its end. -/
theorem code_of_le_bound {e : Nat} (hi : i < e) (he : e ≤ p.operations.length)
    (hc : ∀ k, i < k → k < e → p.isCut k = false) :
    p.code i = ((p.operations.take e).drop i).map p.statement ++ (p.move e ++ p.code e) := by
  have hstep : ∀ k (hk : k < e), (p.operations.take e).drop k =
      p.operations[k] :: (p.operations.take e).drop (k + 1) := by
    intro k hk
    rw [List.drop_eq_getElem_cons (by rw [List.length_take]; omega), List.getElem_take]
  obtain ⟨d, hd⟩ : ∃ d, i + 1 + d = e := ⟨e - (i + 1), by omega⟩
  induction d generalizing i with
  | zero =>
    obtain rfl : i + 1 = e := hd
    rw [code_eq (by omega), hstep i hi, List.drop_eq_nil_of_le]
    · rfl
    · rw [List.length_take]
      omega
  | succ d ih =>
    have hmove : p.move (i + 1) = [] := move_of_not_isCut (hc (i + 1) (by omega) (by omega))
    rw [code_eq (by omega), hmove, hstep i hi,
      ih (by omega) (fun k hk => hc k (by omega)) hstep (by omega)]
    rfl

/-- A case holds the code between its bounds. -/
theorem code_bound (h : j < p.cuts.length) :
    p.code (p.bound j) = p.content j ++ p.advanceAfter j ++ p.code (p.bound (j + 1)) := by
  obtain ⟨e, he, hc, hb⟩ := exists_isCut_caseAt_eq (p := p) (j := j + 1) (by omega) (by omega)
  have hbj := caseAt_bound (p := p) (j := j) (by omega)
  have hlt : p.bound j < e := by
    apply Nat.lt_of_not_le
    intro hle
    have := caseAt_le (p := p) hle
    omega
  have hinside : ∀ k, p.bound j < k → k < e → p.isCut k = false := by
    intro k hk hke
    cases hcut : p.isCut k with
    | false => rfl
    | true =>
      have h1 := caseAt_lt_of_isCut hk hcut
      have h2 := caseAt_lt_of_isCut hke he
      omega
  rw [code_of_le_bound hlt (le_of_isCut he) hinside, advanceAfter_eq_move h, content,
    if_neg (by omega), stretch, hb, List.append_nil, List.append_assoc]

theorem code_bound_last : p.code (p.bound p.cuts.length) = p.content p.cuts.length := by
  have hle := bound_le_length (p := p) (j := p.cuts.length) (by omega)
  have hb := caseAt_bound (p := p) (Nat.le_refl _)
  have hcontent : p.content p.cuts.length =
      (p.operations.drop (p.bound p.cuts.length)).map p.statement ++ p.closing := by
    rw [content, stretch, bound_after_last, List.take_length, closing]
    simp
  rw [hcontent]
  by_cases heq : p.bound p.cuts.length = p.operations.length
  · rw [heq, code_length, List.drop_eq_nil_of_le (Nat.le_refl _)]
    rfl
  · have hinside : ∀ k, p.bound p.cuts.length < k → k ≤ p.operations.length →
        p.isCut k = false := fun k hk hkn =>
      not_isCut_of_caseAt_eq (hb.trans (length_cuts p)) hk hkn
    have hmove : p.move p.operations.length = [] :=
      move_of_not_isCut (hinside _ (by omega) (Nat.le_refl _))
    rw [code_of_le_bound (Nat.lt_of_le_of_ne hle heq) (Nat.le_refl _)
      fun k hk hkn => hinside k hk (Nat.le_of_lt hkn), hmove, code_length, List.take_length]
    rfl

/-- What a case and all that follow hold is the code from where it begins. -/
theorem flatMap_content {d : Nat} (hd : j + d = p.cuts.length) :
    (List.range' j (d + 1)).flatMap (fun j => (p.content j ++ p.advanceAfter j).map p.placed) =
      (p.code (p.bound j)).map p.placed := by
  induction d generalizing j with
  | zero =>
    obtain rfl : j = p.cuts.length := hd
    have hlast : p.advanceAfter p.cuts.length = [] := if_neg fun h => Nat.lt_irrefl _ h.1
    rw [code_bound_last]
    simp [hlast]
  | succ d ih =>
    rw [List.range'_succ, List.flatMap_cons, ih (by omega), code_bound (j := j) (by omega),
      ← List.map_append]

section Unprotected

variable (hr : p.regions = {})

include hr

theorem cursorTo_of_regions (i : Nat) : p.cursorTo i = { pending := [] } := by
  induction i with
  | zero => rw [cursorTo, hr]; rfl
  | succ i ih =>
    rw [cursorTo, ih]
    cases p.isCut i <;> rfl

theorem setup_of_regions : p.setup = [] := by
  rw [setup, hr]
  rfl

theorem clause_of_regions (j : Nat) :
    p.clause j = ⟨some (.number (toString j)), p.content j ++ p.advanceAfter j⟩ := by
  have hc : p.cursorOf j = { pending := [] } := cursorTo_of_regions hr _
  rw [clause, framed, hc, setup_of_regions hr, ite_self]
  rfl

theorem placedClause_of_regions (j : Nat) :
    p.placedClause (p.clause j) =
      ⟨some (.number (toString j)), (p.content j ++ p.advanceAfter j).map p.placed⟩ := by
  rw [clause_of_regions hr]
  rfl

end Unprotected

/-- Going through numbered clauses up to a number. -/
theorem dropWhile_range' {s k : Nat} (hs : s ≤ j) (hk : j ≤ s + k) :
    (List.range' s k).dropWhile (fun i => !decide (i = j)) = List.range' j (s + k - j) := by
  induction k generalizing s with
  | zero =>
    rw [show s + 0 - j = 0 by omega]
    rfl
  | succ k ih =>
    rw [List.range'_succ]
    by_cases h : s = j
    · subst h
      rw [List.dropWhile_cons_of_neg (by simp), ← List.range'_succ]
      congr 1
      omega
    · rw [List.dropWhile_cons_of_pos (by simpa using h), ih (by omega) (by omega)]
      congr 1
      omega

/-- Entering a case of the switch. -/
theorem entry_placed_clauses (hr : p.regions = {}) (hj : j ≤ p.cuts.length) :
    Machine.entry (((List.range (p.cuts.length + 1)).map p.clause).map p.placedClause) j =
      (p.code (p.bound j)).map p.placed := by
  have htests : ∀ i, Machine.tests j (p.placedClause (p.clause i)) = decide (i = j) := by
    intro i
    rw [placedClause_of_regions hr, Machine.tests, Option.bind_some, Node.natural?_number]
    simp
  rw [Machine.entry, List.map_map, List.dropWhile_map, List.flatMap_map, List.range_eq_range']
  have hdrop : (fun c => !Machine.tests j c) ∘ (p.placedClause ∘ p.clause) =
      fun i => !decide (i = j) := by
    funext i
    exact congrArg _ (htests i)
  rw [hdrop, dropWhile_range' (Nat.zero_le _) (by omega), ← flatMap_content
    (show j + (p.cuts.length - j) = p.cuts.length by omega)]
  rw [show 0 + (p.cuts.length + 1) - j = p.cuts.length - j + 1 by omega]
  congr 1
  funext i
  exact congrArg Clause.body (placedClause_of_regions hr i)

end Resumable.Body.Plan
