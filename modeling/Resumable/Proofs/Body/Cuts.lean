import Resumable.Body.Build

/-!
# Cuts

Where the cases of a body that can be suspended begin, by the operations and the labels alone.
`isCut` says it of one index. Counting the cuts gives the case that an index falls into,
and the cuts in order bound the stretch of operations that a case holds.
-/

namespace Resumable.Body.Plan

/-- Control never passes from the operation before the index to the one at it. -/
def abruptBefore (p : Plan) (i : Nat) : Bool :=
  (p.operations.take i).getLast?.any (·.operation.isAbrupt)

/-- The function is over after the operation before the index. -/
def completeBefore (p : Plan) (i : Nat) : Bool :=
  (p.operations.take i).getLast?.any (·.operation.isCompletion)

/-- Whether a case besides the first begins at the index: a label is marked there, or the
operation before is abrupt. After the last operation the latter is not enough unless a final
return has to follow. -/
def isCut (p : Plan) (i : Nat) : Bool :=
  decide (0 < i) && decide (i ≤ p.operations.length) &&
    (p.labels.hasLabelAt i ||
      p.abruptBefore i &&
        (decide (i < p.operations.length) || p.forceReturn && !p.completeBefore i))

/-- The cuts, in order. -/
def cuts (p : Plan) : List Nat := (List.range (p.operations.length + 1)).filter p.isCut

/-- The number of the case that is open when the walk gets to the index. -/
def openCase (p : Plan) (i : Nat) : Nat := (List.range i).countP p.isCut

/-- The number of the case that the index falls into. -/
def caseAt (p : Plan) (i : Nat) : Nat := p.openCase (i + 1)

/-- The index at which a case begins; for the number after the last, where the last one ends. -/
def bound (p : Plan) (j : Nat) : Nat := ((0 :: p.cuts)[j]?).getD p.operations.length

/-- The operations of a case. -/
def stretch (p : Plan) (j : Nat) : List Recorded :=
  (p.operations.take (p.bound (j + 1))).drop (p.bound j)

/-- The last operation before an index. -/
theorem getLast?_take_succ {p : Plan} {i : Nat} (hi : i < p.operations.length) :
    (p.operations.take (i + 1)).getLast? = some p.operations[i] := by
  rw [List.take_add_one, List.getElem?_eq_getElem hi, Option.toList_some, List.getLast?_concat]

section Counting

variable {P : Nat → Bool} {i m : Nat}

theorem countP_range_succ (P : Nat → Bool) (i : Nat) :
    (List.range (i + 1)).countP P = (List.range i).countP P + if P i then 1 else 0 := by
  rw [List.range_succ, List.countP_append, List.countP_singleton]

/-- An element that is kept comes after as many others as are kept before it. -/
theorem getElem?_filter_range (hi : P i = true) (hm : i < m) :
    ((List.range m).filter P)[(List.range i).countP P]? = some i := by
  induction m with
  | zero => omega
  | succ m ih =>
    rw [List.range_succ, List.filter_append]
    by_cases h : i = m
    · subst h
      rw [List.countP_eq_length_filter, List.getElem?_append_right (Nat.le_refl _), Nat.sub_self]
      simp [hi]
    · have hs := ih (by omega)
      have hlt := (List.getElem?_eq_some_iff.1 hs).1
      rw [List.getElem?_append_left hlt, hs]

/-- Every place of the filtered list is that of an element. -/
theorem exists_getElem?_filter_range {j : Nat} (hj : j < (List.range m).countP P) :
    ∃ i < m, P i = true ∧ (List.range i).countP P = j := by
  induction m with
  | zero => simp at hj
  | succ m ih =>
    rw [countP_range_succ] at hj
    by_cases hlt : j < (List.range m).countP P
    · obtain ⟨i, him, hi, hc⟩ := ih hlt
      exact ⟨i, by omega, hi, hc⟩
    · cases hm : P m with
      | true => exact ⟨m, by omega, hm, by simp only [hm, if_true] at hj; omega⟩
      | false => simp [hm] at hj; omega

end Counting

variable {p : Plan} {i j k : Nat}

theorem isCut_zero (p : Plan) : p.isCut 0 = false := by simp [isCut]

theorem pos_of_isCut (h : p.isCut i = true) : 0 < i := by
  simp only [isCut, Bool.and_eq_true, decide_eq_true_eq] at h
  exact h.1.1

theorem le_of_isCut (h : p.isCut i = true) : i ≤ p.operations.length := by
  simp only [isCut, Bool.and_eq_true, decide_eq_true_eq] at h
  exact h.1.2

/-- A label begins a case wherever it is marked, except before the first operation. -/
theorem isCut_of_hasLabelAt (hpos : 0 < i) (hle : i ≤ p.operations.length)
    (h : p.labels.hasLabelAt i = true) : p.isCut i = true := by
  simp [isCut, hpos, hle, h]

theorem openCase_succ (p : Plan) (i : Nat) :
    p.openCase (i + 1) = p.openCase i + if p.isCut i then 1 else 0 := countP_range_succ _ _

theorem caseAt_zero (p : Plan) : p.caseAt 0 = 0 := by
  simp [caseAt, openCase, isCut_zero]

theorem openCase_le (h : i ≤ k) : p.openCase i ≤ p.openCase k := by
  induction k with
  | zero => exact Nat.le_of_eq (by rw [Nat.le_zero.1 h])
  | succ k ih =>
    by_cases hk : i = k + 1
    · exact Nat.le_of_eq (by rw [hk])
    · have := ih (by omega)
      rw [openCase_succ]
      omega

theorem caseAt_le (h : i ≤ k) : p.caseAt i ≤ p.caseAt k := openCase_le (by omega)

theorem caseAt_of_isCut (h : p.isCut i = true) : p.caseAt i = p.openCase i + 1 := by
  rw [caseAt, openCase_succ, if_pos h]

theorem caseAt_of_not_isCut (h : p.isCut i = false) : p.caseAt i = p.openCase i := by
  rw [caseAt, openCase_succ, h]
  rfl

/-- Passing a cut means passing into another case. -/
theorem caseAt_lt_of_isCut (hik : i < k) (h : p.isCut k = true) : p.caseAt i < p.caseAt k := by
  have := openCase_le (p := p) (show i + 1 ≤ k from hik)
  rw [caseAt_of_isCut h]
  unfold caseAt
  omega

theorem caseAt_pos_of_isCut (h : p.isCut i = true) : 0 < p.caseAt i := by
  rw [caseAt_of_isCut h]
  omega

/-- There is no cut between two indices of the same case. -/
theorem not_isCut_of_caseAt_eq (h : p.caseAt i = p.caseAt j) (hk : i < k) (hkj : k ≤ j) :
    p.isCut k = false := by
  cases hc : p.isCut k with
  | false => rfl
  | true =>
    have h1 := caseAt_lt_of_isCut hk hc
    have h2 := caseAt_le (p := p) hkj
    omega

theorem length_cuts (p : Plan) : p.cuts.length = p.caseAt p.operations.length :=
  (List.countP_eq_length_filter).symm

theorem caseAt_le_length_cuts (h : i ≤ p.operations.length) : p.caseAt i ≤ p.cuts.length := by
  rw [length_cuts]
  exact caseAt_le h

theorem openCase_lt_length_cuts (h : p.isCut i = true) : p.openCase i < p.cuts.length := by
  have := caseAt_le_length_cuts (le_of_isCut h)
  rw [caseAt_of_isCut h] at this
  omega

theorem bound_zero (p : Plan) : p.bound 0 = 0 := rfl

/-- A case begins at the cut that opens it. -/
theorem bound_caseAt_of_isCut (h : p.isCut i = true) : p.bound (p.caseAt i) = i := by
  have hs := getElem?_filter_range h (Nat.lt_succ_of_le (le_of_isCut h))
  rw [caseAt_of_isCut h, bound, List.getElem?_cons_succ]
  rw [show p.cuts[p.openCase i]? = some i from hs]
  rfl

/-- An index that is 0 or a cut is where its case begins. -/
theorem bound_caseAt (h : i = 0 ∨ p.isCut i = true) : p.bound (p.caseAt i) = i := by
  rcases h with rfl | h
  · rw [caseAt_zero, bound_zero]
  · exact bound_caseAt_of_isCut h

/-- Every case but the first begins at a cut. -/
theorem exists_isCut_caseAt_eq (hpos : 0 < j) (hle : j ≤ p.cuts.length) :
    ∃ i, p.isCut i = true ∧ p.caseAt i = j ∧ p.bound j = i := by
  rw [length_cuts] at hle
  obtain ⟨i, -, hi, hc⟩ := exists_getElem?_filter_range (P := p.isCut) (j := j - 1)
    (m := p.operations.length + 1) (show j - 1 < p.caseAt p.operations.length by omega)
  have hj : p.caseAt i = j := by
    rw [caseAt_of_isCut hi]
    unfold openCase
    omega
  exact ⟨i, hi, hj, hj ▸ bound_caseAt_of_isCut hi⟩

theorem bound_after_last (p : Plan) : p.bound (p.cuts.length + 1) = p.operations.length := by
  simp [bound]

theorem caseAt_bound (h : j ≤ p.cuts.length) : p.caseAt (p.bound j) = j := by
  by_cases hj : j = 0
  · rw [hj, bound_zero, caseAt_zero]
  · obtain ⟨i, -, hc, hb⟩ := exists_isCut_caseAt_eq (by omega) h
    rw [hb, hc]

theorem bound_le_length (h : j ≤ p.cuts.length + 1) : p.bound j ≤ p.operations.length := by
  by_cases hj : j = 0
  · rw [hj, bound_zero]
    omega
  · by_cases hl : j = p.cuts.length + 1
    · exact Nat.le_of_eq (by rw [hl, bound_after_last])
    · obtain ⟨i, hi, -, hb⟩ := exists_isCut_caseAt_eq (p := p) (j := j) (by omega) (by omega)
      rw [hb]
      exact le_of_isCut hi

/-- An index lies at or after the beginning of its case. -/
theorem bound_caseAt_le (h : i ≤ p.operations.length) : p.bound (p.caseAt i) ≤ i := by
  by_cases hj : p.caseAt i = 0
  · rw [hj, bound_zero]
    omega
  · obtain ⟨k, hk, hc, hb⟩ := exists_isCut_caseAt_eq (by omega) (caseAt_le_length_cuts h)
    rw [hb]
    apply Nat.le_of_not_lt
    intro hlt
    have := caseAt_lt_of_isCut (show i < k by omega) hk
    omega

/-- The case that is open before an index began before it. -/
theorem bound_openCase_lt (hpos : 0 < i) (h : i ≤ p.operations.length) :
    p.bound (p.openCase i) < i := by
  obtain ⟨k, rfl⟩ : ∃ k, i = k + 1 := ⟨i - 1, by omega⟩
  have := bound_caseAt_le (p := p) (show k ≤ p.operations.length by omega)
  unfold caseAt at this
  omega

end Resumable.Body.Plan
