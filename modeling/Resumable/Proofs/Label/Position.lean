import Resumable.Label.Table

/-!
# Positions of labels

What the operations on a label table do to the positions that labels are marked at: only
marking changes one, and no mark is ever lost.
-/

namespace Resumable.LabelTable

variable {t t' : LabelTable} {l l' : Label} {i q : Nat}

theorem hasLabelAt_of_position? (h : t.position? l = some i) : t.hasLabelAt i = true := by
  obtain ⟨e, he, hi⟩ := Option.bind_eq_some_iff.1 h
  have hmem := List.mem_of_getElem? (find?_eq_some_iff.1 he).2
  exact List.any_eq_true.2 ⟨e, hmem, decide_eq_true hi⟩

theorem exists_position?_of_hasLabelAt (h : t.hasLabelAt i = true) :
    ∃ l, t.position? l = some i := by
  obtain ⟨e, he, hi⟩ := List.any_eq_true.1 h
  obtain ⟨n, hn, hget⟩ := List.getElem_of_mem he
  have hfind : t.find? ⟨n + 1⟩ = some e :=
    find?_eq_some_iff.2 ⟨Nat.succ_pos n, List.getElem?_eq_some_iff.2 ⟨hn, hget⟩⟩
  refine ⟨⟨n + 1⟩, ?_⟩
  rw [position?, hfind]
  exact of_decide_eq_true hi

/-- The absence of a label is marked nowhere. -/
theorem isSome_of_position? (h : t.position? l = some i) : l.isSome = true := by
  obtain ⟨e, he, -⟩ := Option.bind_eq_some_iff.1 h
  have hpos := (find?_eq_some_iff.1 he).1
  simp [Label.isSome, Label.isNone, Nat.pos_iff_ne_zero.1 hpos]

theorem position?_define (t : LabelTable) (l : Label) : t.define.2.position? l = t.position? l := by
  unfold position? find?
  split
  · rfl
  · by_cases hlt : l.number - 1 < t.entries.length
    · simp [define, List.getElem?_append_left hlt]
    · rw [List.getElem?_eq_none (Nat.le_of_not_lt hlt)]
      simp only [define, List.getElem?_append_right (Nat.le_of_not_lt hlt)]
      cases l.number - 1 - t.entries.length <;> rfl

theorem position?_setEntry {e : LabelEntry} (h : (t.find? l).isSome = true) (l' : Label) :
    (t.setEntry l e).position? l' = if l' = l then e.position else t.position? l' := by
  rw [position?, find?_setEntry h]
  split <;> rfl

/-- Marking gives a label without a position one, and changes no other. -/
theorem position?_mark (h : t.mark l i = .ok t') :
    t.position? l = none ∧ ∀ l', t'.position? l' = if l' = l then some i else t.position? l' := by
  unfold mark at h
  cases hf : t.find? l with
  | none => simp [hf] at h
  | some e =>
    cases he : e.position with
    | some existing => simp [hf, he] at h
    | none =>
      simp only [hf, he, Except.ok.injEq] at h
      subst h
      refine ⟨by rw [position?, hf]; exact he, fun l' => ?_⟩
      rw [position?_setEntry (by rw [hf]; rfl)]

theorem position?_noteReference (h : t.noteReference l = .ok t') (l' : Label) :
    t'.position? l' = t.position? l' := by
  unfold noteReference at h
  cases hf : t.find? l with
  | none => simp [hf] at h
  | some e =>
    simp only [hf, Except.ok.injEq] at h
    subst h
    rw [position?_setEntry (by rw [hf]; rfl)]
    split
    · next heq => rw [heq, position?, hf]; rfl
    · rfl

end Resumable.LabelTable
