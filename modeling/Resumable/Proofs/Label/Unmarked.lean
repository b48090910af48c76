import Resumable.Proofs.Label.Position

/-!
# Labels that are not marked

Defining a label adds it to the labels without a mark, marking takes it from them, and nothing
else changes which labels these are. A label that was defined stays defined.
-/

namespace Resumable.LabelTable

variable {t t' : LabelTable} {l l' : Label} {i : Nat}

theorem mem_labels_iff : l ∈ t.labels ↔ (t.find? l).isSome = true := by
  rw [isSome_find?_iff, labels, List.mem_map]
  constructor
  · rintro ⟨n, hn, rfl⟩
    have := List.mem_range'_1.1 hn
    exact ⟨by show 0 < n; omega, by show n ≤ t.size; omega⟩
  · rintro ⟨hpos, hle⟩
    exact ⟨l.number, List.mem_range'_1.2 ⟨hpos, by omega⟩, rfl⟩

theorem labels_pairwise (t : LabelTable) : t.labels.Pairwise fun a b => a.number < b.number := by
  rw [labels, List.pairwise_map]
  exact List.pairwise_lt_range'

theorem mem_unmarked_iff : l ∈ t.unmarked ↔ (t.find? l).isSome = true ∧ t.position? l = none := by
  rw [unmarked, List.mem_filter, mem_labels_iff, Option.isNone_iff_eq_none]

theorem nodup_unmarked (t : LabelTable) : t.unmarked.Nodup := by
  refine ((labels_pairwise t).imp fun {a b} hlt heq => ?_).filter _
  rw [heq] at hlt
  exact Nat.lt_irrefl _ hlt

/-- The first label without a mark is the one with the lowest number. -/
theorem firstUnmarked?_eq_some_iff : t.firstUnmarked? = some l ↔
    l ∈ t.unmarked ∧ ∀ l' ∈ t.unmarked, l.number ≤ l'.number := by
  have hhead : t.firstUnmarked? = t.unmarked.head? := by
    rw [firstUnmarked?, unmarked, List.head?_filter]
  have hsorted : t.unmarked.Pairwise fun a b => a.number < b.number :=
    (labels_pairwise t).filter _
  rw [hhead]
  cases hun : t.unmarked with
  | nil => simp
  | cons top rest =>
    rw [hun] at hsorted
    have htop := (List.pairwise_cons.1 hsorted).1
    rw [List.head?_cons, Option.some.injEq]
    constructor
    · rintro rfl
      refine ⟨List.mem_cons_self, fun l' hl' => ?_⟩
      rcases List.mem_cons.1 hl' with rfl | hl'
      · exact Nat.le_refl _
      · exact Nat.le_of_lt (htop l' hl')
    · rintro ⟨hl, hmin⟩
      rcases List.mem_cons.1 hl with rfl | hl
      · rfl
      · exact absurd (htop l hl) (Nat.not_lt.2 (hmin top List.mem_cons_self))

theorem firstUnmarked?_eq_none_iff : t.firstUnmarked? = none ↔ t.unmarked = [] := by
  rw [firstUnmarked?, unmarked, List.find?_eq_none, List.filter_eq_nil_iff]

section Define

theorem find?_define_eq_none (t : LabelTable) : t.find? t.define.1 = none := by
  simp [define, find?, Label.isNone]

theorem isSome_define (t : LabelTable) : t.define.1.isSome = true := by
  simp [define, Label.isSome, Label.isNone]

theorem isSome_find?_define (h : (t.find? l).isSome = true) :
    (t.define.2.find? l).isSome = true := by
  rw [find?_define_of_isSome h]
  exact h

theorem unmarked_define (t : LabelTable) : t.define.2.unmarked = t.unmarked ++ [t.define.1] := by
  have hlabels : t.define.2.labels = t.labels ++ [t.define.1] := by
    simp [labels, size, define, List.range'_concat, Nat.add_comm]
  have hnone : t.define.2.position? t.define.1 = none := by
    rw [position?, find?_define_fresh]
    rfl
  have hkept : t.labels.filter (fun l => (t.define.2.position? l).isNone) = t.unmarked :=
    List.filter_congr fun l _ => by rw [position?_define]
  rw [unmarked, hlabels, List.filter_append, hkept, List.filter_cons_of_pos (by rw [hnone]; rfl)]
  rfl

end Define

section Mark

variable (h : t.mark l i = .ok t')

include h

theorem exists_of_mark : ∃ e, t.find? l = some e ∧ e.position = none ∧
    t' = t.setEntry l { e with position := some i } := by
  unfold mark at h
  cases hf : t.find? l with
  | none => simp [hf] at h
  | some e =>
    cases he : e.position with
    | some existing => simp [hf, he] at h
    | none =>
      simp only [hf, he, Except.ok.injEq] at h
      exact ⟨e, rfl, he, h.symm⟩

theorem isSome_find?_mark (l' : Label) : (t'.find? l').isSome = (t.find? l').isSome := by
  obtain ⟨e, hf, -, rfl⟩ := exists_of_mark h
  rw [find?_setEntry (by rw [hf]; rfl)]
  split
  · next heq => rw [heq, hf]; rfl
  · rfl

theorem mem_unmarked_of_mark : l ∈ t.unmarked := by
  obtain ⟨e, hf, he, -⟩ := exists_of_mark h
  exact mem_unmarked_iff.2 ⟨by rw [hf]; rfl, by rw [position?, hf]; exact he⟩

theorem unmarked_mark : t'.unmarked = t.unmarked.filter (· ≠ l) := by
  have hlabels : t'.labels = t.labels := by
    obtain ⟨e, -, -, rfl⟩ := exists_of_mark h
    rw [labels, labels, size_setEntry]
  rw [unmarked, hlabels, unmarked, List.filter_filter]
  refine List.filter_congr fun l' _ => ?_
  rw [(position?_mark h).2 l']
  by_cases heq : l' = l <;> simp [heq]

end Mark

section Fresh

/-- A label that is defined and marked at once is not left unmarked. -/
theorem unmarked_define_mark (h : t.define.2.mark t.define.1 i = .ok t') :
    t'.unmarked = t.unmarked := by
  have hfresh : t.define.1 ∉ t.unmarked := fun hmem => by
    have := (mem_unmarked_iff.1 hmem).1
    rw [find?_define_eq_none] at this
    cases this
  rw [unmarked_mark h, unmarked_define, List.filter_append, List.filter_eq_self.2,
    List.filter_cons_of_neg (by simp), List.filter_nil, List.append_nil]
  intro l hl
  refine decide_eq_true fun heq => hfresh ?_
  rw [← heq]
  exact hl

/-- Of two labels that are defined, the first is marked. -/
theorem unmarked_define_define_mark (h : t.define.2.define.2.mark t.define.1 i = .ok t') :
    t'.unmarked = t.unmarked ++ [t.define.2.define.1] := by
  have hfresh : ∀ l ∈ t.unmarked ++ [t.define.2.define.1], l ≠ t.define.1 := by
    intro l hl heq
    subst heq
    rcases List.mem_append.1 hl with hl | hl
    · have := (mem_unmarked_iff.1 hl).1
      rw [find?_define_eq_none] at this
      cases this
    · have := congrArg Label.number (List.mem_singleton.1 hl)
      simp [define] at this
  have hall : t.define.2.define.2.unmarked =
      t.unmarked ++ [t.define.1] ++ [t.define.2.define.1] := by
    rw [unmarked_define, unmarked_define]
  rw [unmarked_mark h, hall, List.append_assoc, List.filter_append, List.singleton_append,
    List.filter_cons_of_neg (by simp), ← List.filter_append, List.filter_eq_self.2]
  intro l hl
  exact decide_eq_true (hfresh l hl)

end Fresh

section NoteReference

variable (h : t.noteReference l = .ok t')

include h

theorem exists_of_noteReference : ∃ e, t.find? l = some e ∧
    t' = t.setEntry l { e with referenced := true } := by
  unfold noteReference at h
  cases hf : t.find? l with
  | none => simp [hf] at h
  | some e =>
    simp only [hf, Except.ok.injEq] at h
    exact ⟨e, rfl, h.symm⟩

theorem isSome_find?_noteReference (l' : Label) :
    (t'.find? l').isSome = (t.find? l').isSome := by
  obtain ⟨e, hf, rfl⟩ := exists_of_noteReference h
  rw [find?_setEntry (by rw [hf]; rfl)]
  split
  · next heq => rw [heq, hf]; rfl
  · rfl

theorem unmarked_noteReference : t'.unmarked = t.unmarked := by
  have hlabels : t'.labels = t.labels := by
    obtain ⟨e, -, rfl⟩ := exists_of_noteReference h
    rw [labels, labels, size_setEntry]
  rw [unmarked, hlabels, unmarked]
  refine List.filter_congr fun l' _ => ?_
  rw [position?_noteReference h]

end NoteReference

end Resumable.LabelTable
