import Mathlib.Data.List.DropRight
import Resumable.Proofs.Text.Words

/-!
# Elided elements

In an array literal every comma ends an entry, and an entry with nothing in it is a hole. Behind the
last comma there is an entry only if something stands there. So a hole in the last place needs a
comma of its own.
-/

namespace Resumable.Text.Elision

/-- The word of an entry without the blanks around it; none if nothing stands there. -/
def word? (segment : List Char) : Option String :=
  let word := (segment.dropWhile isBlank).rdropWhile isBlank
  if word.isEmpty then none else some (String.ofList word)

/-- The entries of a literal, given what stands between its brackets. -/
def entriesBetween (inside : List Char) : List (Option String) :=
  let found := (inside.splitOn ',').map word?
  if found.getLast? = some none then found.dropLast else found

/-- The entries of the literal that a text begins with, and the text behind it. The entries hold no
brackets themselves. -/
def read? : List Char → Option (List (Option String) × List Char)
  | '[' :: text =>
    match text.dropWhile (· != ']') with
    | [] => none
    | _ :: rest => some (entriesBetween (text.takeWhile (· != ']')), rest)
  | _ => none

/-- A word that can be an entry: there is something of it, and no part of it is read as anything
else. -/
def isEntry (word : String) : Bool :=
  !word.toList.isEmpty && word.toList.all fun c => !isBlank c && c != ',' && c != ']'

/-- The entries with a comma and a blank between them, and one more comma behind a hole in the last
place. -/
def separated (entries : List (Option String)) : List Char :=
  [',', ' '].intercalate (entries.map fun entry => (entry.getD "").toList) ++
    if entries.getLast? = some none then [','] else []

section Reading

variable {word : String} {c : Char} {x : List Char} {xs : List (List Char)}
  {entries : List (Option String)}

theorem of_mem_of_isEntry (h : isEntry word = true) (hc : c ∈ word.toList) :
    isBlank c = false ∧ c ≠ ',' ∧ c ≠ ']' := by
  have hall := List.all_eq_true.1 (Bool.and_eq_true_iff.1 h).2 c hc
  simpa [and_assoc] using hall

theorem word?_toList (h : isEntry word = true) : word? word.toList = some word := by
  have hblank : ∀ c ∈ word.toList, ¬ isBlank c = true := by
    intro c hc
    simp [of_mem_of_isEntry h hc]
  have hleft : word.toList.dropWhile isBlank = word.toList :=
    List.dropWhile_eq_self_iff.2 fun hl => hblank _ (List.getElem_mem hl)
  have hright : word.toList.rdropWhile isBlank = word.toList :=
    List.rdropWhile_eq_self_iff.2 fun hl => hblank _ (List.getLast_mem hl)
  have hnonempty : word.toList.isEmpty = false := by simp_all [isEntry]
  simp [word?, hleft, hright, hnonempty]

theorem word?_blank (segment : List Char) : word? (' ' :: segment) = word? segment := by
  have hblank : isBlank ' ' = true := by decide
  rw [word?, List.dropWhile_cons_of_pos hblank]
  rfl

/-- Between the commas there are the words, with a blank before each but the first. -/
theorem splitOn_intercalate_blank (hx : ',' ∉ x) (hxs : ∀ y ∈ xs, ',' ∉ y) (closing : Prop)
    [Decidable closing] :
    ([',', ' '].intercalate (x :: xs) ++ if closing then [','] else []).splitOn ',' =
      x :: xs.map (' ' :: ·) ++ if closing then [[]] else [] := by
  induction xs generalizing x with
  | nil =>
    split
    · simpa using List.splitOn_append_cons_self_of_not_mem hx []
    · simpa using List.splitOn_eq_singleton hx
  | cons y ys ih =>
    obtain ⟨hy, hys⟩ := List.forall_mem_cons.1 hxs
    have hrest := @ih (' ' :: y) (by simpa using hy) hys
    rw [List.intercalate_cons_cons_left] at hrest
    rw [List.intercalate_cons_cons, List.append_assoc, List.append_assoc, List.cons_append,
      List.splitOn_append_cons_self_of_not_mem hx]
    simpa using hrest

theorem mem_intercalate {separator : List Char} (h : c ∈ separator.intercalate xs) :
    c ∈ separator ∨ ∃ x ∈ xs, c ∈ x := by
  induction xs with
  | nil => simp at h
  | cons x rest ih =>
    cases rest with
    | nil => simp_all
    | cons y rest =>
      rw [List.intercalate_cons_cons, List.mem_append, List.mem_append] at h
      grind

section Entries

variable {entry : Option String} (h : ∀ word, some word ∈ entries → isEntry word = true)
include h

theorem not_mem_getD (hentry : entry ∈ entries) :
    ',' ∉ (entry.getD "").toList ∧ ']' ∉ (entry.getD "").toList := by
  cases entry with
  | none => simp
  | some word =>
    have hword := h word hentry
    constructor
    · intro hc
      exact (of_mem_of_isEntry hword hc).2.1 rfl
    · intro hc
      exact (of_mem_of_isEntry hword hc).2.2 rfl

/-- What stands for an entry is read as the entry. -/
theorem word?_getD (hentry : entry ∈ entries) : word? (entry.getD "").toList = entry := by
  cases entry with
  | none => rfl
  | some word => exact word?_toList (h word hentry)

theorem map_word?_blank :
    (entries.map fun entry => word? (' ' :: (entry.getD "").toList)) = entries := by
  have hread : ∀ entry ∈ entries, word? (' ' :: (entry.getD "").toList) = entry := by
    intro entry hentry
    rw [word?_blank, word?_getD h hentry]
  rw [List.map_congr_left hread, List.map_id']

/-- The comma behind a hole in the last place leaves an empty stretch before the bracket. -/
theorem map_word?_splitOn_separated (hne : entries ≠ []) :
    ((separated entries).splitOn ',').map word? =
      entries ++ if entries.getLast? = some none then [none] else [] := by
  obtain ⟨first, rest, rfl⟩ := List.exists_cons_of_ne_nil hne
  have hfirst := word?_getD h List.mem_cons_self
  have hrest := map_word?_blank fun word hword => h word (List.mem_cons_of_mem first hword)
  have hcommas : ∀ y ∈ rest.map fun entry => (entry.getD "").toList, ',' ∉ y := by
    intro y hy
    obtain ⟨entry, hentry, rfl⟩ := List.mem_map.1 hy
    exact (not_mem_getD h (List.mem_cons_of_mem first hentry)).1
  rw [separated, List.map_cons,
    splitOn_intercalate_blank (not_mem_getD h List.mem_cons_self).1 hcommas]
  have hempty : word? [] = none := rfl
  split <;> simpa [hfirst, hempty, Function.comp_def] using hrest

theorem entriesBetween_separated : entriesBetween (separated entries) = entries := by
  rcases List.eq_nil_or_concat entries with rfl | ⟨before, last, rfl⟩
  · rfl
  · rw [entriesBetween, map_word?_splitOn_separated h (by simp)]
    cases last <;> simp

theorem not_mem_separated : ']' ∉ separated entries := by
  intro hmem
  rcases List.mem_append.1 hmem with hmem | hmem
  · rcases mem_intercalate hmem with hmem | ⟨y, hy, hmem⟩
    · simp at hmem
    · obtain ⟨entry, hentry, rfl⟩ := List.mem_map.1 hy
      exact (not_mem_getD h hentry).2 hmem
  · split at hmem <;> simp at hmem

/-- A literal is read as the entries it was written for, whatever comes behind it. -/
theorem read?_separated (rest : List Char) :
    read? ('[' :: (separated entries ++ ']' :: rest)) = some (entries, rest) := by
  have hinside : ∀ c ∈ separated entries, (c != ']') = true := by
    intro c hc
    rw [bne_iff_ne]
    rintro rfl
    exact not_mem_separated h hc
  rw [read?, List.dropWhile_append_of_pos hinside, List.takeWhile_append_of_pos hinside]
  simp [entriesBetween_separated h]

end Entries

example : entriesBetween "1,".toList = [some "1"] ∧
    entriesBetween ", 1,,".toList = [none, some "1", none] := by
  decide +kernel

end Reading

end Resumable.Text.Elision
