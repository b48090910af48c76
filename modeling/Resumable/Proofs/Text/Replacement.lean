import Mathlib.Data.List.Infix
import Resumable.Text.Template

/-!
# Replacing a text

Replacing goes from left to right: an occurrence at the front of a text is replaced as a whole, a
character that begins none is kept. A replacement that is shorter than what it replaces makes the
text shorter.
-/

namespace Resumable.Text

section Replacement

variable {target replacement text rest : List Char} {c : Char}

/-- The characters that are to be skipped are left out. -/
theorem replaceFrom_append_skip (skipped rest : List Char) :
    replaceFrom target replacement skipped.length (skipped ++ rest) =
      replaceAll target replacement rest := by
  induction skipped with
  | nil => rfl
  | cons c tail ih => simpa [replaceFrom] using ih

theorem replaceAll_append_of_eq (htarget : target ≠ []) :
    replaceAll target replacement (target ++ rest) =
      replacement ++ replaceAll target replacement rest := by
  obtain ⟨c, tail, rfl⟩ := List.exists_cons_of_ne_nil htarget
  have hstarts : (c :: tail).isPrefixOf (c :: (tail ++ rest)) = true := by
    simp [List.isPrefixOf_iff_prefix]
  rw [replaceAll, List.cons_append, replaceFrom, if_pos hstarts]
  exact congrArg (replacement ++ ·) (replaceFrom_append_skip tail rest)

theorem replaceAll_cons_of_not_starts (h : ¬ target <+: c :: rest) :
    replaceAll target replacement (c :: rest) = c :: replaceAll target replacement rest := by
  rw [replaceAll, replaceFrom, if_neg (by simpa [List.isPrefixOf_iff_prefix] using h)]
  rfl

/-- No occurrence of the target begins inside the text when the other one follows. -/
def IsPassed (target text rest : List Char) : Prop :=
  ∀ done ahead, text = done ++ ahead → ahead ≠ [] → ¬ target <+: ahead ++ rest

theorem replaceAll_append_of_isPassed (h : IsPassed target text rest) :
    replaceAll target replacement (text ++ rest) = text ++ replaceAll target replacement rest := by
  induction text with
  | nil => rfl
  | cons c tail ih =>
    have htail : IsPassed target tail rest := fun done ahead heq =>
      h (c :: done) ahead (by rw [heq, List.cons_append])
    have hhead : ¬ target <+: c :: (tail ++ rest) := h [] (c :: tail) rfl (by simp)
    rw [List.cons_append, replaceAll_cons_of_not_starts hhead, ih htail, List.cons_append]

/-- The length is bounded even if some characters are skipped first. -/
theorem length_replaceFrom_le (hle : replacement.length ≤ target.length) (htarget : target ≠ [])
    (skip : Nat) (text : List Char) :
    (replaceFrom target replacement skip text).length + min skip text.length ≤ text.length := by
  induction text generalizing skip with
  | nil => simp [replaceFrom]
  | cons c rest ih =>
    cases skip with
    | succ skip =>
      have htail := ih skip
      simp only [replaceFrom, List.length_cons]
      omega
    | zero =>
      have hpos : 0 < target.length := List.length_pos_of_ne_nil htarget
      rw [replaceFrom]
      split
      next hstarts =>
        have hlength := (List.isPrefixOf_iff_prefix.1 hstarts).length_le
        have htail := ih (target.length - 1)
        simp only [List.length_append, List.length_cons] at hlength ⊢
        omega
      next =>
        have htail := ih 0
        simp only [List.length_cons]
        omega

theorem length_replaceAll_le (hle : replacement.length ≤ target.length) (htarget : target ≠ []) :
    (replaceAll target replacement text).length ≤ text.length := by
  have hbound := length_replaceFrom_le hle htarget 0 text
  rw [replaceAll]
  omega

/-- Where the target occurs, a shorter replacement takes characters away. -/
theorem length_replaceAll_lt (hlt : replacement.length < target.length) (h : target <:+: text) :
    (replaceAll target replacement text).length < text.length := by
  have htarget : target ≠ [] := by
    rintro rfl
    cases hlt
  induction text with
  | nil => exact absurd (List.infix_nil.1 h) htarget
  | cons c rest ih =>
    by_cases hstarts : target <+: c :: rest
    · obtain ⟨behind, hbehind⟩ := hstarts
      have hrest : (replaceAll target replacement behind).length ≤ behind.length :=
        length_replaceAll_le (Nat.le_of_lt hlt) htarget
      rw [← hbehind, replaceAll_append_of_eq htarget, List.length_append, List.length_append]
      omega
    · have hinfix := (List.infix_cons_iff.1 h).resolve_left hstarts
      have htail := ih hinfix
      rw [replaceAll_cons_of_not_starts hstarts, List.length_cons, List.length_cons]
      omega

end Replacement

end Resumable.Text
