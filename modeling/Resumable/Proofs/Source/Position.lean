import Mathlib.Data.List.DropRight
import Resumable.Source.Position

/-!
# Where a text ends

The position at the end of a text, read off the whole text: how many newlines are in it, and how
many UTF-16 code units come after the last of them. A position that is moved on while text is
written stays the position at the end of all that was written. `shift` carries a position on a page
over to where the page is put behind other text.
-/

namespace Resumable.Position

/-- The position at the end of these characters. -/
def ofChars (chars : List Char) : Position :=
  ⟨chars.count '\n', utf16Length (chars.rtakeWhile (· ≠ '\n'))⟩

/-- The position at the end of a text. -/
def atEnd (text : String) : Position := ofChars text.toList

section Chars

variable {before chars : List Char}

/-- After a newline a line is empty. -/
theorem ofChars_concat_newline (before : List Char) :
    ofChars (before ++ ['\n']) = (ofChars before).nextLine := by
  simp [ofChars, nextLine, utf16Length]

/-- Characters without a newline go on with the line. -/
theorem ofChars_append (h : '\n' ∉ chars) :
    ofChars (before ++ chars) = (ofChars before).right (utf16Length chars) := by
  induction chars using List.reverseRecOn with
  | nil => simp [right, utf16Length]
  | append_singleton chars c ih =>
    rw [List.mem_append, List.mem_singleton, not_or] at h
    have hc : c ≠ '\n' := fun hc => h.2 hc.symm
    have ih := ih h.1
    simp only [ofChars, right, Position.mk.injEq] at ih ⊢
    rw [← List.append_assoc, List.rtakeWhile_concat, if_pos (by simpa using hc)]
    simp only [List.count_append, utf16Length_append, List.count_singleton, beq_iff_eq, hc,
      if_false]
    simp only [List.count_append] at ih
    omega

/-- Characters that take one column each. -/
theorem utf16Length_eq_length (h : ∀ c ∈ chars, c.toNat < 0x10000) :
    utf16Length chars = chars.length := by
  induction chars with
  | nil => rfl
  | cons c rest ih =>
    have hc : utf16Width c = 1 := if_pos (h c List.mem_cons_self)
    rw [utf16Length, ih fun c hc => h c (List.mem_cons_of_mem _ hc), hc, List.length_cons]
    omega

/-- Every ASCII character takes one column, so both ways of measuring agree. -/
theorem lineWidth_eq (chars : List Char) : lineWidth chars = utf16Length chars := by
  unfold lineWidth
  split
  · next hascii =>
    refine (utf16Length_eq_length fun c hc => ?_).symm
    have hlt : c.toNat < 0x80 := by simpa using List.all_eq_true.1 hascii c hc
    omega
  · rfl

/-- The characters up to the newline that is found hold no other. -/
theorem split_of_idxOf? {offset : Nat} (h : chars.idxOf? '\n' = some offset) :
    '\n' ∉ chars.take offset ∧
      chars = chars.take offset ++ ['\n'] ++ chars.drop (offset + 1) := by
  obtain ⟨hlt, hat, hfirst⟩ := List.idxOf?_eq_some_iff.1 h
  constructor
  · intro hmem
    obtain ⟨j, hj, heq⟩ := List.getElem_of_mem hmem
    rw [List.length_take] at hj
    rw [List.getElem_take] at heq
    exact hfirst j (by omega) heq
  · rw [List.append_assoc, List.singleton_append, ← hat, ← List.drop_eq_getElem_cons hlt,
      List.take_append_drop]

/-- Searching for newlines and measuring the rest leads to the end of the text. -/
theorem afterChars_ofChars (before chars : List Char) :
    (ofChars before).afterChars chars = ofChars (before ++ chars) := by
  induction hlen : chars.length using Nat.strongRecOn generalizing before chars with
  | ind length ih =>
    rw [afterChars]
    split
    · next offset hfound =>
      obtain ⟨hfree, hsplit⟩ := split_of_idxOf? hfound
      obtain ⟨hlt, -⟩ := List.idxOf?_eq_some_iff.1 hfound
      have hline : (ofChars before).nextLine =
          ofChars (before ++ (chars.take offset ++ ['\n'])) := by
        rw [← List.append_assoc, ofChars_concat_newline, ofChars_append hfree]
        rfl
      rw [hline, ih _ (by rw [List.length_drop]; omega) _ _ rfl, List.append_assoc, ← hsplit]
    · next hnone =>
      rw [ofChars_append (List.idxOf?_eq_none_iff.1 hnone), lineWidth_eq]

end Chars

@[simp] theorem after_atEnd (before text : String) :
    (atEnd before).after text = atEnd (before ++ text) := by
  simp [after, atEnd, afterChars_ofChars]

theorem nextLine_atEnd (before : String) : (atEnd before).nextLine = atEnd (before ++ "\n") := by
  simp [atEnd, ofChars_concat_newline]

/-- Blanks move the position to the right. -/
theorem right_atEnd (before : String) (n : Nat) :
    (atEnd before).right n = atEnd (before ++ String.ofList (List.replicate n ' ')) := by
  have hfree : '\n' ∉ List.replicate n ' ' := by simp
  have hwidth : utf16Length (List.replicate n ' ') = n := by
    rw [utf16Length_eq_length fun c hc => ?_, List.length_replicate]
    rw [List.eq_of_mem_replicate hc]
    decide
  simp only [atEnd, String.toList_append, String.toList_ofList]
  rw [ofChars_append hfree, hwidth]

theorem atEnd_empty : atEnd "" = start := by
  simp [atEnd, ofChars, start, utf16Length]

/-- The line never goes back. -/
theorem line_atEnd_append (before text : String) :
    (atEnd (before ++ text)).line = (atEnd before).line + text.toList.count '\n' := by
  simp [atEnd, ofChars]

section Shift

/-- Where the position `p` of a page lies once the page begins at `base`: the lines are counted on,
and only what is on the first line of the page moves to the right. -/
def shift (base p : Position) : Position :=
  ⟨base.line + p.line, if p.line = 0 then base.column + p.column else p.column⟩

theorem shift_start (base : Position) : base.shift start = base := by
  simp [shift, start]

theorem shift_nextLine (base p : Position) : base.shift p.nextLine = (base.shift p).nextLine := by
  simp [shift, nextLine, Nat.add_assoc]

theorem shift_right (base p : Position) (columns : Nat) :
    base.shift (p.right columns) = (base.shift p).right columns := by
  unfold shift right
  split <;> simp [Nat.add_assoc]

/-- The search for newlines does not look at where it began. -/
theorem shift_afterChars (base p : Position) (chars : List Char) :
    base.shift (p.afterChars chars) = (base.shift p).afterChars chars := by
  fun_induction p.afterChars chars with
  | case1 p chars offset hfound ih =>
    rw [ih, shift_nextLine, afterChars.eq_def (base.shift p)]
    split
    · next offset' hfound' =>
      obtain rfl : offset = offset' := by simpa [hfound] using hfound'
      rfl
    · next hnone => simp [hfound] at hnone
  | case2 p chars hnone =>
    rw [shift_right, afterChars.eq_def (base.shift p)]
    split
    · next offset hfound => simp [hnone] at hfound
    · rfl

theorem shift_after (base p : Position) (text : String) :
    base.shift (p.after text) = (base.shift p).after text :=
  shift_afterChars base p text.toList

/-- A text can be written in two parts. -/
theorem after_append (p : Position) (a b : String) : p.after (a ++ b) = (p.after a).after b := by
  have hpage (text : String) : p.after text = p.shift (atEnd text) := by
    rw [← String.empty_append (s := text), ← after_atEnd, shift_after, atEnd_empty, shift_start,
      String.empty_append]
  rw [hpage a, ← shift_after, after_atEnd, hpage]

end Shift

end Resumable.Position
