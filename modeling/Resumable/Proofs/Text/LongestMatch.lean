import Mathlib.Data.List.Basic
import Mathlib.Data.Nat.Find
import Resumable.Proofs.Text.Words

/-!
# Longest match

A text is read from left to right. Blanks are passed over, and any other character begins a lexeme,
a word or a punctuator, of which the longest is taken. Some punctuators begin others, so what stands
behind one decides whether it is read for itself.
-/

namespace Resumable.Text

/-- The punctuators of the language. -/
def punctuators : List String :=
  ["\x7b", "\x7d", "(", ")", "[", "]", ".", "...", ";", ",", "?", ":", "=>", "<", ">", "<=", ">=",
    "==", "!=", "===", "!==", "+", "-", "*", "/", "%", "++", "--", "<<", ">>", ">>>", "&", "|", "^",
    "!", "~", "&&", "||", "=", "+=", "-=", "*=", "/=", "%=", "<<=", ">>=", ">>>=", "&=", "|=", "^="]

/-- A word or a punctuator. -/
def isLexeme (chars : List Char) : Bool :=
  (!chars.isEmpty && chars.all isWordChar) || punctuators.any (·.toList == chars)

/-- The length of the longest lexeme that the text begins with; zero if it begins with none. -/
def lexemeLength (text : List Char) : Nat :=
  Nat.findGreatest (fun n => isLexeme (text.take n) = true) text.length

/-- The lexemes of a text, if it is made of lexemes and blanks. -/
def lexemes? : List Char → Option (List String)
  | [] => some []
  | c :: rest =>
    if isBlank c then lexemes? rest
    else
      match lexemeLength (c :: rest) with
      | 0 => none
      | n + 1 => (lexemes? (rest.drop n)).map (String.ofList (c :: rest.take n) :: ·)
termination_by text => text.length
decreasing_by
  · exact Nat.lt_succ_self rest.length
  · rw [List.length_drop, List.length_cons]
    omega

/-- The characters that stand behind this beginning in a punctuator. -/
def followers (start : List Char) : List Char :=
  punctuators.filterMap fun punctuator =>
    if start.isPrefixOf punctuator.toList then (punctuator.toList.drop start.length).head? else none

/-- A longer lexeme may begin with the lexeme and this character behind it. -/
def goesOnWith (lexeme : List Char) (c : Char) : Bool :=
  (lexeme.all isWordChar && isWordChar c) || (followers lexeme).contains c

section Lexemes

variable {lexeme rest : List Char}

theorem ne_nil_of_isLexeme (h : isLexeme lexeme = true) : lexeme ≠ [] := by
  rintro rfl
  revert h
  decide +kernel

/-- No lexeme begins with a blank. -/
theorem isBlank_of_isLexeme {c : Char} (h : isLexeme (c :: rest) = true) : isBlank c = false := by
  rcases Bool.or_eq_true_iff.1 h with hword | hpunctuator
  · have hc : isWordChar c = true := by simp_all
    simp_all [isWordChar]
  · have hnone : ∀ p ∈ punctuators, p.toList.head?.any isBlank = false := by decide +kernel
    obtain ⟨p, hp, heq⟩ := List.any_eq_true.1 hpunctuator
    have hc := hnone p hp
    rw [beq_iff_eq.1 heq] at hc
    exact hc

/-- A lexeme that goes on is one that goes on with the next character. -/
theorem goesOnWith_of_isLexeme {c : Char} (h : isLexeme (lexeme ++ c :: rest) = true) :
    goesOnWith lexeme c = true := by
  rcases Bool.or_eq_true_iff.1 h with hword | hpunctuator
  · simp_all [goesOnWith]
  · obtain ⟨p, hp, heq⟩ := List.any_eq_true.1 hpunctuator
    have hfollows : c ∈ followers lexeme := by
      refine List.mem_filterMap.2 ⟨p, hp, ?_⟩
      rw [beq_iff_eq.1 heq]
      simp
    simp [goesOnWith, hfollows]

/-- A lexeme is the longest one if it does not go on with the character behind it. -/
theorem lexemeLength_append (h : isLexeme lexeme = true)
    (hrest : ∀ c ∈ rest.head?, goesOnWith lexeme c = false) :
    lexemeLength (lexeme ++ rest) = lexeme.length := by
  refine Nat.findGreatest_eq_iff.2 ⟨by simp, fun _ => by simpa using h, ?_⟩
  intro n hlt hle hlonger
  rw [List.take_append, List.take_of_length_le (Nat.le_of_lt hlt)] at hlonger
  cases rest with
  | nil =>
    rw [List.append_nil] at hle
    omega
  | cons c tail =>
    obtain ⟨k, hk⟩ := Nat.exists_eq_succ_of_ne_zero (Nat.sub_ne_zero_of_lt hlt)
    rw [hk, List.take_succ_cons] at hlonger
    have hstops := hrest c rfl
    rw [goesOnWith_of_isLexeme hlonger] at hstops
    cases hstops

theorem lexemes?_blank {c : Char} (hc : isBlank c = true) :
    lexemes? (c :: rest) = lexemes? rest := by
  rw [lexemes?, if_pos hc]

theorem lexemes?_append (h : isLexeme lexeme = true)
    (hrest : ∀ c ∈ rest.head?, goesOnWith lexeme c = false) :
    lexemes? (lexeme ++ rest) = (lexemes? rest).map (String.ofList lexeme :: ·) := by
  have hlength := lexemeLength_append h hrest
  obtain ⟨c, tail, rfl⟩ := List.exists_cons_of_ne_nil (ne_nil_of_isLexeme h)
  rw [List.cons_append, List.length_cons] at hlength
  rw [List.cons_append, lexemes?, isBlank_of_isLexeme h, hlength]
  simp

end Lexemes

end Resumable.Text
