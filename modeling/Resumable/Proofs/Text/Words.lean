/-!
# Words

A text of the language is read as words, the longest stretches of word characters, and as symbols,
each of the other characters by itself. Blanks only keep words and symbols apart.
-/

namespace Resumable.Text

/-- White space and the ends of lines. -/
def isBlank (c : Char) : Bool :=
  c ∈ ['\t', '\n', '\x0b', '\x0c', '\r', ' ', '\u00a0', '\u1680', '\u2028', '\u2029', '\u202f',
    '\u205f', '\u3000', '\ufeff'] || (0x2000 ≤ c.toNat && c.toNat ≤ 0x200a)

/-- What names, numbers and words of the language are spelled with. Of the characters outside ASCII
that is every one but the blanks. -/
def isWordChar (c : Char) : Bool :=
  !isBlank c && (c.isAlphanum || c = '_' || c = '$' || 128 ≤ c.toNat)

/-- The word that a text begins with; there is none if the text begins with a symbol or a blank. -/
def leadingWord (text : List Char) : List Char := text.takeWhile isWordChar

/-- The word before this text ends where the text begins. -/
def EndsWord (text : List Char) : Prop := ∀ c ∈ text.head?, isWordChar c = false

/-- What a text is read as. -/
inductive Token where
  | word (letters : String)
  | symbol (c : Char)
  deriving DecidableEq

/-- The word that ends here, if there is one. -/
def endWord (word : List Char) : List Token :=
  if word.isEmpty then [] else [.word (String.ofList word)]

/-- The tokens of a text behind the beginning of a word. -/
def scanFrom (word : List Char) : List Char → List Token
  | [] => endWord word
  | c :: rest =>
    if isWordChar c then scanFrom (word ++ [c]) rest
    else endWord word ++ (if isBlank c then [] else [.symbol c]) ++ scanFrom [] rest

/-- The tokens of a text. -/
def scan (text : List Char) : List Token := scanFrom [] text

/-- A name is one word, and none of the reserved ones. -/
def isName (reserved : List String) (name : String) : Bool :=
  !name.toList.isEmpty && name.toList.all isWordChar && !reserved.contains name

section Words

variable {word text : List Char} {reserved : List String} {name : String}

theorem toList_ne_nil_of_isName (h : isName reserved name = true) : name.toList ≠ [] := by
  simp_all [isName]

theorem all_isWordChar_of_isName (h : isName reserved name = true) :
    name.toList.all isWordChar = true := by
  simp_all [isName]

theorem not_mem_of_isName (h : isName reserved name = true) : name ∉ reserved := by
  simp_all [isName]

theorem exists_cons_of_any_head? {p : Char → Bool} (h : text.head?.any p = true) :
    ∃ c rest, text = c :: rest ∧ p c = true := by
  cases text with
  | nil => cases h
  | cons c rest => exact ⟨c, rest, rfl, h⟩

theorem leadingWord_of_endsWord (h : EndsWord text) : leadingWord text = [] := by
  cases text with
  | nil => rfl
  | cons c rest => exact List.takeWhile_cons_of_neg (by simp [h c rfl])

theorem leadingWord_append (hword : word.all isWordChar = true) (h : EndsWord text) :
    leadingWord (word ++ text) = word := by
  rw [leadingWord, List.takeWhile_append_of_pos (List.all_eq_true.1 hword)]
  exact (congrArg (word ++ ·) (leadingWord_of_endsWord h)).trans (List.append_nil word)

end Words

section Scanning

variable {word text rest : List Char} {name : String}

/-- Behind a character that is in no word the text is read anew. -/
theorem scanFrom_append (word : List Char) (hend : text.getLast?.any (!isWordChar ·) = true) :
    scanFrom word (text ++ rest) = scanFrom word text ++ scan rest := by
  induction text generalizing word with
  | nil => cases hend
  | cons c tail ih =>
    rw [List.cons_append, scanFrom, scanFrom]
    cases tail with
    | nil =>
      have hc : isWordChar c = false := by simpa using hend
      simp [hc, scan, scanFrom, endWord]
    | cons d tail =>
      rw [List.getLast?_cons_cons] at hend
      rw [ih _ hend, ih _ hend]
      split <;> simp

theorem scan_append (hend : text.getLast?.any (!isWordChar ·) = true) :
    scan (text ++ rest) = scan text ++ scan rest := scanFrom_append [] hend

/-- The characters of a word are put together. -/
theorem scanFrom_word (before : List Char) (hword : word.all isWordChar = true) :
    scanFrom before (word ++ rest) = scanFrom (before ++ word) rest := by
  induction word generalizing before with
  | nil => simp
  | cons c tail ih =>
    obtain ⟨hc, htail⟩ : isWordChar c = true ∧ tail.all isWordChar = true := by
      simpa only [List.all_cons, Bool.and_eq_true] using hword
    rw [List.cons_append, scanFrom, if_pos hc, ih _ htail, List.append_assoc,
      List.singleton_append]

theorem scanFrom_of_endsWord (word : List Char) (h : EndsWord rest) :
    scanFrom word rest = endWord word ++ scan rest := by
  cases rest with
  | nil => simp [scan, scanFrom, endWord]
  | cons c tail => simp [scan, scanFrom, h c rfl, endWord]

theorem scan_name {reserved : List String} (hname : isName reserved name = true)
    (h : EndsWord rest) : scan (name.toList ++ rest) = .word name :: scan rest := by
  have hword : endWord name.toList = [.word name] := by
    simp [endWord, toList_ne_nil_of_isName hname]
  rw [scan, scanFrom_word [] (all_isWordChar_of_isName hname), List.nil_append,
    scanFrom_of_endsWord _ h, hword, List.singleton_append]

theorem scan_blanks (blanks : List Char) (hblanks : blanks.all isBlank = true) :
    scan (blanks ++ rest) = scan rest := by
  induction blanks with
  | nil => rfl
  | cons c tail ih =>
    obtain ⟨hc, htail⟩ : isBlank c = true ∧ tail.all isBlank = true := by
      simpa only [List.all_cons, Bool.and_eq_true] using hblanks
    have hstep : scan (c :: (tail ++ rest)) = scan (tail ++ rest) := by
      simp [scan, scanFrom, isWordChar, hc, endWord]
    rw [List.cons_append, hstep, ih htail]

end Scanning

end Resumable.Text
