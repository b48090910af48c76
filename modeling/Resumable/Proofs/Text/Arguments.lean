import Mathlib.Data.Nat.Find
import Resumable.Proofs.Text.Template

/-!
# Arguments of a template

`fill` comes to the same as `fillAtOnce` for every template if no argument takes part in a
placeholder that is filled after it: none is found in the argument, and none that the text around
it begins is completed by it. An argument that does take part in one is expanded in some template.
-/

namespace Resumable.Text

/-- Wherever the text is put, no occurrence of the pattern takes in any of it or closes over it. -/
def IsInert (text pattern : List Char) : Prop :=
  ∀ before after u v, before ++ text ++ after = u ++ pattern ++ v →
    u.length + pattern.length ≤ before.length ∨ before.length + text.length ≤ u.length

/-- The argument takes no part in a placeholder that is filled after it. -/
def IsSafe (count index : Nat) (argument : String) : Prop :=
  ∀ later, index < later → later < count → IsInert argument.toList (placeholder later).toList

section Inert

variable {text pattern rest : List Char}

theorem IsInert.isPassed (h : IsInert text pattern) (hpattern : pattern ≠ []) (rest : List Char) :
    IsPassed pattern text rest := by
  rintro done ahead rfl hahead ⟨behind, hbehind⟩
  have hpos := List.length_pos_of_ne_nil hpattern
  have hahead' := List.length_pos_of_ne_nil hahead
  have hplace := h [] rest done behind (by simp [List.append_assoc, ← hbehind])
  simp only [List.length_nil, List.length_append] at hplace
  omega

/-- Behind a beginning of the pattern the text does not go on with it. -/
theorem IsInert.length_le (h : IsInert text pattern) {seen after : List Char} (hseen : seen ≠ [])
    (hstarts : pattern <+: seen ++ (text ++ after)) : pattern.length ≤ seen.length := by
  obtain ⟨behind, hbehind⟩ := hstarts
  have hpos := List.length_pos_of_ne_nil hseen
  have hplace := h seen after [] behind (by simp [List.append_assoc, ← hbehind])
  simp only [List.length_nil] at hplace
  omega

/-- The part of a text between two others, place by place. -/
theorem getElem?_middle {before middle after : List Char} {n : Nat} (hn : n < middle.length) :
    (before ++ middle ++ after)[before.length + n]? = middle[n]? := by
  rw [List.append_assoc, List.getElem?_append_right (Nat.le_add_right _ _),
    Nat.add_sub_cancel_left, List.getElem?_append_left hn]

/-- A text without braces takes no part in a placeholder unless it is all digits. -/
theorem isInert_of_letter (later : Nat) (hopen : '\x7b' ∉ text) (hclose : '\x7d' ∉ text)
    (hletter : ∃ c ∈ text, c.isDigit = false) : IsInert text (placeholder later).toList := by
  intro before after u v hsame
  by_contra hapart
  have hlength : (placeholder later).toList.length = (Nat.toDigits 10 later).length + 2 := by
    simp [toList_placeholder]
  have hplace : ∀ n < text.length, ∀ m < (placeholder later).toList.length,
      before.length + n = u.length + m → text[n]? = (placeholder later).toList[m]? := by
    intro n hn m hm hnm
    have hmiddle : (before ++ text ++ after)[before.length + n]? = text[n]? := getElem?_middle hn
    rw [← hmiddle, hsame, hnm, getElem?_middle hm]
  -- The braces of the occurrence are on either side of the text, so all of the text is digits.
  have hleft : u.length < before.length := by
    by_contra hle
    have hbrace := hplace (u.length - before.length) (by omega) 0 (by omega) (by omega)
    rw [toList_placeholder, List.getElem?_cons_zero] at hbrace
    exact hopen (List.mem_of_getElem? hbrace)
  have hright : before.length + text.length < u.length + (placeholder later).toList.length := by
    by_contra hle
    have hbrace := hplace (u.length + (Nat.toDigits 10 later).length + 1 - before.length)
      (by omega) ((Nat.toDigits 10 later).length + 1) (by omega) (by omega)
    rw [toList_placeholder, List.getElem?_cons_succ, List.getElem?_concat_length] at hbrace
    exact hclose (List.mem_of_getElem? hbrace)
  obtain ⟨c, hc, hdigit⟩ := hletter
  obtain ⟨n, hn, hget⟩ := List.getElem_of_mem hc
  have hcovered := hplace n hn (before.length + n - u.length) (by omega) (by omega)
  obtain ⟨m, hm⟩ : ∃ m, before.length + n - u.length = m + 1 := ⟨_, (Nat.sub_one_add_one (by omega)).symm⟩
  rw [List.getElem?_eq_getElem hn, hget, toList_placeholder, hm, List.getElem?_cons_succ,
    List.getElem?_append_left (by omega)] at hcovered
  rw [isDigit_of_mem_toDigits (List.mem_of_getElem? hcovered.symm)] at hdigit
  cases hdigit

end Inert

/-- The text after the arguments have been filled in one after another, counted from an index. -/
def stagesFrom (index : Nat) (arguments : List String) (text : List Char) : List Char :=
  (arguments.zipIdx index).foldl
    (fun text (argument, index) => replaceAll (placeholder index).toList argument.toList text) text

theorem fill_eq_stagesFrom (template : String) (arguments : List String) :
    fill template arguments = String.ofList (stagesFrom 0 arguments template.toList) := rfl

section Stages

variable {count : Nat} {arguments : List String} {ps : List Part}

theorem stagesFrom_append (index : Nat) (arguments others : List String) (text : List Char) :
    stagesFrom index (arguments ++ others) text =
      stagesFrom (index + arguments.length) others (stagesFrom index arguments text) := by
  simp [stagesFrom, List.zipIdx_append]

/-- What looks like the rest of a placeholder behind its beginning stands in the template itself. -/
theorem spell_of_prefix_expand {k : Nat}
    (hinert : ∀ a ∈ arguments, IsInert a.toList (placeholder k).toList)
    {seen unseen : List Char} (hpattern : (placeholder k).toList = seen ++ unseen)
    (hseen : seen ≠ []) (h : unseen <+: ps.flatMap (Part.expand arguments)) :
    unseen <+: spell ps := by
  induction ps generalizing seen unseen with
  | nil => exact h
  | cons part rest ih =>
    cases unseen with
    | nil => exact List.nil_prefix
    | cons d unseen =>
    cases part with
    | char c =>
      obtain ⟨rfl, hrest⟩ := List.cons_prefix_cons.1 h
      have hlater : (placeholder k).toList = seen ++ [d] ++ unseen := by simp [hpattern]
      exact List.cons_prefix_cons.2 ⟨rfl, ih hlater (by simp) hrest⟩
    | hole index =>
      rw [List.flatMap_cons, Part.expand] at h
      cases hargument : arguments[index]? with
      | some a =>
        rw [hargument, Option.getD_some] at h
        have hstarts := (List.prefix_append_right_inj seen).2 h
        rw [← hpattern] at hstarts
        have hlength := (hinert a (List.mem_of_getElem? hargument)).length_le hseen hstarts
        simp only [hpattern, List.length_append, List.length_cons] at hlength
        omega
      | none =>
        rw [hargument, Option.getD_none, toList_placeholder] at h
        obtain ⟨rfl, -⟩ := List.cons_prefix_cons.1 h
        exact absurd List.mem_cons_self (open_not_mem_of_placeholder hpattern hseen)

/-- The placeholder of one argument is not found inside that of another one. -/
theorem isPassed_placeholder {i k : Nat} (hne : k ≠ i) (rest : List Char) :
    IsPassed (placeholder k).toList (placeholder i).toList rest := by
  intro done ahead heq hahead hstarts
  cases done with
  | nil =>
    rw [List.nil_append] at heq
    exact hne (eq_of_placeholder_starts (heq ▸ hstarts))
  | cons d done =>
    have hopen := open_not_mem_of_placeholder heq (by simp)
    obtain ⟨c, tail, rfl⟩ := List.exists_cons_of_ne_nil hahead
    rw [toList_placeholder, List.cons_append] at hstarts
    obtain ⟨rfl, -⟩ := List.cons_prefix_cons.1 hstarts
    exact hopen List.mem_cons_self

/-- One argument more: its placeholders are found in its holes and nowhere else. -/
theorem replaceAll_expand (argument : String) (hparsed : IsParsed count ps)
    (hcount : arguments.length < count)
    (hinert : ∀ a ∈ arguments, IsInert a.toList (placeholder arguments.length).toList) :
    replaceAll (placeholder arguments.length).toList argument.toList
        (ps.flatMap (Part.expand arguments)) =
      ps.flatMap (Part.expand (arguments ++ [argument])) := by
  induction ps with
  | nil => rfl
  | cons part rest ih =>
    rw [List.flatMap_cons, List.flatMap_cons]
    cases part with
    | char c =>
      obtain ⟨hhole, hrest⟩ := hparsed
      have hnone : ¬ (placeholder arguments.length).toList <+:
          c :: rest.flatMap (Part.expand arguments) := by
        intro hstarts
        obtain ⟨d, tail, hspelled⟩ := List.exists_cons_of_ne_nil
          (placeholder_ne_nil arguments.length)
        rw [hspelled] at hstarts
        obtain ⟨rfl, htail⟩ := List.cons_prefix_cons.1 hstarts
        have hbegun : (placeholder arguments.length).toList = [d] ++ tail := hspelled
        have hbare := spell_of_prefix_expand hinert hbegun (by simp) htail
        apply hole?_eq_none.1 hhole arguments.length hcount
        rw [hspelled]
        exact List.cons_prefix_cons.2 ⟨rfl, hbare⟩
      simp only [Part.expand, List.singleton_append]
      rw [replaceAll_cons_of_not_starts hnone, ih hrest]
    | hole index =>
      obtain ⟨-, hrest⟩ := hparsed
      simp only [Part.expand]
      rcases Nat.lt_trichotomy index arguments.length with hlt | rfl | hgt
      · have hinert' := hinert arguments[index] (List.getElem_mem hlt)
        rw [List.getElem?_append_left hlt, List.getElem?_eq_getElem hlt, Option.getD_some,
          replaceAll_append_of_isPassed (hinert'.isPassed (placeholder_ne_nil _) _), ih hrest]
      · rw [List.getElem?_eq_none (Nat.le_refl _), Option.getD_none,
          List.getElem?_concat_length, Option.getD_some,
          replaceAll_append_of_eq (placeholder_ne_nil _), ih hrest]
      · have habsent : (arguments ++ [argument])[index]? = none := by
          simp
          omega
        rw [List.getElem?_eq_none (by omega), habsent, Option.getD_none,
          replaceAll_append_of_isPassed (isPassed_placeholder (by omega) _), ih hrest]

theorem IsSafe.mono {fewer index : Nat} {argument : String} (h : IsSafe count index argument)
    (hle : fewer ≤ count) : IsSafe fewer index argument :=
  fun later hlater hlt => h later hlater (Nat.lt_of_lt_of_le hlt hle)

/-- Safe arguments are filled into their holes, one after another. -/
theorem stagesFrom_spell (hparsed : IsParsed count ps) (hcount : arguments.length ≤ count)
    (hsafe : ∀ index a, arguments[index]? = some a → IsSafe arguments.length index a) :
    stagesFrom 0 arguments (spell ps) = ps.flatMap (Part.expand arguments) := by
  induction arguments using List.reverseRecOn with
  | nil =>
    have hexpand : Part.expand [] = Part.spell := by
      funext part
      cases part <;> simp [Part.expand, Part.spell]
    rw [hexpand]
    rfl
  | append_singleton arguments argument ih =>
    simp only [List.length_append, List.length_singleton] at hcount hsafe
    have hearlier : ∀ index a, arguments[index]? = some a →
        IsSafe (arguments.length + 1) index a := fun index a ha =>
      hsafe index a (by rw [List.getElem?_append_left (List.getElem?_eq_some_iff.1 ha).1, ha])
    have hstages := ih (by omega) fun index a ha => (hearlier index a ha).mono (by omega)
    have hinert : ∀ a ∈ arguments, IsInert a.toList (placeholder arguments.length).toList := by
      intro a ha
      obtain ⟨index, hindex⟩ := List.getElem?_of_mem ha
      exact hearlier index a hindex _ (List.getElem?_eq_some_iff.1 hindex).1 (by omega)
    rw [stagesFrom_append, hstages, Nat.zero_add]
    exact replaceAll_expand argument hparsed hcount hinert

/-- Filling in safe arguments one after another comes to filling them in at once. -/
theorem fill_eq_fillAtOnce (template : String)
    (hsafe : ∀ index a, arguments[index]? = some a → IsSafe arguments.length index a) :
    fill template arguments = fillAtOnce template arguments := by
  have hstages := stagesFrom_spell (isParsed_parts arguments.length template.toList)
    (Nat.le_refl _) hsafe
  rw [spell_parts] at hstages
  rw [fill_eq_stagesFrom, hstages, fillAtOnce]

end Stages

section Sharpness

variable {count index : Nat} {argument : String} {text pattern x y : List Char}

/-- A text that is not inert completes the pattern between a beginning and an end of it. -/
theorem exists_around_of_not_isInert (hpattern : pattern ≠ []) (h : ¬ IsInert text pattern) :
    ∃ x y, pattern <:+: x ++ text ++ y ∧ (x <+: pattern ∧ x.length < pattern.length) ∧
      y <:+ pattern ∧ y.length < pattern.length := by
  simp only [IsInert, not_forall, not_or, Nat.not_le] at h
  obtain ⟨before, after, u, v, hsame, hbefore, hbehind⟩ := h
  have hpos := List.length_pos_of_ne_nil hpattern
  rw [List.append_assoc, List.append_assoc, List.append_eq_append_iff] at hsame
  rcases hsame with ⟨inner, rfl, hsame⟩ | ⟨x, rfl, hsame⟩
  · simp only [List.length_append] at hbefore hbehind
    rw [← List.append_assoc, List.append_eq_append_iff] at hsame
    rcases hsame with ⟨y, hinside, -⟩ | ⟨tail, rfl, -⟩
    · have hlength := congrArg List.length hinside
      simp only [List.length_append] at hlength
      have hsuffix : y <:+ pattern :=
        List.suffix_of_suffix_length_le ⟨text, hinside.symm⟩ ⟨inner, rfl⟩ (by omega)
      exact ⟨[], y, ⟨inner, [], by simpa using hinside⟩, ⟨List.nil_prefix, hpos⟩,
        hsuffix, by omega⟩
    · exact ⟨[], [], ⟨inner, tail, by simp⟩, ⟨List.nil_prefix, hpos⟩, List.nil_suffix, hpos⟩
  · simp only [List.length_append] at hbefore hbehind
    rw [← List.append_assoc, List.append_eq_append_iff] at hsame
    rcases hsame with ⟨tail, hinside, -⟩ | ⟨y, rfl, -⟩
    · have hstarts : x <+: pattern :=
        List.prefix_of_prefix_length_le ⟨text, hinside⟩ ⟨tail, rfl⟩ (by omega)
      exact ⟨x, [], ⟨[], tail, by simpa using hinside.symm⟩, ⟨hstarts, by omega⟩,
        List.nil_suffix, hpos⟩
    · simp only [List.length_append] at hbefore
      exact ⟨x, y, List.infix_rfl, ⟨⟨text ++ y, by simp⟩, by simp; omega⟩,
        ⟨x ++ text, rfl⟩, by simp; omega⟩

theorem close_not_mem_of_starts (hx : x <+: (placeholder index).toList)
    (hlength : x.length < (placeholder index).toList.length) : '\x7d' ∉ x := by
  obtain ⟨unseen, hunseen⟩ := hx
  apply close_not_mem_of_placeholder hunseen.symm
  rintro rfl
  simp [← hunseen] at hlength

theorem open_not_mem_of_suffix (hy : y <:+ (placeholder index).toList)
    (hlength : y.length < (placeholder index).toList.length) : '\x7b' ∉ y := by
  obtain ⟨seen, hseen⟩ := hy
  apply open_not_mem_of_placeholder hseen.symm
  rintro rfl
  simp [← hseen] at hlength

@[simp] theorem spell_chars (text : List Char) : spell (text.map .char) = text := by
  induction text with
  | nil => rfl
  | cons c rest ih => simpa [spell, Part.spell] using ih

theorem isParsed_chars (hy : '\x7b' ∉ y) : IsParsed count (y.map .char) := by
  induction y with
  | nil => trivial
  | cons c rest ih =>
    simp only [List.mem_cons, not_or] at hy
    refine ⟨hole?_eq_none.2 fun i _ hstarts => hy.1 ?_, ih hy.2⟩
    rw [toList_placeholder] at hstarts
    exact (List.cons_prefix_cons.1 hstarts).1

/-- A hole between two texts. -/
def around (x : List Char) (index : Nat) (y : List Char) : List Part :=
  x.map .char ++ .hole index :: y.map .char

theorem spell_around (index : Nat) (x y : List Char) :
    spell (around x index y) = x ++ (placeholder index).toList ++ y := by
  have hx := spell_chars x
  have hy := spell_chars y
  simp only [spell] at hx hy
  simp [around, spell, Part.spell, hx, hy]

/-- No placeholder begins in a text and ends behind the opening brace of another one. -/
theorem not_placeholder_prefix {i : Nat} (hx : '\x7d' ∉ x) (hne : x ≠ []) :
    ¬ (placeholder i).toList <+: x ++ ((placeholder index).toList ++ y) := by
  intro hstarts
  have hends : '\x7d' ∈ (placeholder i).toList := by simp [toList_placeholder]
  rcases List.prefix_or_prefix_of_prefix hstarts (List.prefix_append _ _) with hwithin | ⟨t, ht⟩
  · exact hx (hwithin.subset hends)
  · rw [← ht, List.prefix_append_right_inj] at hstarts
    cases t with
    | nil =>
      rw [← ht, List.append_nil] at hends
      exact hx hends
    | cons d t =>
      rw [toList_placeholder index, List.cons_append] at hstarts
      obtain ⟨rfl, -⟩ := List.cons_prefix_cons.1 hstarts
      exact open_not_mem_of_placeholder ht.symm hne List.mem_cons_self

/-- No placeholder closes before the hole, and none opens behind it. -/
theorem isParsed_around (hindex : index < count) (hx : '\x7d' ∉ x) (hy : '\x7b' ∉ y) :
    IsParsed count (around x index y) := by
  induction x with
  | nil => exact ⟨hindex, isParsed_chars hy⟩
  | cons c rest ih =>
    have hrest : '\x7d' ∉ rest := fun hmem => hx (List.mem_cons_of_mem _ hmem)
    have hnone : hole? count (c :: spell (around rest index y)) = none := by
      rw [spell_around, List.append_assoc, ← List.cons_append]
      exact hole?_eq_none.2 fun i _ => not_placeholder_prefix hx (by simp)
    exact ⟨hnone, ih hrest⟩

theorem stagesFrom_cons (index : Nat) (argument : String) (arguments : List String)
    (text : List Char) :
    stagesFrom index (argument :: arguments) text =
      stagesFrom (index + 1) arguments
        (replaceAll (placeholder index).toList argument.toList text) := by
  simp [stagesFrom, List.zipIdx_cons]

/-- A stand-in that takes no part in any placeholder and is shorter than all of them. -/
def dot : String := "."

theorem isSafe_dot : IsSafe count index dot := fun later _ _ =>
  isInert_of_letter later (by decide) (by decide) ⟨'.', by decide, by decide⟩

theorem length_dot_lt (index : Nat) :
    dot.toList.length < (placeholder index).toList.length := by
  have hdot : dot.toList.length = 1 := by decide
  rw [hdot, toList_placeholder]
  simp

theorem length_stagesFrom_dots_le (index dots : Nat) (text : List Char) :
    (stagesFrom index (List.replicate dots dot) text).length ≤ text.length := by
  induction dots generalizing index text with
  | zero => exact Nat.le_refl _
  | succ dots ih =>
    rw [List.replicate_succ, stagesFrom_cons]
    exact (ih _ _).trans
      (length_replaceAll_le (Nat.le_of_lt (length_dot_lt index)) (placeholder_ne_nil index))

/-- The argument among stand-ins. -/
def amongDots (count index : Nat) (argument : String) : List String :=
  (List.replicate count dot).set index argument

@[simp] theorem length_amongDots : (amongDots count index argument).length = count := by
  simp [amongDots]

theorem eq_or_eq_dot_of_getElem? {k : Nat} {a : String}
    (h : (amongDots count index argument)[k]? = some a) : (k = index ∧ a = argument) ∨ a = dot := by
  rw [amongDots, List.getElem?_set] at h
  split at h
  next hk =>
    split at h
    · exact .inl ⟨hk.symm, (Option.some.inj h).symm⟩
    · cases h
  next => exact .inr (List.eq_of_mem_replicate (List.mem_of_getElem? h))

theorem getElem?_amongDots (hindex : index < count) :
    (amongDots count index argument)[index]? = some argument := by
  simp [amongDots, hindex]

/-- More stand-ins behind. -/
theorem amongDots_eq_append {fewer : Nat} (hindex : index < fewer) (hfewer : fewer ≤ count) :
    amongDots count index argument =
      amongDots fewer index argument ++ List.replicate (count - fewer) dot := by
  have hsplit : List.replicate count dot =
      List.replicate fewer dot ++ List.replicate (count - fewer) dot := by
    rw [List.replicate_append_replicate, Nat.add_sub_cancel' hfewer]
  rw [amongDots, hsplit, List.set_append_left _ _ (by simpa using hindex), amongDots]

theorem expand_around {arguments : List String} (h : arguments[index]? = some argument) :
    (around x index y).flatMap (Part.expand arguments) = x ++ argument.toList ++ y := by
  have hchars : ∀ text : List Char, (text.map Part.char).flatMap (Part.expand arguments) = text := by
    intro text
    induction text with
    | nil => rfl
    | cons c rest ih => simpa [Part.expand] using ih
  simp [around, hchars, Part.expand, h]

/-- The first placeholder that the argument takes part in. -/
theorem exists_first_of_not_isSafe (h : ¬ IsSafe count index argument) :
    ∃ later, index < later ∧ later < count ∧
      ¬ IsInert argument.toList (placeholder later).toList ∧ IsSafe later index argument := by
  classical
  have hexists : ∃ later, index < later ∧ later < count ∧
      ¬ IsInert argument.toList (placeholder later).toList := by
    simpa [IsSafe, not_forall] using h
  obtain ⟨hindex, hcount, hbad⟩ := Nat.find_spec hexists
  refine ⟨Nat.find hexists, hindex, hcount, hbad, fun earlier hearlier hlt => ?_⟩
  have hleast := Nat.find_min hexists hlt
  simp only [not_and, not_not] at hleast
  exact hleast hearlier (hlt.trans hcount)

/-- An argument that takes part in a later placeholder is expanded in some template, even if all the
other arguments are stand-ins. -/
theorem exists_fill_ne (h : ¬ IsSafe count index argument) :
    ∃ template, fill template (amongDots count index argument) ≠
      fillAtOnce template (amongDots count index argument) := by
  obtain ⟨later, hindex, hcount, hbad, hsafe⟩ := exists_first_of_not_isSafe h
  obtain ⟨x, y, hfound, ⟨hx, hxlength⟩, hy, hylength⟩ :=
    exists_around_of_not_isInert (placeholder_ne_nil later) hbad
  have hparsed : IsParsed count (around x index y) :=
    isParsed_around (hindex.trans hcount) (close_not_mem_of_starts hx hxlength)
      (open_not_mem_of_suffix hy hylength)
  have hatOnce : fillAtOnce (String.ofList (spell (around x index y)))
      (amongDots count index argument) = String.ofList (x ++ argument.toList ++ y) := by
    rw [fillAtOnce, String.toList_ofList, length_amongDots, parts_spell hparsed,
      expand_around (getElem?_amongDots (hindex.trans hcount))]
  -- Up to the first placeholder that it takes part in, the argument is left alone.
  have hearlier : stagesFrom 0 (amongDots later index argument) (spell (around x index y)) =
      x ++ argument.toList ++ y := by
    rw [stagesFrom_spell hparsed (by simp; omega), expand_around (getElem?_amongDots hindex)]
    intro k a ha
    rcases eq_or_eq_dot_of_getElem? ha with ⟨rfl, rfl⟩ | rfl
    · rwa [length_amongDots]
    · exact isSafe_dot
  refine ⟨String.ofList (spell (around x index y)), fun heq => ?_⟩
  obtain ⟨behind, hbehind⟩ : ∃ behind, count - later = behind + 1 := ⟨count - later - 1, by omega⟩
  rw [hatOnce, fill_eq_stagesFrom, String.toList_ofList,
    amongDots_eq_append hindex (Nat.le_of_lt hcount), stagesFrom_append, hearlier, Nat.zero_add,
    length_amongDots, hbehind, List.replicate_succ, stagesFrom_cons, String.ofList_inj] at heq
  have hshrinks := length_replaceAll_lt (length_dot_lt later) hfound
  have hstays := length_stagesFrom_dots_le (later + 1) behind
    (replaceAll (placeholder later).toList dot.toList (x ++ argument.toList ++ y))
  rw [heq] at hstays
  omega

end Sharpness

/-- Arguments that are all safe are filled in as if at once, in every template. An argument that is
not safe is expanded in some template, even next to arguments that are. -/
theorem simultaneous_of_safe (template : String) (arguments : List String) :
    ((∀ index a, arguments[index]? = some a → IsSafe arguments.length index a) →
        fill template arguments = fillAtOnce template arguments) ∧
      ∀ index argument, arguments[index]? = some argument →
        ¬ IsSafe arguments.length index argument →
        ∃ other others, others.length = arguments.length ∧ others[index]? = some argument ∧
          (∀ k a, k ≠ index → others[k]? = some a → IsSafe arguments.length k a) ∧
          fill other others ≠ fillAtOnce other others := by
  refine ⟨fill_eq_fillAtOnce template, ?_⟩
  intro index argument hargument hunsafe
  obtain ⟨hindex, -⟩ := List.getElem?_eq_some_iff.1 hargument
  obtain ⟨other, hne⟩ := exists_fill_ne hunsafe
  refine ⟨other, amongDots arguments.length index argument, length_amongDots,
    getElem?_amongDots hindex, fun k a hk ha => ?_, hne⟩
  rcases eq_or_eq_dot_of_getElem? ha with ⟨rfl, -⟩ | rfl
  · exact absurd rfl hk
  · exact isSafe_dot

/-- Two names are filled in as if at once, and a placeholder in place of the first one is not safe. -/
theorem simultaneous_of_safe_names :
    fill "Parameter \x7b0\x7d of \x7b1\x7d" ["x", "f"] = "Parameter x of f" ∧
      ∃ other others, others.length = 2 ∧ others[0]? = some "\x7b1\x7d" ∧
        (∀ k a, k ≠ 0 → others[k]? = some a → IsSafe 2 k a) ∧
        fill other others ≠ fillAtOnce other others := by
  have hname : ∀ index, ∀ name ∈ ["x", "f"], IsSafe 2 index name := by
    intro index name hname later _ _
    simp only [List.mem_cons, List.not_mem_nil, or_false] at hname
    rcases hname with rfl | rfl
    · exact isInert_of_letter later (by decide) (by decide) ⟨'x', by decide, by decide⟩
    · exact isInert_of_letter later (by decide) (by decide) ⟨'f', by decide, by decide⟩
  have hplaceholder : ¬ IsSafe 2 0 "\x7b1\x7d" := by
    intro hsafe
    rcases hsafe 1 (by decide) (by decide) [] [] [] [] (by decide) with hbefore | hbehind
    · exact absurd hbefore (by decide)
    · exact absurd hbehind (by decide)
  refine ⟨?_, (simultaneous_of_safe "" ["\x7b1\x7d", "f"]).2 0 _ rfl hplaceholder⟩
  rw [(simultaneous_of_safe _ ["x", "f"]).1 fun index a ha =>
    hname index a (List.mem_of_getElem? ha)]
  decide +kernel

/-- The second argument is filled into the first one. -/
theorem fill_expands_argument :
    fill "\x7b0\x7d\x7b1\x7d" ["\x7b1\x7d", "x"] = "xx" ∧
      fillAtOnce "\x7b0\x7d\x7b1\x7d" ["\x7b1\x7d", "x"] = "\x7b1\x7dx" := by
  decide +kernel

end Resumable.Text
