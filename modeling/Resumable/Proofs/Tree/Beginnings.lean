import Resumable.Proofs.Text.Words
import Resumable.Proofs.Tree.Printing

/-!
# How expression statements begin

A statement whose text begins with an opening brace is a block, and one that begins with the word
`function` is a declaration. The printer puts parentheses around an expression statement that is a
function or an object literal. What the text begins with is decided further down, though, by the
expression at the end of the chain of callees, bases, left operands and conditions.
`beginsStatement_emit` says which expression statements begin like a block or a declaration.
-/

namespace Resumable

namespace Text

/-- Where a statement is expected, this text begins a block or the declaration of a function. -/
def BeginsStatement (text : List Char) : Prop :=
  text.head? = some '\x7b' ∨ leadingWord text = "function".toList

instance (text : List Char) : Decidable (BeginsStatement text) :=
  inferInstanceAs (Decidable (_ ∨ _))

/-- What comes behind an expression: it goes on with no word and opens no brace. -/
def GoesOn (text : List Char) : Prop := ∀ c ∈ text.head?, isWordChar c = false ∧ c ≠ '\x7b'

/-- A numeral begins with a digit, a point or a sign. -/
def isNumeral (text : String) : Bool :=
  text.toList.head?.any fun c => c.isDigit || ['.', '-', '+'].contains c

/-- An operator is a word of letters or is made of symbols. -/
def isOperator (operator : String) : Bool :=
  isName ["function"] operator && operator.toList.all Char.isAlpha ||
    !operator.toList.isEmpty && operator.toList.all "+-*/%=<>!&|^~?:,.".toList.contains

/-- A character that is the first neither of a block nor of a function. -/
def beginsOther (c : Char) : Bool := c != '\x7b' && c != 'f'

section Begins

variable {c : Char} {text : List Char} {token : String}

theorem goesOn_cons (c : Char) (hc : isWordChar c = false ∧ c ≠ '\x7b') : GoesOn (c :: text) := by
  rintro _ ⟨⟩
  exact hc

theorem GoesOn.endsWord (h : GoesOn text) : EndsWord text := fun c hc => (h c hc).1

theorem not_beginsStatement_cons (hc : beginsOther c = true) : ¬ BeginsStatement (c :: text) := by
  obtain ⟨hbrace, hf⟩ : c ≠ '\x7b' ∧ c ≠ 'f' := by simpa [beginsOther] using hc
  rintro (hhead | hword)
  · exact hbrace (Option.some.inj hhead)
  · rw [leadingWord, List.takeWhile_cons] at hword
    split at hword
    · exact hf (List.cons.inj hword).1
    · cases hword

theorem GoesOn.not_beginsStatement (h : GoesOn text) : ¬ BeginsStatement text := by
  rintro (hhead | hword)
  · exact (h _ hhead).2 rfl
  · rw [leadingWord_of_endsWord h.endsWord] at hword
    cases hword

theorem not_beginsStatement_name (htoken : isName ["function"] token = true) (h : EndsWord text) :
    ¬ BeginsStatement (token.toList ++ text) := by
  have hchars := all_isWordChar_of_isName htoken
  rintro (hhead | hword)
  · obtain ⟨c, rest, hcons⟩ := List.exists_cons_of_ne_nil (toList_ne_nil_of_isName htoken)
    rw [hcons] at hhead
    cases hhead
    have hbrace : isWordChar '\x7b' = true :=
      List.all_eq_true.1 hchars '\x7b' (hcons ▸ List.mem_cons_self)
    revert hbrace
    decide
  · rw [leadingWord_append hchars h] at hword
    exact not_mem_of_isName htoken (List.mem_singleton.2 (String.toList_inj.1 hword))

theorem not_beginsStatement_token (h : token.toList.head?.any beginsOther = true) :
    ¬ BeginsStatement (token.toList ++ text) := by
  obtain ⟨c, rest, hcons, hc⟩ := exists_cons_of_any_head? h
  rw [hcons]
  exact not_beginsStatement_cons hc

theorem beginsOther_of_ne (hbrace : c ≠ '\x7b') (hf : c ≠ 'f') : beginsOther c = true := by
  simp [beginsOther, hbrace, hf]

theorem not_beginsStatement_numeral (h : isNumeral token = true) :
    ¬ BeginsStatement (token.toList ++ text) := by
  obtain ⟨c, rest, hcons, hc⟩ := exists_cons_of_any_head? h
  rw [hcons]
  refine not_beginsStatement_cons (beginsOther_of_ne ?_ ?_) <;> rintro rfl <;> revert hc <;> decide

/-- A word before its operand is set off by a blank. -/
theorem not_beginsStatement_operator (h : isOperator token = true) :
    ¬ BeginsStatement (token.toList ++ ((Node.unaryGap token).toList ++ text)) := by
  rcases Bool.or_eq_true_iff.1 h with hword | hsymbols
  · obtain ⟨hname, hletters⟩ := Bool.and_eq_true_iff.1 hword
    rw [Node.unaryGap, if_pos hletters]
    exact not_beginsStatement_name hname (goesOn_cons ' ' (by decide)).endsWord
  · obtain ⟨hnonempty, hall⟩ := Bool.and_eq_true_iff.1 hsymbols
    cases hcons : token.toList with
    | nil => simp [hcons] at hnonempty
    | cons c rest =>
      have hc := List.all_eq_true.1 hall c (hcons ▸ List.mem_cons_self)
      refine not_beginsStatement_cons (beginsOther_of_ne ?_ ?_) <;> rintro rfl <;> revert hc <;>
        decide

end Begins

end Text

namespace Node

open Text

/-- The expression whose text comes first in the text of this one. A function that is called is
put in parentheses, so then it is the call itself. -/
def lead : Node → Node
  | .binary left _ _ => left.lead
  | .call callee arguments =>
    if callee.unlocated.isFunctionExpr then .call callee arguments else callee.lead
  | .member base _ => base.lead
  | .element base _ => base.lead
  | .conditional condition _ _ => condition.lead
  | .located inner _ => inner.lead
  | node => node

/-- The text of the node begins with the text of a child. -/
def beginsWithChild : Node → Bool
  | .call callee _ => !callee.unlocated.isFunctionExpr
  | .binary .. | .member .. | .element .. | .conditional .. | .located .. => true
  | _ => false

/-- An expression whose first token, if it is a name, a numeral or an operator, is well formed. -/
def isOrdinary : Node → Bool
  | .identifier name => isName ["function"] name
  | .number text => isNumeral text
  | .unary operator _ => isOperator operator
  | node => node.isExpression

/-- A function or an object literal comes first in the text, without being the whole expression. -/
def isExposed (expression : Node) : Bool :=
  !expression.unlocated.needsParentheses && expression.lead.needsParentheses

section Begins

variable {node : Node} {text : List Char}

theorem beginsStatement_of_needsParentheses (depth : Nat) (h : node.needsParentheses = true) :
    BeginsStatement ((node.layoutAs .whole depth).text.toList ++ text) := by
  cases node with
  | object properties =>
    refine .inl ?_
    rw [layoutAs]
    split <;> simp
  | functionExpr name parameters body =>
    refine .inr ?_
    have hword : "function".toList.all isWordChar = true := by decide +kernel
    simp only [layoutAs, Layout.text_append, Layout.text_lit, String.toList_append,
      List.append_assoc]
    exact leadingWord_append hword (goesOn_cons ' ' (by decide)).endsWord
  | _ => cases h

/-- The first token of any other expression, where it is the expression's own, is fine. -/
theorem not_beginsStatement_of_own (depth : Nat) (hown : node.beginsWithChild = false)
    (hordinary : node.isOrdinary = true) (hbare : node.needsParentheses = false) (h : GoesOn text) :
    ¬ BeginsStatement ((node.layoutAs .whole depth).text.toList ++ text) := by
  cases node with
  | binary | member | element | conditional | located => cases hown
  | functionExpr | object => cases hbare
  | identifier name =>
    rw [layoutAs, Layout.text_lit]
    exact not_beginsStatement_name hordinary h.endsWord
  | number numeral =>
    rw [layoutAs, Layout.text_lit]
    exact not_beginsStatement_numeral hordinary
  | string value =>
    rw [layoutAs, Layout.text_lit, quote, String.toList_ofList]
    exact not_beginsStatement_cons (by decide)
  | boolean value =>
    rw [layoutAs, Layout.text_lit]
    cases value with
    | false =>
      have hfalse : isName ["function"] "false" = true := by decide +kernel
      exact not_beginsStatement_name hfalse h.endsWord
    | true => exact not_beginsStatement_token (by decide +kernel)
  | unary operator operand =>
    simp only [layoutAs, Layout.text_append, Layout.text_lit, String.toList_append,
      List.append_assoc]
    exact not_beginsStatement_operator hordinary
  | call callee arguments =>
    have hfunction : callee.unlocated.isFunctionExpr = true := by
      simpa [beginsWithChild] using hown
    simp only [layoutAs, hfunction, parenthesizedIf, if_true, Layout.text_append, Layout.text_lit,
      String.toList_append, List.append_assoc]
    exact not_beginsStatement_token (by decide +kernel)
  | hole => exact h.not_beginsStatement
  | labelRef label =>
    rw [layoutAs, Layout.text_lit, Label.text, String.toList_append, List.append_assoc]
    exact not_beginsStatement_token (by decide +kernel)
  | null | undefined | construct | parenthesized | array | arrow | instruction =>
    simp only [layoutAs, Layout.text_append, Layout.text_lit, String.toList_append,
      List.append_assoc]
    exact not_beginsStatement_token (by decide +kernel)
  | _ => cases hordinary

theorem beginsStatement_iff_of_own (depth : Nat) (hown : node.beginsWithChild = false)
    (hordinary : node.isOrdinary = true) (h : GoesOn text) :
    BeginsStatement ((node.layoutAs .whole depth).text.toList ++ text) ↔
      node.needsParentheses = true := by
  cases hbare : node.needsParentheses with
  | false => exact iff_of_false (not_beginsStatement_of_own depth hown hordinary hbare h) nofun
  | true => exact iff_of_true (beginsStatement_of_needsParentheses depth hbare) rfl

/-- With more text behind an expression, it is the leading expression that decides. -/
theorem beginsStatement_iff_lead (depth : Nat) (hlead : node.lead.isOrdinary = true)
    (h : GoesOn text) :
    BeginsStatement ((node.layoutAs .whole depth).text.toList ++ text) ↔
      node.lead.needsParentheses = true := by
  induction node using lead.induct generalizing text with
  | case1 left operator right ih =>
    rw [lead] at hlead ⊢
    simp only [layoutAs, Layout.text_append, Layout.text_lit, String.toList_append,
      List.append_assoc]
    exact ih hlead (goesOn_cons ' ' (by decide))
  | case2 callee arguments hfunction =>
    rw [lead, if_pos hfunction] at hlead ⊢
    exact beginsStatement_iff_of_own depth (by simp [beginsWithChild, hfunction]) hlead h
  | case3 callee arguments hfunction ih =>
    rw [lead, if_neg hfunction] at hlead ⊢
    simp only [layoutAs, parenthesizedIf, hfunction, Layout.text_append, Layout.text_lit,
      String.toList_append, List.append_assoc]
    exact ih hlead (goesOn_cons '(' (by decide))
  | case4 base property ih =>
    rw [lead] at hlead ⊢
    simp only [layoutAs, Layout.text_append, Layout.text_lit, String.toList_append,
      List.append_assoc]
    exact ih hlead (goesOn_cons '.' (by decide))
  | case5 base index ih =>
    rw [lead] at hlead ⊢
    simp only [layoutAs, Layout.text_append, Layout.text_lit, String.toList_append,
      List.append_assoc]
    exact ih hlead (goesOn_cons '[' (by decide))
  | case6 condition whenTrue whenFalse ih =>
    rw [lead] at hlead ⊢
    simp only [layoutAs, Layout.text_append, Layout.text_lit, String.toList_append,
      List.append_assoc]
    exact ih hlead (goesOn_cons ' ' (by decide))
  | case7 inner span ih =>
    rw [lead] at hlead ⊢
    exact ih hlead h
  | case8 node hbinary hcall hmember helement hconditional hlocated =>
    -- These are the nodes whose text does not begin with the text of a child.
    have hlead_eq : node.lead = node := by simp only [lead]
    rw [hlead_eq] at hlead ⊢
    refine beginsStatement_iff_of_own depth ?_ hlead h
    unfold beginsWithChild
    split <;> simp_all

end Begins

end Node

namespace Printer

open Text

/-- The text of an expression statement begins like a block or like the declaration of a function
exactly if the function or object literal that comes first in it is exposed. So no expression
begins like that whose leading expression is neither of them, or which is one of them itself. -/
theorem beginsStatement_emit (p : Printer) (expression : Node)
    (hlead : expression.lead.isOrdinary = true) :
    ∃ text, (p.emit (.exprStmt expression)).output = p.output ++ text ∧
      (BeginsStatement text.toList ↔ expression.isExposed = true) := by
  refine ⟨_, p.output_emit _, ?_⟩
  rw [Node.layout, Node.layoutAs, Node.isExposed]
  cases hbare : expression.unlocated.needsParentheses with
  | true =>
    refine iff_of_false ?_ Bool.false_ne_true
    simp only [Node.parenthesizedIf, if_true, Layout.text_append, Layout.text_lit,
      String.toList_append, List.append_assoc]
    exact not_beginsStatement_token (by decide +kernel)
  | false =>
    have hbehind : GoesOn ";".toList := goesOn_cons ';' (by decide)
    rw [Node.parenthesizedIf, if_neg Bool.false_ne_true, Layout.text_append, Layout.text_lit,
      String.toList_append, Node.beginsStatement_iff_lead p.depth hlead hbehind, Bool.not_false,
      Bool.true_and]

/-- Three levels down, below a location, an object literal comes first. -/
theorem beginsStatement_emit_object :
    let expression : Node :=
      .binary (.element (.located (.object []) ⟨0, 2⟩) (.identifier "a")) "+" (.number "1")
    expression.lead.isOrdinary = true ∧
      ∃ text, (({} : Printer).emit (.exprStmt expression)).output = "" ++ text ∧
        (BeginsStatement text.toList ↔ expression.isExposed = true) :=
  ⟨rfl, beginsStatement_emit {} _ rfl⟩

/-- The statement that reads a property of a function begins with `function`. -/
theorem beginsStatement_member_function :
    let expression : Node := .member (.functionExpr none [] []) "x"
    (({} : Printer).emit (.exprStmt expression)).output = "function () \x7b \x7d.x;" ∧
      BeginsStatement (({} : Printer).emit (.exprStmt expression)).output.toList := by
  decide +kernel

end Printer

end Resumable
