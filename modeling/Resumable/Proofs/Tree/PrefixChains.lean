import Mathlib.Data.Fintype.OfMap
import Mathlib.Data.List.Chain
import Resumable.Proofs.Text.LongestMatch
import Resumable.Proofs.Tree.ControlFlow

/-!
# Chains of prefix operators

The printer sets an operator off from its operand only if it is spelled in letters. A sign right
before another of its kind is read together with it, as the operator that is spelled like both, so
the text of a chain of operators may be that of another chain. `regroup` is the chain that is read;
it is the one that was printed exactly if no sign stands right before its like.
-/

namespace Resumable

open Text

/-- An operator that is written before its operand. -/
inductive PrefixOperator where
  | not
  | complement
  | plus
  | minus
  | increment
  | decrement
  | typeof
  | void
  | delete
  deriving DecidableEq

namespace PrefixOperator

instance : Fintype PrefixOperator :=
  .ofList [.not, .complement, .plus, .minus, .increment, .decrement, .typeof, .void, .delete] <| by
    intro o
    cases o <;> decide

def text : PrefixOperator → String
  | .not => "!"
  | .complement => "~"
  | .plus => "+"
  | .minus => "-"
  | .increment => "++"
  | .decrement => "--"
  | .typeof => "typeof"
  | .void => "void"
  | .delete => "delete"

/-- The operator that is spelled like this one twice. -/
def double? : PrefixOperator → Option PrefixOperator
  | .plus => some .increment
  | .minus => some .decrement
  | _ => none

/-- Right before the next operator, this one is read as the first half of its double. -/
def fuses (o next : PrefixOperator) : Bool :=
  o.double?.any fun double => next = o || next = double

/-- The operator with what sets it off from its operand. -/
def written (o : PrefixOperator) : List Char := o.text.toList ++ (Node.unaryGap o.text).toList

/-- The operator is read to its end if this text comes behind it. -/
def StopsBefore (o : PrefixOperator) (rest : List Char) : Prop :=
  ∀ c ∈ ((Node.unaryGap o.text).toList ++ rest).head?, goesOnWith o.text.toList c = false

/-- The chain with each pair of signs that is read as one operator put together. -/
def regroup : List PrefixOperator → List PrefixOperator
  | [] => []
  | [o] => [o]
  | o :: next :: rest =>
    match o.double? with
    | none => o :: regroup (next :: rest)
    | some double =>
      if next = o then double :: regroup rest
      else if next = double then double :: regroup (o :: rest)
      else o :: regroup (next :: rest)
termination_by chain => chain.length

/-- No operator of the chain is read together with the one behind it. -/
def IsSettled (chain : List PrefixOperator) : Prop :=
  chain.IsChain fun o next => o.fuses next = false

section Operators

variable {o next double : PrefixOperator} {rest : List Char}

theorem text_injective : Function.Injective text := by decide +kernel

theorem isLexeme_text : ∀ o : PrefixOperator, isLexeme o.text.toList = true := by decide +kernel

theorem written_ne_nil : ∀ o : PrefixOperator, o.written ≠ [] := by decide +kernel

theorem fuses_of_double?_eq_none (h : o.double? = none) : o.fuses next = false := by
  simp [fuses, h]

theorem fuses_of_ne (h : o.double? = some double) (hne : next ≠ o) (hne' : next ≠ double) :
    o.fuses next = false := by
  simp [fuses, h, hne, hne']

theorem double?_double : ∀ o double : PrefixOperator,
    o.double? = some double → double.double? = none := by
  decide +kernel

/-- Nothing fuses with a double but what fuses with its half. -/
theorem fuses_of_half : ∀ o next double : PrefixOperator,
    o.fuses next = false → next.double? = some double → o.fuses double = false := by
  decide +kernel

theorem written_double : ∀ o double : PrefixOperator,
    o.double? = some double → double.written = o.written ++ o.written := by
  decide +kernel

/-- An operator of letters is followed by a blank, and one of symbols goes on with no word. -/
theorem gap_cases : ∀ o : PrefixOperator,
    Node.unaryGap o.text = " " ∧ goesOnWith o.text.toList ' ' = false ∨
      Node.unaryGap o.text = "" ∧ o.text.toList.all isWordChar = false ∧
        (followers o.text.toList).all (!isWordChar ·) = true := by
  decide +kernel

theorem stopsBefore_written (h : o.fuses next = false) : o.StopsBefore (next.written ++ rest) := by
  have hpairs : ∀ o next : PrefixOperator, o.fuses next = false →
      ((Node.unaryGap o.text).toList ++ next.written).head?.all (!goesOnWith o.text.toList ·) =
        true := by
    decide +kernel
  intro c hc
  rw [← List.append_assoc, List.head?_append_of_ne_nil _ (by simp [written_ne_nil])] at hc
  simpa [Option.mem_def.1 hc] using hpairs o next h

theorem stopsBefore_name (o : PrefixOperator) {reserved : List String} {name : String}
    (hname : isName reserved name = true) : o.StopsBefore name.toList := by
  intro c hc
  rcases gap_cases o with ⟨hgap, hblank⟩ | ⟨hgap, hsymbols, hfollowers⟩
  · rw [hgap] at hc
    cases hc
    exact hblank
  · rw [hgap] at hc
    have hword : isWordChar c = true :=
      List.all_eq_true.1 (all_isWordChar_of_isName hname) c (List.mem_of_mem_head? hc)
    have hfollows : c ∉ followers o.text.toList := by
      intro hmem
      have hsymbol := List.all_eq_true.1 hfollowers c hmem
      rw [hword] at hsymbol
      cases hsymbol
    simp [goesOnWith, hsymbols, hfollows]

/-- An operator that is read to its end is read for itself. -/
theorem lexemes?_written (h : o.StopsBefore rest) :
    lexemes? (o.written ++ rest) = (lexemes? rest).map (o.text :: ·) := by
  have hgap : lexemes? ((Node.unaryGap o.text).toList ++ rest) = lexemes? rest := by
    unfold Node.unaryGap
    split
    · exact lexemes?_blank (by decide)
    · rfl
  rw [written, List.append_assoc, lexemes?_append (isLexeme_text o) h, hgap, String.ofList_toList]

end Operators

section Chains

variable {chain chain' : List PrefixOperator} {x x' : Identifier}

/-- The first operator is read for itself, or as the first half of its double. -/
theorem head?_regroup {o b : PrefixOperator} {rest : List PrefixOperator}
    (h : b ∈ (regroup (o :: rest)).head?) : b = o ∨ o.double? = some b := by
  cases rest with
  | nil => simp_all [regroup]
  | cons next rest =>
    rw [regroup] at h
    grind

/-- Regrouping changes no text. -/
theorem flatMap_written_regroup (chain : List PrefixOperator) :
    (regroup chain).flatMap written = chain.flatMap written := by
  fun_induction regroup chain with
  | case1 => rfl
  | case2 o => rfl
  | case3 o next rest _ ih => simp [ih]
  | case4 o rest double hdouble ih => simp [ih, written_double o double hdouble]
  | case5 o rest double hdouble _ ih => simp [ih, written_double o double hdouble]
  | case6 o next rest double _ _ _ ih => simp [ih]

theorem isSettled_regroup (chain : List PrefixOperator) : IsSettled (regroup chain) := by
  unfold IsSettled
  fun_induction regroup chain with
  | case1 => constructor
  | case2 o => constructor
  | case3 o next rest hsingle ih =>
    exact List.isChain_cons.2 ⟨fun b _ => fuses_of_double?_eq_none hsingle, ih⟩
  | case4 o rest double hdouble ih =>
    have hlast := double?_double o double hdouble
    exact List.isChain_cons.2 ⟨fun b _ => fuses_of_double?_eq_none hlast, ih⟩
  | case5 o rest double hdouble _ ih =>
    have hlast := double?_double o double hdouble
    exact List.isChain_cons.2 ⟨fun b _ => fuses_of_double?_eq_none hlast, ih⟩
  | case6 o next rest double hdouble hne hne' ih =>
    refine List.isChain_cons.2 ⟨fun b hb => ?_, ih⟩
    have hapart := fuses_of_ne hdouble hne hne'
    rcases head?_regroup hb with rfl | hb
    · exact hapart
    · exact fuses_of_half o next b hapart hb

theorem IsSettled.regroup_eq (h : IsSettled chain) : regroup chain = chain := by
  unfold IsSettled at h
  fun_induction regroup chain with
  | case1 => rfl
  | case2 o => rfl
  | case3 o next rest _ ih => rw [ih h.of_cons]
  -- In the next two cases the first two operators fuse, which a settled chain rules out.
  | case4 o rest double hdouble ih => simp_all [fuses]
  | case5 o rest double hdouble _ ih => simp_all [fuses]
  | case6 o next rest double _ _ _ ih => rw [ih h.of_cons]

theorem regroup_eq_iff : regroup chain = chain ↔ IsSettled chain :=
  ⟨fun h => h ▸ isSettled_regroup chain, IsSettled.regroup_eq⟩

/-- A settled chain is read operator by operator. -/
theorem IsSettled.lexemes?_eq (h : IsSettled chain) (x : Identifier) :
    lexemes? (chain.flatMap written ++ x.name.toList) = some (chain.map text ++ [x.name]) := by
  induction chain with
  | nil =>
    have hword : isLexeme x.name.toList = true := by
      simp [isLexeme, all_isWordChar_of_isName x.isName, toList_ne_nil_of_isName x.isName]
    have hread : lexemes? (x.name.toList ++ []) = _ := lexemes?_append hword nofun
    simpa [lexemes?] using hread
  | cons o rest ih =>
    -- What stands behind the operator is the name, or an operator it does not fuse with.
    have hstops : o.StopsBefore (rest.flatMap written ++ x.name.toList) := by
      cases rest with
      | nil => exact stopsBefore_name o x.isName
      | cons next rest =>
        rw [List.flatMap_cons, List.append_assoc]
        exact stopsBefore_written (List.isChain_cons_cons.1 h).1
    rw [List.flatMap_cons, List.append_assoc, lexemes?_written hstops, ih h.of_cons]
    rfl

/-- Whichever chain was printed, its text is read as the regrouped one. -/
theorem lexemes?_flatMap_written (chain : List PrefixOperator) (x : Identifier) :
    lexemes? (chain.flatMap written ++ x.name.toList) =
      some ((regroup chain).map text ++ [x.name]) := by
  rw [← flatMap_written_regroup, (isSettled_regroup chain).lexemes?_eq x]

/-- The words of a chain and its operand are those of no other. -/
theorem map_text_append_inj {operand operand' : String} :
    chain'.map text ++ [operand'] = chain.map text ++ [operand] ↔
      chain' = chain ∧ operand' = operand := by
  rw [List.append_singleton_inj, text_injective.list_map.eq_iff]

/-- Chains are written alike exactly if they are read alike. -/
theorem flatMap_written_append_inj :
    chain'.flatMap written ++ x'.name.toList = chain.flatMap written ++ x.name.toList ↔
      regroup chain' = regroup chain ∧ x' = x := by
  constructor
  · intro h
    have hread := congrArg lexemes? h
    rw [lexemes?_flatMap_written, lexemes?_flatMap_written, Option.some_inj] at hread
    obtain ⟨hchain, hname⟩ := map_text_append_inj.1 hread
    exact ⟨hchain, Identifier.ext hname⟩
  · rintro ⟨hchain, rfl⟩
    rw [← flatMap_written_regroup chain', hchain, flatMap_written_regroup]

end Chains

/-- The operators of the chain before the operand, the first one outermost. -/
def toNode (chain : List PrefixOperator) (x : Identifier) : Node :=
  chain.foldr (fun o operand => .unary o.text operand) (.identifier x.name)

theorem toList_text_layout (chain : List PrefixOperator) (x : Identifier) (depth : Nat) :
    ((toNode chain x).layout depth).text.toList = chain.flatMap written ++ x.name.toList := by
  unfold Node.layout
  induction chain with
  | nil => simp [toNode, Node.layoutAs]
  | cons o rest ih =>
    rw [toNode] at ih
    simp [toNode, Node.layoutAs, ih, written]

/-- The text is read as this chain before the operand. -/
def Reads (text : String) (chain : List PrefixOperator) (operand : String) : Prop :=
  lexemes? text.toList = some (chain.map PrefixOperator.text ++ [operand])

end PrefixOperator

open PrefixOperator

/-- By longest match the text of a chain is read as one chain: the printed one with each pair of
signs that spells another operator put together. That is the printed one itself exactly if no sign
stands right before its like. Two chains have the same text exactly if they are read as the same
one. -/
theorem Printer.reads_emit_chain (p : Printer) (chain : List PrefixOperator) (x : Identifier) :
    ∃ text, (p.emit (toNode chain x)).output = p.output ++ text ∧
      (∀ read operand, Reads text read operand ↔ read = regroup chain ∧ operand = x.name) ∧
      (Reads text chain x.name ↔ IsSettled chain) ∧
      ∀ chain' x', (p.emit (toNode chain' x')).output = p.output ++ text ↔
        regroup chain' = regroup chain ∧ x' = x := by
  have hreads : ∀ read operand, Reads ((toNode chain x).layout p.depth).text read operand ↔
      read = regroup chain ∧ operand = x.name := by
    intro read operand
    rw [Reads, toList_text_layout, lexemes?_flatMap_written, Option.some_inj, eq_comm,
      map_text_append_inj]
  refine ⟨_, p.output_emit _, hreads, ?_, fun chain' x' => ?_⟩
  · rw [hreads, eq_comm, and_iff_left rfl, regroup_eq_iff]
  · rw [output_emit, String.append_right_inj, ← String.toList_inj, toList_text_layout,
      toList_text_layout, flatMap_written_append_inj]

/-- A sign before its like is printed as the operator that doubles it. -/
theorem Printer.emit_doubled_sign :
    (({} : Printer).emit (.unary "+" (.unary "+" (.identifier "x")))).output = "++x" ∧
      (({} : Printer).emit (.unary "++" (.identifier "x"))).output = "++x" ∧
      Node.unary "+" (.unary "+" (.identifier "x")) ≠ .unary "++" (.identifier "x") :=
  ⟨by decide +kernel, by decide +kernel, by simp⟩

end Resumable
