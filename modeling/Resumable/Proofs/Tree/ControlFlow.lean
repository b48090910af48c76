import Resumable.Proofs.Text.Words
import Resumable.Proofs.Tree.Printing

/-!
# The tokens of branches and loops

Statements that branch and loop over plain names, and the tokens that their texts are read as. Line
breaks, indentation and the blanks between tokens are no part of what is read, so the tokens do not
depend on the depth or on how a branch is set.
-/

namespace Resumable

/-- The words that statements begin or go on with. -/
def keywords : List String := ["if", "else", "while", "return"]

/-- A name that is none of the keywords. -/
@[ext]
structure Identifier where
  name : String
  isName : Text.isName keywords name = true

theorem Identifier.name_ne (x : Identifier) {word : String} (h : word ∈ keywords) :
    x.name ≠ word := by
  rintro rfl
  exact Text.not_mem_of_isName x.isName h

/-- A statement made of branches, loops and blocks. -/
inductive ControlFlow where
  | expr (name : Identifier)
  | ret
  | ifThen (condition : Identifier) (body : ControlFlow)
  | ifElse (condition : Identifier) (body other : ControlFlow)
  | loop (condition : Identifier) (body : ControlFlow)
  | block (body : List ControlFlow)

namespace ControlFlow

open Text

/-- Induction over statements; a block is reached from all of its statements. -/
@[elab_as_elim, induction_eliminator]
theorem ind {motive : ControlFlow → Prop} (expr : ∀ name, motive (.expr name)) (ret : motive .ret)
    (ifThen : ∀ condition body, motive body → motive (.ifThen condition body))
    (ifElse : ∀ condition body other, motive body → motive other →
      motive (.ifElse condition body other))
    (loop : ∀ condition body, motive body → motive (.loop condition body))
    (block : ∀ body, (∀ s ∈ body, motive s) → motive (.block body)) : ∀ s, motive s
  | .expr name => expr name
  | .ret => ret
  | .ifThen condition body => ifThen condition body (ind expr ret ifThen ifElse loop block body)
  | .ifElse condition body other =>
    ifElse condition body other (ind expr ret ifThen ifElse loop block body)
      (ind expr ret ifThen ifElse loop block other)
  | .loop condition body => loop condition body (ind expr ret ifThen ifElse loop block body)
  | .block body => block body fun s _ => ind expr ret ifThen ifElse loop block s

mutual

/-- The tree of the statement. -/
def toNode : ControlFlow → Node
  | .expr x => .exprStmt (.identifier x.name)
  | .ret => .returnStmt none
  | .ifThen condition body => .ifStmt (.identifier condition.name) body.toNode none
  | .ifElse condition body other =>
    .ifStmt (.identifier condition.name) body.toNode (some other.toNode)
  | .loop condition body => .whileStmt (.identifier condition.name) body.toNode
  | .block body => .block (toNodes body)

def toNodes : List ControlFlow → List Node
  | [] => []
  | s :: rest => s.toNode :: toNodes rest

end

/-- What comes before the statement that depends on a condition. -/
def headTokens (keyword : String) (condition : Identifier) : List Token :=
  [.word keyword, .symbol '(', .word condition.name, .symbol ')']

mutual

/-- What the text of the statement is read as. -/
def tokens : ControlFlow → List Token
  | .expr x => [.word x.name, .symbol ';']
  | .ret => [.word "return", .symbol ';']
  | .ifThen condition body => headTokens "if" condition ++ body.tokens
  | .ifElse condition body other =>
    headTokens "if" condition ++ (body.tokens ++ .word "else" :: other.tokens)
  | .loop condition body => headTokens "while" condition ++ body.tokens
  | .block body => .symbol '\x7b' :: (tokensList body ++ [.symbol '\x7d'])

def tokensList : List ControlFlow → List Token
  | [] => []
  | s :: rest => s.tokens ++ tokensList rest

end

theorem tokensList_eq_flatMap (body : List ControlFlow) :
    tokensList body = body.flatMap tokens := by
  induction body with
  | nil => rfl
  | cons s rest ih => rw [tokensList, ih, List.flatMap_cons]

/-- The text of a layout, whatever comes behind it, is read as these tokens. -/
def Spells (layout : Layout) (tokens : List Token) : Prop :=
  ∀ rest, scan (layout.text.toList ++ rest) = tokens ++ scan rest

section Spells

variable {a b : Layout} {s t : List Token}

theorem Spells.append (ha : Spells a s) (hb : Spells b t) : Spells (a ++ b) (s ++ t) := by
  intro rest
  rw [Layout.text_append, String.toList_append, List.append_assoc, ha, hb, List.append_assoc]

theorem spells_lit {text : String}
    (h : text.toList.getLast?.any (!isWordChar ·) = true ∧ scan text.toList = t) :
    Spells (.lit text) t := by
  intro rest
  rw [Layout.text_lit, scan_append h.1, h.2]

theorem spells_newline (depth : Nat) : Spells (Layout.newline depth) [] := by
  intro rest
  have htext : (Layout.newline depth).text.toList = '\n' :: List.replicate (4 * depth) ' ' := by
    simp [Layout.newline, Layout.text, Piece.shown, indentation]
  rw [htext]
  refine scan_blanks _ (List.all_eq_true.2 fun c hc => ?_)
  rcases List.mem_cons.1 hc with rfl | hc
  · decide
  · rw [List.eq_of_mem_replicate hc]
    decide

/-- A name is read to its end if what follows is set off from it. -/
theorem spells_name (x : Identifier) {text : String}
    (hbegin : text.toList.head?.any (!isWordChar ·) = true) (hb : Spells (.lit text) t) :
    Spells (.lit x.name ++ .lit text) (.word x.name :: t) := by
  intro rest
  obtain ⟨c, tail, hcons, hc⟩ := exists_cons_of_any_head? hbegin
  have hends : EndsWord (text.toList ++ rest) := by
    rw [hcons]
    rintro _ ⟨⟩
    simpa using hc
  have hrest := hb rest
  rw [Layout.text_lit] at hrest
  rw [Layout.text_append, Layout.text_lit, Layout.text_lit, String.toList_append,
    List.append_assoc, scan_name x.isName hends, hrest, List.cons_append]

theorem spells_head {opening keyword : String} (condition : Identifier)
    (hopening : Spells (.lit opening) [.word keyword, .symbol '(']) :
    Spells (.lit opening ++ .lit condition.name ++ .lit ") ") (headTokens keyword condition) := by
  have hclose : Spells (.lit ") ") [.symbol ')'] := spells_lit (by decide +kernel)
  rw [List.append_assoc]
  exact hopening.append (spells_name condition (by decide +kernel) hclose)

theorem spells_ifHead (condition : Identifier) :
    Spells (.lit "if (" ++ .lit condition.name ++ .lit ") ") (headTokens "if" condition) := by
  have hopening : Spells (.lit "if (") [.word "if", .symbol '(']  := spells_lit (by decide +kernel)
  exact spells_head condition hopening

/-- What comes before a second branch, on the line of the block before it or on a line of its
own. -/
theorem spells_else (depth : Nat) (behindBlock : Bool) :
    Spells (if behindBlock then .lit " else " else .newline depth ++ .lit "else ")
      [.word "else"] := by
  have hline : Spells (.lit " else ") [.word "else"]  := spells_lit (by decide +kernel)
  have hown : Spells (.lit "else ") [.word "else"]  := spells_lit (by decide +kernel)
  split
  · exact hline
  · exact (spells_newline depth).append hown

theorem spells_onLines (depth : Nat) {body : List ControlFlow}
    (h : ∀ s ∈ body, Spells (s.toNode.layout depth) s.tokens) :
    Spells (.onLines depth (Node.layouts .whole depth (toNodes body))) (tokensList body) := by
  induction body with
  | nil => exact fun rest => rfl
  | cons s rest ih =>
    have hline := (spells_newline depth).append (h s List.mem_cons_self)
    exact hline.append (ih fun t ht => h t (List.mem_cons_of_mem _ ht))

theorem spells_braced (depth : Nat) {body : List ControlFlow}
    (h : ∀ s ∈ body, Spells (s.toNode.layout (depth + 1)) s.tokens) :
    Spells (.braced depth (Node.layouts .whole (depth + 1) (toNodes body)))
      (tokens (.block body)) := by
  have hlines := spells_onLines (depth + 1) h
  cases body with
  | nil => exact spells_lit (by decide +kernel)
  | cons s rest =>
    have hopen : Spells (.lit "\x7b") [.symbol '\x7b'] := spells_lit (by decide +kernel)
    have hclose : Spells (.lit "\x7d") [.symbol '\x7d'] := spells_lit (by decide +kernel)
    have hblock := hopen.append (hlines.append ((spells_newline depth).append hclose))
    rw [← List.append_assoc, ← List.append_assoc] at hblock
    exact hblock

end Spells

/-- At every depth the text of a statement is read as its tokens. -/
theorem spells_layout (s : ControlFlow) (depth : Nat) :
    Spells (s.toNode.layout depth) s.tokens := by
  induction s generalizing depth with
  | expr x =>
    have hend : Spells (.lit ";") [.symbol ';'] := spells_lit (by decide +kernel)
    exact spells_name x (by decide +kernel) hend
  | ret =>
    have hwhole : Spells (.lit "return;") [.word "return", .symbol ';'] :=
      spells_lit (by decide +kernel)
    exact hwhole
  | ifThen condition body ih =>
    have h := (spells_ifHead condition).append (ih depth)
    rw [← List.append_nil (_ ++ body.toNode.layout depth)] at h
    exact h
  | ifElse condition body other ihbody ihother =>
    have helse := (spells_else depth body.toNode.unlocated.isBlock).append (ihother depth)
    have h := (spells_ifHead condition).append ((ihbody depth).append helse)
    rw [← List.append_assoc] at h
    exact h
  | loop condition body ih =>
    have hopening : Spells (.lit "while (") [.word "while", .symbol '('] :=
      spells_lit (by decide +kernel)
    exact (spells_head condition hopening).append (ih depth)
  | block body ih => exact spells_braced depth fun s hs => ih s hs (depth + 1)

end ControlFlow

end Resumable
