import Resumable.Proofs.Tree.Filling
import Resumable.Proofs.Tree.Layout

/-!
# Respelling a layout

What becomes of the layout of a tree when its references are filled in with numbers or labels. Each
reference is one word of the layout, in printed order, and only these words change. With the law of
filling it follows what resolving the references of a tree does to the tree and to its layout.
-/

namespace Resumable

namespace Layout

/-- The second layout is the first one with other words in the place of label references, which are
listed in printed order with what stands in their place. -/
inductive Respells : Layout → Layout → List (Label × String) → Prop where
  | nil : Respells [] [] []
  | same {a b : Layout} {words : List (Label × String)} (piece : Piece)
      (after : Respells a b words) : Respells (piece :: a) (piece :: b) words
  | word {a b : Layout} {words : List (Label × String)} (label : Label) (word : String)
      (after : Respells a b words) :
      Respells (.text label.text :: a) (.text word :: b) ((label, word) :: words)

/-- Layouts respelled one after another. -/
inductive RespellsAll : List Layout → List Layout → List (Label × String) → Prop where
  | nil : RespellsAll [] [] []
  | cons {a b : Layout} {as bs : List Layout} {words words' : List (Label × String)}
      (first : Respells a b words) (others : RespellsAll as bs words') :
      RespellsAll (a :: as) (b :: bs) (words ++ words')

section Closure

variable {a b c d : Layout} {as bs cs ds : List Layout} {words words' : List (Label × String)}

namespace Respells

theorem refl (l : Layout) : Respells l l [] := by
  induction l with
  | nil => exact .nil
  | cons piece rest ih => exact .same piece ih

theorem append (h : Respells a b words) (h' : Respells c d words') :
    Respells (a ++ c) (b ++ d) (words ++ words') := by
  induction h with
  | nil => exact h'
  | same piece _ ih => exact .same piece ih
  | word label word _ ih => exact .word label word ih

theorem after_same (h : Respells a b words) (l : Layout) : Respells (l ++ a) (l ++ b) words :=
  (refl l).append h

theorem before_same (h : Respells a b words) (l : Layout) : Respells (a ++ l) (b ++ l) words := by
  simpa using h.append (refl l)

theorem parenthesizedIf (h : Respells a b words) (condition : Bool) :
    Respells (Node.parenthesizedIf condition a) (Node.parenthesizedIf condition b) words := by
  unfold Node.parenthesizedIf
  split
  · exact (h.after_same _).before_same _
  · exact h

end Respells

namespace RespellsAll

theorem append (h : RespellsAll as bs words) (h' : RespellsAll cs ds words') :
    RespellsAll (as ++ cs) (bs ++ ds) (words ++ words') := by
  induction h with
  | nil => exact h'
  | cons first _ ih =>
    rw [List.append_assoc]
    exact .cons first ih

theorem isEmpty_eq (h : RespellsAll as bs words) : bs.isEmpty = as.isEmpty := by
  cases h <;> rfl

theorem flatten (h : RespellsAll as bs words) : Respells as.flatten bs.flatten words := by
  induction h with
  | nil => exact .nil
  | cons first _ ih => exact first.append ih

theorem onLines (h : RespellsAll as bs words) (depth : Nat) :
    Respells (onLines depth as) (onLines depth bs) words := by
  induction h with
  | nil => exact .nil
  | cons first _ ih => exact (first.after_same _).append ih

theorem commaSeparated (h : RespellsAll as bs words) :
    Respells (commaSeparated as) (commaSeparated bs) words := by
  induction h with
  | nil => exact .nil
  | cons first others ih =>
    cases others with
    | nil => simpa [Layout.commaSeparated] using first
    | cons second others =>
      have hrest := first.append (ih.after_same (lit ", "))
      simpa [Layout.commaSeparated] using hrest

theorem braced (h : RespellsAll as bs words) (depth : Nat) :
    Respells (braced depth as) (braced depth bs) words := by
  unfold Layout.braced
  rw [h.isEmpty_eq]
  split
  · next hempty =>
    cases h with
    | nil => exact .refl _
    | cons first others => simp at hempty
  · exact (((h.onLines _).after_same _).before_same _).before_same _

end RespellsAll

end Closure

end Layout

namespace Node

open Layout

/-- The word that a number or a label is written as. -/
def word? : Node → Option String
  | .number text => some text
  | .labelRef label => some label.text
  | _ => none

/-- The nodes are numbers and labels, and these are their words. -/
def AreWords (nodes : List Node) (words : List String) : Prop :=
  nodes.map word? = words.map some

section Words

variable {nodes : List Node} {words : List String}

theorem AreWords.take (h : AreWords nodes words) (k : Nat) :
    AreWords (nodes.take k) (words.take k) := by
  rw [AreWords, List.map_take, h, List.map_take]

theorem AreWords.drop (h : AreWords nodes words) (k : Nat) :
    AreWords (nodes.drop k) (words.drop k) := by
  rw [AreWords, List.map_drop, h, List.map_drop]

theorem AreWords.append {nodes' : List Node} {words' : List String} (h : AreWords nodes words)
    (h' : AreWords nodes' words') : AreWords (nodes ++ nodes') (words ++ words') := by
  rw [AreWords, List.map_append, h, h', List.map_append]

/-- Two lists of references share the words out. -/
theorem zip_append_words (labels labels' : List Label) (words : List String) :
    (labels ++ labels').zip words =
      labels.zip (words.take labels.length) ++ labels'.zip (words.drop labels.length) := by
  induction labels generalizing words with
  | nil => simp
  | cons label labels ih =>
    cases words with
    | nil => simp
    | cons word words => simp [ih]

/-- Two nodes that printing treats alike where it looks at what kind of node they are. -/
structure SameKind (a b : Node) : Prop where
  functionExpr : a.isFunctionExpr = b.isFunctionExpr
  hole : a.isHole = b.isHole
  block : a.isBlock = b.isBlock
  parentheses : a.needsParentheses = b.needsParentheses
  short : a.isShort = b.isShort
  declaration : a.isVarDeclaration = b.isVarDeclaration

/-- A node filled in with words is of the kind it was before. -/
theorem sameKind_fill (node : Node) (h : AreWords nodes words) :
    SameKind (node.fill nodes).unlocated node.unlocated := by
  induction node using unlocated.induct with
  | case1 node span ih => exact ih
  | case2 node hlocated =>
    cases node with
    | located node span => exact absurd rfl (hlocated node span)
    | labelRef label =>
      cases nodes with
      | nil => exact ⟨rfl, rfl, rfl, rfl, rfl, rfl⟩
      | cons first others =>
        cases first with
        | number text => exact ⟨rfl, rfl, rfl, rfl, rfl, rfl⟩
        | labelRef label => exact ⟨rfl, rfl, rfl, rfl, rfl, rfl⟩
        | _ =>
          cases words with
          | nil => cases h
          | cons word words => simp [AreWords, word?] at h
    | _ => exact ⟨rfl, rfl, rfl, rfl, rfl, rfl⟩

theorem fitsCaseLine_fill (body : List Node) (h : AreWords nodes words) :
    fitsCaseLine (fillList body nodes) = fitsCaseLine body := by
  cases body with
  | nil => rfl
  | cons node rest =>
    cases rest with
    | nil => exact (sameKind_fill node (h.take _)).short
    | cons second rest => rfl

theorem trailingComma_fill (elements : List Node) (h : AreWords nodes words) :
    trailingComma (fillList elements nodes) = trailingComma elements := by
  have hlast : (fillList elements nodes).getLast?.any (·.unlocated.isHole) =
      elements.getLast?.any (·.unlocated.isHole) := by
    induction elements generalizing nodes words with
    | nil => rfl
    | cons node rest ih =>
      cases rest with
      | nil => exact (sameKind_fill node (h.take node.references.length)).hole
      | cons second rest => exact ih (h.drop node.references.length)
  rw [trailingComma, trailingComma, hlast]

theorem listLayout_fill (parameters : List (Parameter Node)) (nodes : List Node) :
    Parameter.listLayout (fillParameters parameters nodes) = Parameter.listLayout parameters := by
  have hnames : (fillParameters parameters nodes).map
        (fun p => (if p.rest then "..." else "") ++ p.name) =
      parameters.map fun p => (if p.rest then "..." else "") ++ p.name := by
    induction parameters generalizing nodes with
    | nil => rfl
    | cons p rest ih => rw [fillParameters, List.map_cons, List.map_cons, ih]
  rw [Parameter.listLayout, Parameter.listLayout, hnames]

theorem isEmpty_fillProperties (properties : List (Property Node)) (nodes : List Node) :
    (fillProperties properties nodes).isEmpty = properties.isEmpty := by
  cases properties <;> rfl

end Words

section Layouts

/-- The statements of a clause stay on the line of its test, or stay on lines of their own. -/
theorem respells_caseBody {depth : Nat} {body body' : List Node} {words : List (Label × String)}
    (hfits : fitsCaseLine body' = fitsCaseLine body)
    (hhere : RespellsAll (layouts .whole depth body) (layouts .whole depth body') words)
    (hbelow : RespellsAll (layouts .whole (depth + 1) body) (layouts .whole (depth + 1) body')
      words) :
    Respells
      (if fitsCaseLine body then lit " " ++ (layouts .whole depth body).flatten
        else onLines (depth + 1) (layouts .whole (depth + 1) body))
      (if fitsCaseLine body' then lit " " ++ (layouts .whole depth body').flatten
        else onLines (depth + 1) (layouts .whole (depth + 1) body')) words := by
  rw [hfits]
  split
  · exact hhere.flatten.after_same _
  · exact hbelow.onLines _

mutual

/-- The words of a tree are respelled where its references are, in printed order. -/
theorem respells_fill (slot : Slot) (depth : Nat) : ∀ (node : Node) {nodes : List Node}
    {words : List String}, AreWords nodes words →
    Respells (node.layoutAs slot depth) ((node.fill nodes).layoutAs slot depth)
      (node.references.zip words)
  | .labelRef label, nodes, words, h => by
    cases nodes with
    | nil =>
      cases words with
      | nil => exact .refl _
      | cons word words => cases h
    | cons first others =>
      cases words with
      | nil => cases h
      | cons word words =>
        obtain ⟨hfirst, -⟩ := List.cons_eq_cons.1 h
        cases first with
        | number text =>
          obtain rfl : text = word := Option.some.inj hfirst
          exact .word label text .nil
        | labelRef label' =>
          obtain rfl : label'.text = word := Option.some.inj hfirst
          exact .word label label'.text .nil
        | _ => cases hfirst
  | .located node span, nodes, words, h => by
    rw [fill, references]
    cases slot with
    | whole =>
      rw [layoutAs, layoutAs]
      exact .same _ (respells_fill .whole depth node h)
    | binding =>
      rw [layoutAs, layoutAs]
      exact respells_fill .binding depth node h
    | head =>
      rw [layoutAs, layoutAs, (sameKind_fill node h).declaration]
      split
      · exact respells_fill .head depth node h
      · exact .same _ (respells_fill .whole depth node h)
  | .binary left operator right, nodes, words, h => by
    rw [fill, references, zip_append_words, layoutAs, layoutAs]
    exact ((respells_fill .whole depth left (h.take _)).before_same _).append
      (respells_fill .whole depth right (h.drop _))
  | .unary operator operand, nodes, words, h => by
    rw [fill, references, layoutAs, layoutAs]
    exact (respells_fill .whole depth operand h).after_same _
  | .call callee arguments, nodes, words, h => by
    rw [fill, references, zip_append_words, layoutAs, layoutAs,
      (sameKind_fill callee (h.take _)).functionExpr]
    exact ((((respells_fill .whole depth callee (h.take _)).parenthesizedIf _).before_same _).append
      (respells_fillList .whole depth arguments (h.drop _)).commaSeparated).before_same _
  | .construct callee arguments, nodes, words, h => by
    rw [fill, references, zip_append_words, layoutAs, layoutAs]
    exact ((((respells_fill .whole depth callee (h.take _)).after_same _).before_same _).append
      (respells_fillList .whole depth arguments (h.drop _)).commaSeparated).before_same _
  | .member base property, nodes, words, h => by
    rw [fill, references, layoutAs, layoutAs]
    exact (respells_fill .whole depth base h).before_same _
  | .element base index, nodes, words, h => by
    rw [fill, references, zip_append_words, layoutAs, layoutAs]
    exact (((respells_fill .whole depth base (h.take _)).before_same _).append
      (respells_fill .whole depth index (h.drop _))).before_same _
  | .conditional condition whenTrue whenFalse, nodes, words, h => by
    rw [fill, references, zip_append_words, zip_append_words, ← List.append_assoc, layoutAs,
      layoutAs]
    exact ((((respells_fill .whole depth condition (h.take _)).before_same _).append
      (respells_fill .whole depth whenTrue ((h.drop _).take _))).before_same _).append
      (respells_fill .whole depth whenFalse ((h.drop _).drop _))
  | .parenthesized inner, nodes, words, h => by
    rw [fill, references, layoutAs, layoutAs]
    exact ((respells_fill .whole depth inner h).after_same _).before_same _
  | .array elements, nodes, words, h => by
    rw [fill, references, layoutAs, layoutAs, trailingComma_fill elements h]
    exact (((respells_fillList .whole depth elements h).commaSeparated.after_same _).before_same
      _).before_same _
  | .object properties, nodes, words, h => by
    rw [fill, references, layoutAs, layoutAs, isEmpty_fillProperties]
    split
    · next hempty =>
      rw [List.isEmpty_iff.1 hempty]
      exact .refl _
    · exact ((respells_fillProperties depth properties h).commaSeparated.after_same _).before_same _
  | .functionExpr name parameters body, nodes, words, h => by
    rw [fill, references, zip_append_words, layoutAs, layoutAs, listLayout_fill]
    exact ((respells_fillDefaults (depth + 1) parameters (h.take _)).append
      (respells_fillList .whole (depth + 1) body (h.drop _))).braced depth |>.after_same _
  | .arrow parameters body, nodes, words, h => by
    rw [fill, references, zip_append_words, layoutAs, layoutAs, listLayout_fill]
    exact ((respells_fillDefaults (depth + 1) parameters (h.take _)).append
      (respells_fillList .whole (depth + 1) body (h.drop _))).braced depth |>.after_same _
  | .functionDecl name parameters body, nodes, words, h => by
    rw [fill, references, zip_append_words, layoutAs, layoutAs, listLayout_fill]
    exact ((respells_fillDefaults (depth + 1) parameters (h.take _)).append
      (respells_fillList .whole (depth + 1) body (h.drop _))).braced depth |>.after_same _
  | .method name parameters body, nodes, words, h => by
    rw [fill, references, zip_append_words, layoutAs, layoutAs, listLayout_fill]
    exact ((respells_fillDefaults (depth + 1) parameters (h.take _)).append
      (respells_fillList .whole (depth + 1) body (h.drop _))).braced depth |>.after_same _
  | .getter name body, nodes, words, h => by
    rw [fill, references, layoutAs, layoutAs]
    exact ((respells_fillList .whole (depth + 1) body h).braced depth).after_same _
  | .varDecl name initializer, nodes, words, h => by
    have declared := (respells_fillOption " = " depth initializer h).after_same (lit name)
    rw [fill, references]
    cases slot with
    | whole =>
      rw [layoutAs, layoutAs]
      exact (declared.after_same _).before_same _
    | binding =>
      rw [layoutAs, layoutAs]
      exact declared
    | head =>
      rw [layoutAs, layoutAs]
      exact declared.after_same _
  | .varList declarations, nodes, words, h => by
    have declared :=
      (respells_fillList .binding depth declarations h).commaSeparated.after_same (lit "var ")
    rw [fill, references]
    cases slot with
    | head =>
      rw [layoutAs, layoutAs]
      exact declared
    | whole | binding =>
      rw [layoutAs, layoutAs]
      · exact declared.before_same _
      all_goals simp
  | .exprStmt expression, nodes, words, h => by
    rw [fill, references, layoutAs, layoutAs, (sameKind_fill expression h).parentheses]
    exact ((respells_fill .whole depth expression h).parenthesizedIf _).before_same _
  | .returnStmt value, nodes, words, h => by
    rw [fill, references, layoutAs, layoutAs]
    exact ((respells_fillOption " " depth value h).after_same _).before_same _
  | .ifStmt condition thenBranch elseBranch, nodes, words, h => by
    have hcondition := h.take condition.references.length
    have hthen := (h.drop condition.references.length).take thenBranch.references.length
    have helse := (h.drop condition.references.length).drop thenBranch.references.length
    have branches := (((respells_fill .whole depth condition hcondition).after_same
      (lit "if (")).before_same (lit ") ")).append (respells_fill .whole depth thenBranch hthen)
    rw [fill, references, zip_append_words, zip_append_words, ← List.append_assoc]
    cases elseBranch with
    | none =>
      rw [fillOption, layoutAs, layoutAs]
      exact branches.append .nil
    | some node =>
      rw [fillOption, layoutAs, layoutAs, (sameKind_fill thenBranch hthen).block]
      exact branches.append ((respells_fill .whole depth node helse).after_same _)
  | .block body, nodes, words, h => by
    rw [fill, references, layoutAs, layoutAs]
    exact (respells_fillList .whole (depth + 1) body h).braced depth
  | .switchStmt subject clauses, nodes, words, h => by
    rw [fill, references, zip_append_words, layoutAs, layoutAs]
    exact (((((respells_fill .whole depth subject (h.take _)).after_same _).before_same _).append
      ((respells_fillClauses (depth + 1) clauses (h.drop _)).onLines _)).before_same
        _).before_same _
  | .forStmt initializer condition increment body, nodes, words, h => by
    rw [fill, references, zip_append_words, zip_append_words, zip_append_words,
      ← List.append_assoc, ← List.append_assoc, layoutAs, layoutAs]
    exact (((((((respells_fillHead depth initializer (h.take _)).after_same _).before_same
      _).append (respells_fillOption " " depth condition ((h.drop _).take _))).before_same
      _).append (respells_fillOption " " depth increment (((h.drop _).drop _).take _))).before_same
      _).append (respells_fill .whole depth body (((h.drop _).drop _).drop _))
  | .whileStmt condition body, nodes, words, h => by
    rw [fill, references, zip_append_words, layoutAs, layoutAs]
    exact (((respells_fill .whole depth condition (h.take _)).after_same _).before_same _).append
      (respells_fill .whole depth body (h.drop _))
  | .withStmt scope body, nodes, words, h => by
    rw [fill, references, zip_append_words, layoutAs, layoutAs]
    exact (((respells_fill .whole depth scope (h.take _)).after_same _).before_same _).append
      (respells_fill .whole depth body (h.drop _))
  | .throwStmt value, nodes, words, h => by
    rw [fill, references, layoutAs, layoutAs]
    exact ((respells_fill .whole depth value h).after_same _).before_same _
  | .labeledStmt label body, nodes, words, h => by
    rw [fill, references, layoutAs, layoutAs]
    exact (respells_fill .whole depth body h).after_same _
  | .instruction tag value comment, nodes, words, h => by
    rw [fill, references, layoutAs, layoutAs]
    exact ((respells_fillOption ", " depth value h).after_same _).before_same _
  | .number _, _, _, _ | .string _, _, _, _ | .boolean _, _, _, _ | .null, _, _, _
  | .undefined, _, _, _ | .identifier _, _, _, _ | .hole, _, _, _ | .emptyStmt, _, _, _
  | .breakStmt _, _, _, _ | .continueStmt _, _, _, _ => .refl _
termination_by structural node => node

theorem respells_fillOption (before : String) (depth : Nat) : ∀ (node : Option Node)
    {nodes : List Node} {words : List String}, AreWords nodes words →
    Respells (optionLayout before depth node) (optionLayout before depth (fillOption node nodes))
      ((referencesOption node).zip words)
  | none, _, _, _ => .nil
  | some node, _, _, h => (respells_fill .whole depth node h).after_same _
termination_by structural node => node

theorem respells_fillHead (depth : Nat) : ∀ (node : Option Node) {nodes : List Node}
    {words : List String}, AreWords nodes words →
    Respells (headLayout depth node) (headLayout depth (fillOption node nodes))
      ((referencesOption node).zip words)
  | none, _, _, _ => .nil
  | some node, _, _, h => respells_fill .head depth node h
termination_by structural node => node

theorem respells_fillList (slot : Slot) (depth : Nat) : ∀ (parts : List Node)
    {nodes : List Node} {words : List String}, AreWords nodes words →
    RespellsAll (layouts slot depth parts) (layouts slot depth (fillList parts nodes))
      ((referencesList parts).zip words)
  | [], _, _, _ => .nil
  | node :: rest, _, _, h => by
    rw [fillList, referencesList, zip_append_words]
    exact .cons (respells_fill slot depth node (h.take _))
      (respells_fillList slot depth rest (h.drop _))
termination_by structural parts => parts

theorem respells_fillProperties (depth : Nat) : ∀ (properties : List (Property Node))
    {nodes : List Node} {words : List String}, AreWords nodes words →
    RespellsAll (propertyLayouts depth properties)
      (propertyLayouts depth (fillProperties properties nodes))
      ((referencesProperties properties).zip words)
  | [], _, _, _ => .nil
  | ⟨_, value⟩ :: rest, _, _, h => by
    rw [fillProperties, referencesProperties, zip_append_words]
    exact .cons ((respells_fill .whole depth value (h.take _)).after_same _)
      (respells_fillProperties depth rest (h.drop _))
termination_by structural properties => properties

theorem respells_fillDefaults (depth : Nat) : ∀ (parameters : List (Parameter Node))
    {nodes : List Node} {words : List String}, AreWords nodes words →
    RespellsAll (defaultLayouts depth parameters)
      (defaultLayouts depth (fillParameters parameters nodes))
      ((referencesParameters parameters).zip words)
  | [], _, _, _ => .nil
  | ⟨_, _, none⟩ :: rest, _, _, h => respells_fillDefaults depth rest h
  | ⟨_, _, some value⟩ :: rest, _, _, h => by
    rw [fillParameters, referencesParameters, zip_append_words]
    exact .cons (((respells_fill .whole depth value (h.take _)).after_same _).before_same _)
      (respells_fillDefaults depth rest (h.drop _))
termination_by structural parameters => parameters

theorem respells_fillClauses (depth : Nat) : ∀ (clauses : List (Clause Node))
    {nodes : List Node} {words : List String}, AreWords nodes words →
    RespellsAll (clauseLayouts depth clauses) (clauseLayouts depth (fillClauses clauses nodes))
      ((referencesClauses clauses).zip words)
  | [], _, _, _ => .nil
  | ⟨test, body⟩ :: rest, nodes, words, h => by
    have hbody := (h.drop (referencesOption test).length).take (referencesList body).length
    have hrest := (h.drop (referencesOption test).length).drop (referencesList body).length
    have others := respells_fillClauses depth rest hrest
    have statements := respells_caseBody (fitsCaseLine_fill body hbody)
      (respells_fillList .whole depth body hbody) (respells_fillList .whole (depth + 1) body hbody)
    rw [fillClauses, referencesClauses, zip_append_words, zip_append_words, ← List.append_assoc]
    cases test with
    | none =>
      rw [clauseLayouts]
      exact .cons (statements.after_same _) others
    | some node =>
      rw [clauseLayouts]
      exact .cons ((((respells_fill .whole depth node (h.take _)).after_same _).before_same
        _).append statements) others
termination_by structural clauses => clauses

end

end Layouts

section Resolving

variable (numberOf : Label → Option Nat)

/-- What is written for a label: the number of its case, if it has one. -/
def caseWord (label : Label) : String :=
  match numberOf label with
  | some n => toString n
  | none => label.text

theorem areWords_numeral (labels : List Label) :
    AreWords (labels.map (numeral numberOf)) (labels.map (caseWord numberOf)) := by
  have hword : ∀ l, word? (numeral numberOf l) = some (caseWord numberOf l) := by
    intro l
    cases hn : numberOf l <;> simp [numeral, caseWord, hn, word?]
  simp [AreWords, hword]

theorem areWords_labelRef (labels : List Label) :
    AreWords (labels.map labelRef) (labels.map Label.text) := by
  simp [AreWords, word?]

/-- The layout of a tree of which only the first references were numbered. -/
theorem respells_numbered {node : Node} {before after : List Label}
    (h : node.references = before ++ after) (depth : Nat) :
    Respells (node.layout depth)
      ((node.fill (before.map (numeral numberOf) ++ after.map labelRef)).layout depth)
      ((before.map fun l => (l, caseWord numberOf l)) ++ after.map fun l => (l, l.text)) := by
  have hwords := (areWords_numeral numberOf before).append (areWords_labelRef after)
  have hrespells := respells_fill .whole depth node hwords
  rw [h, List.zip_append (by simp), ← List.map_prod_left_eq_zip,
    ← List.map_prod_left_eq_zip] at hrespells
  exact hrespells

/-- Resolving the references of a tree succeeds exactly if each of them is numbered. The tree is
then the one with numbers in the place of the labels, and its layout is the layout of the original
with the number of its case written for each label. Otherwise it fails with the label that comes
first, in printed order, among those that have no number: all references before it are numbered,
and none from there on. -/
theorem resolve_substitutes (node : Node) :
    (((node.resolve numberOf).run none).2 = none ↔
      ∀ l ∈ node.references, (numberOf l).isSome = true) ∧
    (∀ tree, (node.resolve numberOf).run none = (tree, none) →
      tree = node.relabel (numeral numberOf) ∧
        ∀ depth, Respells (node.layout depth) (tree.layout depth)
          (node.references.map fun l => (l, caseWord numberOf l))) ∧
    ∀ tree label, (node.resolve numberOf).run none = (tree, some label) →
      ∃ before after, node.references = before ++ label :: after ∧
        (∀ l ∈ before, (numberOf l).isSome = true) ∧ numberOf label = none ∧
        tree = node.fill (before.map (numeral numberOf) ++ (label :: after).map labelRef) ∧
        ∀ depth, Respells (node.layout depth) (tree.layout depth)
          ((before.map fun l => (l, caseWord numberOf l)) ++
            (label :: after).map fun l => (l, l.text)) := by
  obtain ⟨before, after, hrefs, hbefore, hafter, hrun⟩ := exists_run_resolve numberOf node
  rw [hrun]
  refine ⟨?_, fun tree htree => ?_, fun tree label htree => ?_⟩
  · rw [List.head?_eq_none_iff]
    constructor
    · rintro rfl
      rwa [hrefs, List.append_nil]
    · intro hall
      cases after with
      | nil => rfl
      | cons l rest =>
        have hl := hall l (by simp [hrefs])
        simp [hafter l rfl] at hl
  · obtain ⟨rfl, hnone⟩ := Prod.mk.inj htree
    obtain rfl := List.head?_eq_none_iff.1 hnone
    rw [List.append_nil] at hrefs
    have hdone := (resolve_settles node).done (hrefs ▸ hbefore)
    constructor
    · exact (Prod.mk.inj (hrun.symm.trans hdone)).1
    · intro depth
      have hrespells := respells_numbered numberOf (hrefs.trans (List.append_nil _).symm) depth
      simpa [hrefs] using hrespells
  · obtain ⟨rfl, hlabel⟩ := Prod.mk.inj htree
    obtain ⟨rest, rfl⟩ := List.head?_eq_some_iff.1 hlabel
    exact ⟨before, rest, hrefs, hbefore, hafter label rfl, rfl,
      respells_numbered numberOf hrefs⟩

/-- A switch with a branch in its only case, which is tested for one label and goes to another. -/
def branching : Node :=
  .switchStmt (.identifier "s") [⟨some (.labelRef ⟨1⟩),
    [.returnStmt (some (.instruction 3 (some (.labelRef ⟨2⟩)) none)), .exprStmt (.labelRef ⟨1⟩)]⟩]

/-- The number of one label only. -/
def onlyFirst (label : Label) : Option Nat := if label = ⟨1⟩ then some 7 else none

/-- What stands before the branch is numbered; the branch and what comes after it stay. -/
theorem resolve_substitutes_branching :
    ((branching.resolve onlyFirst).run none).2 = some ⟨2⟩ ∧
      ∃ before after, branching.references = before ++ (⟨2⟩ : Label) :: after ∧
        (∀ l ∈ before, (onlyFirst l).isSome = true) ∧ onlyFirst ⟨2⟩ = none ∧
        ((branching.resolve onlyFirst).run none).1 =
          branching.fill (before.map (numeral onlyFirst) ++ (⟨2⟩ :: after).map labelRef) ∧
        ∀ depth, Respells (branching.layout depth)
          (((branching.resolve onlyFirst).run none).1.layout depth)
          ((before.map fun l => (l, caseWord onlyFirst l)) ++
            (⟨2⟩ :: after).map fun l => (l, l.text)) :=
  ⟨rfl, (resolve_substitutes onlyFirst branching).2.2 _ ⟨2⟩ rfl⟩

end Resolving

end Node

end Resumable
