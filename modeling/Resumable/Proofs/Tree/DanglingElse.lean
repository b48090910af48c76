import Mathlib.Data.List.Basic
import Mathlib.Data.Set.Operations
import Resumable.Proofs.Tree.ControlFlow

/-!
# Dangling else

An else belongs to the nearest if before it that has none. The printer puts no braces around a
branch, so an else printed for one if may come right behind another that is still open, and is then
read as the other's. `attach` is the statement that is read; it is the one that was printed exactly
if no else stands behind a branch that would take it.
-/

namespace Resumable.ControlFlow

open Text

/-- An else right behind the statement would belong to an if in it. -/
def isOpen : ControlFlow → Bool
  | .ifThen .. => true
  | .ifElse _ _ other => other.isOpen
  | .loop _ body => body.isOpen
  | .expr _ | .ret | .block _ => false

/-- Every else of the statement stands behind a branch that would not take it. -/
inductive IsSettled : ControlFlow → Prop
  | expr (name : Identifier) : IsSettled (.expr name)
  | ret : IsSettled .ret
  | ifThen {condition : Identifier} {body : ControlFlow} (hbody : body.IsSettled) :
    IsSettled (.ifThen condition body)
  | ifElse {condition : Identifier} {body other : ControlFlow} (hbody : body.IsSettled)
    (hclosed : body.isOpen = false) (hother : other.IsSettled) :
    IsSettled (.ifElse condition body other)
  | loop {condition : Identifier} {body : ControlFlow} (hbody : body.IsSettled) :
    IsSettled (.loop condition body)
  | block {body : List ControlFlow} (hbody : ∀ s ∈ body, s.IsSettled) : IsSettled (.block body)

/-- A text is read as a statement that has its tokens, with each else at the nearest if. -/
structure Reads (text : String) (s : ControlFlow) : Prop where
  tokens : scan text.toList = s.tokens
  settled : s.IsSettled

/-- The statement with an else for the if at its end that would take one. -/
def giveElse (other : ControlFlow) : ControlFlow → ControlFlow
  | .ifThen condition body =>
    if body.isOpen then .ifThen condition (giveElse other body) else .ifElse condition body other
  | .ifElse condition body last => .ifElse condition body (giveElse other last)
  | .loop condition body => .loop condition (giveElse other body)
  | s => s

mutual

/-- The statement with each else moved to the nearest if. -/
def attach : ControlFlow → ControlFlow
  | .ifThen condition body => .ifThen condition body.attach
  | .ifElse condition body other => giveElse other.attach (.ifThen condition body.attach)
  | .loop condition body => .loop condition body.attach
  | .block body => .block (attachList body)
  | s => s

def attachList : List ControlFlow → List ControlFlow
  | [] => []
  | s :: rest => s.attach :: attachList rest

end

theorem attachList_eq_map (body : List ControlFlow) : attachList body = body.map attach := by
  induction body with
  | nil => rfl
  | cons s rest ih => rw [attachList, ih, List.map_cons]

section Attaching

variable {s other : ControlFlow}

/-- The else and its branch come behind the tokens there were. -/
theorem tokens_giveElse (h : s.isOpen = true) :
    (giveElse other s).tokens = s.tokens ++ .word "else" :: other.tokens := by
  induction s with
  | expr | ret | block => cases h
  | ifThen condition body ih =>
    rw [giveElse]
    split
    next hopen => simp [tokens, ih hopen]
    next => simp [tokens]
  | ifElse condition body last _ ih => simp [giveElse, tokens, ih h]
  | loop condition body ih => simp [giveElse, tokens, ih h]

/-- What was closed stays closed: the else goes to the last place that takes one. -/
theorem isSettled_giveElse (hs : s.IsSettled) (h : s.isOpen = true) (hother : other.IsSettled) :
    (giveElse other s).IsSettled := by
  induction hs with
  | expr | ret | block => cases h
  | ifThen hbody ih =>
    rw [giveElse]
    split
    next hopen => exact .ifThen (ih hopen)
    next hclosed => exact .ifElse hbody (Bool.eq_false_iff.2 hclosed) hother
  | ifElse hbody hclosed _ _ ih => exact .ifElse hbody hclosed (ih h)
  | loop _ ih => exact .loop (ih h)

theorem tokens_attach (s : ControlFlow) : s.attach.tokens = s.tokens := by
  induction s with
  | expr | ret => rfl
  | ifThen condition body ih => simp [attach, tokens, ih]
  | ifElse condition body other ihbody ihother =>
    rw [attach, tokens_giveElse rfl]
    simp [tokens, ihbody, ihother]
  | loop condition body ih => simp [attach, tokens, ih]
  | block body ih =>
    simp only [attach, tokens, attachList_eq_map, tokensList_eq_flatMap, List.flatMap_map]
    rw [List.flatMap_congr ih]

theorem isSettled_attach (s : ControlFlow) : s.attach.IsSettled := by
  induction s with
  | expr name => exact .expr name
  | ret => exact .ret
  | ifThen condition body ih => exact .ifThen ih
  | ifElse condition body other ihbody ihother =>
    exact isSettled_giveElse (.ifThen ihbody) rfl ihother
  | loop condition body ih => exact .loop ih
  | block body ih =>
    rw [attach, attachList_eq_map]
    refine .block fun t ht => ?_
    obtain ⟨s, hs, rfl⟩ := List.mem_map.1 ht
    exact ih s hs

theorem IsSettled.attach_eq (h : s.IsSettled) : s.attach = s := by
  induction h with
  | expr | ret => rfl
  | ifThen _ ih => rw [attach, ih]
  | ifElse hbody hclosed hother ihbody ihother =>
    rw [attach, ihbody, ihother, ControlFlow.giveElse, hclosed, if_neg Bool.false_ne_true]
  | loop _ ih => rw [attach, ih]
  | block _ ih => rw [attach, attachList_eq_map, List.map_congr_left ih, List.map_id']

end Attaching

/-- No else that the statement would take comes right behind it. -/
def StopsBefore (s : ControlFlow) (rest : List Token) : Prop :=
  s.isOpen = true → rest.head? ≠ some (.word "else")

/-- The tokens of the statement, whatever stops it, are read as no other statement. -/
def Decodes (s : ControlFlow) : Prop :=
  ∀ ⦃t : ControlFlow⦄ ⦃r r' : List Token⦄, t.IsSettled → s.tokens ++ r = t.tokens ++ r' →
    s.StopsBefore r → t.StopsBefore r' → s = t ∧ r = r'

section Decoding

variable {s t : ControlFlow} {r r' : List Token}

theorem stopsBefore_of_isOpen_eq_false (h : s.isOpen = false) : s.StopsBefore r :=
  fun hopen => absurd (h.symm.trans hopen) Bool.false_ne_true

/-- A statement begins neither with an else nor with the end of a block. -/
theorem exists_cons_tokens (s : ControlFlow) :
    ∃ first rest, s.tokens = first :: rest ∧ first ≠ .word "else" ∧ first ≠ .symbol '\x7d' := by
  cases s with
  | expr x => exact ⟨_, _, rfl, fun h => x.name_ne (by decide) (Token.word.inj h), nofun⟩
  | ret | ifThen | ifElse | loop | block => exact ⟨_, _, rfl, by decide, by decide⟩

theorem stopsBefore_tokensList (s : ControlFlow) (body : List ControlFlow) (r : List Token) :
    s.StopsBefore (tokensList body ++ .symbol '\x7d' :: r) := by
  intro _
  cases body with
  | nil => simp [tokensList]
  | cons t rest =>
    obtain ⟨first, tail, htokens, helse, -⟩ := t.exists_cons_tokens
    simpa [tokensList, htokens] using helse

theorem headTokens_append_inj {keyword : String} {c c' : Identifier} {l l' : List Token}
    (h : headTokens keyword c ++ l = headTokens keyword c' ++ l') : c = c' ∧ l = l' := by
  obtain ⟨hname, hrest⟩ : c.name = c'.name ∧ l = l' := by simpa [headTokens] using h
  exact ⟨Identifier.ext hname, hrest⟩

/-- The statements of a block are read one after another. -/
theorem tokensList_append_inj {body body' : List ControlFlow} (h : ∀ s ∈ body, s.Decodes)
    (hsettled : ∀ s ∈ body', s.IsSettled)
    (heq : tokensList body ++ .symbol '\x7d' :: r = tokensList body' ++ .symbol '\x7d' :: r') :
    body = body' ∧ r = r' := by
  induction body generalizing body' with
  | nil =>
    cases body' with
    | nil => exact ⟨rfl, (List.cons.inj heq).2⟩
    | cons t rest' =>
      obtain ⟨first, tail, htokens, -, hend⟩ := t.exists_cons_tokens
      simp [tokensList, htokens, hend.symm] at heq
  | cons s rest ih =>
    cases body' with
    | nil =>
      obtain ⟨first, tail, htokens, -, hend⟩ := s.exists_cons_tokens
      simp [tokensList, htokens, hend] at heq
    | cons t rest' =>
      rw [tokensList, tokensList, List.append_assoc, List.append_assoc] at heq
      obtain ⟨rfl, hrest⟩ := h s List.mem_cons_self (hsettled t List.mem_cons_self) heq
        (s.stopsBefore_tokensList rest r) (t.stopsBefore_tokensList rest' r')
      obtain ⟨rfl, hr⟩ := ih (fun u hu => h u (List.mem_cons_of_mem _ hu))
        (fun u hu => hsettled u (List.mem_cons_of_mem _ hu)) hrest
      exact ⟨rfl, hr⟩

/-- Settled statements are told apart by their tokens. Two that begin alike can only differ in that
one has an else where the other ends, and there the other would have taken it. -/
theorem IsSettled.decodes (hs : s.IsSettled) : s.Decodes := by
  induction hs with
  | expr x =>
    intro t r r' ht heq _ _
    cases ht with
    | expr y =>
      obtain ⟨hname, hr⟩ : x.name = y.name ∧ r = r' := by simpa [tokens] using heq
      exact ⟨congrArg ControlFlow.expr (Identifier.ext hname), hr⟩
    | ret => exact absurd (Token.word.inj (List.cons.inj heq).1) (x.name_ne (by decide))
    | _ => simp [tokens, headTokens] at heq
  | ret =>
    intro t r r' ht heq _ _
    cases ht with
    | expr y => exact absurd (Token.word.inj (List.cons.inj heq).1).symm (y.name_ne (by decide))
    | ret => exact ⟨rfl, List.append_cancel_left heq⟩
    | _ => simp [tokens, headTokens] at heq
  | ifThen _ ih =>
    intro t r r' ht heq hr hr'
    cases ht with
    | ifThen hbody' =>
      simp only [tokens, List.append_assoc] at heq
      obtain ⟨rfl, hrest⟩ := headTokens_append_inj heq
      obtain ⟨rfl, rfl⟩ := ih hbody' hrest (fun _ => hr rfl) (fun _ => hr' rfl)
      exact ⟨rfl, rfl⟩
    | ifElse hbody' hclosed' _ =>
      -- The branches are the same, so an else comes right behind `s`, which would take it.
      simp only [tokens, List.append_assoc] at heq
      obtain ⟨rfl, hrest⟩ := headTokens_append_inj heq
      obtain ⟨-, rfl⟩ := ih hbody' hrest (fun _ => hr rfl) (stopsBefore_of_isOpen_eq_false hclosed')
      exact absurd rfl (hr rfl)
    | _ => simp [tokens, headTokens] at heq
  | ifElse _ hclosed _ ihbody ihother =>
    intro t r r' ht heq hr hr'
    cases ht with
    | ifThen hbody' =>
      -- Here it is `t` that would take the else of `s`.
      simp only [tokens, List.append_assoc] at heq
      obtain ⟨rfl, hrest⟩ := headTokens_append_inj heq
      obtain ⟨-, rfl⟩ :=
        ihbody hbody' hrest (stopsBefore_of_isOpen_eq_false hclosed) (fun _ => hr' rfl)
      exact absurd rfl (hr' rfl)
    | ifElse hbody' hclosed' hother' =>
      simp only [tokens, List.append_assoc] at heq
      obtain ⟨rfl, hrest⟩ := headTokens_append_inj heq
      obtain ⟨rfl, hbranch⟩ := ihbody hbody' hrest (stopsBefore_of_isOpen_eq_false hclosed)
        (stopsBefore_of_isOpen_eq_false hclosed')
      obtain ⟨rfl, rfl⟩ := ihother hother' (List.cons.inj hbranch).2 hr hr'
      exact ⟨rfl, rfl⟩
    | _ => simp [tokens, headTokens] at heq
  | loop _ ih =>
    intro t r r' ht heq hr hr'
    cases ht with
    | loop hbody' =>
      simp only [tokens, List.append_assoc] at heq
      obtain ⟨rfl, hrest⟩ := headTokens_append_inj heq
      obtain ⟨rfl, rfl⟩ := ih hbody' hrest hr hr'
      exact ⟨rfl, rfl⟩
    | _ => simp [tokens, headTokens] at heq
  | block _ ih =>
    intro t r r' ht heq _ _
    cases ht with
    | block hbody' =>
      simp only [tokens, List.cons_append, List.append_assoc] at heq
      obtain ⟨rfl, rfl⟩ := tokensList_append_inj ih hbody' (List.cons.inj heq).2
      exact ⟨rfl, rfl⟩
    | _ => simp [tokens, headTokens] at heq

theorem IsSettled.eq_of_tokens_eq (hs : s.IsSettled) (ht : t.IsSettled)
    (heq : s.tokens = t.tokens) : s = t := by
  have hstops : ∀ u : ControlFlow, u.StopsBefore [] := fun _ _ => nofun
  exact (hs.decodes ht (congrArg (· ++ []) heq) (hstops s) (hstops t)).1

/-- The tokens of a statement are read as one statement, whichever it was that was spelled. -/
theorem reads_iff {text : String} (h : scan text.toList = s.tokens) :
    Reads text t ↔ t = s.attach := by
  constructor
  · intro hreads
    have htokens : t.tokens = s.attach.tokens := by rw [tokens_attach, ← h, hreads.tokens]
    exact hreads.settled.eq_of_tokens_eq (isSettled_attach s) htokens
  · rintro rfl
    exact ⟨h.trans (tokens_attach s).symm, isSettled_attach s⟩

theorem attach_eq_iff : s.attach = s ↔ s.IsSettled :=
  ⟨fun h => h ▸ isSettled_attach s, IsSettled.attach_eq⟩

end Decoding

/-- A branch with an else whose first branch is one without. -/
def dangling : ControlFlow :=
  .ifElse ⟨"a", by decide +kernel⟩
    (.ifThen ⟨"b", by decide +kernel⟩ (.expr ⟨"x", by decide +kernel⟩))
    (.expr ⟨"y", by decide +kernel⟩)

end Resumable.ControlFlow

namespace Resumable.Printer

open ControlFlow Text

/-- The text of a statement is read as one statement: the printed one with each else moved to the
nearest if. That is the printed one itself exactly if no else of it stands behind a branch that
would take it. Among such statements no two have the same text. -/
theorem reads_emit (p : Printer) :
    (∀ s : ControlFlow, ∃ text, (p.emit s.toNode).output = p.output ++ text ∧
      (∀ t, Reads text t ↔ t = s.attach) ∧ (Reads text s ↔ s.IsSettled)) ∧
    Set.InjOn (fun s : ControlFlow => (p.emit s.toNode).output) { s | s.IsSettled } := by
  have hscan : ∀ s : ControlFlow, scan (s.toNode.layout p.depth).text.toList = s.tokens := by
    intro s
    have h := spells_layout s p.depth []
    rwa [List.append_nil, show scan [] = [] from rfl, List.append_nil] at h
  refine ⟨fun s => ⟨_, p.output_emit _, fun t => reads_iff (hscan s), ?_⟩, ?_⟩
  · rw [reads_iff (hscan s), eq_comm, attach_eq_iff]
  · intro s hs t ht heq
    have htext : (s.toNode.layout p.depth).text = (t.toNode.layout p.depth).text := by
      simpa only [output_emit, String.append_right_inj] using heq
    refine hs.eq_of_tokens_eq ht ?_
    rw [← hscan s, ← hscan t, htext]

/-- An else is printed as it would be if it stood at the inner branch. -/
theorem emit_dangling :
    (({} : Printer).emit dangling.toNode).output = "if (a) if (b) x;\nelse y;" ∧
      (({} : Printer).emit dangling.attach.toNode).output = "if (a) if (b) x;\nelse y;" ∧
      dangling.toNode ≠ dangling.attach.toNode :=
  ⟨by decide +kernel, by decide +kernel,
    by simp [dangling, attach, giveElse, isOpen, toNode]⟩

end Resumable.Printer
