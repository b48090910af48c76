import Resumable.Proofs.Tree.Mapping

/-!
# Statements on lines of their own

A layout with at most one mark on a line gives mappings whose lines strictly increase. `IsSpread`
says that a layout is of that kind, and `OnOwnLine` which statements are laid out so: those
without located nodes, those that are one located node as a whole, and blocks of them.
-/

namespace Resumable

namespace Layout

/-- There is at most one mark on each line, and none on the first if there is one before it. -/
def IsSpread (marked : Bool) : Layout → Prop
  | [] => True
  | .newline :: rest => IsSpread false rest
  | .mark _ :: rest => marked = false ∧ IsSpread true rest
  | .text _ :: rest | .indent _ :: rest => IsSpread marked rest

section Spread

variable {a b l : Layout} {items : List Layout} {marked : Bool}

theorem IsSpread.weaken (h : IsSpread true l) (marked : Bool) : IsSpread marked l := by
  induction l with
  | nil => trivial
  | cons piece rest ih =>
    cases piece with
    | text s => exact ih h
    | newline => exact h
    | indent depth => exact ih h
    | mark span => cases h.1

/-- What follows a layout may begin on the line that the layout ends with. -/
theorem IsSpread.append (ha : IsSpread marked a) (hb : IsSpread true b) :
    IsSpread marked (a ++ b) := by
  induction a generalizing marked with
  | nil => exact hb.weaken marked
  | cons piece rest ih =>
    cases piece with
    | text s => exact ih ha
    | newline =>
      have hrest : IsSpread false rest := ha
      exact ih hrest
    | indent depth => exact ih ha
    | mark span =>
      obtain ⟨hmarked, hrest⟩ := ha
      exact ⟨hmarked, ih hrest⟩

theorem isSpread_of_isPlain (h : IsPlain l) (marked : Bool) : IsSpread marked l := by
  induction l generalizing marked with
  | nil => trivial
  | cons piece rest ih =>
    have hrest : IsPlain rest := fun p hp => h p (by simp [hp])
    cases piece with
    | text s => exact ih hrest marked
    | newline => exact ih hrest false
    | indent depth => exact ih hrest marked
    | mark span => exact absurd (h (.mark span) (by simp)) (by simp [Piece.isMark])

/-- Unmarked layout before does no harm. -/
theorem IsSpread.after_plain (hb : IsSpread false b) (ha : IsPlain a) : IsSpread false (a ++ b) := by
  induction a with
  | nil => exact hb
  | cons piece rest ih =>
    have hrest : IsPlain rest := fun p hp => ha p (by simp [hp])
    cases piece with
    | text s => exact ih hrest
    | newline => exact ih hrest
    | indent depth => exact ih hrest
    | mark span => exact absurd (ha (.mark span) (by simp)) (by simp [Piece.isMark])

theorem IsSpread.before_plain (ha : IsSpread marked a) (hb : IsPlain b) :
    IsSpread marked (a ++ b) :=
  ha.append (isSpread_of_isPlain hb true)

/-- Every item begins a line. -/
theorem isSpread_onLines (h : ∀ item ∈ items, IsSpread false item) (marked : Bool) (depth : Nat) :
    IsSpread marked (onLines depth items) := by
  induction items generalizing marked with
  | nil => trivial
  | cons item items ih =>
    have hitem : IsSpread marked (newline depth ++ item) := h item (by simp)
    exact hitem.append (ih (fun i hi => h i (by simp [hi])) true)

theorem isSpread_braced (h : ∀ item ∈ items, IsSpread false item) (depth : Nat) :
    IsSpread false (braced depth items) := by
  unfold braced
  split
  · exact isSpread_of_isPlain (by simp) false
  · have hlines := isSpread_onLines h false (depth + 1)
    exact ((hlines.after_plain (by simp)).before_plain (by simp)).before_plain (by simp)

/-- A layout that marks nothing is plain. -/
theorem isPlain_of_marks (h : Marks l []) : IsPlain l := by
  induction l with
  | nil => exact isPlain_nil
  | cons piece rest ih =>
    cases h with
    | piece plain after =>
      intro p hp
      rcases List.mem_cons.1 hp with rfl | hp
      · exact plain
      · exact ih after p hp

end Spread

end Layout

namespace Printer

variable {p : Printer} {l : Layout} {marked : Bool}

/-- No piece leads back to an earlier line. -/
theorem IsCurrent.line_le_put (h : p.IsCurrent) (piece : Piece) :
    p.position.line ≤ (p.put piece).position.line := by
  unfold IsCurrent at h
  cases piece <;>
    simp [Printer.put, h, Position.nextLine, Position.right, Position.line_atEnd_append]

/-- The lines of the mappings strictly increase if there is at most one mark on a line. -/
theorem pairwise_line_write (hp : p.IsCurrent) (h : l.IsSpread marked) :
    ∃ added, (p.write l).mappings = p.mappings ++ added ∧
      added.Pairwise (fun m n => m.position.line < n.position.line) ∧
      ∀ m ∈ added, p.position.line + marked.toNat ≤ m.position.line := by
  induction l generalizing p marked with
  | nil => exact ⟨[], by simp [write], .nil, by simp⟩
  | cons piece rest ih =>
    have hle := hp.line_le_put piece
    cases piece with
    | text s =>
      have hrest : Layout.IsSpread marked rest := h
      obtain ⟨added, hmappings, hlines, hfrom⟩ := ih (hp.put (.text s)) hrest
      refine ⟨added, hmappings, hlines, fun m hm => ?_⟩
      have := hfrom m hm
      omega
    | newline =>
      have hrest : Layout.IsSpread false rest := h
      obtain ⟨added, hmappings, hlines, hfrom⟩ := ih (hp.put .newline) hrest
      refine ⟨added, hmappings, hlines, fun m hm => ?_⟩
      have hnext : (p.put .newline).position.line = p.position.line + 1 := rfl
      have := hfrom m hm
      have := marked.toNat_le
      omega
    | indent depth =>
      have hrest : Layout.IsSpread marked rest := h
      obtain ⟨added, hmappings, hlines, hfrom⟩ := ih (hp.put (.indent depth)) hrest
      refine ⟨added, hmappings, hlines, fun m hm => ?_⟩
      have := hfrom m hm
      omega
    | mark span =>
      obtain ⟨rfl, hrest⟩ := h
      obtain ⟨added, hmappings, hlines, hfrom⟩ := ih (hp.put (.mark span)) hrest
      have hsame : (p.put (.mark span)).position = p.position := rfl
      refine ⟨⟨p.position, span⟩ :: added, ?_, ?_, fun m hm => ?_⟩
      · refine hmappings.trans ?_
        simp [put]
      · refine List.pairwise_cons.2 ⟨fun m hm => ?_, hlines⟩
        have := hfrom m hm
        rw [hsame] at this
        simp only [Bool.toNat_true] at this
        exact Nat.lt_of_succ_le this
      · rcases List.mem_cons.1 hm with rfl | hm
        · simp
        · have := hfrom m hm
          rw [hsame] at this
          simp only [Bool.toNat_true] at this
          simp only [Bool.toNat_false]
          omega

end Printer

namespace Node

open Layout

/-- The statement is printed with at most one located node on a line. -/
inductive OnOwnLine : Node → Prop where
  | bare {node : Node} (none : node.wrappers .whole = []) : OnOwnLine node
  | located {node : Node} {span : Span} (inside : node.wrappers .whole = []) :
      OnOwnLine (.located node span)
  | scope {holder : String} {body : List Node} (inside : ∀ s ∈ body, OnOwnLine s) :
      OnOwnLine (.withStmt (.identifier holder) (.block body))

variable {node : Node} {statements : List Node}

theorem isPlain_layout (h : node.wrappers .whole = []) (depth : Nat) :
    IsPlain (node.layout depth) := by
  have hmarks := Printer.marks_layout depth node
  rw [h] at hmarks
  exact isPlain_of_marks hmarks

theorem OnOwnLine.isSpread (h : OnOwnLine node) (depth : Nat) :
    IsSpread false (node.layout depth) := by
  induction h generalizing depth with
  | bare none => exact isSpread_of_isPlain (isPlain_layout none depth) false
  | located inside =>
    rw [layout, layoutAs]
    exact ⟨rfl, isSpread_of_isPlain (isPlain_layout inside depth) true⟩
  | @scope holder body _ ih =>
    have hitems : ∀ item ∈ layouts .whole (depth + 1) body, IsSpread false item := by
      intro item hitem
      rw [layouts_eq_map] at hitem
      obtain ⟨s, hs, rfl⟩ := List.mem_map.1 hitem
      exact ih s hs (depth + 1)
    rw [layout, layoutAs, layoutAs, layoutAs]
    exact (isSpread_braced hitems depth).after_plain (by simp)

theorem isSpread_layouts (h : ∀ s ∈ statements, OnOwnLine s) (depth : Nat) :
    ∀ item ∈ layouts .whole depth statements, IsSpread false item := by
  intro item hitem
  rw [layouts_eq_map] at hitem
  obtain ⟨s, hs, rfl⟩ := List.mem_map.1 hitem
  exact (h s hs).isSpread depth

/-- Numbering the labels of a statement keeps its lines. -/
theorem OnOwnLine.relabel (h : OnOwnLine node) (numberOf : Label → Option Nat) :
    OnOwnLine (node.relabel (numeral numberOf)) := by
  induction h with
  | bare none => exact .bare (by simp [wrappers_relabel, none])
  | located inside =>
    rw [Node.relabel]
    exact .located (by simp [wrappers_relabel, inside])
  | @scope holder body _ ih =>
    rw [Node.relabel, Node.relabel, Node.relabel, relabelList_eq_map]
    refine .scope fun s hs => ?_
    obtain ⟨s', hs', rfl⟩ := List.mem_map.1 hs
    exact ih s' hs'

/-- A clause of such statements behind a test without located nodes. -/
theorem isSpread_clauseLayouts {clauses : List (Clause Node)}
    (htest : ∀ c ∈ clauses, wrappersOption .whole c.test = [])
    (hbody : ∀ c ∈ clauses, ∀ s ∈ c.body, OnOwnLine s) (depth : Nat) :
    ∀ item ∈ clauseLayouts depth clauses, IsSpread false item := by
  induction clauses with
  | nil => simp [clauseLayouts]
  | cons c clauses ih =>
    obtain ⟨test, body⟩ := c
    have htest' := htest _ List.mem_cons_self
    have hbody' := hbody _ List.mem_cons_self
    have hothers := ih (fun c hc => htest c (by simp [hc])) fun c hc => hbody c (by simp [hc])
    have hstatements : IsSpread false
        (if fitsCaseLine body then lit " " ++ (layouts .whole depth body).flatten
          else onLines (depth + 1) (layouts .whole (depth + 1) body)) := by
      split
      · next hfits =>
        unfold fitsCaseLine at hfits
        split at hfits
        · next s =>
          have hs := (hbody' s (by simp)).isSpread depth
          simpa [layouts, layout] using hs.after_plain (isPlain_lit " ")
        · cases hfits
      · exact isSpread_onLines (isSpread_layouts hbody' _) false _
    intro item hitem
    cases test with
    | none =>
      rw [clauseLayouts] at hitem
      rcases List.mem_cons.1 hitem with rfl | hitem
      · exact hstatements.after_plain (isPlain_lit _)
      · exact hothers item hitem
    | some node =>
      rw [clauseLayouts] at hitem
      rcases List.mem_cons.1 hitem with rfl | hitem
      · have hplain : IsPlain (node.layoutAs .whole depth) := isPlain_layout htest' depth
        exact hstatements.after_plain (by simpa using hplain)
      · exact hothers item hitem

/-- A switch over such clauses. -/
theorem isSpread_switch {subject : Node} {clauses : List (Clause Node)}
    (hsubject : subject.wrappers .whole = [])
    (htest : ∀ c ∈ clauses, wrappersOption .whole c.test = [])
    (hbody : ∀ c ∈ clauses, ∀ s ∈ c.body, OnOwnLine s) (depth : Nat) :
    IsSpread false ((Node.switchStmt subject clauses).layout depth) := by
  have hclauses := isSpread_onLines (isSpread_clauseLayouts htest hbody (depth + 1)) false
    (depth + 1)
  have hplain : IsPlain (subject.layoutAs .whole depth) := isPlain_layout hsubject depth
  rw [layout, layoutAs]
  exact ((hclauses.after_plain (by simpa using hplain)).before_plain (by simp)).before_plain
    (by simp)

/-- Statements one after another, each on lines of its own. -/
theorem isSpread_listLayout (depth : Nat)
    (h : ∀ s ∈ statements, IsSpread false (s.layout depth)) :
    IsSpread false (listLayout depth statements) := by
  unfold listLayout
  induction statements with
  | nil => trivial
  | cons first others ih =>
    have hfirst : IsSpread false (.indent depth :: first.layout depth) := h first (by simp)
    have hothers := ih fun s hs => h s (by simp [hs])
    cases others with
    | nil => simpa [layouts, layout] using hfirst
    | cons second others =>
      have hrest : IsSpread true (.newline :: listLayout depth (second :: others)) := hothers
      simpa [layouts, layout, listLayout] using hfirst.append hrest

end Node

end Resumable
