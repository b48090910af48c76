import Resumable.Proofs.Source.Position
import Resumable.Proofs.Tree.Marks
import Resumable.Proofs.Tree.Printing

/-!
# Source mappings

What the mappings of a page point to. A `Site` is a place in the layout of a page where a located
node begins. Whatever calls were made on a printer, its position is where its output ends, and
the mappings recorded are those of the sites of the located nodes that printing maps, in the order
in which these begin on the page.
-/

namespace Resumable

/-- Where on a page a located node begins. -/
structure Site where
  /-- The pieces of the page before the node. -/
  before : Layout
  wrapper : Wrapper
  /-- The depth of indentation of the node. -/
  depth : Nat

namespace Site

def mapping (s : Site) : Mapping := ⟨Position.atEnd s.before.text, s.wrapper.span⟩

/-- The located node is laid out at the site. -/
def IsOn (s : Site) (page : Layout) : Prop :=
  ∃ rest, page = s.before ++ s.wrapper.toNode.layout s.depth ++ rest

def Precedes (s t : Site) : Prop := s.before.length < t.before.length

end Site

/-- The mappings point to the places on the page where the located nodes begin, in this order. -/
def PointsTo (page : Layout) (ws : List Wrapper) (ms : List Mapping) : Prop :=
  ∃ sites : List Site, sites.map (·.wrapper) = ws ∧ sites.map Site.mapping = ms ∧
    (∀ s ∈ sites, s.IsOn page) ∧ sites.Pairwise Site.Precedes

section Sites

variable {s : Site} {page more : Layout} {ws vs : List Wrapper} {ms ns : List Mapping}

theorem Site.IsOn.append (h : s.IsOn page) (more : Layout) : s.IsOn (page ++ more) := by
  obtain ⟨rest, rfl⟩ := h
  exact ⟨rest ++ more, by simp [List.append_assoc]⟩

/-- A located node takes up room, for it begins with its mark. -/
theorem Site.IsOn.length_before_lt (h : s.IsOn page) : s.before.length < page.length := by
  obtain ⟨rest, rfl⟩ := h
  simp [Wrapper.toNode, Node.layout, Node.layoutAs]

theorem PointsTo.nil (page : Layout) : PointsTo page [] [] := ⟨[], rfl, rfl, by simp, .nil⟩

theorem PointsTo.span_eq (h : PointsTo page ws ms) : ms.map (·.span) = ws.map (·.span) := by
  obtain ⟨sites, rfl, rfl, -, -⟩ := h
  simp [Site.mapping, Function.comp_def]

/-- What is printed later does not move what was printed before. -/
theorem PointsTo.append (h : PointsTo page ws ms)
    (h' : ∃ sites : List Site, sites.map (·.wrapper) = vs ∧ sites.map Site.mapping = ns ∧
      (∀ s ∈ sites, s.IsOn (page ++ more) ∧ page.length ≤ s.before.length) ∧
      sites.Pairwise Site.Precedes) :
    PointsTo (page ++ more) (ws ++ vs) (ms ++ ns) := by
  obtain ⟨first, rfl, rfl, hon, hordered⟩ := h
  obtain ⟨later, rfl, rfl, hlater, hordered'⟩ := h'
  refine ⟨first ++ later, by simp, by simp, ?_, ?_⟩
  · intro s hs
    rcases List.mem_append.1 hs with hs | hs
    · exact (hon s hs).append more
    · exact (hlater s hs).1
  · refine List.pairwise_append.2 ⟨hordered, hordered', fun s hs t ht => ?_⟩
    exact Nat.lt_of_lt_of_le (hon s hs).length_before_lt (hlater t ht).2

end Sites

namespace Printer

/-- The position is where the output ends. -/
def IsCurrent (p : Printer) : Prop := p.position = Position.atEnd p.output

/-- The page has been printed. -/
structure Shows (p : Printer) (page : Layout) : Prop where
  output : p.output = page.text
  current : p.IsCurrent

section Writing

variable {p : Printer} {page layout : Layout} {ws : List Wrapper}

theorem IsCurrent.put (h : p.IsCurrent) (piece : Piece) : (p.put piece).IsCurrent := by
  unfold IsCurrent at h
  cases piece with
  | text s => simp [IsCurrent, Printer.put, h]
  | newline => simp [IsCurrent, Printer.put, h, Position.nextLine_atEnd]
  | indent depth => simp [IsCurrent, Printer.put, h, Position.right_atEnd, indentation]
  | mark span => simpa [IsCurrent, Printer.put] using h

theorem Shows.put (h : p.Shows page) (piece : Piece) : (p.put piece).Shows (page ++ [piece]) where
  output := by cases piece <;> simp [Printer.put, h.output, Layout.text, Piece.shown]
  current := h.current.put piece

theorem Shows.write (h : p.Shows page) (layout : Layout) :
    (p.write layout).Shows (page ++ layout) := by
  induction layout generalizing p page with
  | nil => simpa [Printer.write] using h
  | cons piece rest ih => simpa [Printer.write, List.append_assoc] using ih (h.put piece)

theorem shows_nil : ({} : Printer).Shows [] := ⟨rfl, Position.atEnd_empty.symm⟩

/-- Writing the marks of located nodes maps the places where these begin. -/
theorem exists_sites_write (h : Layout.Marks layout ws) (hp : p.Shows page) :
    ∃ sites : List Site, sites.map (·.wrapper) = ws.filter (·.isMapped) ∧
      (p.write layout).mappings = p.mappings ++ sites.map Site.mapping ∧
      (∀ s ∈ sites, s.IsOn (page ++ layout) ∧ page.length ≤ s.before.length) ∧
      sites.Pairwise Site.Precedes := by
  induction h generalizing p page with
  | nil => exact ⟨[], rfl, by simp [write], by simp, .nil⟩
  | @piece piece rest ws plain _ ih =>
    obtain ⟨sites, hwrappers, hmappings, hon, hordered⟩ := ih (hp.put piece)
    have hkeep : (p.put piece).mappings = p.mappings := by
      cases piece <;> simp_all [put, Piece.isMark]
    refine ⟨sites, hwrappers, ?_, fun s hs => ?_, hordered⟩
    · rw [← hkeep]
      exact hmappings
    · obtain ⟨hpage, hlength⟩ := hon s hs
      rw [List.append_assoc] at hpage
      rw [List.length_append] at hlength
      exact ⟨hpage, by omega⟩
  | @mark w depth rest tail ws mapped here _ ih =>
    obtain ⟨sites, hwrappers, hmappings, hon, hordered⟩ := ih (hp.put (.mark w.span))
    refine ⟨⟨page, w, depth⟩ :: sites, ?_, ?_, ?_, ?_⟩
    · rw [List.map_cons, hwrappers, List.filter_cons_of_pos mapped]
    · have hmapping : Site.mapping ⟨page, w, depth⟩ = ⟨p.position, w.span⟩ := by
        rw [Site.mapping, ← hp.output, ← hp.current]
      refine hmappings.trans ?_
      simp [put, hmapping]
    · intro s hs
      rcases List.mem_cons.1 hs with rfl | hs
      · refine ⟨⟨tail, ?_⟩, Nat.le_refl _⟩
        simp [here, Wrapper.toNode, Node.layout, Node.layoutAs]
      · obtain ⟨hpage, hlength⟩ := hon s hs
        rw [List.append_assoc] at hpage
        rw [List.length_append] at hlength
        exact ⟨hpage, by omega⟩
    · refine List.pairwise_cons.2 ⟨fun t ht => ?_, hordered⟩
      have hlength := (hon t ht).2
      rw [List.length_append] at hlength
      exact Nat.lt_of_succ_le hlength
  | skip passed _ ih =>
    rw [List.filter_cons_of_neg (by simp [passed])]
    exact ih hp

/-- There are no other marks than those of the located nodes that are mapped. -/
theorem filter_isMark (h : Layout.Marks layout ws) :
    layout.filter Piece.isMark = (ws.filter (·.isMapped)).map fun w => .mark w.span := by
  induction h with
  | nil => simp
  | piece plain _ ih => simpa [plain] using ih
  | mark mapped _ _ ih =>
    rw [List.filter_cons_of_pos rfl, List.filter_cons_of_pos mapped, List.map_cons, ih]
  | skip passed _ ih => simpa [passed] using ih

theorem marks_layout (depth : Nat) (node : Node) :
    Layout.Marks (node.layout depth) (node.wrappers .whole) :=
  Node.marks_layoutAs .whole depth node

/-- A statement list marks the located nodes of its statements. -/
theorem marks_listLayout (depth : Nat) (statements : List Node) :
    Layout.Marks (Node.listLayout depth statements)
      (statements.flatMap (Node.wrappers .whole)) := by
  have hblank : Layout.IsPlain [.indent depth] := by simp [Layout.IsPlain, Piece.isMark]
  have hline : Layout.IsPlain [.newline] := by simp [Layout.IsPlain, Piece.isMark]
  unfold Node.listLayout
  induction statements with
  | nil => exact .nil
  | cons first others ih =>
    have hfirst := (marks_layout depth first).after_plain hblank
    rw [List.flatMap_cons]
    cases others with
    | nil => simpa [Node.layouts, Node.layout] using hfirst
    | cons second others =>
      have hall := hfirst.append (ih.after_plain hline)
      simpa [Node.layouts, Node.layout] using hall

end Writing

/-- What can be called on a printer. -/
inductive Call where
  | setDepth (depth : Nat)
  | emit (node : Node)
  | emitList (statements : List Node)
  | takeMappings

/-- The nodes that a call prints. -/
def Call.printed : Call → List Node
  | .emit node => [node]
  | .emitList statements => statements
  | .setDepth _ | .takeMappings => []

/-- The layout that a call writes at a depth of indentation. -/
def Call.layout (depth : Nat) : Call → Layout
  | .emit node => node.layout depth
  | .emitList statements => Node.listLayout depth statements
  | .setDepth _ | .takeMappings => []

/-- The mappings that a call hands over, and the printer after it. -/
def perform (p : Printer) : Call → List Mapping × Printer
  | .setDepth depth => ([], p.setDepth depth)
  | .emit node => ([], p.emit node)
  | .emitList statements => ([], p.emitList statements)
  | .takeMappings => p.takeMappings

/-- A printer with the page that it was made to print and the mappings taken from it. -/
structure Printing where
  printer : Printer := {}
  page : Layout := []
  taken : List Mapping := []

/-- One call more. -/
def Printing.step (w : Printing) (call : Call) : Printing where
  printer := (w.printer.perform call).2
  page := w.page ++ call.layout w.printer.depth
  taken := w.taken ++ (w.printer.perform call).1

/-- What calls on a fresh printer come to. -/
def performAll (calls : List Call) : Printing := calls.foldl Printing.step {}

/-- The located nodes that calls print and that are mapped, in printed order. -/
def mapped (calls : List Call) : List Wrapper :=
  ((calls.flatMap Call.printed).flatMap (Node.wrappers .whole)).filter (·.isMapped)

section Calls

variable {calls : List Call}

theorem marks_callLayout (depth : Nat) (call : Call) :
    Layout.Marks (call.layout depth) (call.printed.flatMap (Node.wrappers .whole)) := by
  cases call with
  | emit node => simpa [Call.layout, Call.printed] using marks_layout depth node
  | emitList statements => exact marks_listLayout depth statements
  | setDepth depth => exact .nil
  | takeMappings => exact .nil

/-- The page is printed, and all mappings recorded so far, whether taken or not, point to the
located nodes printed so far. There are no other marks on the page. -/
structure Maps (calls : List Call) (w : Printing) : Prop where
  shows : w.printer.Shows w.page
  points : PointsTo w.page (mapped calls) (w.taken ++ w.printer.mappings)
  marks : w.page.filter Piece.isMark = (mapped calls).map fun w => .mark w.span

/-- A call writes its layout, and no mapping is lost. -/
theorem perform_eq_write (p : Printer) (call : Call) :
    (p.perform call).2.output = (p.write (call.layout p.depth)).output ∧
      (p.perform call).2.position = (p.write (call.layout p.depth)).position ∧
      (p.perform call).1 ++ (p.perform call).2.mappings =
        (p.write (call.layout p.depth)).mappings := by
  cases call <;>
    simp [perform, Call.layout, emit_eq_write, emitList_eq_write, setDepth, takeMappings]

/-- One call more. -/
theorem Maps.step {w : Printing} (h : Maps calls w) (call : Call) :
    Maps (calls ++ [call]) (w.step call) := by
  obtain ⟨houtput, hposition, htaken⟩ := perform_eq_write w.printer call
  have hmarks := marks_callLayout w.printer.depth call
  have hshows := h.shows.write (call.layout w.printer.depth)
  obtain ⟨sites, hwrappers, hmappings, hon, hordered⟩ := exists_sites_write hmarks h.shows
  have hmapped : mapped (calls ++ [call]) = mapped calls ++ sites.map (·.wrapper) := by
    rw [hwrappers]
    simp [mapped]
  constructor
  · constructor
    · exact houtput.trans hshows.output
    · exact hposition.trans (hshows.current.trans (congrArg Position.atEnd houtput.symm))
  · have hall : (w.step call).taken ++ (w.step call).printer.mappings =
        (w.taken ++ w.printer.mappings) ++ sites.map Site.mapping := by
      rw [Printing.step, List.append_assoc, htaken, hmappings, List.append_assoc]
    rw [hmapped, hall]
    exact h.points.append ⟨sites, rfl, rfl, hon, hordered⟩
  · rw [hmapped, hwrappers, Printing.step, List.filter_append, h.marks, filter_isMark hmarks,
      List.map_append]

theorem maps_performAll (calls : List Call) : Maps calls (performAll calls) := by
  induction calls using List.reverseRecOn with
  | nil => exact ⟨shows_nil, .nil _, rfl⟩
  | append_singleton calls call ih =>
    rw [performAll, List.foldl_concat]
    exact ih.step call

end Calls

/-- Whatever was called on a printer: the line is the number of newlines in the output and the
column the number of UTF-16 code units after the last of them. The output is the text of the page,
the marks on the page are those of the located nodes that are mapped, and every mapping, whether
it was taken already or not, is where the text of its located node begins. -/
theorem true_positions (calls : List Call) :
    (performAll calls).printer.position.line =
        (performAll calls).printer.output.toList.count '\n' ∧
      (performAll calls).printer.position.column =
        utf16Length ((performAll calls).printer.output.toList.rtakeWhile (· ≠ '\n')) ∧
      (performAll calls).printer.output = (performAll calls).page.text ∧
      ((performAll calls).page.filter Piece.isMark =
        (mapped calls).map fun w => .mark w.span) ∧
      PointsTo (performAll calls).page (mapped calls)
        ((performAll calls).taken ++ (performAll calls).printer.mappings) := by
  obtain ⟨⟨houtput, hcurrent⟩, hpoints, hmarks⟩ := maps_performAll calls
  refine ⟨?_, ?_, houtput, hmarks, hpoints⟩
  · rw [hcurrent, Position.atEnd, Position.ofChars]
  · rw [hcurrent, Position.atEnd, Position.ofChars]

/-- A character outside the basic plane takes two columns. -/
example : (performAll [.emit (.located (.identifier "𝒳") ⟨0, 4⟩),
    .emit (.located (.identifier "y") ⟨5, 6⟩)]).printer.mappings.map (·.position) =
      [⟨0, 0⟩, ⟨0, 2⟩] := by decide +kernel

/-- Printing a node, whatever was printed before, adds one mapping for each located node of the
tree that is mapped, in printed order. So every located node of the tree gets its mapping exactly
if none of them wraps a binding in a list of declarations or a declaration at the head of a
loop. -/
theorem mapped_all_iff (calls : List Call) (node : Node) :
    ∃ added, (performAll (calls ++ [.emit node])).printer.mappings =
        (performAll calls).printer.mappings ++ added ∧
      PointsTo (performAll (calls ++ [.emit node])).page
        ((node.wrappers .whole).filter (·.isMapped)) added ∧
      (added.map (·.span) = (node.wrappers .whole).map (·.span) ↔
        ∀ w ∈ node.wrappers .whole, w.isMapped = true) := by
  generalize hw : performAll calls = w
  have hshows : w.printer.Shows w.page := hw ▸ (maps_performAll calls).shows
  have hstep : performAll (calls ++ [.emit node]) = w.step (.emit node) := by
    rw [← hw, performAll, performAll, List.foldl_concat]
  obtain ⟨sites, hwrappers, hmappings, hon, hordered⟩ :=
    exists_sites_write (marks_layout w.printer.depth node) hshows
  have hpoints : PointsTo (w.step (.emit node)).page ((node.wrappers .whole).filter (·.isMapped))
      (sites.map Site.mapping) := ⟨sites, hwrappers, rfl, fun s hs => (hon s hs).1, hordered⟩
  rw [← emit_eq_write] at hmappings
  rw [hstep]
  refine ⟨sites.map Site.mapping, hmappings, hpoints, ?_⟩
  rw [hpoints.span_eq]
  constructor
  · intro hall
    have hlength := congrArg List.length hall
    rw [List.length_map, List.length_map, List.length_filter_eq_length_iff] at hlength
    exact hlength
  · intro hall
    rw [List.filter_eq_self.2 hall]

/-- The wrapper of the only binding in a list of declarations leaves no mapping. -/
theorem unmapped_binding :
    (({} : Printer).emit (.varList [.located (.varDecl "a" none) ⟨4, 5⟩])).mappings = [] ∧
      ((Node.varList [.located (.varDecl "a" none) ⟨4, 5⟩]).wrappers .whole).map (·.span) =
        [⟨4, 5⟩] := by
  decide +kernel

end Printer

end Resumable
