import Resumable.Proofs.Source.Position
import Resumable.Proofs.Tree.Printing

/-!
# Printing part by part

What a printer adds for a node does not depend on what it printed before. `Printer.followedBy` puts
a page that was printed on its own behind another one, and writing a layout piece by piece comes to
putting the page of the layout there.
-/

namespace Resumable

/-- The mapping on a page that begins at `base`. -/
def Mapping.shift (base : Position) (m : Mapping) : Mapping :=
  { m with position := base.shift m.position }

namespace Printer

/-- A printer that has printed nothing, at the same depth of indentation. -/
def fresh (p : Printer) : Printer := ({} : Printer).setDepth p.depth

/-- The printer with a page that was printed on its own put behind what it has printed. -/
def followedBy (p page : Printer) : Printer where
  output := p.output ++ page.output
  depth := p.depth
  position := p.position.shift page.position
  mappings := p.mappings ++ page.mappings.map (Mapping.shift p.position)

theorem followedBy_fresh (p : Printer) : p.followedBy p.fresh = p := by
  simp [followedBy, fresh, setDepth, Position.shift_start]

section Writing

variable (p page : Printer)

/-- One piece more on the page is one piece more behind it. -/
theorem put_followedBy (piece : Piece) :
    (p.followedBy page).put piece = p.followedBy (page.put piece) := by
  cases piece with
  | text s => simp [put, followedBy, Position.shift_after, String.append_assoc]
  | newline => simp [put, followedBy, Position.shift_nextLine, String.append_assoc]
  | indent depth => simp [put, followedBy, Position.shift_right, String.append_assoc]
  | mark span => simp [put, followedBy, Mapping.shift]

theorem write_followedBy (layout : Layout) :
    (p.followedBy page).write layout = p.followedBy (page.write layout) := by
  induction layout generalizing page with
  | nil => rfl
  | cons piece rest ih =>
    have hput := ih (page.put piece)
    rw [← put_followedBy] at hput
    exact hput

theorem write_eq_followedBy (layout : Layout) :
    p.write layout = p.followedBy (p.fresh.write layout) := by
  rw [← write_followedBy, followedBy_fresh]

end Writing

/-- Whatever was printed before, printing a node keeps the depth of indentation and adds the text,
the lines and columns, and the mappings of the page that a fresh printer at this depth prints. The
line of each mapping is counted on from the line reached before; the column is too, if the mapping
is on the first line of the page. -/
theorem emit_compositional (p : Printer) (node : Node) :
    (p.emit node).depth = p.depth ∧
      (p.emit node).output = p.output ++ (p.fresh.emit node).output ∧
      (p.emit node).position = p.position.shift (p.fresh.emit node).position ∧
      (p.emit node).mappings =
        p.mappings ++ (p.fresh.emit node).mappings.map (Mapping.shift p.position) := by
  have hpage : p.emit node = p.followedBy (p.fresh.emit node) := by
    rw [emit_eq_write, emit_eq_write]
    exact write_eq_followedBy p (node.layout p.depth)
  rw [hpage]
  exact ⟨rfl, rfl, rfl, rfl⟩

end Printer

end Resumable
