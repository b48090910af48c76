import Resumable.Error

/-!
# The label table

Which labels have been defined, the operation each of them is marked at, and whether
anything branches to it. A label is defined before it is marked and marked at most once; a
branch may name it before it is marked.
-/

namespace Resumable

structure LabelEntry where
  /-- The index of the operation the label stands before. -/
  position : Option Nat := none
  referenced : Bool := false
  deriving DecidableEq, Repr, Inhabited

/-- The entries of the defined labels, in order of definition. -/
structure LabelTable where
  entries : List LabelEntry := []
  deriving DecidableEq, Repr, Inhabited

namespace LabelTable

def size (t : LabelTable) : Nat := t.entries.length

def isEmpty (t : LabelTable) : Bool := t.entries.isEmpty

/-- The entry of a defined label. -/
def find? (t : LabelTable) (l : Label) : Option LabelEntry :=
  if l.isNone then none else t.entries[l.number - 1]?

/-- Replaces the entry of a defined label. -/
def setEntry (t : LabelTable) (l : Label) (e : LabelEntry) : LabelTable :=
  ⟨t.entries.set (l.number - 1) e⟩

/-- The next label, unmarked, and the table that has it. -/
def define (t : LabelTable) : Label × LabelTable :=
  (⟨t.entries.length + 1⟩, ⟨t.entries ++ [⟨none, false⟩]⟩)

/-- Marks a label at the operation with index `position`. -/
def mark (t : LabelTable) (l : Label) (position : Nat) : Except LoweringError LabelTable :=
  match t.find? l with
  | none => .error (.undefinedLabel l)
  | some e =>
    match e.position with
    | some existing => .error (.labelAlreadyMarked l existing)
    | none => .ok (t.setEntry l { e with position := some position })

/-- Notes that something branches to a label. -/
def noteReference (t : LabelTable) (l : Label) : Except LoweringError LabelTable :=
  match t.find? l with
  | none => .error (.undefinedLabel l)
  | some e => .ok (t.setEntry l { e with referenced := true })

/-- The operation a label is marked at. -/
def position? (t : LabelTable) (l : Label) : Option Nat := t.find? l >>= LabelEntry.position

def isReferenced (t : LabelTable) (l : Label) : Bool := (t.find? l).any (·.referenced)

/-- The defined labels, in order of definition. -/
def labels (t : LabelTable) : List Label := (List.range' 1 t.size).map Label.mk

/-- The labels that are defined but not marked. -/
def unmarked (t : LabelTable) : List Label := t.labels.filter fun l => (t.position? l).isNone

def firstUnmarked? (t : LabelTable) : Option Label :=
  t.labels.find? fun l => (t.position? l).isNone

/-- Whether some label is marked at the operation with this index. -/
def hasLabelAt (t : LabelTable) (position : Nat) : Bool :=
  t.entries.any fun e => e.position = some position

theorem find?_eq_some_iff {t : LabelTable} {l : Label} {e : LabelEntry} :
    t.find? l = some e ↔ 0 < l.number ∧ t.entries[l.number - 1]? = some e := by
  simp [find?, Label.isNone, Nat.pos_iff_ne_zero]

/-- The defined labels are those numbered from 1 to the size of the table. -/
theorem isSome_find?_iff {t : LabelTable} {l : Label} :
    (t.find? l).isSome = true ↔ 0 < l.number ∧ l.number ≤ t.size := by
  unfold find? Label.isNone size
  split
  · simp_all
  · simp_all
    omega

theorem find?_define_fresh (t : LabelTable) : t.define.2.find? t.define.1 =
    some ⟨none, false⟩ := by
  simp [define, find?, Label.isNone]

/-- Defining a label leaves the labels before it as they were. -/
theorem find?_define_of_isSome {t : LabelTable} {l : Label} (h : (t.find? l).isSome = true) :
    t.define.2.find? l = t.find? l := by
  obtain ⟨hpos, hle⟩ := isSome_find?_iff.1 h
  unfold size at hle
  simp [define, find?, Label.isNone, List.getElem?_append,
    show l.number - 1 < t.entries.length by omega]

theorem find?_setEntry {t : LabelTable} {l : Label} (h : (t.find? l).isSome = true)
    (e : LabelEntry) (l' : Label) :
    (t.setEntry l e).find? l' = if l' = l then some e else t.find? l' := by
  obtain ⟨hpos, hle⟩ := isSome_find?_iff.1 h
  unfold size at hle
  cases l with | mk n => cases l' with | mk k =>
  simp only [find?, setEntry, Label.isNone, Label.mk.injEq, List.getElem?_set] at *
  by_cases hk : k = 0
  · simp [hk]
    omega
  · by_cases hkn : k = n
    · simp [hkn]
      omega
    · simp [hk, hkn, show n - 1 ≠ k - 1 by omega]

theorem size_setEntry (t : LabelTable) (l : Label) (e : LabelEntry) :
    (t.setEntry l e).size = t.size := by
  simp [setEntry, size]

end LabelTable

end Resumable
