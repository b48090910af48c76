import Resumable.Body.Cursor

/-!
# What the cursor holds

A cursor keeps exception regions and scopes apart: only an exception region can wait to be
announced, and only a scope can be wrapped around statements.
-/

namespace Resumable.RegionCursor

/-- Every region the cursor holds is of the kind that its place is for. -/
structure Sorted (regions : RegionStack) (c : RegionCursor) : Prop where
  entered : ∀ id, c.entered = some id → ∃ r, regions.get? id = some (.exception r)
  outer : ∀ id, some id ∈ c.outer → ∃ r, regions.get? id = some (.exception r)
  scopes : ∀ id ∈ c.scopes, ∃ r, regions.get? id = some (.scope r)

variable {regions : RegionStack} {c : RegionCursor}

theorem sorted_start (regions : RegionStack) : (start regions).Sorted regions where
  entered _ h := by cases h
  outer _ h := by cases h
  scopes _ h := by cases h

theorem Sorted.replay (h : c.Sorted regions) (e : RegionEvent) :
    (c.replay regions e).Sorted regions := by
  unfold RegionCursor.replay
  split
  · next r _ hr =>
    refine ⟨fun id hid => ?_, fun id hid => ?_, h.scopes⟩
    · obtain rfl := Option.some.inj hid
      exact ⟨r, hr⟩
    · rcases List.mem_cons.1 hid with hid | hid
      · exact h.entered id hid.symm
      · exact h.outer id hid
  · refine ⟨fun id hid => ?_, fun id hid => h.outer id (List.mem_of_mem_tail hid), h.scopes⟩
    apply h.outer id
    cases ho : c.outer with
    | nil => rw [ho] at hid; cases hid
    | cons slot rest =>
      obtain rfl : slot = some id := by simpa [ho] using hid
      exact List.mem_cons_self
  · next r _ hr =>
    refine ⟨h.entered, h.outer, fun id hid => ?_⟩
    rcases List.mem_cons.1 hid with rfl | hid
    · exact ⟨r, hr⟩
    · exact h.scopes id hid
  · exact ⟨h.entered, h.outer, fun id hid => h.scopes id (List.mem_of_mem_tail hid)⟩
  · exact h

theorem Sorted.foldl_replay (h : c.Sorted regions) (events : List RegionEvent) :
    (events.foldl (RegionCursor.replay regions) c).Sorted regions := by
  induction events generalizing c with
  | nil => exact h
  | cons e rest ih => exact ih (h.replay e)

theorem Sorted.reach (h : c.Sorted regions) (index : Nat) :
    (c.reach regions index).Sorted regions := by
  have h' : { c with pending := c.pending.dropWhile (·.offset ≤ index) : RegionCursor }.Sorted
      regions := ⟨h.entered, h.outer, h.scopes⟩
  exact h'.foldl_replay _

theorem Sorted.announce (h : c.Sorted regions) :
    { c with entered := none : RegionCursor }.Sorted regions where
  entered _ he := by cases he
  outer := h.outer
  scopes := h.scopes

end Resumable.RegionCursor
