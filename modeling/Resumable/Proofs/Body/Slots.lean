import Resumable.Proofs.Body.Scopes
import Resumable.Proofs.Region.Nesting

/-!
# The slots of the cursor

The cursor keeps a slot for each exception region that is open: the region itself as long as it
has not been announced, and nothing afterwards. Replaying a log moves the slots with the regions
that are open.
-/

namespace Resumable

namespace RegionCursor

variable {regions : RegionStack} {c : RegionCursor} {slot : RegionId → Option RegionId}

/-- The slots of the cursor are those of the exception regions among the open ones. -/
def Holds (regions : RegionStack) (slot : RegionId → Option RegionId) (live : List RegionId)
    (c : RegionCursor) : Prop :=
  c.entered :: c.outer =
    (live.filter fun id => (regions.exception? id).isSome).map slot ++ [none]

theorem replay_of_exception {e : RegionEvent} {r : ExceptionRegion}
    (hr : regions.exception? e.region = some r) :
    c.replay regions e = match e.action with
      | .opened => { c with entered := some e.region, outer := c.entered :: c.outer }
      | .closed => { c with entered := c.outer.head?.join, outer := c.outer.tail } := by
  rw [RegionStack.exception?_eq_some_iff] at hr
  unfold RegionCursor.replay
  rw [hr]
  cases e.action <;> rfl

theorem replay_of_not_exception {e : RegionEvent} (hr : regions.exception? e.region = none) :
    (c.replay regions e).entered = c.entered ∧ (c.replay regions e).outer = c.outer := by
  unfold RegionCursor.replay
  split
  · next r _ h => rw [RegionStack.exception?_eq_some_iff.2 h] at hr; cases hr
  · next r _ h => rw [RegionStack.exception?_eq_some_iff.2 h] at hr; cases hr
  · exact ⟨rfl, rfl⟩
  · exact ⟨rfl, rfl⟩
  · exact ⟨rfl, rfl⟩

/-- One event. -/
theorem Holds.replay {live : List RegionId} (h : c.Holds regions slot live) (e : RegionEvent)
    (htop : e.action = .closed → ∃ rest, live = e.region :: rest)
    (hfresh : e.action = .opened → (regions.exception? e.region).isSome = true →
      slot e.region = some e.region) :
    (c.replay regions e).Holds regions slot (e.track live) := by
  cases hr : regions.exception? e.region with
  | some r =>
    cases ha : e.action with
    | opened =>
      have htrack : e.track live = e.region :: live := by simp only [RegionEvent.track, ha]
      rw [htrack, Holds, replay_of_exception hr, ha, List.filter_cons_of_pos (by rw [hr]; rfl),
        List.map_cons, hfresh ha (by rw [hr]; rfl), List.cons_append, ← h]
    | closed =>
      obtain ⟨rest, rfl⟩ := htop ha
      have htrack : e.track (e.region :: rest) = rest := by simp only [RegionEvent.track, ha]; rfl
      rw [Holds, List.filter_cons_of_pos (by rw [hr]; rfl), List.map_cons, List.cons_append] at h
      have houter := (List.cons.inj h).2
      rw [htrack, Holds, replay_of_exception hr, ha]
      cases ho : c.outer with
      | nil => rw [ho] at houter; simp at houter
      | cons s outer =>
        rw [← houter, ho]
        cases s <;> rfl
  | none =>
    obtain ⟨hentered, houter⟩ := replay_of_not_exception (c := c) hr
    rw [Holds, hentered, houter, h]
    have hskip : ∀ rest : List RegionId,
        ((e.region :: rest).filter fun id => (regions.exception? id).isSome) =
          rest.filter fun id => (regions.exception? id).isSome := fun rest =>
      List.filter_cons_of_neg (by rw [hr]; simp)
    cases ha : e.action with
    | opened =>
      have htrack : e.track live = e.region :: live := by simp only [RegionEvent.track, ha]
      rw [htrack, hskip]
    | closed =>
      obtain ⟨rest, rfl⟩ := htop ha
      have htrack : e.track (e.region :: rest) = rest := by simp only [RegionEvent.track, ha]; rfl
      rw [htrack, hskip]

/-- A stretch of the log. -/
theorem Holds.foldl_replay {early late : List RegionEvent} {live : List RegionId} {next : Nat}
    (hall : RegionHistory (early ++ late) live next)
    (h : c.Holds regions slot (early.foldl RegionEvent.track []))
    (hfresh : ∀ e ∈ late, e.action = .opened → (regions.exception? e.region).isSome = true →
      slot e.region = some e.region) :
    (late.foldl (RegionCursor.replay regions) c).Holds regions slot
      ((early ++ late).foldl RegionEvent.track []) :=
  hall.foldl_induction h
    fun e he _ _ hold htop => hold.replay e htop (hfresh e he)

end RegionCursor
end Resumable
