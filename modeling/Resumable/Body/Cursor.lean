import Resumable.Region.Stack

/-!
# The region cursor

Where a walk over the operations stands among the regions. The cursor replays the events of
a region stack up to an operation index. It keeps the scopes that are open, and the one
exception region that has been entered but not announced to the dispatcher yet; the slots of
the exception regions around it wait in `outer`.
-/

namespace Resumable

structure RegionCursor where
  /-- The events not replayed yet. -/
  pending : List RegionEvent
  /-- The exception region that the next case to be closed announces. -/
  entered : Option RegionId := none
  /-- What `entered` held when each enclosing exception region was opened. -/
  outer : List (Option RegionId) := []
  /-- The open scopes, the innermost first. -/
  scopes : List RegionId := []
  deriving DecidableEq, Repr, Inhabited

namespace RegionCursor

/-- The cursor before any event of a region stack. -/
def start (regions : RegionStack) : RegionCursor := { pending := regions.events }

/-- The effect of one event. -/
def replay (regions : RegionStack) (c : RegionCursor) (e : RegionEvent) : RegionCursor :=
  match e.action, regions.get? e.region with
  | .opened, some (.exception _) =>
    { c with entered := some e.region, outer := c.entered :: c.outer }
  | .closed, some (.exception _) => { c with entered := c.outer.head?.join, outer := c.outer.tail }
  | .opened, some (.scope _) => { c with scopes := e.region :: c.scopes }
  | .closed, some (.scope _) => { c with scopes := c.scopes.tail }
  | _, _ => c

/-- Replays the events at or before an operation index, stopping at the first later one. -/
def reach (regions : RegionStack) (index : Nat) (c : RegionCursor) : RegionCursor :=
  (c.pending.takeWhile (·.offset ≤ index)).foldl (replay regions)
    { c with pending := c.pending.dropWhile (·.offset ≤ index) }

theorem pending_replay (regions : RegionStack) (c : RegionCursor) (e : RegionEvent) :
    (replay regions c e).pending = c.pending := by
  unfold replay
  split <;> rfl

/-- What is left to replay are the events from the first one after the index on. -/
theorem pending_reach (regions : RegionStack) (index : Nat) (c : RegionCursor) :
    (reach regions index c).pending = c.pending.dropWhile (·.offset ≤ index) := by
  have keep (events : List RegionEvent) (c : RegionCursor) :
      (events.foldl (replay regions) c).pending = c.pending := by
    induction events generalizing c with
    | nil => rfl
    | cons e rest ih => simp [ih, pending_replay]
  simp [reach, keep]

end RegionCursor

end Resumable
