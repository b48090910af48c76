import Resumable.Proofs.Region.Nesting

/-!
# The open scopes

Which scopes are open before an operation is read off the log, like the exception regions. It only
changes where a scope is opened or closed.
-/

namespace Resumable

namespace RegionStack

def scope? (s : RegionStack) (id : RegionId) : Option ScopeRegion := s.get? id >>= Region.scope?

/-- The open scopes, the innermost first. -/
def openScopes (s : RegionStack) : List ScopeRegion := s.live.filterMap s.scope?

/-- The scopes that are open before an operation, the innermost first. -/
def scopesBefore (s : RegionStack) (i : Nat) : List ScopeRegion :=
  ((s.logBefore i).foldl RegionEvent.track []).filterMap s.scope?

theorem scope?_eq_some_iff {s : RegionStack} {id : RegionId} {r : ScopeRegion} :
    s.scope? id = some r ↔ s.get? id = some (.scope r) := by
  unfold scope?
  cases s.get? id with
  | none => simp
  | some region => cases region <;> simp [Region.scope?]

end RegionStack

namespace Laid

variable {operations : List Recorded} {labels : LabelTable} {regions : RegionStack} {i k : Nat}

/-- No scope is opened or closed between two operations before which the same ones are open. -/
theorem scopesBefore_eq_of_le (h : Laid operations labels regions) (hik : i ≤ k)
    (hnone : ∀ e ∈ regions.events, i ≤ e.offset → e.offset < k → regions.scope? e.region = none) :
    regions.scopesBefore k = regions.scopesBefore i := by
  obtain ⟨next, hnext⟩ := h.history_logBefore k
  rw [RegionStack.scopesBefore, RegionStack.logBefore_append hik]
  rw [RegionStack.logBefore_append hik] at hnext
  refine hnext.foldl_induction (f := fun (u : Unit) _ => u) (c := ())
    (P := fun live _ => live.filterMap regions.scope? = regions.scopesBefore i) rfl
    fun e he live _ hlive htop => ?_
  have hscope : regions.scope? e.region = none := by
    have hdrop := List.takeWhile_subset _ he
    have hlt : e.offset < k := by
      simpa using List.all_eq_true.1 List.all_takeWhile e he
    have hle := mem_dropWhile_of_pairwise h.ordered (fun a b hab hb => by
      simp only [decide_eq_true_eq] at hb ⊢
      omega) hdrop
    exact hnone e ((List.dropWhile_suffix _).subset hdrop) (by simpa using hle) hlt
  cases ha : e.action with
  | opened =>
    simp only [RegionEvent.track, ha, List.filterMap_cons, hscope]
    exact hlive
  | closed =>
    obtain ⟨rest, rfl⟩ := htop ha
    rw [List.filterMap_cons, hscope] at hlive
    simp only [RegionEvent.track, ha, List.tail_cons]
    exact hlive

/-- The log up to an operation is all there was when it was recorded. -/
theorem logBefore_eq {early late : List RegionEvent} (hevents : regions.events = early ++ late)
    (hearly : ∀ e ∈ early, e.offset < i) (hlate : ∀ e ∈ late, i ≤ e.offset) :
    regions.logBefore i = early := by
  rw [RegionStack.logBefore, hevents,
    List.takeWhile_append_of_pos fun e he => decide_eq_true (hearly e he)]
  cases late with
  | nil => exact List.append_nil _
  | cons e late =>
    have hle := hlate e List.mem_cons_self
    rw [List.takeWhile_cons_of_neg (by simpa using hle), List.append_nil]

end Laid

end Resumable
