import Resumable.Proofs.Session.Traces

/-!
# What is owed along a session

What a successful request does to the labels without a mark: those that the driver was given and
still has to mark, and those that the open regions owe. A region adds a label to what is owed when
it is opened or when a jump first asks for its label, and pays when it is closed.
-/

namespace Resumable.Session

variable {s s' : Session} {request : Request} {reply : Reply} {region : Region}
  {regionKind : RegionKind} {id : RegionId} {rest : List RegionId} {offset : Nat}

/-- The call neither gives a label to the driver nor marks one for it. -/
def Aside (x : Request × Reply) : Prop := given? x = none ∧ marked? x = none

theorem aside_of_isQuiet (h : request.isQuiet = true) : Aside (request, reply) := by
  cases request <;> first | exact ⟨rfl, rfl⟩ | cases h

theorem aside_of_target? (h : request.target? = some region) : Aside (request, reply) := by
  cases request <;> first | exact ⟨rfl, rfl⟩ | cases h

theorem aside_of_closedTarget? (h : request.closedTarget? = some regionKind) :
    Aside (request, reply) := by
  cases request <;> first | exact ⟨rfl, rfl⟩ | cases h

/-- A target owes nothing when it is opened. -/
theorem owed_of_target? (h : request.target? = some region) : region.owed = [] := by
  cases request <;> first | cases h; rfl | cases h

/-- What a successful request does to what the open regions owe, and to the labels without a
mark. -/
inductive Dues (s s' : Session) : Request → Reply → Prop where
  /-- The driver is given a label. -/
  | defined {l : Label} (fresh : s.labels.find? l = none) (owed : s'.regions.owed = s.regions.owed)
      (unmarked : s'.labels.unmarked = s.labels.unmarked ++ [l]) :
      Dues s s' .defineLabel (.label l)
  /-- The driver marks a label. -/
  | marked {l : Label} (known : l ∈ s.labels.unmarked) (owed : s'.regions.owed = s.regions.owed)
      (unmarked : s'.labels.unmarked = s.labels.unmarked.filter (· ≠ l)) :
      Dues s s' (.markLabel l) .done
  /-- The regions owe new labels. -/
  | added {request : Request} {reply : Reply} {more : List Label} (aside : Aside (request, reply))
      (owed : s'.regions.owed.Perm (more ++ s.regions.owed))
      (unmarked : s'.labels.unmarked = s.labels.unmarked ++ more) : Dues s s' request reply
  /-- The labels that a region owed are marked. -/
  | paid {request : Request} {reply : Reply} {due : List Label} (aside : Aside (request, reply))
      (owed : s.regions.owed.Perm (due ++ s'.regions.owed))
      (unmarked : s'.labels.unmarked = s.labels.unmarked.filter (· ∉ due)) : Dues s s' request reply

/-- Nothing is owed that was not, and no label is defined. -/
theorem Dues.unchanged (aside : Aside (request, reply))
    (owed : s'.regions.owed.Perm s.regions.owed)
    (unmarked : s'.labels.unmarked = s.labels.unmarked) : Dues s s' request reply :=
  .added aside owed (unmarked.trans (List.append_nil _).symm)

/-- The log of the regions of a session. -/
def IsLogged (s : Session) : Prop :=
  RegionHistory s.regions.events s.regions.live s.regions.regions.length

namespace IsLogged

/-- A region that is changed stays as open as it was. -/
theorem replace (h : s.IsLogged) (hregions : s'.regions = s.regions.replace id region) :
    s'.IsLogged := by
  unfold IsLogged
  rw [hregions]
  show RegionHistory s.regions.events s.regions.live (s.regions.regions.set id region).length
  rwa [List.length_set]

theorem enter (h : s.IsLogged) (hregions : s'.regions = (s.regions.enter region offset).2) :
    s'.IsLogged := by
  unfold IsLogged
  rw [hregions, RegionStack.length_enter]
  exact .opened _ h

theorem close (h : s.IsLogged) (hlive : s.regions.live = id :: rest)
    (hregions : s'.regions = s.regions.closed id rest offset) : s'.IsLogged := by
  unfold IsLogged at h ⊢
  rw [hlive] at h
  rw [hregions]
  exact .closed _ h

end IsLogged

/-- A successful request leaves a log behind. -/
theorem Effect.isLogged (heffect : Effect s s' request reply) (h : s.IsLogged) : s'.IsLogged := by
  have hsame : s'.regions = s.regions → s'.IsLogged := fun heq => by
    unfold IsLogged
    rw [heq]
    exact h
  cases heffect with
  | recorded quiet recording unmarked => exact hsame recording.regions
  | defined recording fresh unmarked => exact hsame recording.regions
  | marked recording known unmarked => exact hsame recording.regions
  | breakFound recording unmarked => exact hsame recording.regions
  | exceptionBegun operations regions placed unmarked => exact h.enter regions
  | scopeBegun operations regions placed unmarked => exact h.enter regions
  | targetBegun opens operations regions labels => exact h.enter regions
  | catchBegun live found early operations jump regions present placed unmarked =>
    exact h.replace regions
  | finallyBegun live found early operations jump regions present placed unmarked =>
    exact h.replace regions
  | breakNamed live found asked dispatched unnamed present operations regions unmarked =>
    exact h.replace regions
  | scopeEnded live found operations regions placed unmarked => exact h.close live regions
  | targetEnded closes live found ofKind operations regions placed unmarked =>
    exact h.close live regions
  | @exceptionEnded id rest r x live found operations last regions placed unmarked =>
    have hclosed : IsLogged
        { s with regions := s.regions.closed id rest s.recorder.operations.length } :=
      h.close live rfl
    exact hclosed.replace regions

/-- What a successful request does to what is owed. -/
theorem Effect.dues (heffect : Effect s s' request reply) (h : s.IsLogged) :
    Dues s s' request reply := by
  have hlt := h.region_lt.2
  have hnodup := h.live_nodup
  have hne : ∀ l : Label, s.labels.unmarked.filter (· ≠ l) =
      s.labels.unmarked.filter (· ∉ [l]) := by
    intro l
    simp
  cases heffect with
  | recorded quiet recording unmarked =>
    exact .unchanged (aside_of_isQuiet quiet) (by rw [recording.regions]) unmarked
  | breakFound recording unmarked =>
    exact .unchanged ⟨rfl, rfl⟩ (by rw [recording.regions]) unmarked
  | defined recording fresh unmarked => exact .defined fresh (by rw [recording.regions]) unmarked
  | marked recording known unmarked => exact .marked known (by rw [recording.regions]) unmarked
  | exceptionBegun operations regions placed unmarked =>
    refine .added ⟨rfl, rfl⟩ ?_ unmarked
    rw [regions, RegionStack.owed_enter hlt]
    exact .refl _
  | scopeBegun operations regions placed unmarked =>
    refine .added ⟨rfl, rfl⟩ ?_ unmarked
    rw [regions, RegionStack.owed_enter hlt]
    exact .refl _
  | targetBegun opens operations regions labels =>
    refine .unchanged (aside_of_target? opens) ?_ (by rw [labels])
    rw [regions, RegionStack.owed_enter hlt, owed_of_target? opens]
    exact .refl _
  | catchBegun live found early operations jump regions present placed unmarked =>
    refine .unchanged ⟨rfl, rfl⟩ ?_ unmarked
    rw [regions]
    exact RegionStack.owed_replace_of_eq (RegionStack.exception?_eq_some_iff.1 found)
      (live ▸ List.mem_cons_self) hnodup rfl
  | finallyBegun live found early operations jump regions present placed unmarked =>
    refine .unchanged ⟨rfl, rfl⟩ ?_ unmarked
    rw [regions]
    exact RegionStack.owed_replace_of_eq (RegionStack.exception?_eq_some_iff.1 found)
      (live ▸ List.mem_cons_self) hnodup rfl
  | @exceptionEnded id rest r x live found operations last regions placed unmarked =>
    have hget := RegionStack.exception?_eq_some_iff.1 found
    rw [live] at hnodup
    have hsame := RegionStack.owed_replace_of_not_mem
      (s := s.regions.closed id rest s.recorder.operations.length) hget
      (List.nodup_cons.1 hnodup).1 (.exception { r with phase := .done })
    refine .paid ⟨rfl, rfl⟩ ?_ (unmarked.trans (hne r.stop))
    rw [regions, hsame, RegionStack.owed_of_live live hget s.recorder.operations.length]
    exact .refl _
  | scopeEnded live found operations regions placed unmarked =>
    refine .paid ⟨rfl, rfl⟩ ?_ (unmarked.trans (hne _))
    rw [regions, RegionStack.owed_of_live live found s.recorder.operations.length]
    exact .refl _
  | targetEnded closes live found ofKind operations regions placed unmarked =>
    refine .paid (aside_of_closedTarget? closes) ?_ unmarked
    rw [regions, RegionStack.owed_of_live live found s.recorder.operations.length]
  | @breakNamed name id region target label live found asked dispatched unnamed present operations
      regions unmarked =>
    -- the label is owed in the place of the region, wherever that is among the open ones
    obtain ⟨hold, hnew⟩ := Region.owed_setBreakLabel asked dispatched unnamed present
    obtain ⟨others, hbefore, hafter⟩ :=
      RegionStack.owed_replace_perm found live hnodup (region.setBreakLabel label)
    rw [hold, List.nil_append] at hbefore
    rw [hnew] at hafter
    refine .added ⟨rfl, rfl⟩ ?_ unmarked
    rw [regions]
    exact hafter.trans (hbefore.symm.append_left _)

end Resumable.Session
