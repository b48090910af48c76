import Resumable.Proofs.Region.Layout
import Resumable.Proofs.Session.Recording

/-!
# Sessions keep their regions laid out

Every successful call takes a session forward: marks stay where they are, an exception region
keeps its bounds, and the regions stay laid out among the operations. The calls on protected
blocks are taken apart, for in the middle of one the region and its labels do not agree yet.
-/

namespace Resumable.Session

variable {α β : Type} {s s' s₁ s₂ : Session}

/-- The regions of the session lie among its operations as they should. -/
def InOrder (s : Session) : Prop := Laid s.recorder.operations s.labels s.regions

/-- The second session comes from the first by successful calls. -/
structure Advance (s s' : Session) : Prop where
  mode : s'.recorder.mode = s.recorder.mode
  labels : ∀ l q, s.labels.position? l = some q → s'.labels.position? l = some q
  exceptions : ∀ id r, s.regions.exception? id = some r →
    ∃ r', s'.regions.exception? id = some r' ∧ r'.start = r.start ∧ r'.stop = r.stop
  inOrder : s.InOrder → s'.InOrder

namespace Advance

theorem refl (s : Session) : Advance s s where
  mode := rfl
  labels _ _ h := h
  exceptions _ r h := ⟨r, h, rfl, rfl⟩
  inOrder h := h

theorem trans (h : Advance s s₁) (h' : Advance s₁ s') : Advance s s' where
  mode := h'.mode.trans h.mode
  labels l q hq := h'.labels l q (h.labels l q hq)
  exceptions id r hr := by
    obtain ⟨r₁, hr₁, hstart, hstop⟩ := h.exceptions id r hr
    obtain ⟨r₂, hr₂, hstart', hstop'⟩ := h'.exceptions id r₁ hr₁
    exact ⟨r₂, hr₂, hstart'.trans hstart, hstop'.trans hstop⟩
  inOrder hs := h'.inOrder (h.inOrder hs)

end Advance

namespace Recording

variable {ops : List Operation}

/-- The labels that are marked after something was recorded. -/
theorem le_of_position? (h : Recording s s' ops) (hs : s.InOrder) (l : Label) (q : Nat)
    (hq : s'.labels.position? l = some q) : q ≤ s'.recorder.operations.length := by
  obtain ⟨more, hmore, -⟩ := h.operations
  rcases h.marked l q hq with hq | hq
  · have := hs.marked l q hq
    rw [hmore, List.length_append]
    omega
  · exact hq

theorem inOrder (h : Recording s s' ops) (hs : s.InOrder) : s'.InOrder := by
  obtain ⟨more, hmore, -⟩ := h.operations
  have hmarked := h.le_of_position? hs
  rw [hmore] at hmarked
  unfold InOrder
  rw [hmore, h.regions]
  exact hs.grow h.labels hmarked

theorem advance (h : Recording s s' ops) : Advance s s' where
  mode := h.mode
  labels := h.labels
  exceptions id r hr := ⟨r, by rw [h.regions]; exact hr, rfl, rfl⟩
  inOrder := h.inOrder

end Recording

/-- A successful call takes the session forward. -/
def Advances (call : SessionM α) : Prop := ∀ s a s', Answers call s a s' → Advance s s'

namespace Advances

theorem bind {x : SessionM α} {f : α → SessionM β} (hx : Advances x) (hf : ∀ a, Advances (f a)) :
    Advances (x >>= f) := by
  intro s b s' h
  obtain ⟨a, s₁, h₁, h₂⟩ := h.of_bind
  exact (hx s a s₁ h₁).trans (hf a s₁ b s' h₂)

end Advances

theorem Quiet.advances {call : SessionM α} (h : Quiet call) : Advances call := by
  intro s a s' ha
  obtain ⟨ops, hr⟩ := h s a s' ha
  exact hr.advance

section Regions

variable {region : Region} {id : RegionId} {kind : RegionKind}

theorem Answers.of_enterRegion (h : Answers (enterRegion region) s id s') :
    id = s.regions.regions.length ∧
      s' = { s with regions := (s.regions.enter region s.recorder.operations.length).2 } := by
  have heq : (id, s') = ((s.regions.enter region s.recorder.position).1,
      { s with regions := (s.regions.enter region s.recorder.position).2 }) := h.of_modifyGet
  obtain ⟨hid, hs⟩ := Prod.mk.inj heq
  exact ⟨hid, hs⟩

/-- A region is opened. -/
theorem Advance.enter (s : Session) (region : Region)
    (hr : ∀ r, region.exception? = some r →
      s.labels.position? r.start = some s.recorder.operations.length ∧ r.isHandled = false) :
    Advance s { s with regions := (s.regions.enter region s.recorder.operations.length).2 } where
  mode := rfl
  labels _ _ h := h
  exceptions _ r h :=
    ⟨r, (RegionStack.exception?_enter_of_lt (RegionStack.lt_of_exception? h) _ _).trans h, rfl, rfl⟩
  inOrder hs := hs.enter region hr

theorem Answers.of_leaveRegion (h : Answers (leaveRegion kind) s id s') :
    ∃ region, s.regions.get? id = some region ∧ region.kind = kind ∧
      ∃ rest, s.regions.live = id :: rest ∧
        s' = { s with regions := { s.regions with
          live := rest
          events := s.regions.events ++ [⟨.closed, id, s.recorder.operations.length⟩] } } := by
  unfold leaveRegion at h
  have h := h.of_get_bind
  split at h
  · next id' regions heq =>
    obtain ⟨hinner, rfl⟩ := RegionStack.leave_eq_ok_iff.1 heq
    obtain ⟨u, s₁, hset, hlast⟩ := h.of_bind
    obtain ⟨rfl, rfl⟩ := hlast.of_pure
    obtain ⟨top, htop, hget⟩ := Option.bind_eq_some_iff.1 hinner
    obtain ⟨region, hregion, hkind⟩ := Option.bind_eq_some_iff.1 hget
    obtain ⟨rfl, rfl⟩ := Prod.mk.inj (Option.some.inj hkind)
    obtain ⟨rest, hrest⟩ := List.head?_eq_some_iff.1 htop
    refine ⟨region, hregion, rfl, rest, hrest, ?_⟩
    rw [hset.of_set, hrest]
    rfl
  · exact h.of_throw.elim

theorem exception?_eq_none_of_kind (h : region.kind ≠ .exception) : region.exception? = none := by
  cases region with
  | exception r => exact absurd rfl h
  | scope r => rfl
  | breakable target => rfl
  | loop target label => rfl

/-- A region that is not an exception region is closed. -/
theorem advances_leaveRegion (hkind : kind ≠ .exception) : Advances (leaveRegion kind) := by
  intro s id s' h
  obtain ⟨region, hregion, hk, rest, hlive, rfl⟩ := h.of_leaveRegion
  have hnone : s.regions.exception? id = none := by
    rw [RegionStack.exception?, hregion]
    exact exception?_eq_none_of_kind (hk ▸ hkind)
  refine ⟨rfl, fun _ _ h => h, fun _ r h => ⟨r, h, rfl, rfl⟩, fun hs => ?_⟩
  have hmarked : ∀ l q, s.labels.position? l = some q →
      q ≤ (s.recorder.operations ++ []).length := by
    rw [List.append_nil]
    exact hs.marked
  have hlaid := hs.leave hlive (fun _ _ h => h) hmarked fun r hr => by rw [hnone] at hr; cases hr
  rwa [List.append_nil] at hlaid

theorem advances_enterRegion (hnone : region.exception? = none) :
    Advances (enterRegion region) := by
  intro s id s' h
  obtain ⟨-, rfl⟩ := h.of_enterRegion
  exact .enter s region fun r hr => by rw [hnone] at hr; cases hr

end Regions

end Resumable.Session
