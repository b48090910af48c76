import Resumable.Proofs.Region.Replay
import Resumable.Proofs.Session.Attempts
import Resumable.Proofs.Session.Nameless

/-!
# The log of the regions of a session

A session changes its regions by operations on their stack, each at the place the session has come
to. So what a log tells of any region stack, that of a session tells too, and its offsets follow the
operations. This holds after calls that failed as well, for they leave what was done before.
-/

namespace Resumable

/-- The operation adds nothing to the log but at most one event at this offset. -/
def StackCall.LogsAt (call : StackCall) (s : RegionStack) (offset : Nat) : Prop :=
  (call.perform s).events = s.events ∨
    ∃ e, e.offset = offset ∧ (call.perform s).events = s.events ++ [e]

theorem StackCall.logsAt_enter (s : RegionStack) (region : Region) (offset : Nat) :
    (StackCall.enter region offset).LogsAt s offset := .inr ⟨_, rfl, rfl⟩

theorem StackCall.logsAt_leave (s : RegionStack) (kind : RegionKind) (offset : Nat) :
    (StackCall.leave kind offset).LogsAt s offset := by
  unfold LogsAt perform
  dsimp only
  split
  · next id s' hleave =>
    obtain ⟨-, rfl⟩ := RegionStack.leave_eq_ok_iff.1 hleave
    exact .inr ⟨_, rfl, rfl⟩
  · exact .inl rfl

theorem StackCall.logsAt_replace (s : RegionStack) (id : RegionId) (region : Region)
    (offset : Nat) : (StackCall.replace id region).LogsAt s offset := .inl rfl

namespace Session

variable {kind : SessionKind} {options : Options} {scope : Nat} {bound : List String}
  {s s' s₀ : Session} {call : StackCall}

/-- The regions of the session come from operations on an empty stack, in the order of the offsets,
and none of them lies past the last operation. -/
structure IsReplayable (s : Session) : Prop where
  calls : ∃ calls, s.regions = .ofCalls calls
  ordered : s.regions.events.Pairwise fun e f => e.offset ≤ f.offset
  past : ∀ e ∈ s.regions.events, e.offset ≤ s.recorder.operations.length

namespace IsReplayable

theorem start (kind : SessionKind) (options : Options) (scope : Nat) (bound : List String) :
    (Session.start kind options scope bound).IsReplayable where
  calls := ⟨[], rfl⟩
  ordered := .nil
  past _ he := absurd he List.not_mem_nil

/-- Operations are added, and the regions stay as they are. -/
theorem grow (h : s.IsReplayable) (hregions : s'.regions = s.regions)
    (hops : s.recorder.operations <+: s'.recorder.operations) : s'.IsReplayable where
  calls := hregions ▸ h.calls
  ordered := hregions ▸ h.ordered
  past e he := Nat.le_trans (h.past e (hregions ▸ he)) hops.length_le

/-- The regions are changed at the place the session has come to. -/
theorem perform (h : s.IsReplayable)
    (hlogs : call.LogsAt s.regions s.recorder.operations.length) :
    IsReplayable { s with regions := call.perform s.regions } := by
  obtain ⟨calls, hcalls⟩ := h.calls
  refine ⟨⟨calls ++ [call], by rw [RegionStack.ofCalls_concat, ← hcalls]⟩, ?_, ?_⟩
  · rcases hlogs with hsame | ⟨last, hoffset, hadded⟩
    · exact hsame ▸ h.ordered
    · rw [hadded, List.pairwise_append]
      refine ⟨h.ordered, List.pairwise_singleton _ last, fun e he f hf => ?_⟩
      rw [List.mem_singleton.1 hf, hoffset]
      exact h.past e he
  · rcases hlogs with hsame | ⟨last, hoffset, hadded⟩
    · exact hsame ▸ h.past
    · intro e he
      rcases List.mem_append.1 (hadded ▸ he) with he | he
      · exact h.past e he
      · exact Nat.le_of_eq (List.mem_singleton.1 he ▸ hoffset)

end IsReplayable

/-- The second session goes on from the first: operations were only added, and the log of the
regions tells as much as before. -/
structure Continues (s s' : Session) : Prop where
  operations : s.recorder.operations <+: s'.recorder.operations
  replayable : s.IsReplayable → s'.IsReplayable

namespace Continues

theorem trans {s₁ : Session} (h : Continues s s₁) (h' : Continues s₁ s') : Continues s s' where
  operations := h.operations.trans h'.operations
  replayable hs := h'.replayable (h.replayable hs)

theorem of_regions_eq (hregions : s'.regions = s.regions)
    (hops : s.recorder.operations <+: s'.recorder.operations) : Continues s s' :=
  ⟨hops, fun hs => hs.grow hregions hops⟩

theorem perform (hlogs : call.LogsAt s.regions s.recorder.operations.length) :
    Continues s { s with regions := call.perform s.regions } :=
  ⟨List.prefix_refl _, fun hs => hs.perform hlogs⟩

end Continues

theorem nameless_continues : Nameless Continues where
  refl _ := .of_regions_eq rfl (List.prefix_refl _)
  trans := .trans
  labels _ _ := .of_regions_eq rfl (List.prefix_refl _)
  recorder _ _ hops := .of_regions_eq rfl hops
  diagnostics _ _ := .of_regions_eq rfl (List.prefix_refl _)
  functions _ _ := .of_regions_eq rfl (List.prefix_refl _)
  entered s region := .perform (StackCall.logsAt_enter s.regions region _)
  left s kind id regions hleave := by
    have hperform : (StackCall.leave kind s.recorder.operations.length).perform s.regions =
        regions := by
      rw [StackCall.perform, hleave]
    rw [← hperform]
    exact .perform (StackCall.logsAt_leave s.regions kind _)
  replaced s id region := .perform (StackCall.logsAt_replace s.regions id region _)

theorem tolerant_continues : Tolerant Continues where
  trans := .trans
  inert _ hops _ hregions _ := .of_regions_eq hregions (hops ▸ List.prefix_refl _)
  note _ := .of_regions_eq rfl (List.prefix_refl _)
  entry _ _ := .of_regions_eq rfl (List.prefix_refl _)
  record _ _ _ := .of_regions_eq rfl (List.prefix_append _ _)

theorem Reachable.continues (h : Reachable s₀ s) : Continues s₀ s := by
  induction h with
  | start => exact nameless_continues.refl s₀
  | request request before leaves ih =>
    exact ih.trans (nameless_continues.run_of_tolerant tolerant_continues request _ _ leaves)

/-- Whatever is done to a region stack, its log, its regions and those still open agree, a region
can be closed as what it is now if it is the innermost one and not otherwise, and it stays known
whether an exception region was opened. The regions of a session are such a stack, whatever was
called on it and whatever failed of that, and the offsets of their log follow the operations. -/
theorem faithful_log :
    (∀ calls, (RegionStack.ofCalls calls).Faithful ∧
      ((RegionStack.ofCalls calls).hasExceptions = true ↔
        ∃ region offset, .enter region offset ∈ calls ∧ region.kind = .exception)) ∧
    ∀ kind options scope bound s, Reachable (start kind options scope bound) s →
      s.IsReplayable := by
  refine ⟨fun calls => ⟨RegionStack.faithful_ofCalls calls, ?_⟩, fun kind options scope bound s h =>
    h.continues.replayable (.start kind options scope bound)⟩
  rw [RegionStack.hasExceptions_ofCalls, List.any_eq_true]
  constructor
  · rintro ⟨call, hcall, hopens⟩
    cases call with
    | enter region offset => exact ⟨region, offset, hcall, of_decide_eq_true hopens⟩
    | _ => cases hopens
  · rintro ⟨region, offset, hcall, hkind⟩
    exact ⟨_, hcall, decide_eq_true hkind⟩

/-- Two regions, of which the outer one is closed too early in vain. Its label past the end has a
mark by then, so its own end fails as well, but it does close the region. -/
def interrupted : List Request :=
  [.beginException, .markLabel ⟨2⟩, .beginBreakable ["a"] true, .emit (.throw .null),
    .endException, .endBreakable, .emit .endFinally, .endException, .endException]

theorem faithful_log_interrupted :
    (recount (start .generator {} 0 []) {} interrupted).2.IsReplayable ∧
      (recount (start .generator {} 0 []) {} interrupted).2.regions.events =
        [⟨.opened, 0, 0⟩, ⟨.opened, 1, 0⟩, ⟨.closed, 1, 1⟩, ⟨.closed, 0, 2⟩] ∧
      (recount (start .generator {} 0 []) {} interrupted).1.map (fun call => call.2.isOk) =
        [true, true, true, true, false, true, true, false, false] :=
  ⟨faithful_log.2 .generator {} 0 [] _ (attempts_recount _ {} interrupted).reachable,
    by decide +kernel, by decide +kernel⟩

end Session

end Resumable
