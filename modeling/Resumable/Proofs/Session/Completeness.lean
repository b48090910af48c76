import Resumable.Proofs.Session.Dues
import Resumable.Proofs.Session.Verdicts

/-!
# Every label gets marked

Which labels are without a mark at any point of a session: those that the driver was given and
still has to mark, and those that the open regions owe. So nothing is left over once the regions
are closed and the driver is done.
-/

namespace Resumable.Session

variable {kind : SessionKind} {options : Options} {scope : Nat} {bound : List String}
  {s s' : Session} {t t' : List (Request × Reply)} {request : Request} {reply : Reply}
  {l : Label}

section Lists

variable {α : Type} {unmarked driver owed more : List α}

theorem perm_append_more (h : unmarked.Perm (driver ++ owed)) (more : List α) :
    (unmarked ++ more).Perm (driver ++ (more ++ owed)) := by
  refine (h.append_right more).trans ?_
  rw [List.append_assoc]
  exact List.perm_append_comm.append_left driver

theorem perm_filter_of_nodup [DecidableEq α] (h : unmarked.Perm (driver ++ (more ++ owed)))
    (hnodup : unmarked.Nodup) : (unmarked.filter (· ∉ more)).Perm (driver ++ owed) := by
  obtain ⟨-, hrest, hdriver⟩ := List.nodup_append.1 (h.nodup_iff.1 hnodup)
  obtain ⟨-, -, howed⟩ := List.nodup_append.1 hrest
  have hkept : (driver ++ (more ++ owed)).filter (· ∉ more) = driver ++ owed := by
    rw [List.filter_append, List.filter_append, List.filter_eq_self.2 fun a ha => ?_,
      List.filter_eq_nil_iff.2 fun a ha => ?_, List.filter_eq_self.2 fun a ha => ?_,
      List.nil_append]
    · exact decide_eq_true fun hmore => howed a hmore a ha rfl
    · exact fun hnot => of_decide_eq_true hnot ha
    · exact decide_eq_true fun hmore => hdriver a ha a (List.mem_append_left _ hmore) rfl
  rw [← hkept]
  exact h.filter _

end Lists

theorem pending_concat (hgiven : given? (request, reply) = none)
    (hmarked : marked? (request, reply) = none) :
    pending (t ++ [(request, reply)]) = pending t := by
  rw [pending, given_concat, marks_concat, hgiven, hmarked]
  simp only [Option.toList_none, List.append_nil]
  rfl

theorem pending_given (hnot : l ∉ marks t) :
    pending (t ++ [(.defineLabel, .label l)]) = pending t ++ [l] := by
  have hmarks : marks (t ++ [(.defineLabel, .label l)]) = marks t :=
    (marks_concat ..).trans (List.append_nil _)
  rw [pending, hmarks, given_concat, List.filter_append]
  exact congrArg _ (List.filter_cons_of_pos (by simpa using hnot))

theorem pending_marked :
    pending (t ++ [(.markLabel l, .done)]) = (pending t).filter (· ≠ l) := by
  have hmarks : marks (t ++ [(.markLabel l, .done)]) = marks t ++ [l] := marks_concat ..
  have hgivens : given (t ++ [(.markLabel l, .done)]) = given t :=
    (given_concat ..).trans (List.append_nil _)
  rw [pending, pending, hmarks, hgivens, List.filter_filter]
  refine List.filter_congr fun a _ => ?_
  by_cases heq : a = l <;> simp [heq]

/-- What a successful request does to the labels without a mark it does to those the driver has to
mark or to those the regions owe. -/
theorem Dues.balanced (hdues : Dues s s' request reply)
    (hmarked : ∀ l ∈ marks t, (s.labels.position? l).isSome = true)
    (hgiven : ∀ l ∈ marks (t ++ [(request, reply)]), l ∈ given (t ++ [(request, reply)]))
    (h : s.labels.unmarked.Perm (pending t ++ s.regions.owed)) :
    s'.labels.unmarked.Perm (pending (t ++ [(request, reply)]) ++ s'.regions.owed) := by
  have hdistinct := s.labels.nodup_unmarked
  cases hdues with
  | @defined l fresh owed unmarked =>
    have hnot : l ∉ marks t := fun hl => by
      have hsome := hmarked l hl
      rw [LabelTable.position?, fresh] at hsome
      cases hsome
    rw [unmarked, owed, pending_given hnot, List.append_assoc]
    exact perm_append_more h [l]
  | @marked l known owed unmarked =>
    have hnot : l ∉ marks t := fun hl => by
      have hsome := hmarked l hl
      rw [(LabelTable.mem_unmarked_iff.1 known).2] at hsome
      cases hsome
    have hmarks : marks (t ++ [(.markLabel l, .done)]) = marks t ++ [l] := marks_concat ..
    have hgivens : given (t ++ [(.markLabel l, .done)]) = given t :=
      (given_concat ..).trans (List.append_nil _)
    have hl : l ∈ given t := by
      rw [← hgivens]
      exact hgiven l (by rw [hmarks]; exact List.mem_append_right _ List.mem_cons_self)
    have hpending : l ∈ pending t := List.mem_filter.2 ⟨hl, decide_eq_true hnot⟩
    have howed : l ∉ s.regions.owed := fun howed =>
      (List.nodup_append.1 (h.nodup_iff.1 hdistinct)).2.2 l hpending l howed rfl
    have hkept : s.regions.owed.filter (· ≠ l) = s.regions.owed :=
      List.filter_eq_self.2 fun a ha => decide_eq_true fun heq => howed (heq ▸ ha)
    rw [unmarked, owed, pending_marked, ← hkept, ← List.filter_append]
    exact h.filter _
  | added aside owed unmarked =>
    rw [unmarked, pending_concat aside.1 aside.2]
    exact (perm_append_more h _).trans (owed.symm.append_left _)
  | paid aside owed unmarked =>
    rw [unmarked, pending_concat aside.1 aside.2]
    exact perm_filter_of_nodup (h.trans (owed.append_left _)) hdistinct

theorem Trace.balanced (h : Trace (Session.start kind options scope bound) t s)
    (hmarks : ∀ l ∈ marks t, l ∈ given t) :
    s.labels.unmarked.Perm (pending t ++ s.regions.owed) := by
  induction h with
  | start => exact .refl []
  | answered before answers ih =>
    have hbefore := before.marks_subset (.answered .start answers) hmarks
    have hinOrder := before.runs.advance.inOrder (inOrder_start kind options scope bound)
    exact ((effect_of_answers answers).dues hinOrder.history).balanced
      (fun _ hl => before.isSome_position? hl) hmarks (ih hbefore)

/-- The labels without a mark, at any point of a session whose driver marks nothing but labels it
was given: those it still has to mark, those past the ends of the open exception regions and
scopes, and those that jumps out of the open targets go to. The three have nothing in common. So
once the regions are closed and the driver has marked what it was given, no label is left, and no
build fails for a label that is defined. -/
theorem unmarked_perm_of_trace (hkind : kind.mode = .stateMachine)
    (before : Trace (start kind options scope bound) t s) (after : Trace s t' s')
    (hmarks : ∀ l ∈ marks (t ++ t'), l ∈ given (t ++ t')) :
    s.labels.unmarked.Perm (pending t ++ s.regions.stops ++ s.regions.breakLabels) ∧
      (pending t ++ s.regions.stops ++ s.regions.breakLabels).Nodup ∧
      (s.regions.live = [] → (∀ l ∈ given t, l ∈ marks t) →
        s.labels.unmarked = [] ∧ ∀ registry forceReturn l s₁ registry₁,
          perform (buildStatements forceReturn) s registry =
            (.error (.unresolvedLabel l), s₁, registry₁) → ¬ s.IsDefined l) := by
  have hperm : s.labels.unmarked.Perm (pending t ++ s.regions.stops ++ s.regions.breakLabels) := by
    rw [List.append_assoc]
    exact (before.balanced (before.marks_subset after hmarks)).trans
      (s.regions.owed_perm.append_left _)
  refine ⟨hperm, hperm.nodup_iff.1 s.labels.nodup_unmarked, fun hlive hall => ?_⟩
  have hkept := before.reachable.kept (isSound_start kind options scope bound)
  have hpending : pending t = [] :=
    List.filter_eq_nil_iff.2 fun l hl hnot => of_decide_eq_true hnot (hall l hl)
  have hun : s.labels.unmarked = [] := by
    rw [RegionStack.stops, RegionStack.breakLabels, hlive, hpending] at hperm
    exact hperm.eq_nil
  refine ⟨hun, fun registry forceReturn l s₁ registry₁ h => ?_⟩
  exact not_isDefined_of_unresolved hkept.sound (hkept.mode.trans hkind) hun h

/-- A loop in a protected block, with a label of the driver's before it and one after it. -/
def entangled : List Request :=
  [.defineLabel, .defineLabel, .beginException, .markLabel ⟨1⟩, .beginBreakable [] false,
    .findBreakTarget none]

theorem unmarked_perm_entangled : ∃ t s t' s',
    Trace (start .generator {} 0 []) t s ∧ Trace s t' s' ∧
      (∀ l ∈ marks (t ++ t'), l ∈ given (t ++ t')) ∧
      s.labels.unmarked.Perm ([⟨2⟩] ++ [⟨4⟩] ++ [⟨5⟩]) := by
  have hcheck : (traceAll (start .generator {} 0 []) {} entangled).any (fun (t, s, r) =>
      (traceAll s r [.endBreakable, .markLabel ⟨2⟩, .endException]).any (fun (t', _, _) =>
        decide (∀ l ∈ marks (t ++ t'), l ∈ given (t ++ t')) &&
        decide (pending t = [⟨2⟩] ∧ s.regions.stops = [⟨4⟩] ∧ s.regions.breakLabels = [⟨5⟩]))) =
      true := by
    decide +kernel
  obtain ⟨⟨t, s, r⟩, hbefore, hrest⟩ := (Option.any_eq_true _ _).1 hcheck
  obtain ⟨⟨t', s', r'⟩, hafter, hfacts⟩ := (Option.any_eq_true _ _).1 hrest
  simp only [Bool.and_eq_true, decide_eq_true_eq] at hfacts
  obtain ⟨hmarks, hpending, hstops, hbreaks⟩ := hfacts
  have before := trace_of_traceAll hbefore
  have after := trace_of_traceAll hafter
  obtain ⟨hperm, -, -⟩ := unmarked_perm_of_trace rfl before after hmarks
  rw [hpending, hstops, hbreaks] at hperm
  exact ⟨t, s, t', s', before, after, hmarks, hperm⟩

end Resumable.Session
