import Resumable.Proofs.Session.Dues
import Resumable.Proofs.Session.Failures

/-!
# Sessions with calls that fail

`Attempts` is a session with the outcome of every call made on it, failures included. What the
open regions owe stays accounted for along it: a label that is owed has no mark yet, or the
driver marked it. So a call that fails after it has changed something fails for a mark of the
driver's, and any other failure leaves the session as it was.
-/

namespace Resumable.Session

variable {kind : SessionKind} {options : Options} {scope : Nat} {bound : List String}
  {s₀ s s' : Session} {history history' : List (Request × Except LoweringError Reply)}
  {request : Request} {reply : Reply} {outcome : Except LoweringError Reply} {e : LoweringError}
  {registry registry' : Name.Registry} {l : Label}

/-- The requests that were made on a session, with their outcomes, and the session they lead to.
The registry of names is shared, so it may be another one at each of them. -/
inductive Attempts (s₀ : Session) :
    List (Request × Except LoweringError Reply) → Session → Prop where
  | start : Attempts s₀ [] s₀
  | call {history : List (Request × Except LoweringError Reply)} {s s' : Session}
      {request : Request} {outcome : Except LoweringError Reply}
      {registry registry' : Name.Registry} (before : Attempts s₀ history s)
      (performed : perform request.run s registry = (outcome, s', registry')) :
      Attempts s₀ (history ++ [(request, outcome)]) s'

/-- The outcomes of the requests, one after the other, and the session after them. -/
def recount : Session → Name.Registry → List Request →
    List (Request × Except LoweringError Reply) × Session
  | s, _, [] => ([], s)
  | s, registry, request :: requests =>
    match perform request.run s registry with
    | (outcome, s', registry') =>
      let (history, last) := recount s' registry' requests
      ((request, outcome) :: history, last)

namespace Attempts

theorem reachable (h : Attempts s₀ history s) : Reachable s₀ s := by
  induction h with
  | start => exact .start
  | call before performed ih => exact .request _ ih ⟨_, by rw [performed]⟩

theorem append (h : Attempts s₀ history s) (h' : Attempts s history' s') :
    Attempts s₀ (history ++ history') s' := by
  induction h' with
  | start => rwa [List.append_nil]
  | call before performed ih =>
    rw [← List.append_assoc]
    exact .call ih performed

end Attempts

theorem attempts_recount (s : Session) (registry : Name.Registry) (requests : List Request) :
    Attempts s (recount s registry requests).1 (recount s registry requests).2 := by
  induction requests generalizing s registry with
  | nil => exact .start
  | cons request requests ih => exact (Attempts.call .start rfl).append (ih _ _)

/-- What the open regions owe is accounted for: no label is owed twice, and each of them is without
a mark, unless the driver marked it. -/
structure Accounted (history : List (Request × Except LoweringError Reply)) (s : Session) :
    Prop where
  logged : s.IsLogged
  defined : ∀ l ∈ s.regions.owed, s.IsDefined l
  nodup : s.regions.owed.Nodup
  marked : ∀ l ∈ s.regions.owed, l ∈ s.labels.unmarked ∨ (.markLabel l, .ok .done) ∈ history

/-- A label that joins those without a mark was not defined before. -/
theorem not_isDefined_of_unmarked {more : List Label}
    (hlabels : ∀ l q, s.labels.position? l = some q → s'.labels.position? l = some q)
    (hunmarked : s'.labels.unmarked = s.labels.unmarked ++ more) (hl : l ∈ more) :
    ¬ s.IsDefined l := by
  intro hdefined
  have hmem : l ∈ s'.labels.unmarked := hunmarked ▸ List.mem_append_right _ hl
  cases hpos : s.labels.position? l with
  | none =>
    have hold : l ∈ s.labels.unmarked := LabelTable.mem_unmarked_iff.2 ⟨hdefined, hpos⟩
    have hnodup := hunmarked ▸ s'.labels.nodup_unmarked
    exact (List.nodup_append.1 hnodup).2.2 l hold l hl rfl
  | some q =>
    have hnone := (LabelTable.mem_unmarked_iff.1 hmem).2
    rw [hlabels l q hpos] at hnone
    cases hnone

namespace Accounted

theorem start (kind : SessionKind) (options : Options) (scope : Nat) (bound : List String) :
    Accounted [] (Session.start kind options scope bound) where
  logged := .start
  defined _ hl := absurd hl List.not_mem_nil
  nodup := .nil
  marked _ hl := absurd hl List.not_mem_nil

/-- What is owed may get less. -/
theorem of_sublist (h : Accounted history s) (hlogged : s'.IsLogged)
    (howed : s'.regions.owed.Sublist s.regions.owed)
    (hunmarked : s'.labels.unmarked = s.labels.unmarked)
    (hdefined : ∀ l, s.IsDefined l → s'.IsDefined l) (x : Request × Except LoweringError Reply) :
    Accounted (history ++ [x]) s' where
  logged := hlogged
  defined l hl := hdefined l (h.defined l (howed.subset hl))
  nodup := howed.nodup h.nodup
  marked l hl := by
    rw [hunmarked]
    exact (h.marked l (howed.subset hl)).imp_right (List.mem_append_left _)

/-- A successful request keeps the account. -/
theorem answered (h : Accounted history s) (hs : s.IsSound)
    (hanswers : Answers request.run s reply s') :
    Accounted (history ++ [(request, .ok reply)]) s' := by
  have hkept := keeps_run request s s' (.of_answers hanswers) hs
  have hlabels := (advances_run request s reply s' hanswers).labels
  have heffect := effect_of_answers hanswers
  have hlogged := heffect.isLogged h.logged
  have hlater : ∀ {l}, l ∈ s.regions.owed → ¬ l ∈ s.labels.unmarked →
      (.markLabel l, .ok .done) ∈ history ++ [(request, .ok reply)] := fun hl hmarked =>
    List.mem_append_left _ ((h.marked _ hl).resolve_left hmarked)
  cases heffect.dues h.logged with
  | defined fresh owed unmarked =>
    refine ⟨hlogged, fun l hl => ?_, owed ▸ h.nodup, fun l hl => ?_⟩
    · exact hkept.defined l (h.defined l (owed ▸ hl))
    · by_cases hmem : l ∈ s.labels.unmarked
      · exact .inl (unmarked ▸ List.mem_append_left _ hmem)
      · exact .inr (hlater (owed ▸ hl) hmem)
  | @marked label known owed unmarked =>
    refine ⟨hlogged, fun l hl => ?_, owed ▸ h.nodup, fun l hl => ?_⟩
    · exact hkept.defined l (h.defined l (owed ▸ hl))
    · by_cases hmem : l ∈ s.labels.unmarked
      · by_cases heq : l = label
        · exact .inr (heq ▸ List.mem_append_right _ List.mem_cons_self)
        · exact .inl (unmarked ▸ List.mem_filter.2 ⟨hmem, decide_eq_true heq⟩)
      · exact .inr (hlater (owed ▸ hl) hmem)
  | @added _ _ more aside owed unmarked =>
    have hdefined : ∀ l ∈ more, s'.IsDefined l := fun l hl =>
      (LabelTable.mem_unmarked_iff.1 (unmarked ▸ List.mem_append_right _ hl)).1
    have hnew : more.Nodup := (List.nodup_append.1 (unmarked ▸ s'.labels.nodup_unmarked)).2.1
    refine ⟨hlogged, fun l hl => ?_, owed.nodup_iff.2 (List.nodup_append.2 ⟨hnew, h.nodup, ?_⟩),
      fun l hl => ?_⟩
    · rcases List.mem_append.1 (owed.mem_iff.1 hl) with hl | hl
      · exact hdefined l hl
      · exact hkept.defined l (h.defined l hl)
    · intro l hl l' hl' heq
      exact not_isDefined_of_unmarked hlabels unmarked hl (heq ▸ h.defined l' hl')
    · rcases List.mem_append.1 (owed.mem_iff.1 hl) with hl | hl
      · exact .inl (unmarked ▸ List.mem_append_right _ hl)
      · by_cases hmem : l ∈ s.labels.unmarked
        · exact .inl (unmarked ▸ List.mem_append_left _ hmem)
        · exact .inr (hlater hl hmem)
  | @paid _ _ due aside owed unmarked =>
    obtain ⟨-, hnodup, hdisjoint⟩ := List.nodup_append.1 (owed.nodup_iff.1 h.nodup)
    have hbefore : ∀ l ∈ s'.regions.owed, l ∈ s.regions.owed := fun l hl =>
      owed.mem_iff.2 (List.mem_append_right _ hl)
    refine ⟨hlogged, fun l hl => hkept.defined l (h.defined l (hbefore l hl)), hnodup,
      fun l hl => ?_⟩
    by_cases hmem : l ∈ s.labels.unmarked
    · refine .inl (unmarked ▸ List.mem_filter.2 ⟨hmem, decide_eq_true fun hdue => ?_⟩)
      exact hdisjoint l hdue l hl rfl
    · exact .inr (hlater (hbefore l hl) hmem)

/-- A request that fails keeps the account, even if it closed a region. -/
theorem failed (h : Accounted history s) (hs : s.IsSound) (hfails : Fails request.run s e s') :
    Accounted (history ++ [(request, .error e)]) s' := by
  have hleaves : Leaves request.run s s' := by
    obtain ⟨r, r', hperform⟩ := hfails
    exact ⟨r, by rw [hperform]⟩
  have hkept := keeps_run request s s' hleaves hs
  cases failure_of_fails h.defined hfails with
  | untouched same =>
    refine h.of_sublist ?_ ?_ (by rw [same.labels]) hkept.defined _
    · unfold IsLogged
      rw [same.regions]
      exact h.logged
    · rw [same.regions]
  | overtaken marking live found ofKind owed marked error regions unmarked =>
    refine h.of_sublist (h.logged.close live regions) ?_ unmarked hkept.defined _
    rw [regions, RegionStack.owed_of_live live found s.recorder.operations.length]
    exact List.sublist_append_right _ _

end Accounted

theorem Attempts.accounted (h : Attempts (Session.start kind options scope bound) history s) :
    Accounted history s := by
  induction h with
  | start => exact .start kind options scope bound
  | @call history s s' request outcome r r' before performed ih =>
    have hsound := (before.reachable.kept (isSound_start kind options scope bound)).sound
    cases outcome with
    | ok reply => exact ih.answered hsound ⟨r, r', performed⟩
    | error e => exact ih.failed hsound ⟨r, r', performed⟩

/-- Whatever was called on a session before, and whatever failed of it: a call that fails leaves
the labels, the regions and their log, the operations, the span written last, the parameters, the
functions, the variables and the diagnostics as they were. The one exception is the end of a
protected block, a scope, or a target whose jumps go through labels, which fails because a label of
the region is marked already; then the driver marked that label itself. -/
theorem untouched_of_error (h : Attempts (start kind options scope bound) history s)
    (hfails : perform request.run s registry = (.error e, s', registry')) :
    Untouched s s' ∨ ∃ regionKind id rest region l q,
      request.marking? = some regionKind ∧ e = .labelAlreadyMarked l q ∧
      s.regions.live = id :: rest ∧ s.regions.get? id = some region ∧ region.kind = regionKind ∧
      (region.stop? = some l ∨ region.breakLabel? = some l) ∧
      (.markLabel l, .ok .done) ∈ history := by
  have haccount := h.accounted
  cases failure_of_fails haccount.defined ⟨registry, registry', hfails⟩ with
  | untouched same => exact .inl same
  | @overtaken regionKind id rest region l q marking live found ofKind owed marked error regions
      unmarked =>
    refine .inr ⟨regionKind, id, rest, region, l, q, marking, error, live, found, ofKind, ?_, ?_⟩
    · rw [Region.owed_eq, List.mem_append, Option.mem_toList, Option.mem_toList] at owed
      exact owed
    · have howed : l ∈ s.regions.owed :=
        RegionStack.mem_owed (live ▸ List.mem_cons_self) found owed
      refine (haccount.marked l howed).resolve_left fun hmem => ?_
      have hnone := (LabelTable.mem_unmarked_iff.1 (unmarked ▸ hmem : l ∈ s'.labels.unmarked)).2
      rw [marked] at hnone
      cases hnone

/-- A protected block whose driver marks the label past its end, after a call that fails. -/
def forestalled : List Request := [.beginFinally, .beginException, .markLabel ⟨2⟩]

theorem untouched_of_error_forestalled : ∃ history s l q s' registry,
    Attempts (start .generator {} 0 []) history s ∧
      perform Request.endException.run s {} = (.error (.labelAlreadyMarked l q), s', registry) ∧
      ¬ Untouched s s' ∧ (.markLabel l, .ok .done) ∈ history := by
  have hattempts := attempts_recount (start .generator {} 0 []) {} forestalled
  have hcheck : (decide ((perform Request.endException.run
      (recount (start .generator {} 0 []) {} forestalled).2 {}).2.1.regions.live ≠
        (recount (start .generator {} 0 []) {} forestalled).2.regions.live) &&
      !(perform Request.endException.run
        (recount (start .generator {} 0 []) {} forestalled).2 {}).1.isOk) = true := by
    decide +kernel
  generalize recount (start .generator {} 0 []) {} forestalled = last at hattempts hcheck
  generalize hperform : perform Request.endException.run last.2 {} = attempt at hcheck
  obtain ⟨outcome, s', registry'⟩ := attempt
  obtain ⟨hlive, hfailed⟩ := Bool.and_eq_true_iff.1 hcheck
  cases outcome with
  | ok reply => cases hfailed
  | error e =>
    have hlive := of_decide_eq_true hlive
    have htouched : ¬ Untouched last.2 s' := fun same => hlive (by rw [same.regions])
    obtain ⟨regionKind, id, rest, region, l, q, -, rfl, -, -, -, -, hmarked⟩ :=
      (untouched_of_error hattempts hperform).resolve_left htouched
    exact ⟨last.1, last.2, l, q, s', registry', hattempts, hperform, htouched, hmarked⟩

end Resumable.Session
