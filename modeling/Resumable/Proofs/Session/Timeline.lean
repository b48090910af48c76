import Resumable.Proofs.Session.Spans

/-!
# Timelines

What happens to the spans of a session over all the calls that are made on it, those that fail
included. Each call is described on its own, so the timeline of a session says of each span what
became of it.
-/

namespace Resumable

/-- The span that the request writes. -/
def Request.writtenSpan? : Request → Option Span
  | .writeLocation span => some span
  | _ => none

/-- The node that a call hands out for use inside a statement. -/
def inlineNode? : Request × Except LoweringError Reply → Option Node
  | (.createInlineBreak _, .ok (.node node)) | (.createInlineReturn _, .ok (.node node)) => some node
  | _ => none

namespace Session

open SpanEvent

variable {kind : SessionKind} {options : Options} {scope : Nat} {bound : List String}
  {s₀ s s' : Session} {history : List (Request × Except LoweringError Reply)}
  {request : Request} {reply : Reply} {outcome : Except LoweringError Reply}
  {events : List SpanEvent} {registry registry' : Name.Registry}

/-- The calls made on a session with their outcomes, what they did to the spans, and the session
that they lead to. -/
inductive Timeline (s₀ : Session) :
    List (Request × Except LoweringError Reply) → List SpanEvent → Session → Prop where
  | start : Timeline s₀ [] [] s₀
  | call {history : List (Request × Except LoweringError Reply)} {events : List SpanEvent}
      {s s' : Session} {request : Request} {outcome : Except LoweringError Reply}
      {registry registry' : Name.Registry} (before : Timeline s₀ history events s)
      (performed : perform request.run s registry = (outcome, s', registry')) :
      Timeline s₀ (history ++ [(request, outcome)]) (events ++ eventsOf s s' (request, outcome)) s'

theorem Timeline.attempts (h : Timeline s₀ history events s) : Attempts s₀ history s := by
  induction h with
  | start => exact .start
  | call before performed ih => exact ih.call performed

theorem Attempts.exists_timeline (h : Attempts s₀ history s) :
    ∃ events, Timeline s₀ history events s := by
  induction h with
  | start => exact ⟨[], .start⟩
  | call before performed ih =>
    obtain ⟨events, htimeline⟩ := ih
    exact ⟨_, htimeline.call performed⟩

section Events

/-- Of a single call, whatever was called before. -/
theorem Attempts.describes (h : Attempts (Session.start kind options scope bound) history s)
    (performed : perform request.run s registry = (outcome, s', registry')) :
    Describes s s' request outcome := by
  cases outcome with
  | ok reply => exact describes_of_answers ⟨registry, registry', performed⟩
  | error e => exact describes_of_fails h.accounted.defined ⟨registry, registry', performed⟩

theorem writtenSpan?_of_fails {e : LoweringError} (h : Fails request.run s e s') :
    request.writtenSpan? = none := by
  cases request with
  | writeLocation span => exact ((Sure.modify _).bind (fun _ => .pure _) s e s' h).elim
  | _ => rfl

section Reading

variable {β : Type} {read : SpanEvent → Option β}
  (hread : ∀ r, read (.made (.operation r)) = none)

include hread

theorem filterMap_recordedSince (s s' : Session) :
    ((recordedSince s s').map fun r => SpanEvent.made (.operation r)).filterMap read = [] := by
  simp [List.filterMap_map, hread]

/-- What is not read off the operations is read off the one event of the request. -/
theorem filterMap_eventsOf (s s' : Session) (request : Request) (reply : Reply) :
    (eventsOf s s' (request, .ok reply)).filterMap read =
      ((request.spanEvent? reply).bind read).toList := by
  rw [eventsOf, List.filterMap_append, filterMap_recordedSince hread, List.append_nil]
  cases request.spanEvent? reply with
  | none => rfl
  | some event => cases hevent : read event <;> simp [hevent]

end Reading

/-- A call that wrote a span is an event that says so. -/
theorem written_eventsOf (performed : perform request.run s registry = (outcome, s', registry')) :
    (eventsOf s s' (request, outcome)).filterMap written? = request.writtenSpan?.toList := by
  cases outcome with
  | error e =>
    rw [writtenSpan?_of_fails ⟨registry, registry', performed⟩]
    exact filterMap_recordedSince (fun _ => rfl) s s'
  | ok reply =>
    rw [filterMap_eventsOf fun _ => rfl]
    cases request with
    | emit op =>
      cases hidle : op.isIdle <;> simp [Request.spanEvent?, hidle, Request.writtenSpan?, written?]
    | createInlineBreak label => cases reply <;> rfl
    | createInlineReturn value => cases reply <;> rfl
    | _ => rfl

theorem inline_eventsOf (s s' : Session) (request : Request)
    (outcome : Except LoweringError Reply) :
    (eventsOf s s' (request, outcome)).filterMap inline? =
      (inlineNode? (request, outcome)).toList := by
  cases outcome with
  | error e => cases request <;> exact filterMap_recordedSince (fun _ => rfl) s s'
  | ok reply =>
    rw [filterMap_eventsOf fun _ => rfl]
    cases request with
    | emit op => cases hidle : op.isIdle <;> simp [Request.spanEvent?, hidle, inlineNode?, inline?]
    | createInlineBreak label => cases reply <;> rfl
    | createInlineReturn value => cases reply <;> rfl
    | _ => rfl

end Events

namespace Timeline

theorem tells (h : Timeline (Session.start kind options scope bound) history events s) :
    Tells (Session.start kind options scope bound) s events := by
  induction h with
  | start => exact .of_still rfl
  | call before performed ih => exact ih.trans (before.attempts.describes performed).tells

/-- What each call shows of itself in its events is in the timeline in the order of the calls. -/
theorem filterMap_eq {β : Type} {read : SpanEvent → Option β}
    {shown : Request × Except LoweringError Reply → Option β}
    (hread : ∀ {s s' : Session} {request : Request} {outcome registry registry'},
      perform request.run s registry = (outcome, s', registry') →
      (eventsOf s s' (request, outcome)).filterMap read = (shown (request, outcome)).toList)
    (h : Timeline s₀ history events s) : events.filterMap read = history.filterMap shown := by
  induction h with
  | start => rfl
  | @call history events s s' request outcome _ _ before performed ih =>
    have hlast : [(request, outcome)].filterMap shown = (shown (request, outcome)).toList := by
      cases hshown : shown (request, outcome) <;> simp [hshown]
    rw [List.filterMap_append, List.filterMap_append, ih, hread performed, hlast]

theorem written (h : Timeline s₀ history events s) :
    events.filterMap written? = history.filterMap fun call => call.1.writtenSpan? :=
  h.filterMap_eq written_eventsOf

end Timeline

/-- The events list, in order, the operations that are recorded, the nodes that are handed out and
the spans that are written. A thing that is made carries the span that is written right before it;
so a span is carried by one thing at most, and only as long as nothing else comes first. -/
structure UsesSpansOnce (history : List (Request × Except LoweringError Reply))
    (events : List SpanEvent) (s : Session) : Prop where
  recorded : events.filterMap recorded? = s.recorder.operations
  inline : events.filterMap inline? = history.filterMap inlineNode?
  written : events.filterMap written? = history.filterMap fun call => call.1.writtenSpan?
  attached : ∀ before thing after, events = before ++ .made thing :: after →
    thing.span? = before.getLast?.bind written?
  /-- The last span waits as long as nothing comes after it. -/
  waiting : s.recorder.pending = events.getLast?.bind written?
  carried : (events.filterMap carried?).Sublist
    (history.filterMap fun call => call.1.writtenSpan?)

theorem Timeline.usesSpansOnce
    (h : Timeline (Session.start kind options scope bound) history events s) :
    UsesSpansOnce history events s where
  recorded := by
    rw [h.tells.operations]
    rfl
  inline := h.filterMap_eq fun _ => inline_eventsOf _ _ _ _
  written := h.written
  attached before thing after heq := (heq ▸ h.tells.carried).span?_eq
  waiting := h.tells.pending.trans (pendingAfter_none events)
  carried := h.written ▸ h.tells.carried.sublist

/-- Each span is used at most once, over all the calls on a session, those that fail included. Its
timeline says what became of each span. A call has only those operations recorded that the request
asks for; and a call that fails neither records anything nor touches the span that waits, unless it
is the end of a protected block whose last label is marked already. -/
theorem spans_used_once (h : Attempts (start kind options scope bound) history s) :
    (∃ events, Timeline (start kind options scope bound) history events s) ∧
      (∀ events, Timeline (start kind options scope bound) history events s →
        UsesSpansOnce history events s) ∧
      ∀ (request : Request) outcome s' registry registry',
        perform request.run s registry = (outcome, s', registry') →
        (∀ r ∈ recordedSince s s', request.MayRecord r.operation) ∧
        ∀ e, outcome = .error e →
          s'.recorder = s.recorder ∨ request = .endException ∧ RecordsEnd s s' e := by
  refine ⟨h.exists_timeline, fun events htimeline => htimeline.usesSpansOnce, ?_⟩
  intro request outcome s' registry registry' performed
  refine ⟨(h.describes performed).allowed, fun e herror => ?_⟩
  subst herror
  exact recorder_of_fails h.accounted.defined ⟨registry, registry', performed⟩

/-- A protected block whose driver marks the label past its end. Of the four spans, the second is
carried by the operation that the driver records. The first is overwritten, the third is used up for
a parameter, and the last waits. -/
def annotated : List Request :=
  [.writeLocation ⟨0, 1⟩, .beginException, .writeLocation ⟨1, 2⟩, .emit (.yield none),
    .writeLocation ⟨2, 3⟩, .addParameter ⟨"p", false, none⟩, .markLabel ⟨2⟩, .writeLocation ⟨3, 4⟩]

theorem spans_used_once_annotated : ∃ history events s e s' registry,
    Attempts (start .generator {} 0 []) history s ∧ UsesSpansOnce history events s ∧
      (events.filterMap recorded?).map Recorded.location = [some ⟨1, 2⟩] ∧
      perform Request.endException.run s {} = (.error e, s', registry) ∧
      RecordsEnd s s' e ∧ s'.recorder.operations.map Recorded.location =
        [some ⟨1, 2⟩, some ⟨3, 4⟩] := by
  have hattempts := attempts_recount (start .generator {} 0 []) {} annotated
  have hcheck : (decide ((recount (start .generator {} 0 []) {}
      annotated).2.recorder.operations.map Recorded.location = [some ⟨1, 2⟩]) &&
      decide ((perform Request.endException.run (recount (start .generator {} 0 []) {}
        annotated).2 {}).2.1.recorder.operations.map Recorded.location =
          [some ⟨1, 2⟩, some ⟨3, 4⟩]) &&
      !(perform Request.endException.run
        (recount (start .generator {} 0 []) {} annotated).2 {}).1.isOk) = true := by
    decide +kernel
  generalize recount (start .generator {} 0 []) {} annotated = last at hattempts hcheck
  generalize hperform : perform Request.endException.run last.2 {} = attempt at hcheck
  obtain ⟨outcome, s', registry'⟩ := attempt
  obtain ⟨hlocations, hfailed⟩ := Bool.and_eq_true_iff.1 hcheck
  obtain ⟨hbefore, hafter⟩ := Bool.and_eq_true_iff.1 hlocations
  have hbefore := of_decide_eq_true hbefore
  have hafter := of_decide_eq_true hafter
  cases outcome with
  | ok reply => cases hfailed
  | error e =>
    obtain ⟨⟨events, htimeline⟩, hevents, hcalls⟩ := spans_used_once hattempts
    have hused := hevents events htimeline
    have hmore : s'.recorder ≠ last.2.recorder := by
      intro hsame
      rw [hsame, hbefore] at hafter
      cases hafter
    obtain ⟨-, hend⟩ := ((hcalls _ _ _ _ _ hperform).2 e rfl).resolve_left hmore
    exact ⟨last.1, events, last.2, e, s', registry', hattempts, hused,
      by rw [hused.recorded, hbefore], hperform, hend, hafter⟩

end Session

end Resumable
