import Mathlib.Data.List.Induction
import Resumable.Proofs.Session.Attempts
import Resumable.Proofs.Session.Recorderwise

/-!
# Spans

A span that is written waits for the next thing the session makes: an operation that it records, or
a statement that it hands out for use inside another one. A span is carried by what comes right
after it, or by nothing at all; it is lost if another span, an empty statement or a parameter comes
instead. `eventsOf` lists what a single call does to the span that waits, and `Describes` says that
it does nothing else.
-/

namespace Resumable

/-- Something the session makes that can carry a span. -/
inductive Made where
  | operation (recorded : Recorded)
  /-- A jump or a completion for use inside a statement. -/
  | inline (node : Node)

/-- The span that it carries. -/
def Made.span? : Made → Option Span
  | .operation recorded => recorded.location
  | .inline (.located _ span) => some span
  | .inline _ => none

theorem Made.span?_inline_locate {node : Node} (hnode : (Made.inline node).span? = none)
    (pending : Option Span) : (Made.inline (node.locate pending)).span? = pending := by
  cases pending with
  | none => exact hnode
  | some span => rfl

/-- What a call does to the span written last. -/
inductive SpanEvent where
  | written (span : Span)
  | made (thing : Made)
  /-- The span is used up for an empty statement or for a parameter. -/
  | dropped

namespace SpanEvent

def written? : SpanEvent → Option Span
  | .written span => some span
  | _ => none

def made? : SpanEvent → Option Made
  | .made thing => some thing
  | _ => none

def recorded? : SpanEvent → Option Recorded
  | .made (.operation recorded) => some recorded
  | _ => none

def inline? : SpanEvent → Option Node
  | .made (.inline node) => some node
  | _ => none

/-- The span carried by the thing made. -/
def carried? (event : SpanEvent) : Option Span := event.made?.bind Made.span?

/-- The span that waits after the events. -/
def pendingAfter : Option Span → List SpanEvent → Option Span
  | pending, [] => pending
  | _, event :: rest => pendingAfter event.written? rest

/-- Each thing made carries the span that waits just then. -/
def Carried : Option Span → List SpanEvent → Prop
  | _, [] => True
  | pending, event :: rest =>
    (∀ thing, event = .made thing → thing.span? = pending) ∧ Carried event.written? rest

section Carrying

variable {pending : Option Span} {events later : List SpanEvent}

theorem pendingAfter_append (pending : Option Span) (events later : List SpanEvent) :
    pendingAfter pending (events ++ later) = pendingAfter (pendingAfter pending events) later := by
  induction events generalizing pending with
  | nil => rfl
  | cons event rest ih => exact ih _

theorem carried_append :
    Carried pending (events ++ later) ↔
      Carried pending events ∧ Carried (pendingAfter pending events) later := by
  induction events generalizing pending with
  | nil => simp [Carried, pendingAfter]
  | cons event rest ih => simp [Carried, pendingAfter, ih, and_assoc]

/-- Only the last event says which span waits. -/
theorem pendingAfter_none (events : List SpanEvent) :
    pendingAfter none events = events.getLast?.bind written? := by
  induction events using List.reverseRecOn with
  | nil => rfl
  | append_singleton events event _ =>
    rw [pendingAfter_append, List.getLast?_concat]
    rfl

theorem Carried.span?_eq {before after : List SpanEvent} {thing : Made}
    (h : Carried none (before ++ .made thing :: after)) :
    thing.span? = before.getLast?.bind written? := by
  rw [← pendingAfter_none]
  exact (carried_append.1 h).2.1 thing rfl

/-- The spans carried are written before, in the same order. -/
theorem Carried.sublist (h : Carried pending events) :
    (events.filterMap carried?).Sublist (pending.toList ++ events.filterMap written?) := by
  induction events generalizing pending with
  | nil => exact List.nil_sublist _
  | cons event rest ih =>
    obtain ⟨hcarried, hrest⟩ := h
    have htail := ih hrest
    cases event with
    | written span =>
      have hlater := htail.trans (List.sublist_append_right pending.toList _)
      simpa [List.filterMap_cons, carried?, made?, written?] using hlater
    | made thing =>
      have hspan := hcarried thing rfl
      have hkept := (List.Sublist.refl pending.toList).append htail
      cases pending <;>
        simpa [List.filterMap_cons, carried?, made?, written?, hspan] using hkept
    | dropped =>
      have hlater := htail.trans (List.sublist_append_right pending.toList _)
      simpa [List.filterMap_cons, carried?, made?, written?] using hlater

end Carrying

end SpanEvent

/-- The operations that the request can have the session record. -/
def Request.MayRecord : Request → Operation → Prop
  | .emit op, made => made = op
  | .ensureIdentifier _, .assign _ _ | .valueOrDefault _ _, .assign _ _ => True
  | .beginCatch _, .jump _ | .beginCatch _, .assign _ _ => True
  | .beginFinally, .jump _ => True
  | .endException, .jump _ | .endException, .endFinally => True
  | _, _ => False

/-- What the request does to a span where it succeeds, the operations that it records apart. -/
def Request.spanEvent? : Request → Reply → Option SpanEvent
  | .writeLocation span, _ => some (.written span)
  | .createInlineBreak _, .node node | .createInlineReturn _, .node node =>
    some (.made (.inline node))
  | .addParameter _, _ => some .dropped
  | .emit op, _ => if op.isIdle then some .dropped else none
  | _, _ => none

namespace Session

open SpanEvent

variable {α : Type} {s s' s₁ : Session} {op : Operation} {events : List SpanEvent}
  {P : Operation → Prop} {e : LoweringError}

section Steps

/-- The first session becomes the second as the events say. -/
structure Tells (s s' : Session) (events : List SpanEvent) : Prop where
  operations : s'.recorder.operations = s.recorder.operations ++ events.filterMap recorded?
  pending : s'.recorder.pending = pendingAfter s.recorder.pending events
  carried : Carried s.recorder.pending events

namespace Tells

theorem of_still (h : s'.recorder = s.recorder) : Tells s s' [] where
  operations := by simp [h]
  pending := by simp [h, pendingAfter]
  carried := trivial

theorem trans {later : List SpanEvent} (h : Tells s s₁ events) (h' : Tells s₁ s' later) :
    Tells s s' (events ++ later) where
  operations := by rw [h'.operations, h.operations, List.filterMap_append, List.append_assoc]
  pending := by rw [h'.pending, h.pending, pendingAfter_append]
  carried := carried_append.2 ⟨h.carried, h.pending ▸ h'.carried⟩

/-- Without an operation that is recorded, it is enough to look at the span that waits. -/
theorem of_event {event : SpanEvent} (hnone : event.recorded? = none)
    (hcarried : ∀ thing, event = .made thing → thing.span? = s.recorder.pending)
    (h : s'.recorder = { s.recorder with pending := event.written? }) : Tells s s' [event] where
  operations := by simp [h, hnone]
  pending := by simp [h, pendingAfter]
  carried := ⟨hcarried, trivial⟩

theorem of_unmade {event : SpanEvent} (hmade : event.made? = none)
    (h : s'.recorder = { s.recorder with pending := event.written? }) : Tells s s' [event] := by
  cases event with
  | made thing => cases hmade
  | written span => exact .of_event rfl (fun _ heq => by cases heq) h
  | dropped => exact .of_event rfl (fun _ heq => by cases heq) h

end Tells

/-- The operations recorded in between. -/
def recordedSince (s s' : Session) : List Recorded :=
  s'.recorder.operations.drop s.recorder.operations.length

/-- Operations of a certain kind are recorded, and nothing else happens to a span. -/
def Adds (P : Operation → Prop) (s s' : Session) : Prop :=
  ∃ more : List Recorded, (∀ r ∈ more, P r.operation) ∧
    Tells s s' (more.map fun r => .made (.operation r))

theorem recorderwise_adds (P : Operation → Prop) : Recorderwise (Adds P) where
  refl _ := ⟨[], by simp, .of_still rfl⟩
  trans := by
    rintro s s₁ s' ⟨more, hmore, htells⟩ ⟨later, hlater, htells'⟩
    refine ⟨more ++ later, fun r hr => ?_, by simpa using htells.trans htells'⟩
    exact (List.mem_append.1 hr).elim (hmore r) (hlater r)
  still h := ⟨[], by simp, .of_still h⟩

theorem Adds.of_push (hop : P op) (h : s'.recorder = (s.push op).recorder) : Adds P s s' := by
  refine ⟨[⟨op, s.recorder.pending⟩], by simpa using hop, ?_, ?_, ?_⟩
  · rw [h]
    simp [push, recorded?]
  · rw [h]
    rfl
  · simp [Carried, Made.span?]

/-- The events of a call, from its outcome and the operations that it recorded. -/
def eventsOf (s s' : Session) : Request × Except LoweringError Reply → List SpanEvent
  | (request, .ok reply) =>
    (request.spanEvent? reply).toList ++ (recordedSince s s').map fun r => .made (.operation r)
  | (_, .error _) => (recordedSince s s').map fun r => .made (.operation r)

theorem Adds.since (h : Adds P s s') :
    (∀ r ∈ recordedSince s s', P r.operation) ∧
      Tells s s' ((recordedSince s s').map fun r => .made (.operation r)) := by
  obtain ⟨more, hmore, htells⟩ := h
  have hread : (more.map fun r => SpanEvent.made (.operation r)).filterMap recorded? = more := by
    simp [List.filterMap_map, Function.comp_def, recorded?]
  have hsince : recordedSince s s' = more := by
    rw [recordedSince, htells.operations, hread, List.drop_left]
  rw [hsince]
  exact ⟨hmore, htells⟩

/-- A call that was made either succeeded or failed. -/
theorem Leaves.answers_or_fails {call : SessionM α} (h : Leaves call s s') :
    (∃ a, Answers call s a s') ∨ ∃ e, Fails call s e s' := by
  obtain ⟨r, rfl⟩ := h
  cases hperform : perform call s r with
  | mk outcome rest =>
    cases outcome with
    | ok a => exact .inl ⟨a, r, rest.2, hperform⟩
    | error e => exact .inr ⟨e, r, rest.2, hperform⟩

theorem Answers.recorder_emit {u : Unit} (h : Answers (emit op) s u s') :
    s'.recorder = s.emitted op := by
  obtain ⟨r, r', h⟩ := h
  cases emission_of_emit h with
  | placed legal target prepares => rfl

theorem adds_emit (hop : P op) (hidle : op.isIdle = false) : Across (Adds P) (emit op) := by
  intro s s' h
  rcases h.answers_or_fails with ⟨u, hanswers⟩ | ⟨e, hfails⟩
  · refine .of_push hop (hanswers.recorder_emit.trans ?_)
    rw [emitted, hidle]
    rfl
  · exact (recorderwise_adds P).still (by rw [hfails.of_emit.1])

/-- The node of the answer carries the span that was waiting, which is used up. -/
theorem Answers.of_located {node answer : Node} (h : Answers (located node) s answer s') :
    answer = node.locate s.recorder.pending ∧
      s'.recorder = { s.recorder with pending := none } := by
  unfold located at h
  obtain ⟨location, s₁, htake, hrest⟩ := h.of_bind
  obtain ⟨rfl, rfl⟩ := hrest.of_pure
  have htaken := htake.of_modifyGet
  simp only [Prod.mk.injEq] at htaken
  obtain ⟨rfl, rfl⟩ := htaken
  exact ⟨rfl, rfl⟩

end Steps

section Requests

variable {request : Request} {reply : Reply} {outcome : Except LoweringError Reply}

/-- What a call does to the spans: what is recorded is what the request can have recorded, and the
events say the rest. -/
structure Describes (s s' : Session) (request : Request) (outcome : Except LoweringError Reply) :
    Prop where
  allowed : ∀ r ∈ recordedSince s s', request.MayRecord r.operation
  tells : Tells s s' (eventsOf s s' (request, outcome))

theorem Adds.describes (h : Adds request.MayRecord s s')
    (hplain : ∀ reply, outcome = .ok reply → request.spanEvent? reply = none) :
    Describes s s' request outcome := by
  refine ⟨h.since.1, ?_⟩
  cases outcome with
  | error e => exact h.since.2
  | ok reply =>
    rw [eventsOf, hplain reply rfl]
    exact h.since.2

/-- A call that records nothing and does one thing to the span written last. -/
theorem Tells.describes {event : SpanEvent} (hevent : request.spanEvent? reply = some event)
    (hops : s'.recorder.operations = s.recorder.operations) (h : Tells s s' [event]) :
    Describes s s' request (.ok reply) := by
  have hsince : recordedSince s s' = [] := by rw [recordedSince, hops, List.drop_length]
  refine ⟨by simp [hsince], ?_⟩
  rw [eventsOf, hevent, hsince]
  exact h

/-- The session after a failing end of a protected block: what the block ends with was recorded
before it turned out that the label past the block is marked already. -/
def RecordsEnd (s s' : Session) (e : LoweringError) : Prop :=
  ∃ id rest r q, s.regions.live = id :: rest ∧ s.regions.get? id = some (.exception r) ∧
    s.labels.position? r.stop = some q ∧ e = .labelAlreadyMarked r.stop q ∧
    s'.recorder = (s.push (if r.phase < .finishing then .jump r.stop else .endFinally)).recorder

theorem recorder_of_close {id : RegionId} {r : ExceptionRegion}
    (hmode : s.recorder.mode ≠ .statements) (hstop : s.IsDefined r.stop) (hidle : op.isIdle = false)
    (h : Fails (do
      emit op
      markLabel r.stop
      updateException id { r with phase := .done }) s e s') :
    s'.recorder = s.recorder ∨ ∃ q, s.labels.position? r.stop = some q ∧
      e = .labelAlreadyMarked r.stop q ∧ s'.recorder = (s.push op).recorder := by
  rcases h.of_bind with hemit | ⟨u, s₁, hemit, hrest⟩
  · exact .inl (by rw [hemit.of_emit.1])
  · obtain ⟨hrecord, hunmarked⟩ := hemit.settles_emit
    have hrecorder : s₁.recorder = (s.push op).recorder := by
      rw [hemit.recorder_emit, emitted, hidle]
      rfl
    rcases hrest.of_bind with hmark | ⟨v, s₂, -, hlast⟩
    · obtain ⟨hsame, hstatements | hundefined | ⟨q, hq, he⟩⟩ := hmark.of_markLabel
      · exact absurd (hrecord.mode.symm.trans hstatements) hmode
      · refine absurd (hstop.kept hrecord.labels fun l hl => ?_) hundefined
        rwa [hunmarked]
      · rw [hsame]
        refine .inr ⟨q, ?_, he, hrecorder⟩
        cases hpos : s.labels.position? r.stop with
        | none =>
          -- Recording marks no label that is without a mark.
          have hmem := LabelTable.mem_unmarked_iff.2 ⟨hstop, hpos⟩
          have hnone := (LabelTable.mem_unmarked_iff.1 (hunmarked ▸ hmem)).2
          rw [hq] at hnone
          cases hnone
        | some q' => rw [← hrecord.labels _ _ hpos, hq]
    · exact (Sure.modify _ _ _ _ hlast).elim

section Defined

variable (hdefined : ∀ l ∈ s.regions.owed, s.IsDefined l)

include hdefined

theorem recorder_of_endException (h : Fails endException s e s') :
    s'.recorder = s.recorder ∨ RecordsEnd s s' e := by
  unfold endException at h
  rcases h.of_requireFunction_bind with ⟨heq, -⟩ | ⟨hmode, h⟩
  · exact .inl (by rw [heq])
  rcases h.of_bind with hleave | ⟨id, s₁, hleave, h₁⟩
  · exact .inl (by rw [hleave.of_leaveRegion])
  obtain ⟨region, hget, hkind, rest, hlive, hs₁⟩ := hleave.of_leaveRegion
  have h₂ := h₁.of_get_bind
  split at h₂
  · refine .inl ?_
    rw [h₂.of_throw.2, hs₁]
  · next r hr =>
    have hfound : s.regions.get? id = some (.exception r) := by
      rw [hs₁] at hr
      obtain ⟨found, hfound, hexception⟩ := Option.bind_eq_some_iff.1 hr
      cases found <;> cases hexception
      exact hfound
    have hstop : s₁.IsDefined r.stop := by
      rw [hs₁]
      exact hdefined r.stop (RegionStack.mem_owed (hlive ▸ List.mem_cons_self) hfound
        (List.mem_singleton_self _))
    have hmode₁ : s₁.recorder.mode ≠ .statements := by
      rw [hs₁]
      exact hmode
    have hclose : ∀ op : Operation,
        op = (if r.phase < .finishing then .jump r.stop else .endFinally) →
        Fails (do
          emit op
          markLabel r.stop
          updateException id { r with phase := .done }) s₁ e s' →
        s'.recorder = s.recorder ∨ RecordsEnd s s' e := by
      intro op hop hfails
      have hidle : op.isIdle = false := by
        rw [hop]
        split <;> rfl
      rcases recorder_of_close hmode₁ hstop hidle hfails with hsame | ⟨q, hq, he, hpush⟩
      · exact .inl (by rw [hsame, hs₁])
      · refine .inr ⟨id, rest, r, q, hlive, hfound, ?_, he, ?_⟩
        · rw [hs₁] at hq
          exact hq
        · rw [hpush, ← hop, hs₁]
          rfl
    dsimp only at h₂
    split at h₂
    · next hphase => exact hclose _ (if_pos hphase).symm h₂
    · next hphase => exact hclose _ (if_neg hphase).symm h₂

/-- A request that fails neither records an operation nor touches the span that waits, the end of a
protected block apart. -/
theorem recorder_of_fails (h : Fails request.run s e s') :
    s'.recorder = s.recorder ∨ request = .endException ∧ RecordsEnd s s' e := by
  cases failure_of_fails hdefined h with
  | untouched same => exact .inl same.recorder
  | overtaken marking =>
    have hsilent : request.isSilent = true → s'.recorder = s.recorder := fun hsilent =>
      recorderwise_eq.run hsilent s s' (by
        obtain ⟨r, r', hperform⟩ := h
        exact ⟨r, by rw [hperform]⟩)
    cases request with
    | endException =>
      rcases Fails.of_bind h with hend | ⟨u, s₁, -, hlast⟩
      · exact (recorder_of_endException hdefined hend).imp_right fun hend => ⟨rfl, hend⟩
      · exact hlast.of_pure.elim
    | endScope | endBreakable | endLoop => exact .inl (hsilent rfl)
    | _ => cases marking

end Defined

theorem adds_emitAssignments (hassign : ∀ target value, P (.assign target value))
    (assignments : List (Node × Node)) : Across (Adds P) (emitAssignments assignments) :=
  (recorderwise_adds P).emitAssignments (fun _ _ => adds_emit (hassign _ _) rfl) assignments

/-- A request that does nothing else to a span records operations of its own. -/
theorem adds_run (hplain : ∀ reply, request.spanEvent? reply = none) :
    Across (Adds request.MayRecord) request.run := by
  have hR := recorderwise_adds request.MayRecord
  by_cases hsilent : request.isSilent = true
  · exact hR.run hsilent
  cases request with
  | emit op =>
    have hidle : op.isIdle = false := by simpa [Request.spanEvent?] using hplain .done
    exact hR.reply (adds_emit rfl hidle) fun _ => .done
  | beginCatch name =>
    exact hR.reply (hR.beginCatch (fun _ => adds_emit trivial rfl)
      (fun _ _ => adds_emit trivial rfl) hR.placeLabel hR.updateException hR.stateName name)
      fun _ => .done
  | beginFinally =>
    exact hR.reply (hR.beginFinally (fun _ => adds_emit trivial rfl) hR.placeLabel
      hR.updateException) fun _ => .done
  | endException =>
    exact hR.reply (hR.endException (hR.leaveRegion _) (fun _ => adds_emit trivial rfl)
      (adds_emit trivial rfl) hR.markLabel hR.updateException) fun _ => .done
  | ensureIdentifier expression =>
    exact hR.reply (hR.bind (hR.naming _) fun _ =>
      hR.bind (adds_emitAssignments (fun _ _ => trivial) _) fun _ => hR.pure _) .node
  | valueOrDefault value default =>
    exact hR.reply (hR.bind (hR.naming _) fun _ =>
      hR.bind (adds_emitAssignments (fun _ _ => trivial) _) fun _ => hR.pure _) .node
  | writeLocation span => cases hplain .done
  | createInlineBreak label => cases hplain (.node .null)
  | createInlineReturn value => cases hplain (.node .null)
  | addParameter parameter => cases hplain .done
  | _ => cases hsilent rfl

/-- A parameter uses the span up. -/
theorem Answers.recorder_addParameter {parameter : Parameter Node} {u : Unit}
    (h : Answers (addParameter parameter) s u s') :
    s'.recorder = { s.recorder with pending := none } := by
  unfold addParameter at h
  obtain ⟨location, s₁, htake, hrest⟩ := h.of_requireFunction_bind.of_bind
  have hadd : Across (fun s s' : Session => s'.recorder = s.recorder) (modify fun s : Session =>
      { s with parameters := s.parameters ++ [{ parameter with default := none }] } :
      SessionM PUnit) := Across.modify fun _ => rfl
  have hstill : s'.recorder = s₁.recorder := by
    dsimp only at hrest
    split at hrest
    · exact recorderwise_eq.bind (recorderwise_eq.report _ _ _) (fun _ => hadd) s₁ s'
        (.of_answers hrest)
    · exact hadd s₁ s' (.of_answers hrest)
  have htaken := htake.of_modifyGet
  rw [hstill, (Prod.mk.inj htaken).2]

/-- A node handed out for use inside a statement carries the span that waits. -/
theorem describes_inline {node : Node} {answer : Node}
    (hevent : request.spanEvent? (.node answer) = some (.made (.inline answer)))
    (hnode : (Made.inline node).span? = none) (hsame : s₁.recorder = s.recorder)
    (h : Answers (located node) s₁ answer s') : Describes s s' request (.ok (.node answer)) := by
  obtain ⟨hanswer, hrecorder⟩ := h.of_located
  rw [hsame] at hanswer hrecorder
  refine Tells.describes hevent (by rw [hrecorder]) (.of_event rfl ?_ hrecorder)
  rintro thing ⟨⟩
  rw [hanswer]
  exact Made.span?_inline_locate hnode _

theorem describes_of_answers (h : Answers request.run s reply s') :
    Describes s s' request (.ok reply) := by
  by_cases hplain : ∀ reply, request.spanEvent? reply = none
  · exact (adds_run hplain s s' (.of_answers h)).describes fun reply _ => hplain reply
  cases request with
  | writeLocation span =>
    obtain ⟨u, hwrite, rfl⟩ := Answers.of_reply h
    have hrecorder : s'.recorder = { s.recorder with pending := some span } := by
      rw [hwrite.of_modify]
      rfl
    exact Tells.describes rfl (by rw [hrecorder]) (.of_unmade rfl hrecorder)
  | emit op =>
    obtain ⟨u, hemit, rfl⟩ := Answers.of_reply h
    have hidle : op.isIdle = true := by
      by_contra hidle
      exact hplain fun _ => if_neg hidle
    have hrecorder : s'.recorder = { s.recorder with pending := none } := by
      rw [hemit.recorder_emit, emitted, if_pos hidle]
    exact Tells.describes (if_pos hidle) (by rw [hrecorder]) (.of_unmade rfl hrecorder)
  | createInlineBreak label =>
    obtain ⟨node, hbreak, rfl⟩ := Answers.of_reply h
    unfold createInlineBreak at hbreak
    obtain ⟨u, s₁, hnote, hrest⟩ := hbreak.of_requireFunction_bind.of_bind
    have hsame := recorderwise_eq.noteReference label s s₁ (.of_answers hnote)
    exact describes_inline rfl rfl hsame hrest.of_get_bind
  | createInlineReturn value =>
    obtain ⟨node, hreturn, rfl⟩ := Answers.of_reply h
    unfold createInlineReturn at hreturn
    exact describes_inline rfl rfl rfl hreturn.of_requireFunction_bind.of_get_bind
  | addParameter parameter =>
    obtain ⟨u, hadd, rfl⟩ := Answers.of_reply h
    have hrecorder := hadd.recorder_addParameter
    exact Tells.describes rfl (by rw [hrecorder]) (.of_unmade rfl hrecorder)
  | _ => exact absurd (fun _ => rfl) hplain

theorem describes_of_fails (hdefined : ∀ l ∈ s.regions.owed, s.IsDefined l)
    (h : Fails request.run s e s') : Describes s s' request (.error e) := by
  by_cases hplain : ∀ reply, request.spanEvent? reply = none
  · obtain ⟨r, r', hperform⟩ := h
    exact (adds_run hplain s s' ⟨r, by rw [hperform]⟩).describes fun reply _ => hplain reply
  · have hsame : s'.recorder = s.recorder := by
      refine (recorder_of_fails hdefined h).resolve_right ?_
      rintro ⟨rfl, -⟩
      exact hplain fun _ => rfl
    exact ((recorderwise_adds _).still hsame).describes fun _ heq => by cases heq

end Requests

end Session

end Resumable
