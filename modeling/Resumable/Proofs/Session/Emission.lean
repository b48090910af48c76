import Resumable.Proofs.Label.Unmarked
import Resumable.Proofs.Session.Performing

/-!
# Emitting an operation

An emission checks what it is asked for before it changes anything, then it prepares the session and
places the operation. `emission_of_emit` says all of it at once, whatever the outcome, so that what
is known of an emission follows from its cases.
-/

namespace Resumable.Session

variable {s s₁ s' : Session} {op : Operation} {r r' : Name.Registry}

/-- The table with the entry label alone. -/
def entryLabels : LabelTable := ⟨[⟨some 0, false⟩]⟩

/-- The session with one operation more. -/
def push (s : Session) (op : Operation) : Session :=
  { s with recorder := { s.recorder with
      operations := s.recorder.operations ++ [⟨op, s.recorder.pending⟩], pending := none } }

/-- The recorder once the operation is placed, which leaves no trace if it is idle. -/
def emitted (s : Session) (op : Operation) : Recorder :=
  if op.isIdle then { s.recorder with pending := none } else (s.push op).recorder

theorem emitted_congr (h : s₁.recorder = s.recorder) (op : Operation) :
    s₁.emitted op = s.emitted op := by
  simp [emitted, push, h]

/-- What happens before an operation is placed: the reference to its target is noted, a delegation
to nothing is reported, and the entry is marked if there is nothing else. -/
inductive Prepares : Session → Session → Prop where
  | refl (s : Session) : Prepares s s
  | note {s s' : Session} {l : Label} {labels : LabelTable}
      (noted : s.labels.noteReference l = .ok labels) (later : Prepares { s with labels } s') :
      Prepares s s'
  | report {s s' : Session} (diagnostics : List Diagnostic)
      (later : Prepares { s with diagnostics } s') : Prepares s s'
  | entry {s s' : Session} (operations : s.recorder.operations = [])
      (labels : s.labels.entries = []) (later : Prepares { s with labels := entryLabels } s') :
      Prepares s s'

namespace Prepares

theorem recorder (h : Prepares s s₁) : s₁.recorder = s.recorder := by
  induction h with
  | refl s => rfl
  | note noted later ih => exact ih
  | report diagnostics later ih => exact ih
  | entry operations labels later ih => exact ih

theorem isSome_find? {l : Label} (h : Prepares s s₁) (hl : (s.labels.find? l).isSome = true) :
    (s₁.labels.find? l).isSome = true := by
  induction h with
  | refl s => exact hl
  | note noted later ih => exact ih ((LabelTable.isSome_find?_noteReference noted l).trans hl)
  | report diagnostics later ih => exact ih hl
  | entry operations labels later ih => simp [LabelTable.find?, labels] at hl

end Prepares

/-- An operation is refused if the mode has no place for it or if it jumps to no label. Otherwise it
is placed in the session that is prepared for it. -/
inductive Emission (op : Operation) (s : Session) : Except LoweringError Unit → Session → Prop where
  | refused {e : LoweringError} (why : op.code.isLegalIn s.recorder.mode = false ∨
      ∃ l, op.target? = some l ∧ s.labels.find? l = none) : Emission op s (.error e) s
  | placed {s₁ : Session} (legal : op.code.isLegalIn s.recorder.mode = true)
      (target : ∀ l, op.target? = some l → (s.labels.find? l).isSome = true)
      (prepares : Prepares s s₁) : Emission op s (.ok ()) { s₁ with recorder := s.emitted op }

section Placing

theorem perform_updateLabels (change : LabelTable → Except LoweringError LabelTable) (s : Session)
    (r : Name.Registry) : perform (updateLabels change) s r = match change s.labels with
      | .ok labels => (.ok (), { s with labels }, r)
      | .error e => (.error e, s, r) := by
  unfold updateLabels
  rw [perform_get_bind]
  cases change s.labels <;> rfl

theorem exists_perform_report (location : Option Span) (notice : Notice) (arguments : List String)
    (s : Session) (r : Name.Registry) : ∃ diagnostics,
      perform (report location notice arguments) s r = (.ok (), { s with diagnostics }, r) :=
  ⟨_, rfl⟩

theorem exists_perform_markEntry (s : Session) (r : Name.Registry) :
    ∃ s₁, Prepares s s₁ ∧ perform markEntry s r = (.ok (), s₁, r) := by
  unfold markEntry
  rw [perform_get_bind]
  split
  · next hempty =>
    simp only [Bool.and_eq_true] at hempty
    have hlabels : s.labels.entries = [] := List.isEmpty_iff.1 hempty.2
    have hdefine : s.labels.define = (⟨1⟩, ⟨[⟨none, false⟩]⟩) := by
      rw [LabelTable.define, hlabels]
      rfl
    rw [hdefine]
    exact ⟨_, .entry (List.isEmpty_iff.1 hempty.1) hlabels (.refl _), rfl⟩
  · exact ⟨s, .refl s, rfl⟩

/-- The operation is placed at last. -/
theorem exists_perform_place (hlegal : op.code.isLegalIn s.recorder.mode = true)
    (r : Name.Registry) : ∃ s₁, Prepares s s₁ ∧ perform (do
      markEntry
      let s ← get
      match s.recorder.record op with
      | .ok (_, recorder) => set { s with recorder }
      | .error e => throw e : SessionM Unit) s r =
    (.ok (), { s₁ with recorder := s.emitted op }, r) := by
  obtain ⟨s₁, hprepares, hentry⟩ := exists_perform_markEntry s r
  refine ⟨s₁, hprepares, ?_⟩
  rw [perform_bind, hentry]
  dsimp only
  rw [perform_get_bind, hprepares.recorder, Recorder.record_of_isLegalIn hlegal]
  rfl

/-- Before that, a delegation to nothing is reported. -/
theorem exists_perform_report_place (location : Option Span) (r : Name.Registry) :
    op.code.isLegalIn s.recorder.mode = true → ∃ s₁, Prepares s s₁ ∧ perform (match op with
      | .delegate none => do
        report location .missingDelegate []
        markEntry
        let s ← get
        match s.recorder.record op with
        | .ok (_, recorder) => set { s with recorder }
        | .error e => throw e
      | _ => do
        markEntry
        let s ← get
        match s.recorder.record op with
        | .ok (_, recorder) => set { s with recorder }
        | .error e => throw e : SessionM Unit) s r =
    (.ok (), { s₁ with recorder := s.emitted op }, r) := by
  intro hlegal
  split
  · obtain ⟨diagnostics, hreport⟩ := exists_perform_report location .missingDelegate [] s r
    obtain ⟨s₁, hprepares, hplace⟩ := exists_perform_place (s := { s with diagnostics }) hlegal r
    refine ⟨s₁, .report diagnostics hprepares, ?_⟩
    rw [perform_bind, hreport]
    exact hplace
  · exact exists_perform_place hlegal r

end Placing

theorem emission_of_emit {outcome : Except LoweringError Unit}
    (h : perform (emit op) s r = (outcome, s', r')) : Emission op s outcome s' := by
  unfold emit at h
  rw [perform_get_bind] at h
  dsimp only at h
  split at h
  · next e hinvalid =>
    rw [perform_bind] at h
    cases h
    refine .refused (.inl ?_)
    unfold Recorder.validate at hinvalid
    split at hinvalid
    · cases hinvalid
    · next hillegal => exact Bool.eq_false_iff.2 hillegal
  · next hvalid =>
    have hlegal : op.code.isLegalIn s.recorder.mode = true := by
      unfold Recorder.validate at hvalid
      split at hvalid
      · assumption
      · exact absurd rfl (hvalid _)
    split at h
    · next label htarget =>
      rw [perform_bind, noteReference, perform_updateLabels] at h
      cases hfind : s.labels.find? label with
      | none =>
        rw [LabelTable.noteReference, hfind] at h
        cases h
        exact .refused (.inr ⟨label, htarget, hfind⟩)
      | some entry =>
        cases hnoted : s.labels.noteReference label with
        | error e => simp [LabelTable.noteReference, hfind] at hnoted
        | ok labels =>
          rw [hnoted] at h
          obtain ⟨s₁, hprepares, hplace⟩ :=
            exists_perform_report_place (s := { s with labels }) s.recorder.pending r hlegal
          cases hplace.symm.trans h
          refine .placed hlegal (fun l hl => ?_) (.note hnoted hprepares)
          rw [Option.some.inj (hl.symm.trans htarget), hfind]
          rfl
    · next htarget =>
      obtain ⟨s₁, hprepares, hplace⟩ := exists_perform_report_place s.recorder.pending r hlegal
      cases hplace.symm.trans h
      exact .placed hlegal (fun l hl => absurd hl (htarget l)) hprepares

end Resumable.Session
