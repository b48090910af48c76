import Resumable.Proofs.Session.Runs
import Resumable.Proofs.Session.Soundness

/-!
# Sessions with their answers

A `Trace` is a session in which every call succeeds, with what each of them answered. From it
one reads which labels the driver was given and which it marked.
-/

namespace Resumable.Session

/-- The requests that lead from a session to another, with their answers. -/
inductive Trace (s₀ : Session) : List (Request × Reply) → Session → Prop where
  | start : Trace s₀ [] s₀
  | answered {t : List (Request × Reply)} {s s' : Session} {request : Request} {reply : Reply}
      (before : Trace s₀ t s) (answers : Answers request.run s reply s') :
      Trace s₀ (t ++ [(request, reply)]) s'

/-- The label that a call gave to the driver. -/
def given? : Request × Reply → Option Label
  | (.defineLabel, .label l) => some l
  | _ => none

/-- The label that a call marked for the driver. -/
def marked? : Request × Reply → Option Label
  | (.markLabel l, _) => some l
  | _ => none

/-- The labels the driver was given, in order. -/
def given (t : List (Request × Reply)) : List Label := t.filterMap given?

/-- The labels the driver marked, in order. -/
def marks (t : List (Request × Reply)) : List Label := t.filterMap marked?

/-- The labels the driver was given and has not marked yet. -/
def pending (t : List (Request × Reply)) : List Label := (given t).filter (· ∉ marks t)

/-- The session after the requests, with their answers, if all of them succeed. -/
def traceAll : Session → Name.Registry → List Request →
    Option (List (Request × Reply) × Session × Name.Registry)
  | s, r, [] => some ([], s, r)
  | s, r, request :: requests =>
    match perform request.run s r with
    | (.ok reply, s', r') =>
      (traceAll s' r' requests).map fun (t, rest) => ((request, reply) :: t, rest)
    | (.error _, _, _) => none

variable {s₀ s s' : Session} {t t' : List (Request × Reply)} {request : Request} {reply : Reply}
  {l : Label}

theorem given_concat (t : List (Request × Reply)) (x : Request × Reply) :
    given (t ++ [x]) = given t ++ (given? x).toList := by
  rw [given, List.filterMap_append]
  cases h : given? x <;> simp [given, h]

theorem marks_concat (t : List (Request × Reply)) (x : Request × Reply) :
    marks (t ++ [x]) = marks t ++ (marked? x).toList := by
  rw [marks, List.filterMap_append]
  cases h : marked? x <;> simp [marks, h]

namespace Trace

theorem runs (h : Trace s₀ t s) : Runs s₀ (t.map Prod.fst) s := by
  induction h with
  | start => exact .nil s₀
  | answered before answers ih =>
    rw [List.map_append]
    exact ih.append (.cons answers (.nil _))

theorem reachable (h : Trace s₀ t s) : Reachable s₀ s := by
  induction h with
  | start => exact .start
  | answered before answers ih => exact .request _ ih (.of_answers answers)

theorem append (h : Trace s₀ t s) (h' : Trace s t' s') : Trace s₀ (t ++ t') s' := by
  induction h' with
  | start => rwa [List.append_nil]
  | answered before answers ih =>
    rw [← List.append_assoc]
    exact .answered ih answers

/-- What the driver marked is marked. -/
theorem isSome_position? (h : Trace s₀ t s) (hl : l ∈ marks t) :
    (s.labels.position? l).isSome = true := by
  induction h with
  | start => cases hl
  | @answered t s₁ s' request reply before answers ih =>
    rw [marks_concat] at hl
    rcases List.mem_append.1 hl with hl | hl
    · obtain ⟨q, hq⟩ := Option.isSome_iff_exists.1 (ih hl)
      rw [(advances_run request _ _ _ answers).labels l q hq]
      rfl
    · cases request with
      | markLabel label =>
        obtain rfl : label = l := Option.some.inj (Option.mem_toList.1 hl)
        obtain ⟨u, hcall, -⟩ := Answers.of_reply answers
        rw [hcall.of_markLabel.2]
        rfl
      | _ => cases hl

/-- What the driver is given later is not marked yet. -/
theorem position?_of_given (h : Trace s₀ t s) (hl : l ∈ given t) :
    s₀.labels.position? l = none := by
  induction h with
  | start => cases hl
  | @answered t s₁ s' request reply before answers ih =>
    rw [given_concat] at hl
    rcases List.mem_append.1 hl with hl | hl
    · exact ih hl
    · cases request with
      | defineLabel =>
        obtain ⟨label, hcall, rfl⟩ := Answers.of_reply answers
        obtain rfl : label = l := Option.some.inj (Option.mem_toList.1 hl)
        obtain ⟨rfl, -⟩ := hcall.defineLabel_eq
        cases hpos : s₀.labels.position? s₁.labels.define.1 with
        | none => rfl
        | some q =>
          have hlater := before.runs.advance.labels _ q hpos
          rw [LabelTable.position?, LabelTable.find?_define_eq_none] at hlater
          cases hlater
      | _ => cases hl

/-- If the driver only marks labels it was given, this is so at every point before. -/
theorem marks_subset (h : Trace s₀ t s) (h' : Trace s t' s')
    (hmarks : ∀ l ∈ marks (t ++ t'), l ∈ given (t ++ t')) : ∀ l ∈ marks t, l ∈ given t := by
  intro l hl
  have hgiven : l ∈ given (t ++ t') := hmarks l (by
    rw [marks, List.filterMap_append]
    exact List.mem_append_left _ hl)
  rw [given, List.filterMap_append] at hgiven
  rcases List.mem_append.1 hgiven with hgiven | hgiven
  · exact hgiven
  · have hsome := h.isSome_position? hl
    rw [h'.position?_of_given hgiven] at hsome
    cases hsome

end Trace

theorem trace_of_traceAll {r r' : Name.Registry} {requests : List Request}
    (h : traceAll s r requests = some (t, s', r')) : Trace s t s' := by
  induction requests generalizing s r t with
  | nil =>
    obtain ⟨rfl, hrest⟩ := Prod.mk.inj (Option.some.inj h)
    obtain ⟨rfl, -⟩ := Prod.mk.inj hrest
    exact .start
  | cons request requests ih =>
    unfold traceAll at h
    split at h
    · next reply s₁ r₁ heq =>
      obtain ⟨⟨rest, s₂, r₂⟩, hrest, hall⟩ := Option.map_eq_some_iff.1 h
      obtain ⟨rfl, hlast⟩ := Prod.mk.inj hall
      obtain ⟨rfl, rfl⟩ := Prod.mk.inj hlast
      exact (Trace.answered .start ⟨r, r₁, heq⟩).append (ih hrest)
    · cases h

end Resumable.Session
