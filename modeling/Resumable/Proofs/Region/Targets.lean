import Resumable.Proofs.Region.Owed

/-!
# Where jumps go

Which of the open regions a `break` or a `continue` finds: the innermost one that answers to it.
-/

namespace Resumable

/-- A jump with this source label, or with none, finds the target. -/
def BreakTarget.GoesBy (t : BreakTarget) : Option String → Prop
  | none => t.needsName = false
  | some name => name ∈ t.names

theorem BreakTarget.answers_iff {t : BreakTarget} {name : Option String} :
    t.answers name = true ↔ t.GoesBy name := by
  cases name with
  | none => simp [answers, GoesBy]
  | some name => simp [answers, GoesBy]

namespace Region

/-- The region is a target, or a loop, that a `break` with this source label, or with none,
finds. -/
def LeftBy (name : Option String) (region : Region) : Prop :=
  ∃ target, region.breakTarget? = some target ∧ target.GoesBy name

/-- The region is a loop that a `continue` with this source label, or with none, finds. -/
def RestartedBy (name : Option String) (region : Region) : Prop :=
  ∃ target label, region.loop? = some (target, label) ∧ target.GoesBy name

variable {region : Region} {name : Option String} {target : BreakTarget} {label : Label}

theorem answersBreak_iff : region.answersBreak name = true ↔ region.LeftBy name := by
  rw [answersBreak, Option.any_eq_true]
  exact exists_congr fun target => and_congr_right fun _ => BreakTarget.answers_iff

theorem answersContinue_iff : region.answersContinue name = true ↔ region.RestartedBy name := by
  rw [answersContinue, Option.any_eq_true]
  constructor
  · rintro ⟨⟨target, label⟩, hloop, hanswers⟩
    exact ⟨target, label, hloop, BreakTarget.answers_iff.1 hanswers⟩
  · rintro ⟨target, label, hloop, hname⟩
    exact ⟨(target, label), hloop, BreakTarget.answers_iff.2 hname⟩

/-- A label changes nothing else about a target. -/
theorem breakTarget?_setBreakLabel (h : region.breakTarget? = some target) :
    (region.setBreakLabel label).breakTarget? = some { target with label } := by
  cases region with
  | exception r => cases h
  | scope r => cases h
  | breakable t =>
    obtain rfl := Option.some.inj h
    rfl
  | loop t l =>
    obtain rfl := Option.some.inj h
    rfl

theorem breakTarget?_of_loop? {restart : Label} (h : region.loop? = some (target, restart)) :
    region.breakTarget? = some target := by
  cases region with
  | loop t l =>
    obtain ⟨rfl, rfl⟩ := Prod.mk.inj (Option.some.inj h)
    rfl
  | _ => cases h

/-- A loop is restarted at the same label, whatever label it is left to. -/
theorem loop?_setBreakLabel {restart : Label} (h : region.loop? = some (target, restart)) :
    (region.setBreakLabel label).loop? = some ({ target with label }, restart) := by
  cases region with
  | loop t l =>
    obtain ⟨rfl, rfl⟩ := Prod.mk.inj (Option.some.inj h)
    rfl
  | _ => cases h

end Region

namespace RegionStack

variable {s : RegionStack} {P : Region → Prop} {p : Region → Bool} {id i : RegionId}
  {region : Region} {offset : Nat}

/-- The region is open and has the property, and none of those opened inside it has. -/
structure Innermost (s : RegionStack) (P : Region → Prop) (id : RegionId) (region : Region) :
    Prop where
  found : s.get? id = some region
  holds : P region
  nested : ∃ inner outer, s.live = inner ++ id :: outer ∧
    ∀ i ∈ inner, ∀ r, s.get? i = some r → ¬ P r

/-- A search finds the innermost region with the property. -/
theorem find?_eq_some_iff (hp : ∀ r, p r = true ↔ P r) :
    s.find? p = some id ↔ ∃ region, s.Innermost P id region := by
  rw [find?, List.find?_eq_some_iff_append]
  constructor
  · rintro ⟨hany, inner, outer, hlive, hinner⟩
    obtain ⟨region, hget, hregion⟩ := (Option.any_eq_true _ _).1 hany
    refine ⟨region, hget, (hp region).1 hregion, inner, outer, hlive, fun i hi r hr hr' => ?_⟩
    have hnot := hinner i hi
    rw [hr, Option.any_some, (hp r).2 hr'] at hnot
    cases hnot
  · rintro ⟨region, hget, hregion, inner, outer, hlive, hinner⟩
    refine ⟨(Option.any_eq_true _ _).2 ⟨region, hget, (hp region).2 hregion⟩, inner, outer, hlive,
      fun i hi => ?_⟩
    cases hr : s.get? i with
    | none => rfl
    | some r =>
      have hnot := hinner i hi r hr
      rw [← hp r] at hnot
      rw [Option.any_some, Bool.eq_false_iff.2 hnot]
      rfl

theorem breakTarget?_eq_some_iff {name : Option String} :
    s.breakTarget? name = some id ↔ ∃ region, s.Innermost (Region.LeftBy name) id region :=
  find?_eq_some_iff fun _ => Region.answersBreak_iff

theorem continueTarget?_eq_some_iff {name : Option String} :
    s.continueTarget? name = some id ↔
      ∃ region, s.Innermost (Region.RestartedBy name) id region :=
  find?_eq_some_iff fun _ => Region.answersContinue_iff

/-- What a `break` out of the region with this number leaves. -/
def target? (s : RegionStack) (id : RegionId) : Option BreakTarget :=
  s.get? id >>= Region.breakTarget?

/-- The loop with this number, and the label that restarts it. -/
def loop? (s : RegionStack) (id : RegionId) : Option (BreakTarget × Label) :=
  s.get? id >>= Region.loop?

theorem target?_of_get? (h : s.get? id = some region) : s.target? id = region.breakTarget? := by
  rw [target?, h]
  rfl

theorem loop?_of_get? (h : s.get? id = some region) : s.loop? id = region.loop? := by
  rw [loop?, h]
  rfl

theorem lt_of_get? (h : s.get? id = some region) : id < s.regions.length :=
  (List.getElem?_eq_some_iff.1 h).1

theorem lt_of_target? {target : BreakTarget} (h : s.target? id = some target) :
    id < s.regions.length := by
  obtain ⟨region, hget, -⟩ := Option.bind_eq_some_iff.1 h
  exact lt_of_get? hget

/-- Opening a region leaves the others as they are. -/
theorem get?_enter_of_ne (hid : i ≠ s.regions.length) :
    (s.enter region offset).2.get? i = s.get? i := by
  show (s.regions ++ [region])[i]? = s.regions[i]?
  by_cases hlt : i < s.regions.length
  · exact List.getElem?_append_left hlt
  · have hlt' : s.regions.length < i := Nat.lt_of_le_of_ne (Nat.le_of_not_lt hlt) (Ne.symm hid)
    rw [List.getElem?_eq_none (Nat.le_of_not_lt hlt), List.getElem?_eq_none]
    rw [List.length_append]
    exact hlt'

end RegionStack

end Resumable
