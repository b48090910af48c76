import Resumable.Proofs.Region.Targets
import Resumable.Proofs.Session.Attempts

/-!
# Searches for targets

A search for the target of a `break` finds the innermost region that it can leave, and gives the
region a label if it has none. No other request gives a target a label, and none takes one away. So
a label that a target has is one that a search asked for, and no other target has it.
-/

namespace Resumable

/-- What a search that finds the target answers, if a jump goes to this label otherwise. -/
def BreakTarget.answer (t : BreakTarget) (label : Label) : Session.JumpTarget :=
  if t.native then .native else .label label

theorem BreakTarget.of_answer_eq_label {t : BreakTarget} {l l' : Label}
    (h : t.answer l = .label l') : t.native = false ∧ l = l' := by
  unfold answer at h
  split at h
  · cases h
  · next hnative => exact ⟨by simpa using hnative, Session.JumpTarget.label.inj h⟩

namespace Session

variable {s s' : Session} {id : RegionId} {region : Region} {t : BreakTarget} {l : Label}
  {name : Option String} {answer : JumpTarget} {request : Request} {reply : Reply}

section Performing

/-- The session with a new label for a target. -/
def labelled (s : Session) (id : RegionId) (region : Region) : Session :=
  { s with
    labels := s.labels.define.2
    regions := s.regions.replace id (region.setBreakLabel s.labels.define.1) }

theorem perform_noteReference (h : s.IsDefined l) (registry : Name.Registry) :
    ∃ labels, perform (noteReference l) s registry = (.ok (), { s with labels }, registry) := by
  obtain ⟨e, he⟩ := Option.isSome_iff_exists.1 h
  have hnote : s.labels.noteReference l =
      .ok (s.labels.setEntry l { e with referenced := true }) := by
    unfold LabelTable.noteReference
    rw [he]
  refine ⟨s.labels.setEntry l { e with referenced := true }, ?_⟩
  unfold noteReference updateLabels
  rw [perform_get_bind]
  dsimp only
  rw [hnote]
  rfl

/-- A search finds the innermost region that is to be left. It answers with the label of the
region, which gets one if it has none. -/
theorem perform_findBreakTarget (hin : s.regions.Innermost (Region.LeftBy name) id region)
    (ht : region.breakTarget? = some t) (hdefined : t.label.isSome = true → s.IsDefined t.label)
    (registry : Name.Registry) :
    ∃ s' label, perform (findBreakTarget name) s registry = (.ok (t.answer label), s', registry) ∧
      s'.regions.target? id = some { t with label } ∧
      (t.native = false → label.isSome = true) ∧ (t.label.isSome = true → label = t.label) := by
  have hid := RegionStack.breakTarget?_eq_some_iff.2 ⟨region, hin⟩
  have hget := hin.found
  have htarget := (RegionStack.target?_of_get? hget).trans ht
  unfold findBreakTarget
  rw [perform_get_bind, hid]
  dsimp only
  rw [hget]
  dsimp only
  rw [ht]
  dsimp only
  by_cases hnative : t.native = true
  · rw [if_pos hnative]
    refine ⟨s, t.label, ?_, htarget, fun hnot => ?_, fun _ => rfl⟩
    · rw [BreakTarget.answer, if_pos hnative]
      rfl
    · rw [hnative] at hnot
      cases hnot
  · have hanswer : ∀ label, t.answer label = .label label := fun _ => if_neg hnative
    rw [if_neg hnative]
    by_cases hsome : t.label.isSome = true
    · obtain ⟨labels, hnote⟩ := perform_noteReference (hdefined hsome) registry
      refine ⟨{ s with labels }, t.label, ?_, htarget, fun _ => hsome, fun _ => rfl⟩
      rw [if_pos hsome, perform_bind, hnote, hanswer]
      rfl
    · have hfresh : (s.labelled id region).IsDefined s.labels.define.1 := by
        rw [IsDefined, labelled, LabelTable.find?_define_fresh]
        rfl
      obtain ⟨labels, hnote⟩ := perform_noteReference hfresh registry
      refine ⟨{ s.labelled id region with labels }, s.labels.define.1, ?_, ?_,
        fun _ => LabelTable.isSome_define s.labels, fun h => absurd h hsome⟩
      · rw [if_neg hsome, perform_bind]
        show perform (noteReference s.labels.define.1 >>= fun _ => _) (s.labelled id region)
          registry = _
        rw [perform_bind, hnote, hanswer]
        rfl
      · have hafter : (s.labelled id region).regions.get? id =
            some (region.setBreakLabel s.labels.define.1) :=
          (RegionStack.get?_replace hget _ id).trans (if_pos rfl)
        exact (RegionStack.target?_of_get? hafter).trans (Region.breakTarget?_setBreakLabel ht)

theorem perform_findBreakTarget_of_none
    (hnone : ∀ id region, ¬ s.regions.Innermost (Region.LeftBy name) id region)
    (registry : Name.Registry) :
    perform (findBreakTarget name) s registry = (.error (.noBreakTarget name), s, registry) := by
  have hid : s.regions.breakTarget? name = none := Option.eq_none_iff_forall_ne_some.2 fun id hid =>
    (RegionStack.breakTarget?_eq_some_iff.1 hid).elim (hnone id)
  unfold findBreakTarget
  rw [perform_get_bind, hid]
  rfl

/-- A search for a loop answers with the label that the driver gave for the loop. -/
theorem perform_findContinueTarget
    (hin : s.regions.Innermost (Region.RestartedBy name) id region)
    (hloop : region.loop? = some (t, l)) (hdefined : t.native = false → s.IsDefined l)
    (registry : Name.Registry) :
    ∃ s', perform (findContinueTarget name) s registry = (.ok (t.answer l), s', registry) ∧
      s'.regions = s.regions := by
  have hid := RegionStack.continueTarget?_eq_some_iff.2 ⟨region, hin⟩
  have hfound : (s.regions.get? id >>= Region.loop?) = some (t, l) := by
    rw [hin.found]
    exact hloop
  unfold findContinueTarget
  rw [perform_get_bind, hid]
  dsimp only
  rw [hfound]
  dsimp only
  by_cases hnative : t.native = true
  · refine ⟨s, ?_, rfl⟩
    rw [if_pos hnative, BreakTarget.answer, if_pos hnative]
    rfl
  · obtain ⟨labels, hnote⟩ := perform_noteReference (hdefined (by simpa using hnative)) registry
    refine ⟨{ s with labels }, ?_, rfl⟩
    rw [if_neg hnative, perform_bind, hnote, BreakTarget.answer, if_neg hnative]
    rfl

theorem perform_findContinueTarget_of_none
    (hnone : ∀ id region, ¬ s.regions.Innermost (Region.RestartedBy name) id region)
    (registry : Name.Registry) :
    perform (findContinueTarget name) s registry =
      (.error (.noContinueTarget name), s, registry) := by
  have hid : s.regions.continueTarget? name = none :=
    Option.eq_none_iff_forall_ne_some.2 fun id hid =>
      (RegionStack.continueTarget?_eq_some_iff.1 hid).elim (hnone id)
  unfold findContinueTarget
  rw [perform_get_bind, hid]
  rfl

/-- A search for a loop that succeeds answers for the loop it finds. -/
theorem Answers.findContinueTarget_eq (h : Answers (findContinueTarget name) s answer s')
    (hin : s.regions.Innermost (Region.RestartedBy name) id region)
    (hloop : region.loop? = some (t, l)) : answer = t.answer l := by
  have hid := RegionStack.continueTarget?_eq_some_iff.2 ⟨region, hin⟩
  have hfound : (s.regions.get? id >>= Region.loop?) = some (t, l) := by
    rw [hin.found]
    exact hloop
  unfold findContinueTarget at h
  have h := h.of_get_bind
  rw [hid] at h
  dsimp only at h
  rw [hfound] at h
  dsimp only at h
  split at h
  · next hnative => exact h.of_pure.1.trans (if_pos hnative).symm
  · next hnative =>
    obtain ⟨u, s₁, -, hlast⟩ := h.of_bind
    exact hlast.of_pure.1.trans (if_neg hnative).symm

/-- What the searches come to in a session. One for the target of a `break` finds the innermost
region that it can leave, and one for a loop the innermost loop that it can restart. If there is
none, they fail and change nothing. -/
structure Searchable (s : Session) : Prop where
  left : ∀ name id region t registry, s.regions.Innermost (Region.LeftBy name) id region →
    region.breakTarget? = some t → ∃ s' label,
      perform (findBreakTarget name) s registry = (.ok (t.answer label), s', registry) ∧
      s'.regions.target? id = some { t with label } ∧
      (t.native = false → label.isSome = true) ∧ (t.label.isSome = true → label = t.label)
  stranded : ∀ name registry,
    (∀ id region, ¬ s.regions.Innermost (Region.LeftBy name) id region) →
    perform (findBreakTarget name) s registry = (.error (.noBreakTarget name), s, registry)
  restarted : ∀ name id region t l registry,
    s.regions.Innermost (Region.RestartedBy name) id region → region.loop? = some (t, l) →
    (t.native = false → s.IsDefined l) → ∃ s',
      perform (findContinueTarget name) s registry = (.ok (t.answer l), s', registry) ∧
      s'.regions = s.regions
  unlooped : ∀ name registry,
    (∀ id region, ¬ s.regions.Innermost (Region.RestartedBy name) id region) →
    perform (findContinueTarget name) s registry =
      (.error (.noContinueTarget name), s, registry)

theorem searchable_of_defined
    (hdefined : ∀ id t, s.regions.target? id = some t → t.label.isSome = true →
      s.IsDefined t.label) : s.Searchable where
  left _ id _ t registry hin ht := perform_findBreakTarget hin ht
    (hdefined id t ((RegionStack.target?_of_get? hin.found).trans ht)) registry
  stranded _ registry hnone := perform_findBreakTarget_of_none hnone registry
  restarted _ _ _ _ _ registry hin hloop hlabel :=
    perform_findContinueTarget hin hloop hlabel registry
  unlooped _ registry hnone := perform_findContinueTarget_of_none hnone registry

end Performing

section Steps

/-- What a successful request does to the region with a number. -/
inductive Affects (s s' : Session) (id : RegionId) : Request → Reply → Prop where
  | kept {request : Request} {reply : Reply} (same : s'.regions.get? id = s.regions.get? id) :
      Affects s s' id request reply
  | moved {request : Request} {reply : Reply} {r r' : ExceptionRegion}
      (found : s.regions.get? id = some (.exception r))
      (after : s'.regions.get? id = some (.exception r')) : Affects s s' id request reply
  | opened {request : Request} {reply : Reply} {region : Region}
      (new : id = s.regions.regions.length) (after : s'.regions.get? id = some region)
      (live : id ∈ s'.regions.live)
      (bare : ∀ t, region.breakTarget? = some t → t.label = Label.none) :
      Affects s s' id request reply
  | labelled {name : Option String} {region : Region} {t : BreakTarget} {label : Label}
      (live : id ∈ s.regions.live) (sought : s.regions.breakTarget? name = some id)
      (found : s.regions.get? id = some region) (asked : region.breakTarget? = some t)
      (dispatched : t.native = false) (unnamed : t.label.isSome = false)
      (after : s'.regions.get? id = some (region.setBreakLabel label))
      (fresh : ¬ s.IsDefined label) (defined : s'.IsDefined label) :
      Affects s s' id (.findBreakTarget name) (.target (.label label))

theorem label_of_target? (h : request.target? = some region) (ht : region.breakTarget? = some t) :
    t.label = Label.none := by
  cases request <;> cases h <;> cases ht <;> rfl

theorem Answers.affects (h : Answers request.run s reply s') (id : RegionId) :
    Affects s s' id request reply := by
  have hlabels := (advances_run request s reply s' h).labels
  have hsame : s'.regions = s.regions → Affects s s' id request reply := fun heq =>
    .kept (by rw [heq])
  have henter : ∀ {region : Region} {offset : Nat},
      (∀ t, region.breakTarget? = some t → t.label = Label.none) →
      s'.regions = (s.regions.enter region offset).2 → Affects s s' id request reply := by
    intro region offset hbare heq
    by_cases hid : id = s.regions.regions.length
    · refine .opened hid ?_ ?_ hbare
      · rw [heq, hid]
        exact s.regions.get?_enter region offset
      · rw [heq, hid]
        exact List.mem_cons_self
    · exact .kept (by rw [heq, RegionStack.get?_enter_of_ne hid])
  have hreplace : ∀ {u : RegionStack} {i : RegionId} {r r' : ExceptionRegion},
      u.regions = s.regions.regions → s.regions.exception? i = some r →
      s'.regions = u.replace i (.exception r') → Affects s s' id request reply := by
    intro u i r r' hold hr heq
    have hget := RegionStack.exception?_eq_some_iff.1 hr
    have hget' : u.get? i = some (.exception r) := by
      rw [RegionStack.get?, hold]
      exact hget
    have hafter := RegionStack.get?_replace hget' (.exception r') id
    rw [← heq] at hafter
    by_cases hid : id = i
    · rw [if_pos hid] at hafter
      exact .moved (hid ▸ hget) hafter
    · rw [if_neg hid] at hafter
      refine .kept (hafter.trans ?_)
      rw [RegionStack.get?, hold, RegionStack.get?]
  cases effect_of_answers h with
  | recorded quiet recording unmarked => exact hsame recording.regions
  | defined recording fresh unmarked => exact hsame recording.regions
  | marked recording known unmarked => exact hsame recording.regions
  | breakFound recording unmarked landed => exact hsame recording.regions
  | exceptionBegun operations regions placed unmarked =>
    exact henter (fun _ ht => by cases ht) regions
  | scopeBegun operations regions placed unmarked => exact henter (fun _ ht => by cases ht) regions
  | targetBegun opens operations regions labels =>
    exact henter (fun t ht => label_of_target? opens ht) regions
  | catchBegun live found early operations jump regions present placed unmarked assigned =>
    exact hreplace rfl found regions
  | finallyBegun live found early operations jump regions present placed unmarked =>
    exact hreplace rfl found regions
  | @exceptionEnded i rest r x live found operations last regions placed unmarked =>
    exact hreplace (u := s.regions.closed i rest s.recorder.operations.length) rfl found regions
  | scopeEnded live found operations regions placed unmarked => exact .kept (by rw [regions]; rfl)
  | targetEnded closes live found ofKind operations regions placed unmarked =>
    exact .kept (by rw [regions]; rfl)
  | @breakNamed name i region target label live found asked dispatched unnamed present operations
      regions unmarked sought =>
    have hafter := RegionStack.get?_replace found (region.setBreakLabel label) id
    rw [← regions] at hafter
    by_cases hid : id = i
    · subst hid
      rw [if_pos rfl] at hafter
      have hmem : label ∈ s'.labels.unmarked :=
        unmarked ▸ List.mem_append_right _ List.mem_cons_self
      exact .labelled live sought found asked dispatched unnamed hafter
        (not_isDefined_of_unmarked hlabels unmarked List.mem_cons_self)
        (LabelTable.mem_unmarked_iff.1 hmem).1
    · rw [if_neg hid] at hafter
      exact .kept hafter

namespace Affects

/-- A target was there before, or it has no label yet, or a search just gave it one. -/
theorem of_target? (h : Affects s s' id request reply) (ht : s'.regions.target? id = some t) :
    s.regions.target? id = some t ∨ t.label.isSome = false ∨
      t.native = false ∧ ¬ s.IsDefined t.label ∧ s'.IsDefined t.label ∧
        ∃ name, request = .findBreakTarget name ∧ reply = .target (.label t.label) ∧
          s.regions.breakTarget? name = some id := by
  cases h with
  | kept same =>
    rw [RegionStack.target?, same] at ht
    exact .inl ht
  | moved found after =>
    rw [RegionStack.target?_of_get? after] at ht
    cases ht
  | opened new after live bare =>
    rw [RegionStack.target?_of_get? after] at ht
    exact .inr (.inl (by rw [bare t ht]; rfl))
  | @labelled name region old label live sought found asked dispatched unnamed after fresh
      defined =>
    rw [RegionStack.target?_of_get? after, Region.breakTarget?_setBreakLabel asked] at ht
    obtain rfl := Option.some.inj ht
    exact .inr (.inr ⟨dispatched, fresh, defined, name, rfl, rfl, sought⟩)

/-- A target keeps its label, and all else that is known of it. -/
theorem target? (h : Affects s s' id request reply) (ht : s.regions.target? id = some t) :
    ∃ label, s'.regions.target? id = some { t with label } ∧
      (t.label.isSome = true → label = t.label) ∧ (id ∉ s.regions.live → label = t.label) := by
  cases h with
  | kept same =>
    refine ⟨t.label, ?_, fun _ => rfl, fun _ => rfl⟩
    rw [RegionStack.target?, same]
    exact ht
  | moved found after =>
    rw [RegionStack.target?_of_get? found] at ht
    cases ht
  | opened new after live bare =>
    exact absurd (RegionStack.lt_of_target? ht) (new ▸ Nat.lt_irrefl _)
  | @labelled name region old label live sought found asked dispatched unnamed after fresh
      defined =>
    rw [RegionStack.target?_of_get? found, asked] at ht
    obtain rfl := Option.some.inj ht
    refine ⟨label, ?_, fun hsome => ?_, fun hclosed => absurd live hclosed⟩
    · rw [RegionStack.target?_of_get? after]
      exact Region.breakTarget?_setBreakLabel asked
    · rw [hsome] at unnamed
      cases unnamed

/-- A loop is restarted at the same label from its beginning on. -/
theorem loop? (h : Affects s s' id request reply) (hloop : s.regions.loop? id = some (t, l)) :
    ∃ label, s'.regions.loop? id = some ({ t with label }, l) := by
  cases h with
  | kept same =>
    refine ⟨t.label, ?_⟩
    rw [RegionStack.loop?, same]
    exact hloop
  | moved found after =>
    rw [RegionStack.loop?_of_get? found] at hloop
    cases hloop
  | opened new after live bare =>
    obtain ⟨region, hget, -⟩ := Option.bind_eq_some_iff.1 hloop
    exact absurd (RegionStack.lt_of_get? hget) (new ▸ Nat.lt_irrefl _)
  | labelled live sought found asked dispatched unnamed after fresh defined =>
    rw [RegionStack.loop?_of_get? found] at hloop
    obtain rfl := Option.some.inj ((Region.breakTarget?_of_loop? hloop).symm.trans asked)
    exact ⟨_, (RegionStack.loop?_of_get? after).trans (Region.loop?_setBreakLabel hloop)⟩

end Affects

end Steps

end Session

end Resumable
