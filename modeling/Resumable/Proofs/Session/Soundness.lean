import Resumable.Proofs.Body.Numbering
import Resumable.Proofs.Session.Effects

/-!
# Sessions stay sound

Whatever calls were made on a session, and whether they succeeded or not, its labels fit its
operations and its regions. A call that fails half-way leaves what was done before the failure,
so each call is taken through its steps.
-/

namespace Resumable.Session

variable {α β : Type} {s s' s₁ : Session} {l : Label} {region : Region} {id : RegionId}

def IsDefined (s : Session) (l : Label) : Prop := (s.labels.find? l).isSome = true

/-- The labels of the session fit its operations and its regions. -/
def IsSound (s : Session) : Prop := Sound s.recorder.operations s.labels s.regions

/-- The second session is sound, and knows what the first one knew. -/
structure Kept (s s' : Session) : Prop where
  mode : s'.recorder.mode = s.recorder.mode
  defined : ∀ l, s.IsDefined l → s'.IsDefined l
  sound : s'.IsSound

/-- From a sound session on. -/
def Keeps (s s' : Session) : Prop := s.IsSound → Kept s s'

namespace Kept

theorem trans (h : Kept s s₁) (h' : Kept s₁ s') : Kept s s' where
  mode := h'.mode.trans h.mode
  defined l hl := h'.defined l (h.defined l hl)
  sound := h'.sound

/-- Labels are defined and marked. -/
theorem of_labels {labels : LabelTable} (hs : s.IsSound)
    (hdefined : ∀ l, (s.labels.find? l).isSome = true → (labels.find? l).isSome = true)
    (hmarked : ∀ l q, labels.position? l = some q →
      s.labels.position? l = some q ∨ q ≤ s.recorder.operations.length) :
    Kept s { s with labels } where
  mode := rfl
  defined := hdefined
  sound := by
    refine ⟨fun l q hq => ?_, fun x hx l hl => hdefined l (hs.targets x hx l hl),
      fun id r hr l hl => hdefined l (hs.regions id r hr l hl)⟩
    rcases hmarked l q hq with hq | hq
    · exact hs.marked l q hq
    · exact hq

/-- Regions are changed. -/
theorem of_regions {regions : RegionStack} (hs : s.IsSound)
    (hregions : ∀ id r, regions.exception? id = some r →
      s.regions.exception? id = some r ∨ ∀ l ∈ r.labels, s.IsDefined l) :
    Kept s { s with regions } where
  mode := rfl
  defined _ h := h
  sound := by
    refine ⟨hs.marked, hs.targets, fun id r hr l hl => ?_⟩
    rcases hregions id r hr with hr | hr
    · exact hs.regions id r hr l hl
    · exact hr l hl

end Kept

theorem tolerant_keeps : Tolerant Keeps where
  trans h h' hs := (h hs).trans (h' (h hs).sound)
  inert hmode hops hlabels hregions _ hs := by
    refine ⟨hmode, fun l hl => ?_, ?_⟩
    · unfold IsDefined
      rw [hlabels]
      exact hl
    · unfold IsSound
      rw [hops, hlabels, hregions]
      exact hs
  note h hs := by
    refine .of_labels hs (fun l hl => ?_) fun l q hq => ?_
    · rw [LabelTable.isSome_find?_noteReference h]
      exact hl
    · rw [LabelTable.position?_noteReference h] at hq
      exact Or.inl hq
  entry {s} hops hlabels hs := by
    refine .of_labels hs (fun l hl => ?_) fun l q hq => ?_
    · simp [LabelTable.find?, hlabels] at hl
    · obtain ⟨e, he, hpos⟩ := Option.bind_eq_some_iff.1 hq
      have hmem := List.mem_of_getElem? (LabelTable.find?_eq_some_iff.1 he).2
      obtain rfl := List.mem_singleton.1 hmem
      obtain rfl := Option.some.inj hpos
      exact Or.inr (Nat.zero_le _)
  record {s op} hlegal htarget hidle hs := by
    refine ⟨rfl, fun _ h => h, ⟨fun l q hq => ?_, fun x hx l hl => ?_, hs.regions⟩⟩
    · have := hs.marked l q hq
      show q ≤ (s.recorder.operations ++ [_]).length
      rw [List.length_append]
      omega
    · rcases List.mem_append.1 hx with hx | hx
      · exact hs.targets x hx l hl
      · obtain rfl := List.mem_singleton.1 hx
        exact htarget l hl

/-- The call keeps a session sound, whatever its outcome. -/
def KeepsFrom (s : Session) (call : SessionM α) : Prop := ∀ s', Leaves call s s' → Kept s s'

namespace KeepsFrom

theorem of_across {call : SessionM α} (h : Across Keeps call) (hs : s.IsSound) :
    KeepsFrom s call := fun s' hl => h s s' hl hs

/-- A call step by step: the rest starts from what the first step leaves. -/
theorem bind {x : SessionM α} {f : α → SessionM β} (hx : KeepsFrom s x)
    (hf : ∀ a s₁, Answers x s a s₁ → Kept s s₁ → KeepsFrom s₁ (f a)) : KeepsFrom s (x >>= f) := by
  intro s' h
  rcases h.of_bind with h | ⟨a, s₁, hfirst, hrest⟩
  · exact hx s' h
  · have hkept := hx s₁ (.of_answers hfirst)
    exact hkept.trans (hf a s₁ hfirst hkept s' hrest)

theorem of_requireFunction_bind {call : FunctionCall} {f : Unit → SessionM β} (hs : s.IsSound)
    (hf : KeepsFrom s (f ())) : KeepsFrom s (requireFunction call >>= f) := by
  refine (of_across (tolerant_keeps.requireFunction call) hs).bind fun _ s₁ h _ => ?_
  obtain rfl := h.of_requireFunction
  exact hf

theorem pure (hs : s.IsSound) (a : α) : KeepsFrom s (pure a) :=
  of_across (tolerant_keeps.pure a) hs

end KeepsFrom

section Labels

theorem keeps_defineLabel : Across Keeps defineLabel := by
  intro s s' h hs
  refine KeepsFrom.of_requireFunction_bind hs (fun s' h => ?_) s' h
  rw [h.of_modifyGet]
  refine .of_labels hs (fun l hl => LabelTable.isSome_find?_define hl) fun l q hq => ?_
  exact Or.inl ((LabelTable.position?_define s.labels l).symm.trans hq)

theorem keeps_markLabel (l : Label) : Across Keeps (markLabel l) := by
  intro s s' h hs
  refine KeepsFrom.of_requireFunction_bind hs (fun s' h => ?_) s' h
  rcases (h.of_get_bind).of_updateLabels with ⟨labels, hlabels, rfl⟩ | ⟨-, rfl⟩
  · refine .of_labels hs (fun l hl => ?_) fun l' q hq => ?_
    · rw [LabelTable.isSome_find?_mark hlabels]
      exact hl
    · rw [(LabelTable.position?_mark hlabels).2] at hq
      split at hq
      · exact Or.inr (Nat.le_of_eq (Option.some.inj hq).symm)
      · exact Or.inl hq
  · exact (tolerant_keeps.refl s') hs

theorem keeps_placeLabel : Across Keeps placeLabel := by
  intro s s' h hs
  refine KeepsFrom.bind (.of_across keeps_defineLabel hs) (fun l s₁ _ h₁ => ?_) s' h
  refine (KeepsFrom.of_across (keeps_markLabel l) h₁.sound).bind fun _ s₂ _ h₂ => ?_
  exact .pure h₂.sound l

/-- A label that was just placed is defined. -/
theorem Answers.isDefined_placeLabel (h : Answers placeLabel s l s') : s'.IsDefined l := by
  obtain ⟨rfl, labels, hlabels, rfl⟩ := h.placeLabel_eq
  show (labels.find? _).isSome = true
  rw [LabelTable.isSome_find?_mark hlabels, LabelTable.find?_define_fresh]
  rfl

theorem Answers.isDefined_defineLabel (h : Answers defineLabel s l s') : s'.IsDefined l := by
  obtain ⟨rfl, rfl⟩ := h.defineLabel_eq
  show (s.labels.define.2.find? _).isSome = true
  rw [LabelTable.find?_define_fresh]
  rfl

end Labels

section Regions

theorem keepsFrom_enterRegion (hs : s.IsSound)
    (hr : ∀ r, region.exception? = some r → ∀ l ∈ r.labels, s.IsDefined l) :
    KeepsFrom s (enterRegion region) := by
  intro s' h
  rw [h.of_modifyGet]
  refine .of_regions hs fun id r hid => ?_
  by_cases hlt : id < s.regions.regions.length
  · exact Or.inl ((RegionStack.exception?_enter_of_lt hlt _ _).symm.trans hid)
  · have hle : id < s.regions.regions.length + 1 :=
      Nat.lt_of_lt_of_eq (RegionStack.lt_of_exception? hid) (RegionStack.length_enter ..)
    obtain rfl := Nat.le_antisymm (Nat.le_of_lt_succ hle) (Nat.le_of_not_lt hlt)
    exact Or.inr (hr r ((RegionStack.exception?_enter_self _ _ _).symm.trans hid))

theorem keeps_leaveRegion (kind : RegionKind) : Across Keeps (leaveRegion kind) := by
  intro s s' h hs
  have h := h.of_get_bind
  split at h
  · next id regions heq =>
    obtain ⟨-, rfl⟩ := RegionStack.leave_eq_ok_iff.1 heq
    rcases h.of_bind with h | ⟨_, s₁, hset, h⟩
    · rw [h.of_set]
      exact .of_regions hs fun _ _ hr => Or.inl hr
    · rw [h.of_pure, hset.of_set]
      exact .of_regions hs fun _ _ hr => Or.inl hr
  · rw [h.of_throw]
    exact (tolerant_keeps.refl s) hs

/-- The region in a place is another one. -/
theorem Kept.replace (hs : s.IsSound)
    (hr : ∀ r, region.exception? = some r → ∀ l ∈ r.labels, s.IsDefined l) :
    Kept s { s with regions := s.regions.replace id region } := by
  refine .of_regions hs fun i r hi => ?_
  rcases RegionStack.of_exception?_replace hi with hi | ⟨-, hi⟩
  · exact Or.inl hi
  · exact Or.inr (hr r hi)

theorem keepsFrom_updateException {r : ExceptionRegion} (hs : s.IsSound)
    (hr : ∀ l ∈ r.labels, s.IsDefined l) : KeepsFrom s (updateException id r) := by
  intro s' h
  rw [h.of_modify]
  refine .replace hs fun r' hr' => ?_
  obtain rfl := Option.some.inj hr'
  exact hr

theorem keeps_currentException (requested : Phase) :
    Across Keeps (currentException requested) := by
  intro s s' h hs
  have h := h.of_get_bind
  split at h
  · rw [h.of_throw]
    exact (tolerant_keeps.refl s) hs
  · split at h
    · rw [h.of_throw]
      exact (tolerant_keeps.refl s) hs
    · split at h
      · rw [h.of_pure]
        exact (tolerant_keeps.refl s) hs
      · rw [h.of_throw]
        exact (tolerant_keeps.refl s) hs

end Regions

section Blocks

theorem keeps_beginException : Across Keeps beginException := by
  intro s s' h hs
  refine KeepsFrom.of_requireFunction_bind hs (KeepsFrom.bind (.of_across keeps_defineLabel hs)
    fun start s₁ hstart h₁ => ?_) s' h
  refine (KeepsFrom.of_across keeps_defineLabel h₁.sound).bind fun stop s₂ hstop h₂ => ?_
  refine (KeepsFrom.of_across (keeps_markLabel start) h₂.sound).bind fun _ s₃ _ h₃ => ?_
  have hlabels : ∀ l ∈ ({ start, stop } : ExceptionRegion).labels, s₃.IsDefined l := by
    intro l hl
    rcases ExceptionRegion.mem_labels_iff.1 hl with rfl | ⟨hsome, rfl | rfl⟩ | rfl
    · exact h₃.defined _ (h₂.defined _ hstart.isDefined_defineLabel)
    · cases hsome
    · cases hsome
    · exact h₃.defined _ hstop.isDefined_defineLabel
  have henter : KeepsFrom s₃ (enterRegion (.exception { start, stop })) :=
    keepsFrom_enterRegion h₃.sound fun r hr => by
      obtain rfl := Option.some.inj hr
      exact hlabels
  refine KeepsFrom.bind (henter.bind fun _ s₄ _ h₄ => .pure h₄.sound _) fun _ s₄ _ h₄ => ?_
  exact .pure h₄.sound stop

/-- The labels of a region stay defined. -/
theorem Kept.defined_labels {r : ExceptionRegion} (h : Kept s s') (hs : s.IsSound)
    (hr : s.regions.exception? id = some r) : ∀ l ∈ r.labels, s'.IsDefined l :=
  fun l hl => h.defined l (hs.regions id r hr l hl)

theorem keeps_beginCatch (name : String) : Across Keeps (beginCatch name) := by
  intro s s' h hs
  refine KeepsFrom.of_requireFunction_bind hs
    (KeepsFrom.bind (.of_across (keeps_currentException _) hs) fun current s₁ hcurrent _ => ?_) s' h
  obtain ⟨id, r⟩ := current
  obtain ⟨rfl, hr, -, -⟩ := hcurrent.of_currentException
  refine (KeepsFrom.of_across (tolerant_keeps.emit _) hs).bind fun _ s₂ _ h₂ => ?_
  refine (KeepsFrom.of_across keeps_placeLabel h₂.sound).bind fun label s₃ hplace h₃ => ?_
  have hlabels := (h₂.trans h₃).defined_labels hs hr
  refine (keepsFrom_updateException h₃.sound fun l hl => ?_).bind fun _ s₄ _ h₄ => ?_
  · rcases ExceptionRegion.mem_labels_iff.1 hl with rfl | ⟨hsome, rfl | rfl⟩ | rfl
    · exact hlabels _ (ExceptionRegion.mem_labels_iff.2 (Or.inl rfl))
    · exact hplace.isDefined_placeLabel
    · exact hlabels _ (ExceptionRegion.mem_labels_iff.2 (Or.inr (Or.inl ⟨hsome, Or.inr rfl⟩)))
    · exact hlabels _ (ExceptionRegion.mem_labels_iff.2 (Or.inr (Or.inr rfl)))
  · refine (KeepsFrom.of_across (tolerant_keeps.stateField _) h₄.sound).bind fun _ s₅ _ h₅ => ?_
    exact .of_across (tolerant_keeps.emit _) h₅.sound

theorem keeps_beginFinally : Across Keeps beginFinally := by
  intro s s' h hs
  refine KeepsFrom.of_requireFunction_bind hs
    (KeepsFrom.bind (.of_across (keeps_currentException _) hs) fun current s₁ hcurrent _ => ?_) s' h
  obtain ⟨id, r⟩ := current
  obtain ⟨rfl, hr, -, -⟩ := hcurrent.of_currentException
  refine (KeepsFrom.of_across (tolerant_keeps.emit _) hs).bind fun _ s₂ _ h₂ => ?_
  refine (KeepsFrom.of_across keeps_placeLabel h₂.sound).bind fun label s₃ hplace h₃ => ?_
  have hlabels := (h₂.trans h₃).defined_labels hs hr
  refine keepsFrom_updateException h₃.sound fun l hl => ?_
  rcases ExceptionRegion.mem_labels_iff.1 hl with rfl | ⟨hsome, rfl | rfl⟩ | rfl
  · exact hlabels _ (ExceptionRegion.mem_labels_iff.2 (Or.inl rfl))
  · exact hlabels _ (ExceptionRegion.mem_labels_iff.2 (Or.inr (Or.inl ⟨hsome, Or.inl rfl⟩)))
  · exact hplace.isDefined_placeLabel
  · exact hlabels _ (ExceptionRegion.mem_labels_iff.2 (Or.inr (Or.inr rfl)))

/-- The end of a protected block, after the operation that ends its last block was chosen. -/
theorem keepsFrom_close {r : ExceptionRegion} (op : Operation) (hs : s.IsSound)
    (hr : s.regions.exception? id = some r) :
    KeepsFrom s (do
      emit op
      markLabel r.stop
      updateException id { r with phase := .done }) := by
  refine (KeepsFrom.of_across (tolerant_keeps.emit op) hs).bind fun _ s₁ _ h₁ => ?_
  refine (KeepsFrom.of_across (keeps_markLabel _) h₁.sound).bind fun _ s₂ _ h₂ => ?_
  have hlabels := (h₁.trans h₂).defined_labels hs hr
  exact keepsFrom_updateException h₂.sound hlabels

theorem keeps_endException : Across Keeps endException := by
  intro s s' h hs
  refine KeepsFrom.of_requireFunction_bind hs
    (KeepsFrom.bind (.of_across (keeps_leaveRegion _) hs) fun id s₁ _ h₁ s' h => ?_) s' h
  have h := h.of_get_bind
  split at h
  · rw [h.of_throw]
    exact (tolerant_keeps.refl s₁) h₁.sound
  · next r hr =>
    dsimp only at h
    split at h
    · exact keepsFrom_close _ h₁.sound hr s' h
    · exact keepsFrom_close _ h₁.sound hr s' h

theorem keeps_beginScope (holder : String) : Across Keeps (beginScope holder) := by
  intro s s' h hs
  refine KeepsFrom.of_requireFunction_bind hs (KeepsFrom.bind (.of_across keeps_defineLabel hs)
    fun start s₁ _ h₁ => ?_) s' h
  refine (KeepsFrom.of_across keeps_defineLabel h₁.sound).bind fun stop s₂ _ h₂ => ?_
  refine (KeepsFrom.of_across (keeps_markLabel start) h₂.sound).bind fun _ s₃ _ h₃ => ?_
  have henter : KeepsFrom s₃ (enterRegion (.scope { object := holder, start, stop })) :=
    keepsFrom_enterRegion h₃.sound fun r hr => by cases hr
  exact henter.bind fun _ s₄ _ h₄ => .pure h₄.sound _

theorem keeps_endScope : Across Keeps endScope := by
  intro s s' h hs
  refine KeepsFrom.of_requireFunction_bind hs
    (KeepsFrom.bind (.of_across (keeps_leaveRegion _) hs) fun id s₁ _ h₁ s' h => ?_) s' h
  have h := h.of_get_bind
  split at h
  · exact keeps_markLabel _ s₁ s' h h₁.sound
  · rw [h.of_pure]
    exact (tolerant_keeps.refl s₁) h₁.sound

end Blocks

section Targets

theorem keeps_markBreakLabel (id : RegionId) : Across Keeps (markBreakLabel id) := by
  intro s s' h hs
  have h := h.of_get_bind
  split at h
  · split at h
    · exact keeps_markLabel _ s s' h hs
    · rw [h.of_pure]
      exact (tolerant_keeps.refl s) hs
  · rw [h.of_pure]
    exact (tolerant_keeps.refl s) hs

/-- A target is opened. -/
theorem keeps_beginTarget (hr : region.exception? = none) :
    Across Keeps (discard (enterRegion region)) := by
  intro s s' h hs
  have henter : KeepsFrom s (enterRegion region) :=
    keepsFrom_enterRegion hs fun r h => by rw [hr] at h; cases h
  exact henter.bind (fun _ s₁ _ h₁ => .pure h₁.sound _) s' h

/-- A target whose jumps go through labels is closed. -/
theorem keeps_endTarget (kind : RegionKind) :
    Across Keeps (do markBreakLabel (← leaveRegion kind)) := by
  intro s s' h hs
  refine KeepsFrom.bind (.of_across (keeps_leaveRegion kind) hs) (fun id s₁ _ h₁ => ?_) s' h
  exact .of_across (keeps_markBreakLabel id) h₁.sound

theorem keeps_endNativeTarget (kind : RegionKind) : Across Keeps (discard (leaveRegion kind)) := by
  intro s s' h hs
  refine KeepsFrom.bind (.of_across (keeps_leaveRegion kind) hs) (fun id s₁ _ h₁ => ?_) s' h
  exact .pure h₁.sound _

theorem keeps_findBreakTarget (name : Option String) : Across Keeps (findBreakTarget name) := by
  intro s s' h hs
  have hrefl : Kept s s := (tolerant_keeps.refl s) hs
  have h := h.of_get_bind
  split at h
  · next id hid =>
    split at h
    · next region hget =>
      split at h
      · next target htarget =>
        split at h
        · rw [h.of_pure]
          exact hrefl
        · split at h
          · refine KeepsFrom.bind (.of_across (tolerant_keeps.noteReference _) hs)
              (fun _ s₁ _ h₁ => ?_) s' h
            exact .pure h₁.sound _
          · refine KeepsFrom.bind (fun t ht => ?_) (fun _ s₁ _ h₁ => ?_) s' h
            · rw [ht.of_set]
              have hdefined : Kept s { s with labels := s.labels.define.2 } :=
                .of_labels hs (fun l hl => LabelTable.isSome_find?_define hl) fun l q hq =>
                  Or.inl ((LabelTable.position?_define s.labels l).symm.trans hq)
              refine hdefined.trans (.replace hdefined.sound fun r hr => ?_)
              cases region with
              | exception r => cases htarget
              | scope r => cases htarget
              | breakable target => cases hr
              | loop target label => cases hr
            · refine (KeepsFrom.of_across (tolerant_keeps.noteReference _) h₁.sound).bind
                fun _ s₂ _ h₂ => ?_
              exact .pure h₂.sound _
      · rw [h.of_throw]
        exact hrefl
    · rw [h.of_throw]
      exact hrefl
  · rw [h.of_throw]
    exact hrefl

end Targets

/-- Every request keeps a session sound, whatever its outcome. -/
theorem keeps_run (request : Request) : Across Keeps request.run := by
  have hfunction : ∀ {call : FunctionCall} {f : Unit → SessionM Unit}, Across Keeps (f ()) →
      Across Keeps (requireFunction call >>= f) := fun hf s s' h hs =>
    KeepsFrom.of_requireFunction_bind hs (.of_across hf hs) s' h
  by_cases hquiet : request.isQuiet = true
  · exact tolerant_keeps.run hquiet
  · cases request with
    | defineLabel => exact tolerant_keeps.reply keeps_defineLabel .label
    | markLabel label => exact tolerant_keeps.reply (keeps_markLabel label) fun _ => .done
    | findBreakTarget name => exact tolerant_keeps.reply (keeps_findBreakTarget name) .target
    | beginException => exact tolerant_keeps.reply keeps_beginException .label
    | beginCatch name => exact tolerant_keeps.reply (keeps_beginCatch name) fun _ => .done
    | beginFinally => exact tolerant_keeps.reply keeps_beginFinally fun _ => .done
    | endException => exact tolerant_keeps.reply keeps_endException fun _ => .done
    | beginScope holder => exact tolerant_keeps.reply (keeps_beginScope holder) fun _ => .done
    | endScope => exact tolerant_keeps.reply keeps_endScope fun _ => .done
    | beginBreakable names needsName =>
      exact tolerant_keeps.reply (hfunction (keeps_beginTarget rfl)) fun _ => .done
    | endBreakable =>
      exact tolerant_keeps.reply (hfunction (keeps_endTarget .breakable)) fun _ => .done
    | beginLoop continueLabel names =>
      exact tolerant_keeps.reply (hfunction (keeps_beginTarget rfl)) fun _ => .done
    | endLoop => exact tolerant_keeps.reply (hfunction (keeps_endTarget .loop)) fun _ => .done
    | beginNativeBreakable names needsName =>
      exact tolerant_keeps.reply (keeps_beginTarget rfl) fun _ => .done
    | endNativeBreakable =>
      exact tolerant_keeps.reply (keeps_endNativeTarget .nativeBreakable) fun _ => .done
    | beginNativeLoop names => exact tolerant_keeps.reply (keeps_beginTarget rfl) fun _ => .done
    | endNativeLoop => exact tolerant_keeps.reply (keeps_endNativeTarget .nativeLoop) fun _ => .done
    | _ => exact absurd rfl hquiet

/-- What any requests make of a session, whatever their outcomes and whatever other sessions do
to the registry of names in between. -/
inductive Reachable (s₀ : Session) : Session → Prop where
  | start : Reachable s₀ s₀
  | request {s s' : Session} (request : Request) (before : Reachable s₀ s)
      (leaves : Leaves request.run s s') : Reachable s₀ s'

/-- The session after the requests, which goes on after those that fail. -/
def attemptAll : Session → Name.Registry → List Request → Session
  | s, _, [] => s
  | s, r, request :: requests =>
    match perform request.run s r with
    | (_, s', r') => attemptAll s' r' requests

theorem reachable_attemptAll {s₀ : Session} {r : Name.Registry} (requests : List Request)
    (h : Reachable s₀ s) : Reachable s₀ (attemptAll s r requests) := by
  induction requests generalizing s r with
  | nil => exact h
  | cons request requests ih => exact ih (.request request h ⟨r, rfl⟩)

theorem isSound_start (kind : SessionKind) (options : Options) (scope : Nat)
    (bound : List String) : (start kind options scope bound).IsSound where
  marked l q hq := by
    have hnone : ({} : LabelTable).position? l = none := by
      unfold LabelTable.position? LabelTable.find?
      split <;> rfl
    exact absurd (hnone.symm.trans hq) (by simp)
  targets x hx := absurd hx List.not_mem_nil
  regions id r hr := by cases hr

theorem Reachable.kept {s₀ : Session} (h : Reachable s₀ s) (hs₀ : s₀.IsSound) : Kept s₀ s := by
  induction h with
  | start => exact (tolerant_keeps.refl s₀) hs₀
  | request request before leaves ih => exact ih.trans (keeps_run request _ _ leaves ih.sound)

end Resumable.Session
