import Resumable.Proofs.Region.Owed
import Resumable.Proofs.Session.Blocks
import Resumable.Proofs.Session.Outcomes

/-!
# What a request does

`Effect` says what a successful request does to the operations, the labels and the regions of a
session, with one constructor for each kind of request. What holds along a session is then a
matter of these kinds, and no call has to be opened again.
-/

namespace Resumable

/-- The target of `break` or the loop that the request opens. -/
def Request.target? : Request → Option Region
  | .beginBreakable names needsName => some (.breakable { names, needsName })
  | .beginLoop continueLabel names => some (.loop { names } continueLabel)
  | .beginNativeBreakable names needsName =>
    some (.breakable { names, needsName, native := true })
  | .beginNativeLoop names => some (.loop { names, native := true } Label.none)
  | _ => none

/-- The kind of the target of `break` or of the loop that the request closes. -/
def Request.closedTarget? : Request → Option RegionKind
  | .endBreakable => some .breakable
  | .endLoop => some .loop
  | .endNativeBreakable => some .nativeBreakable
  | .endNativeLoop => some .nativeLoop
  | _ => none

namespace Session

/-- What a successful request does. The index of an operation that is recorded first is the
number of operations before. -/
inductive Effect (s s' : Session) : Request → Reply → Prop where
  | recorded {request : Request} {reply : Reply} {ops : List Operation}
      (quiet : request.isQuiet = true) (recording : Recording s s' ops)
      (unmarked : s'.labels.unmarked = s.labels.unmarked) : Effect s s' request reply
  | defined {l : Label} (recording : Recording s s' []) (fresh : s.labels.find? l = none)
      (unmarked : s'.labels.unmarked = s.labels.unmarked ++ [l]) :
      Effect s s' .defineLabel (.label l)
  | marked {l : Label} (recording : Recording s s' []) (known : l ∈ s.labels.unmarked)
      (unmarked : s'.labels.unmarked = s.labels.unmarked.filter (· ≠ l)) :
      Effect s s' (.markLabel l) .done
  | exceptionBegun {start stop : Label}
      (operations : s'.recorder.operations = s.recorder.operations)
      (regions : s'.regions =
        (s.regions.enter (.exception { start, stop }) s.recorder.operations.length).2)
      (placed : s'.labels.position? start = some s.recorder.operations.length)
      (unmarked : s'.labels.unmarked = s.labels.unmarked ++ [stop]) :
      Effect s s' .beginException (.label stop)
  | catchBegun {name : String} {id : RegionId} {rest : List RegionId} {r : ExceptionRegion}
      {label : Label} {x : Recorded} {more : List Recorded}
      (live : s.regions.live = id :: rest) (found : s.regions.exception? id = some r)
      (early : r.phase < .catching)
      (operations : s'.recorder.operations = s.recorder.operations ++ x :: more)
      (jump : x.operation = .jump r.stop)
      (regions : s'.regions = s.regions.replace id (.exception
        { r with phase := .catching, catchVariable := some name, catchLabel := label }))
      (present : label.isSome = true)
      (placed : s'.labels.position? label = some (s.recorder.operations.length + 1))
      (unmarked : s'.labels.unmarked = s.labels.unmarked)
      (assigned : ∃ y state, more = [y] ∧ s'.state = some state ∧
        y.operation = .assign (.identifier name) (StateField.error.of state)) :
      Effect s s' (.beginCatch name) .done
  | finallyBegun {id : RegionId} {rest : List RegionId} {r : ExceptionRegion} {label : Label}
      {x : Recorded} (live : s.regions.live = id :: rest)
      (found : s.regions.exception? id = some r) (early : r.phase < .finishing)
      (operations : s'.recorder.operations = s.recorder.operations ++ [x])
      (jump : x.operation = .jump r.stop)
      (regions : s'.regions = s.regions.replace id (.exception
        { r with phase := .finishing, finallyLabel := label }))
      (present : label.isSome = true)
      (placed : s'.labels.position? label = some (s.recorder.operations.length + 1))
      (unmarked : s'.labels.unmarked = s.labels.unmarked) : Effect s s' .beginFinally .done
  | exceptionEnded {id : RegionId} {rest : List RegionId} {r : ExceptionRegion} {x : Recorded}
      (live : s.regions.live = id :: rest) (found : s.regions.exception? id = some r)
      (operations : s'.recorder.operations = s.recorder.operations ++ [x])
      (last : x.operation = if r.phase < .finishing then .jump r.stop else .endFinally)
      (regions : s'.regions =
        (s.regions.closed id rest s.recorder.operations.length).replace id
          (.exception { r with phase := .done }))
      (placed : s'.labels.position? r.stop = some (s.recorder.operations.length + 1))
      (unmarked : s'.labels.unmarked = s.labels.unmarked.filter (· ≠ r.stop)) :
      Effect s s' .endException .done
  | scopeBegun {holder : String} {start stop : Label}
      (operations : s'.recorder.operations = s.recorder.operations)
      (regions : s'.regions =
        (s.regions.enter (.scope { object := holder, start, stop })
          s.recorder.operations.length).2)
      (placed : s'.labels.position? start = some s.recorder.operations.length)
      (unmarked : s'.labels.unmarked = s.labels.unmarked ++ [stop]) :
      Effect s s' (.beginScope holder) .done
  | scopeEnded {id : RegionId} {rest : List RegionId} {r : ScopeRegion}
      (live : s.regions.live = id :: rest) (found : s.regions.get? id = some (.scope r))
      (operations : s'.recorder.operations = s.recorder.operations)
      (regions : s'.regions = s.regions.closed id rest s.recorder.operations.length)
      (placed : s'.labels.position? r.stop = some s.recorder.operations.length)
      (unmarked : s'.labels.unmarked = s.labels.unmarked.filter (· ≠ r.stop)) :
      Effect s s' .endScope .done
  | targetBegun {request : Request} {region : Region} (opens : request.target? = some region)
      (operations : s'.recorder.operations = s.recorder.operations)
      (regions : s'.regions = (s.regions.enter region s.recorder.operations.length).2)
      (labels : s'.labels = s.labels) : Effect s s' request .done
  | targetEnded {request : Request} {kind : RegionKind} {id : RegionId} {rest : List RegionId}
      {region : Region} (closes : request.closedTarget? = some kind)
      (live : s.regions.live = id :: rest) (found : s.regions.get? id = some region)
      (ofKind : region.kind = kind)
      (operations : s'.recorder.operations = s.recorder.operations)
      (regions : s'.regions = s.regions.closed id rest s.recorder.operations.length)
      (placed : ∀ l ∈ region.owed,
        s'.labels.position? l = some s.recorder.operations.length)
      (unmarked : s'.labels.unmarked = s.labels.unmarked.filter (· ∉ region.owed)) :
      Effect s s' request .done
  | breakFound {name : Option String} {answer : JumpTarget} (recording : Recording s s' [])
      (unmarked : s'.labels.unmarked = s.labels.unmarked)
      (landed : ∃ id region target, s.regions.breakTarget? name = some id ∧
        s.regions.get? id = some region ∧ region.breakTarget? = some target ∧
        (target.native = true ∨ target.label.isSome = true) ∧
        answer = if target.native then .native else .label target.label) :
      Effect s s' (.findBreakTarget name) (.target answer)
  | breakNamed {name : Option String} {id : RegionId} {region : Region} {target : BreakTarget}
      {label : Label} (live : id ∈ s.regions.live) (found : s.regions.get? id = some region)
      (asked : region.breakTarget? = some target) (dispatched : target.native = false)
      (unnamed : target.label.isSome = false) (present : label.isSome = true)
      (operations : s'.recorder.operations = s.recorder.operations)
      (regions : s'.regions = s.regions.replace id (region.setBreakLabel label))
      (unmarked : s'.labels.unmarked = s.labels.unmarked ++ [label])
      (sought : s.regions.breakTarget? name = some id) :
      Effect s s' (.findBreakTarget name) (.target (.label label))

variable {α : Type} {s s' s₁ s₂ s₃ : Session} {l : Label} {u : Unit} {op : Operation}

/-- What quiet requests keep: they record operations, and leave the same labels unmarked. -/
def Settles (s s' : Session) : Prop :=
  (∃ ops, Recording s s' ops) ∧ s'.labels.unmarked = s.labels.unmarked

theorem tolerant_settles : Tolerant Settles where
  trans := by
    rintro s s₁ s' ⟨⟨ops, h⟩, hun⟩ ⟨⟨ops', h'⟩, hun'⟩
    exact ⟨⟨ops ++ ops', h.trans h'⟩, hun'.trans hun⟩
  inert := by
    intro s s' hmode hops hlabels hregions _
    refine ⟨⟨[], .of_labels hmode hregions hops ?_ ?_⟩, by rw [hlabels]⟩
    · intro l q hq
      rw [hlabels]
      exact hq
    · intro l q hq
      rw [hlabels] at hq
      exact Or.inl hq
  note := by
    intro s l labels h
    have hpos := LabelTable.position?_noteReference h
    refine ⟨⟨[], .of_labels rfl rfl rfl ?_ ?_⟩, LabelTable.unmarked_noteReference h⟩
    · intro l' q hq
      exact (hpos l').trans hq
    · intro l' q hq
      exact Or.inl ((hpos l').symm.trans hq)
  entry := by
    intro s hops hlabels
    have hbefore : ∀ l, s.labels.position? l = none := by
      intro l
      simp [LabelTable.position?, LabelTable.find?, hlabels]
    refine ⟨⟨[], .of_labels rfl rfl rfl ?_ ?_⟩, ?_⟩
    · intro l q hq
      rw [hbefore] at hq
      cases hq
    · intro l q hq
      obtain ⟨e, he, hpos⟩ := Option.bind_eq_some_iff.1 hq
      have hmem := List.mem_of_getElem? (LabelTable.find?_eq_some_iff.1 he).2
      obtain rfl := List.mem_singleton.1 hmem
      obtain rfl := Option.some.inj hpos
      exact Or.inr (Nat.zero_le _)
    · have hnone : s.labels.labels = [] := by simp [LabelTable.labels, LabelTable.size, hlabels]
      have hentry : entryLabels.unmarked = [] := rfl
      show entryLabels.unmarked = s.labels.unmarked
      rw [hentry, LabelTable.unmarked, hnone]
      rfl
  record := by
    intro s op hlegal htarget hidle
    exact ⟨⟨[op], rfl, rfl, ⟨_, rfl, rfl⟩, fun _ _ h => h, fun _ _ h => Or.inl h⟩, rfl⟩

theorem tolerant_remembers : Tolerant Remembers where
  trans h h' name hname := h' name (h name hname)
  inert _ _ _ _ h := h
  note _ _ h := h
  entry _ _ _ h := h
  record _ _ _ _ h := h

namespace Answers

/-- A call whose answer is only packed into a reply. -/
theorem of_reply {call : SessionM α} {pack : α → Reply} {reply : Reply}
    (h : Answers (do return pack (← call)) s reply s') :
    ∃ a, Answers call s a s' ∧ reply = pack a := by
  obtain ⟨a, s₁, hcall, hlast⟩ := h.of_bind
  obtain ⟨rfl, rfl⟩ := hlast.of_pure
  exact ⟨a, hcall, rfl⟩

theorem defineLabel_eq (h : Answers defineLabel s l s') :
    l = s.labels.define.1 ∧ s' = { s with labels := s.labels.define.2 } := by
  unfold defineLabel at h
  have heq : (l, s') = (s.labels.define.1, { s with labels := s.labels.define.2 }) :=
    h.of_requireFunction_bind.of_modifyGet
  exact Prod.mk.inj heq

theorem markLabel_eq (h : Answers (markLabel l) s u s') :
    ∃ labels, s.labels.mark l s.recorder.operations.length = .ok labels ∧
      s' = { s with labels } := by
  unfold markLabel at h
  exact h.of_requireFunction_bind.of_get_bind.of_updateLabels

theorem placeLabel_eq (h : Answers placeLabel s l s') :
    l = s.labels.define.1 ∧ ∃ labels,
      s.labels.define.2.mark l s.recorder.operations.length = .ok labels ∧
      s' = { s with labels } := by
  unfold placeLabel at h
  obtain ⟨l', s₁, hdefine, hrest⟩ := h.of_bind
  obtain ⟨u, s₂, hmark, hlast⟩ := hrest.of_bind
  obtain ⟨rfl, rfl⟩ := hlast.of_pure
  obtain ⟨rfl, rfl⟩ := hdefine.defineLabel_eq
  exact ⟨rfl, hmark.markLabel_eq⟩

/-- The labels of a region that is opened: the first is marked at once. -/
theorem bounds_eq {start stop : Label} (hstart : Answers defineLabel s start s₁)
    (hstop : Answers defineLabel s₁ stop s₂) (hmark : Answers (markLabel start) s₂ u s₃) :
    ∃ labels, s₃ = { s with labels } ∧ start = s.labels.define.1 ∧
      stop = s.labels.define.2.define.1 ∧
      s.labels.define.2.define.2.mark start s.recorder.operations.length = .ok labels := by
  obtain ⟨rfl, rfl⟩ := hstart.defineLabel_eq
  obtain ⟨rfl, rfl⟩ := hstop.defineLabel_eq
  obtain ⟨labels, hlabels, rfl⟩ := hmark.markLabel_eq
  exact ⟨labels, rfl, rfl, rfl, hlabels⟩

theorem settles_emit (h : Answers (emit op) s u s') :
    Recording s s' (if op.isIdle then [] else [op]) ∧
      s'.labels.unmarked = s.labels.unmarked :=
  ⟨h.of_emit, (tolerant_settles.emit op s s' (.of_answers h)).2⟩

/-- The name of the state, made up now or before. -/
theorem state_eq {name : String} (h : Answers stateName s name s') : s'.state = some name := by
  unfold stateName at h
  have h := h.of_get_bind
  split at h
  · next hsome =>
    obtain ⟨rfl, rfl⟩ := h.of_pure
    exact hsome
  · obtain ⟨name', s₁, hname, hrest⟩ := h.of_bind
    obtain ⟨u, s₂, hset, hlast⟩ := hrest.of_bind
    obtain ⟨rfl, rfl⟩ := hlast.of_pure
    rw [hset.of_modify]

theorem stateField_eq {field : StateField} {node : Node}
    (h : Answers (stateField field) s node s') :
    ∃ state, node = field.of state ∧ s'.state = some state := by
  obtain ⟨state, s₁, hname, hlast⟩ := Answers.of_bind h
  obtain ⟨rfl, rfl⟩ := hlast.of_pure
  exact ⟨state, rfl, hname.state_eq⟩

theorem effect_beginException {stop : Label} (h : Answers beginException s stop s') :
    Effect s s' .beginException (.label stop) := by
  unfold beginException at h
  obtain ⟨start, s₁, hstart, h₁⟩ := h.of_requireFunction_bind.of_bind
  obtain ⟨stop', s₂, hstop, h₂⟩ := h₁.of_bind
  obtain ⟨u, s₃, hmark, h₃⟩ := h₂.of_bind
  obtain ⟨v, s₄, henter, h₄⟩ := h₃.of_bind
  obtain ⟨rfl, rfl⟩ := h₄.of_pure
  obtain ⟨id, s₅, hregion, hlast⟩ := Answers.of_bind henter
  obtain ⟨-, rfl⟩ := hlast.of_pure
  obtain ⟨labels, rfl, rfl, rfl, hlabels⟩ := bounds_eq hstart hstop hmark
  obtain ⟨-, rfl⟩ := hregion.of_enterRegion
  refine .exceptionBegun rfl rfl ?_ (LabelTable.unmarked_define_define_mark hlabels)
  exact ((LabelTable.position?_mark hlabels).2 _).trans (if_pos rfl)

theorem effect_beginScope {holder : String} (h : Answers (beginScope holder) s u s') :
    Effect s s' (.beginScope holder) .done := by
  unfold beginScope at h
  obtain ⟨start, s₁, hstart, h₁⟩ := h.of_requireFunction_bind.of_bind
  obtain ⟨stop', s₂, hstop, h₂⟩ := h₁.of_bind
  obtain ⟨u, s₃, hmark, h₃⟩ := h₂.of_bind
  obtain ⟨id, s₄, hregion, hlast⟩ := Answers.of_bind h₃
  obtain ⟨-, rfl⟩ := hlast.of_pure
  obtain ⟨labels, rfl, rfl, rfl, hlabels⟩ := bounds_eq hstart hstop hmark
  obtain ⟨-, rfl⟩ := hregion.of_enterRegion
  refine .scopeBegun rfl rfl ?_ (LabelTable.unmarked_define_define_mark hlabels)
  exact ((LabelTable.position?_mark hlabels).2 _).trans (if_pos rfl)

theorem effect_beginCatch {name : String} (h : Answers (beginCatch name) s u s') :
    Effect s s' (.beginCatch name) .done := by
  unfold beginCatch at h
  obtain ⟨⟨id, r⟩, s₁, hcurrent, h₁⟩ := h.of_requireFunction_bind.of_bind
  obtain ⟨rfl, hr, hphase, rest, hlive⟩ := hcurrent.of_currentException
  obtain ⟨v, s₂, hjump, h₂⟩ := h₁.of_bind
  obtain ⟨label, s₃, hplace, h₃⟩ := h₂.of_bind
  obtain ⟨w, s₄, hupdate, h₄⟩ := h₃.of_bind
  obtain ⟨field, s₅, hfield, hassign⟩ := h₄.of_bind
  obtain ⟨hrecord, hun⟩ := hjump.settles_emit
  obtain ⟨more, hmore, hmap⟩ := hrecord.operations
  obtain ⟨x, rfl, hx⟩ := List.map_eq_singleton_iff.1 hmap
  obtain ⟨rfl, labels, hlabels, rfl⟩ := hplace.placeLabel_eq
  obtain rfl := hupdate.of_modify
  obtain ⟨state, rfl, hstate⟩ := hfield.stateField_eq
  obtain ⟨hassigned, hun₅⟩ := hassign.settles_emit
  have hrest := hfield.of_stateField.trans hassigned
  have hun' := hun₅.trans (tolerant_settles.stateField _ _ _ (.of_answers hfield)).2
  obtain ⟨more', hmore', hmap'⟩ := hrest.operations
  obtain ⟨y, rfl, hy⟩ := List.map_eq_singleton_iff.1 hmap'
  have hops : s'.recorder.operations = s₁.recorder.operations ++ [x, y] := by
    rw [hmore']
    show s₂.recorder.operations ++ [y] = _
    rw [hmore, List.append_assoc]
    rfl
  have hregions : s'.regions = s₁.regions.replace id (.exception { r with
      phase := .catching, catchVariable := some name,
      catchLabel := s₂.labels.define.1 }) := by
    rw [hrest.regions]
    show s₂.regions.replace id _ = _
    rw [hrecord.regions]
  have hplaced : s'.labels.position? s₂.labels.define.1 =
      some (s₁.recorder.operations.length + 1) := by
    apply hrest.labels
    rw [(LabelTable.position?_mark hlabels).2, if_pos rfl, hmore, List.length_append]
    rfl
  refine .catchBegun hlive hr hphase hops hx hregions (LabelTable.isSome_define s₂.labels)
    hplaced ?_ ⟨y, state, rfl, ?_, hy⟩
  · rw [hun', ← hun]
    exact LabelTable.unmarked_define_mark hlabels
  · exact tolerant_remembers.emit _ _ _ (.of_answers hassign) state hstate

theorem effect_beginFinally (h : Answers beginFinally s u s') :
    Effect s s' .beginFinally .done := by
  unfold beginFinally at h
  obtain ⟨⟨id, r⟩, s₁, hcurrent, h₁⟩ := h.of_requireFunction_bind.of_bind
  obtain ⟨rfl, hr, hphase, rest, hlive⟩ := hcurrent.of_currentException
  obtain ⟨v, s₂, hjump, h₂⟩ := h₁.of_bind
  obtain ⟨label, s₃, hplace, hupdate⟩ := h₂.of_bind
  obtain ⟨hrecord, hun⟩ := hjump.settles_emit
  obtain ⟨more, hmore, hmap⟩ := hrecord.operations
  obtain ⟨x, rfl, hx⟩ := List.map_eq_singleton_iff.1 hmap
  obtain ⟨rfl, labels, hlabels, rfl⟩ := hplace.placeLabel_eq
  obtain rfl := hupdate.of_modify
  have hregions : s₂.regions = s₁.regions := hrecord.regions
  refine .finallyBegun hlive hr hphase hmore hx ?_
    (LabelTable.isSome_define s₂.labels) ?_ ?_
  · show s₂.regions.replace id _ = _
    rw [hregions]
  · show labels.position? _ = _
    rw [(LabelTable.position?_mark hlabels).2, if_pos rfl, hmore, List.length_append]
    rfl
  · rw [← hun]
    exact LabelTable.unmarked_define_mark hlabels

/-- The end of a protected block, once it is known what its last block ends with. -/
theorem effect_close {id : RegionId} {rest : List RegionId} {r : ExceptionRegion} {v w : Unit}
    {z : PUnit} (hr : s.regions.exception? id = some r) (hlive : s.regions.live = id :: rest)
    (hclosed : s₁ = { s with regions := s.regions.closed id rest s.recorder.operations.length })
    (hop : op = if r.phase < .finishing then .jump r.stop else .endFinally)
    (hemit : Answers (emit op) s₁ v s₂) (hmark : Answers (markLabel r.stop) s₂ w s₃)
    (hupdate : Answers (updateException id { r with phase := .done }) s₃ z s') :
    Effect s s' .endException .done := by
  have hidle : op.isIdle = false := by
    rw [hop]
    split <;> rfl
  obtain ⟨hrecord, hun⟩ := hemit.settles_emit
  rw [hidle] at hrecord
  obtain ⟨more, hmore, hmap⟩ := hrecord.operations
  obtain ⟨x, rfl, hx⟩ := List.map_eq_singleton_iff.1 hmap
  obtain ⟨labels, hlabels, rfl⟩ := hmark.markLabel_eq
  obtain rfl := hupdate.of_modify
  have hregions := hrecord.regions
  subst hclosed
  refine .exceptionEnded hlive hr hmore (hx.trans hop) ?_ ?_ ?_
  · show s₂.regions.replace id _ = _
    rw [hregions]
  · refine ((LabelTable.position?_mark hlabels).2 _).trans (if_pos rfl) |>.trans ?_
    rw [hmore, List.length_append]
    rfl
  · show labels.unmarked = _
    rw [LabelTable.unmarked_mark hlabels, hun]

theorem effect_endException (h : Answers endException s u s') :
    Effect s s' .endException .done := by
  unfold endException at h
  obtain ⟨id, s₁, hleave, h₁⟩ := h.of_requireFunction_bind.of_bind
  obtain ⟨region, hget, hkind, rest, hlive, hclosed⟩ := hleave.of_leaveRegion
  have h₂ := h₁.of_get_bind
  split at h₂
  · exact h₂.of_throw.elim
  · next r hr =>
    have hexception : s.regions.exception? id = some r := by
      rw [hclosed] at hr
      exact hr
    dsimp only at h₂
    split at h₂
    · next hphase =>
      obtain ⟨v, s₂, hemit, h₃⟩ := h₂.of_bind
      obtain ⟨w, s₃, hmark, hupdate⟩ := h₃.of_bind
      exact effect_close hexception hlive hclosed (if_pos hphase).symm hemit hmark hupdate
    · next hphase =>
      obtain ⟨v, s₂, hemit, h₃⟩ := h₂.of_bind
      obtain ⟨w, s₃, hmark, hupdate⟩ := h₃.of_bind
      exact effect_close hexception hlive hclosed (if_neg hphase).symm hemit hmark hupdate

theorem effect_endScope (h : Answers endScope s u s') : Effect s s' .endScope .done := by
  unfold endScope at h
  obtain ⟨id, s₁, hleave, h₁⟩ := h.of_requireFunction_bind.of_bind
  obtain ⟨region, hget, hkind, rest, hlive, rfl⟩ := hleave.of_leaveRegion
  cases region with
  | scope r =>
    have hfound : (s.regions.get? id >>= Region.scope?) = some r := by
      rw [hget]
      rfl
    have h₂ := h₁.of_get_bind
    split at h₂
    · next r' hr =>
      obtain rfl : r = r' := Option.some.inj (hfound.symm.trans hr)
      obtain ⟨labels, hlabels, rfl⟩ := h₂.markLabel_eq
      refine .scopeEnded hlive hget rfl rfl ?_ (LabelTable.unmarked_mark hlabels)
      exact ((LabelTable.position?_mark hlabels).2 _).trans (if_pos rfl)
    · next hnone => exact absurd hfound (hnone r)
  | exception r => cases hkind
  | breakable target => cases hn : target.native <;> simp [Region.kind, hn] at hkind
  | loop target label => cases hn : target.native <;> simp [Region.kind, hn] at hkind

/-- The label of a target is marked, if a jump asked for it. -/
theorem markBreakLabel_eq {id : RegionId} {region : Region} {target : BreakTarget}
    (h : Answers (markBreakLabel id) s u s') (hget : s.regions.get? id = some region)
    (htarget : region.breakTarget? = some target) (hnative : target.native = false) :
    s'.recorder = s.recorder ∧ s'.regions = s.regions ∧
      (∀ l ∈ region.owed, s'.labels.position? l = some s.recorder.operations.length) ∧
      s'.labels.unmarked = s.labels.unmarked.filter (· ∉ region.owed) := by
  have howed := Region.owed_of_target htarget hnative
  have hfound : (s.regions.get? id >>= Region.breakTarget?) = some target := by
    rw [hget]
    exact htarget
  unfold markBreakLabel at h
  have h₁ := h.of_get_bind
  split at h₁
  · next t ht =>
    obtain rfl : target = t := Option.some.inj (hfound.symm.trans ht)
    split at h₁
    · next hsome =>
      obtain ⟨labels, hlabels, rfl⟩ := h₁.markLabel_eq
      rw [howed, if_pos hsome]
      refine ⟨rfl, rfl, fun l hl => ?_, ?_⟩
      · obtain rfl := List.mem_singleton.1 hl
        exact ((LabelTable.position?_mark hlabels).2 _).trans (if_pos rfl)
      · show labels.unmarked = _
        rw [LabelTable.unmarked_mark hlabels]
        simp
    · next hnone =>
      obtain ⟨-, rfl⟩ := h₁.of_pure
      rw [howed, if_neg hnone]
      refine ⟨rfl, rfl, ?_, (List.filter_eq_self.2 fun _ _ => rfl).symm⟩
      intro l hl
      cases hl
  · next hnone => exact absurd hfound (hnone target)

/-- The end of a target whose jumps go through labels. -/
theorem effect_endTarget {request : Request} {kind : RegionKind}
    (hcloses : request.closedTarget? = some kind) (hkind : kind = .breakable ∨ kind = .loop)
    (h : Answers (do markBreakLabel (← leaveRegion kind)) s u s') : Effect s s' request .done := by
  obtain ⟨id, s₁, hleave, h₁⟩ := h.of_bind
  obtain ⟨region, hget, hof, rest, hlive, rfl⟩ := hleave.of_leaveRegion
  obtain ⟨target, htarget, hnative⟩ :=
    Region.exists_target_of_kind (hkind.imp hof.trans hof.trans)
  obtain ⟨hrecorder, hregions, hplaced, hun⟩ := h₁.markBreakLabel_eq hget htarget hnative
  exact .targetEnded hcloses hlive hget hof (by rw [hrecorder]) hregions hplaced hun

/-- The end of a target that stays as it is: it owes no label. -/
theorem effect_endNativeTarget {request : Request} {kind : RegionKind}
    (hcloses : request.closedTarget? = some kind)
    (hkind : kind = .nativeBreakable ∨ kind = .nativeLoop)
    (h : Answers (discard (leaveRegion kind)) s u s') : Effect s s' request .done := by
  obtain ⟨id, s₁, hleave, h₁⟩ := Answers.of_bind h
  obtain ⟨-, rfl⟩ := h₁.of_pure
  obtain ⟨region, hget, hof, rest, hlive, rfl⟩ := hleave.of_leaveRegion
  have howed : region.owed = [] := by
    cases region with
    | exception r => rcases hkind with rfl | rfl <;> cases hof
    | scope r => rcases hkind with rfl | rfl <;> cases hof
    | breakable t =>
      cases hn : t.native with
      | false => rcases hkind with rfl | rfl <;> simp [Region.kind, hn] at hof
      | true => simp [Region.owed, hn]
    | loop t continueLabel =>
      cases hn : t.native with
      | false => rcases hkind with rfl | rfl <;> simp [Region.kind, hn] at hof
      | true => simp [Region.owed, hn]
  refine .targetEnded hcloses hlive hget hof rfl rfl (fun l hl => ?_) ?_
  · rw [howed] at hl
    cases hl
  · rw [howed]
    exact (List.filter_eq_self.2 fun _ _ => rfl).symm

/-- The beginning of a target. -/
theorem effect_beginTarget {request : Request} {region : Region}
    (hopens : request.target? = some region)
    (h : Answers (discard (enterRegion region)) s u s') : Effect s s' request .done := by
  obtain ⟨id, s₁, hregion, hlast⟩ := Answers.of_bind h
  obtain ⟨-, rfl⟩ := hlast.of_pure
  obtain ⟨-, rfl⟩ := hregion.of_enterRegion
  exact .targetBegun hopens rfl rfl rfl

theorem effect_findBreakTarget {name : Option String} {answer : JumpTarget}
    (h : Answers (findBreakTarget name) s answer s') :
    Effect s s' (.findBreakTarget name) (.target answer) := by
  have hsettled : ∀ {t : Session}, Settles s t →
      t.recorder.operations = s.recorder.operations →
      (∃ id region target, s.regions.breakTarget? name = some id ∧
        s.regions.get? id = some region ∧ region.breakTarget? = some target ∧
        (target.native = true ∨ target.label.isSome = true) ∧
        answer = if target.native then .native else .label target.label) →
      Effect s t (.findBreakTarget name) (.target answer) := by
    rintro t ⟨⟨ops, hr⟩, hun⟩ hops hlanded
    obtain ⟨more, hmore, hmap⟩ := hr.operations
    obtain rfl : more = [] := by simpa [hops] using hmore
    obtain rfl : ops = [] := hmap.symm
    exact .breakFound hr hun hlanded
  unfold findBreakTarget at h
  have h := h.of_get_bind
  split at h
  · next id hid =>
    have hlive : id ∈ s.regions.live := List.mem_of_find?_eq_some hid
    split at h
    · next region hget =>
      split at h
      · next target htarget =>
        split at h
        · next hnative =>
          obtain ⟨rfl, rfl⟩ := h.of_pure
          exact hsettled (tolerant_settles.refl s') rfl
            ⟨id, region, target, hid, hget, htarget, .inl hnative, (if_pos hnative).symm⟩
        · next hnative =>
          split at h
          · next hsome =>
            obtain ⟨u, s₁, hnote, hlast⟩ := h.of_bind
            obtain ⟨rfl, rfl⟩ := hlast.of_pure
            obtain ⟨labels, hlabels, rfl⟩ := hnote.of_updateLabels
            exact hsettled (tolerant_settles.note hlabels) rfl
              ⟨id, region, target, hid, hget, htarget, .inr hsome, (if_neg hnative).symm⟩
          · next hnone =>
            obtain ⟨u, s₁, hset, h₁⟩ := h.of_bind
            obtain ⟨v, s₂, hnote, h₂⟩ := h₁.of_bind
            obtain ⟨rfl, rfl⟩ := h₂.of_pure
            obtain rfl := hset.of_set
            obtain ⟨labels, hlabels, rfl⟩ := hnote.of_updateLabels
            refine .breakNamed hlive hget htarget (by simpa using hnative) (by simpa using hnone)
              (LabelTable.isSome_define s.labels) rfl rfl ?_ hid
            show labels.unmarked = _
            rw [LabelTable.unmarked_noteReference hlabels]
            exact LabelTable.unmarked_define s.labels
      · exact h.of_throw.elim
    · exact h.of_throw.elim
  · exact h.of_throw.elim

end Answers

/-- The effect of a successful request. -/
theorem effect_of_answers {request : Request} {reply : Reply}
    (h : Answers request.run s reply s') : Effect s s' request reply := by
  by_cases hquiet : request.isQuiet = true
  · obtain ⟨⟨ops, hrecording⟩, hun⟩ := tolerant_settles.run hquiet s s' (.of_answers h)
    exact .recorded hquiet hrecording hun
  · -- what is left are the requests on labels and regions, each with a lemma of its own
    cases request with
    | defineLabel =>
      obtain ⟨l, hcall, rfl⟩ := Answers.of_reply h
      have hrecording := hcall.of_defineLabel
      obtain ⟨rfl, rfl⟩ := hcall.defineLabel_eq
      exact .defined hrecording (LabelTable.find?_define_eq_none _) (LabelTable.unmarked_define _)
    | markLabel label =>
      obtain ⟨u, hcall, rfl⟩ := Answers.of_reply h
      have hrecording := hcall.of_markLabel.1
      obtain ⟨labels, hlabels, rfl⟩ := hcall.markLabel_eq
      exact .marked hrecording (LabelTable.mem_unmarked_of_mark hlabels)
        (LabelTable.unmarked_mark hlabels)
    | findBreakTarget name =>
      obtain ⟨answer, hcall, rfl⟩ := Answers.of_reply h
      exact hcall.effect_findBreakTarget
    | beginException =>
      obtain ⟨stop, hcall, rfl⟩ := Answers.of_reply h
      exact hcall.effect_beginException
    | beginCatch name =>
      obtain ⟨u, hcall, rfl⟩ := Answers.of_reply h
      exact hcall.effect_beginCatch
    | beginFinally =>
      obtain ⟨u, hcall, rfl⟩ := Answers.of_reply h
      exact hcall.effect_beginFinally
    | endException =>
      obtain ⟨u, hcall, rfl⟩ := Answers.of_reply h
      exact hcall.effect_endException
    | beginScope holder =>
      obtain ⟨u, hcall, rfl⟩ := Answers.of_reply h
      exact hcall.effect_beginScope
    | endScope =>
      obtain ⟨u, hcall, rfl⟩ := Answers.of_reply h
      exact hcall.effect_endScope
    | beginBreakable names needsName =>
      obtain ⟨u, hcall, rfl⟩ := Answers.of_reply h
      exact Answers.effect_beginTarget rfl hcall.of_requireFunction_bind
    | endBreakable =>
      obtain ⟨u, hcall, rfl⟩ := Answers.of_reply h
      exact Answers.effect_endTarget rfl (Or.inl rfl) hcall.of_requireFunction_bind
    | beginLoop continueLabel names =>
      obtain ⟨u, hcall, rfl⟩ := Answers.of_reply h
      exact Answers.effect_beginTarget rfl hcall.of_requireFunction_bind
    | endLoop =>
      obtain ⟨u, hcall, rfl⟩ := Answers.of_reply h
      exact Answers.effect_endTarget rfl (Or.inr rfl) hcall.of_requireFunction_bind
    | beginNativeBreakable names needsName =>
      obtain ⟨u, hcall, rfl⟩ := Answers.of_reply h
      exact Answers.effect_beginTarget rfl hcall
    | endNativeBreakable =>
      obtain ⟨u, hcall, rfl⟩ := Answers.of_reply h
      exact Answers.effect_endNativeTarget rfl (Or.inl rfl) hcall
    | beginNativeLoop names =>
      obtain ⟨u, hcall, rfl⟩ := Answers.of_reply h
      exact Answers.effect_beginTarget rfl hcall
    | endNativeLoop =>
      obtain ⟨u, hcall, rfl⟩ := Answers.of_reply h
      exact Answers.effect_endNativeTarget rfl (Or.inr rfl) hcall
    | _ => exact absurd rfl hquiet

end Session

end Resumable
