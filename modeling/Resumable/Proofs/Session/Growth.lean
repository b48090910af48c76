import Resumable.Proofs.Region.Scopes
import Resumable.Proofs.Session.Effects
import Resumable.Proofs.Session.Runs

/-!
# Sessions only grow

Operations and region events are added and never taken back. An event comes at the place the
session has come to, so the events there are when an operation is recorded are those up to that
operation. Scopes are opened and closed where a label is marked, and stay what they are.
-/

namespace Resumable.Session

variable {s s' s₀ s₁ s₂ : Session} {region old new : Region} {id : RegionId}
  {rest : List RegionId} {more : List Recorded} {request : Request} {requests : List Request}
  {reply : Reply} {i : Nat}

/-- What is added from one session to another. -/
structure Grows (s s' : Session) : Prop where
  operations : ∃ more, s'.recorder.operations = s.recorder.operations ++ more
  labels : ∀ l q, s.labels.position? l = some q → s'.labels.position? l = some q
  regions : s.regions.regions.length ≤ s'.regions.regions.length
  scopes : ∀ id < s.regions.regions.length, s'.regions.scope? id = s.regions.scope? id
  events : ∃ late, s'.regions.events = s.regions.events ++ late ∧ ∀ e ∈ late,
    s.recorder.operations.length ≤ e.offset ∧ e.region < s'.regions.regions.length ∧
      ((s'.regions.scope? e.region).isSome = true → ∃ l, s'.labels.position? l = some e.offset)

namespace Grows

theorem length_le (h : Grows s s') :
    s.recorder.operations.length ≤ s'.recorder.operations.length := by
  obtain ⟨more, hmore⟩ := h.operations
  rw [hmore, List.length_append]
  exact Nat.le_add_right _ _

theorem trans (h : Grows s s₁) (h' : Grows s₁ s') : Grows s s' where
  operations := by
    obtain ⟨more, hmore⟩ := h.operations
    obtain ⟨more', hmore'⟩ := h'.operations
    exact ⟨more ++ more', by rw [hmore', hmore, List.append_assoc]⟩
  labels l q hq := h'.labels l q (h.labels l q hq)
  regions := Nat.le_trans h.regions h'.regions
  scopes id hid := (h'.scopes id (Nat.lt_of_lt_of_le hid h.regions)).trans (h.scopes id hid)
  events := by
    obtain ⟨late, hlate, hall⟩ := h.events
    obtain ⟨late', hlate', hall'⟩ := h'.events
    refine ⟨late ++ late', by rw [hlate', hlate, List.append_assoc], fun e he => ?_⟩
    rcases List.mem_append.1 he with he | he
    · obtain ⟨hle, hlt, hmarked⟩ := hall e he
      refine ⟨hle, Nat.lt_of_lt_of_le hlt h'.regions, fun hscope => ?_⟩
      rw [h'.scopes _ hlt] at hscope
      obtain ⟨l, hl⟩ := hmarked hscope
      exact ⟨l, h'.labels l _ hl⟩
    · obtain ⟨hle, hrest⟩ := hall' e he
      exact ⟨Nat.le_trans h.length_le hle, hrest⟩

/-- Nothing happens to the regions but that some are replaced by others of their kind. -/
theorem of_events (hops : s'.recorder.operations = s.recorder.operations ++ more)
    (hlabels : ∀ l q, s.labels.position? l = some q → s'.labels.position? l = some q)
    (hregions : s'.regions.regions.length = s.regions.regions.length)
    (hscopes : ∀ id, s'.regions.scope? id = s.regions.scope? id)
    (hevents : s'.regions.events = s.regions.events) : Grows s s' where
  operations := ⟨more, hops⟩
  labels := hlabels
  regions := Nat.le_of_eq hregions.symm
  scopes id _ := hscopes id
  events := ⟨[], by rw [hevents, List.append_nil], fun e he => by cases he⟩

theorem refl (s : Session) : Grows s s :=
  of_events (List.append_nil _).symm (fun _ _ h => h) rfl (fun _ => rfl) rfl

theorem of_recording {ops : List Operation} (h : Recording s s' ops) : Grows s s' := by
  obtain ⟨more, hmore, -⟩ := h.operations
  have hregions := h.regions
  exact of_events hmore h.labels (by rw [hregions]) (fun id => by rw [hregions]) (by rw [hregions])

/-- A region is opened. -/
theorem enter (hops : s'.recorder.operations = s.recorder.operations)
    (hlabels : ∀ l q, s.labels.position? l = some q → s'.labels.position? l = some q)
    (hregions : s'.regions = (s.regions.enter region s.recorder.operations.length).2)
    (hscope : region.scope?.isSome = true →
      ∃ l, s'.labels.position? l = some s.recorder.operations.length) : Grows s s' where
  operations := ⟨[], by rw [hops, List.append_nil]⟩
  labels := hlabels
  regions := by
    rw [hregions, RegionStack.length_enter]
    exact Nat.le_succ _
  scopes id hid := by
    rw [hregions, RegionStack.scope?, RegionStack.scope?]
    exact congrArg (· >>= Region.scope?) (List.getElem?_append_left hid)
  events := by
    refine ⟨[⟨.opened, s.regions.regions.length, s.recorder.operations.length⟩], ?_, ?_⟩
    · rw [hregions]
      rfl
    · intro e he
      obtain rfl := List.mem_singleton.1 he
      refine ⟨Nat.le_refl _, ?_, fun hsome => hscope ?_⟩
      · rw [hregions, RegionStack.length_enter]
        exact Nat.lt_succ_self _
      · have hself : (s.regions.enter region s.recorder.operations.length).2.get?
            s.regions.regions.length = some region := RegionStack.get?_enter ..
        rw [hregions, RegionStack.scope?, hself] at hsome
        exact hsome

/-- The innermost region is closed. -/
theorem close (hops : s'.recorder.operations = s.recorder.operations)
    (hlabels : ∀ l q, s.labels.position? l = some q → s'.labels.position? l = some q)
    (hregions : s'.regions = s.regions.closed id rest s.recorder.operations.length)
    (hget : s.regions.get? id = some region)
    (hscope : region.scope?.isSome = true →
      ∃ l, s'.labels.position? l = some s.recorder.operations.length) : Grows s s' where
  operations := ⟨[], by rw [hops, List.append_nil]⟩
  labels := hlabels
  regions := Nat.le_of_eq (by rw [hregions]; rfl)
  scopes id _ := by
    rw [hregions]
    rfl
  events := by
    refine ⟨[⟨.closed, id, s.recorder.operations.length⟩], by rw [hregions]; rfl, ?_⟩
    intro e he
    obtain rfl := List.mem_singleton.1 he
    refine ⟨Nat.le_refl _, ?_, fun hsome => hscope ?_⟩
    · rw [hregions]
      exact (List.getElem?_eq_some_iff.1 hget).1
    · rw [hregions] at hsome
      change ((s.regions.get? id) >>= Region.scope?).isSome = true at hsome
      rw [hget] at hsome
      exact hsome

end Grows

/-- Replacing a region by one that is the same scope, or none either. -/
theorem scope?_replace {regions : RegionStack} (hget : regions.get? id = some old)
    (hscope : new.scope? = old.scope?) (i : RegionId) :
    (regions.replace id new).scope? i = regions.scope? i := by
  rw [RegionStack.scope?, RegionStack.get?_replace hget, RegionStack.scope?]
  split
  · next heq =>
    rw [heq, hget]
    exact hscope
  · rfl

theorem Grows.replace (hops : s'.recorder.operations = s.recorder.operations ++ more)
    (hlabels : ∀ l q, s.labels.position? l = some q → s'.labels.position? l = some q)
    (hregions : s'.regions = s.regions.replace id new) (hget : s.regions.get? id = some old)
    (hscope : new.scope? = old.scope?) : Grows s s' := by
  refine .of_events hops hlabels ?_ (fun i => ?_) ?_
  · rw [hregions]
    exact List.length_set
  · rw [hregions]
    exact scope?_replace hget hscope i
  · rw [hregions]
    rfl

/-- A target has no scope, whatever its label. -/
theorem scope?_setBreakLabel {target : BreakTarget} (h : region.breakTarget? = some target)
    (label : Label) : (region.setBreakLabel label).scope? = region.scope? := by
  cases region with
  | exception r => cases h
  | scope r => cases h
  | breakable t => rfl
  | loop t l => rfl

/-- A successful request only adds. -/
theorem Answers.grows (h : Answers request.run s reply s') : Grows s s' := by
  have hlabels := (advances_run request s reply s' h).labels
  cases effect_of_answers h with
  | recorded quiet recording unmarked => exact .of_recording recording
  | defined recording fresh unmarked => exact .of_recording recording
  | marked recording known unmarked => exact .of_recording recording
  | breakFound recording unmarked => exact .of_recording recording
  | exceptionBegun operations regions placed unmarked =>
    exact .enter operations hlabels regions fun hnone => by cases hnone
  | scopeBegun operations regions placed unmarked =>
    exact .enter operations hlabels regions fun _ => ⟨_, placed⟩
  | @targetBegun request region opens operations regions labels =>
    refine .enter operations hlabels regions fun hsome => ?_
    cases request <;> cases opens <;> cases hsome
  | scopeEnded live found operations regions placed unmarked =>
    exact .close operations hlabels regions found fun _ => ⟨_, placed⟩
  | @targetEnded request kind id rest region closes live found ofKind operations regions placed
      unmarked =>
    refine .close operations hlabels regions found fun hsome => ?_
    cases region <;> cases hsome
    cases request <;> cases closes <;> cases ofKind
  | catchBegun live found early operations jump regions present placed unmarked =>
    exact .replace operations hlabels regions (RegionStack.exception?_eq_some_iff.1 found) rfl
  | finallyBegun live found early operations jump regions present placed unmarked =>
    exact .replace operations hlabels regions (RegionStack.exception?_eq_some_iff.1 found) rfl
  | breakNamed live found asked dispatched unnamed present operations regions unmarked =>
    exact .replace (operations.trans (List.append_nil _).symm) hlabels regions found
      (scope?_setBreakLabel asked _)
  | @exceptionEnded id rest r x live found operations last regions placed unmarked =>
    have hget := RegionStack.exception?_eq_some_iff.1 found
    have hclose : Grows s
        { s with regions := s.regions.closed id rest s.recorder.operations.length } :=
      .close rfl (fun _ _ h => h) rfl hget fun hsome => by cases hsome
    exact hclose.trans (.replace operations hlabels regions hget rfl)

theorem Runs.grows (h : Runs s requests s') : Grows s s' := by
  induction h with
  | nil s => exact .refl s
  | cons first rest ih => exact first.grows.trans ih

/-- A request that records something neither opens nor closes a scope, and every event there is
then comes before what it records. -/
theorem Answers.steady (h : Answers request.run s reply s') (hs : s.InOrder)
    (hmore : s.recorder.operations.length < s'.recorder.operations.length) :
    (∀ e ∈ s'.regions.events, e.offset ≤ s.recorder.operations.length) ∧
      s'.regions.openScopes = s.regions.openScopes := by
  have hpast := fun e he => (hs.past e he).1
  have hstill : s'.recorder.operations = s.recorder.operations → False := fun heq => by
    rw [heq] at hmore
    exact Nat.lt_irrefl _ hmore
  have hreplace : ∀ {id : RegionId} {new old : Region}, s'.regions = s.regions.replace id new →
      s.regions.get? id = some old → new.scope? = old.scope? →
      (∀ e ∈ s'.regions.events, e.offset ≤ s.recorder.operations.length) ∧
        s'.regions.openScopes = s.regions.openScopes := by
    intro id new old hregions hget hscope
    rw [hregions]
    refine ⟨hpast, ?_⟩
    show s.regions.live.filterMap (s.regions.replace id new).scope? = _
    rw [RegionStack.openScopes]
    exact congrArg (fun f => s.regions.live.filterMap f) (funext (scope?_replace hget hscope))
  cases effect_of_answers h with
  | recorded quiet recording unmarked =>
    rw [recording.regions]
    exact ⟨hpast, rfl⟩
  | defined recording fresh unmarked =>
    rw [recording.regions]
    exact ⟨hpast, rfl⟩
  | marked recording known unmarked =>
    rw [recording.regions]
    exact ⟨hpast, rfl⟩
  | breakFound recording unmarked =>
    rw [recording.regions]
    exact ⟨hpast, rfl⟩
  | exceptionBegun operations => exact (hstill operations).elim
  | scopeBegun operations => exact (hstill operations).elim
  | targetBegun opens operations => exact (hstill operations).elim
  | scopeEnded live found operations => exact (hstill operations).elim
  | targetEnded closes live found ofKind operations => exact (hstill operations).elim
  | breakNamed live found asked dispatched unnamed present operations =>
    exact (hstill operations).elim
  | catchBegun live found early operations jump regions present placed unmarked =>
    exact hreplace regions (RegionStack.exception?_eq_some_iff.1 found) rfl
  | finallyBegun live found early operations jump regions present placed unmarked =>
    exact hreplace regions (RegionStack.exception?_eq_some_iff.1 found) rfl
  | @exceptionEnded id rest r x live found operations last regions placed unmarked =>
    have hget := RegionStack.exception?_eq_some_iff.1 found
    have hnone : s.regions.scope? id = none := by rw [RegionStack.scope?, hget]; rfl
    have hsame : ∀ i,
        ((s.regions.closed id rest s.recorder.operations.length).replace id
          (.exception { r with phase := .done })).scope? i = s.regions.scope? i :=
      scope?_replace hget rfl
    rw [regions]
    refine ⟨fun e he => ?_, ?_⟩
    · rcases List.mem_append.1 he with he | he
      · exact hpast e he
      · obtain rfl := List.mem_singleton.1 he
        exact Nat.le_refl _
    · show rest.filterMap _ = _
      rw [RegionStack.openScopes, live, List.filterMap_cons_none hnone]
      exact congrArg (fun f => rest.filterMap f) (funext hsame)

/-- One of the requests records the operation with this index, and it does so between these two
sessions. -/
def Records (s₀ : Session) (requests : List Request) (s : Session) (i : Nat) (s₁ s₂ : Session) :
    Prop :=
  ∃ before request reply after, requests = before ++ request :: after ∧ Runs s₀ before s₁ ∧
    Answers request.run s₁ reply s₂ ∧ Runs s₂ after s ∧
    s₁.recorder.operations.length ≤ i ∧ i < s₂.recorder.operations.length

/-- Every operation was recorded by one of the requests. -/
theorem Runs.exists_records (h : Runs s₀ requests s) (hfirst : s₀.recorder.operations.length ≤ i)
    (hi : i < s.recorder.operations.length) : ∃ s₁ s₂, Records s₀ requests s i s₁ s₂ := by
  induction h with
  | nil s => exact absurd hi (Nat.not_lt.2 hfirst)
  | @cons s s₁ s₂ request reply requests first rest ih =>
    by_cases hlt : i < s₁.recorder.operations.length
    · exact ⟨s, s₁, [], request, reply, requests, rfl, .nil s, first, rest, hfirst, hlt⟩
    · obtain ⟨t, t', before, last, reply', after, rfl, hbefore, hlast, hafter, hle, hlt'⟩ :=
        ih (Nat.le_of_not_lt hlt) hi
      exact ⟨t, t', request :: before, last, reply', after, rfl, .cons first hbefore, hlast, hafter,
        hle, hlt'⟩

end Resumable.Session
