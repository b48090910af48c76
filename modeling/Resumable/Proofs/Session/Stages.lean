import Resumable.Proofs.Session.Growth

/-!
# The blocks of a protected region

A protected region goes through its phases in order, and the block of a phase gets its label when
it begins. So the blocks of a region begin one after the other, and a label that a region has is
that of a block that some request began.
-/

namespace Resumable

/-- The phase that a protected region is in when the request succeeded, if the request begins a
block of it. -/
def Request.block? : Request → Option Phase
  | .beginException => some .trying
  | .beginCatch _ => some .catching
  | .beginFinally => some .finishing
  | _ => none

theorem Request.block?_eq_none {request : Request}
    (h : (request.isQuiet || request.target?.isSome || request.closedTarget?.isSome) = true) :
    request.block? = none := by
  cases request <;> first | rfl | cases h

namespace Session

variable {s s' s₀ s₁ s₂ : Session} {id : RegionId} {r r' : ExceptionRegion} {request : Request}
  {requests : List Request} {reply : Reply} {phase : Phase}

/-- What a request makes of a protected region: nothing that concerns its blocks, or the region
is new, or another block of it begins. -/
inductive Becomes (s s' : Session) (id : RegionId) (request : Request) (r' : ExceptionRegion) :
    Prop where
  | kept {r : ExceptionRegion} (found : s.regions.exception? id = some r)
      (labels : r'.labelOf = r.labelOf) (phase : r'.phase = r.phase ∨ r'.phase = .done)
  | opened (asked : request.block? = some .trying) (new : id = s.regions.regions.length)
      (live : s'.regions.live.head? = some id) (first : r'.phase = .trying)
      (bare : ∀ q, .trying < q → q < .done → (r'.labelOf q).isSome = false)
      (placed : s'.labels.position? (r'.labelOf .trying) = some s.recorder.operations.length)
  | begun {r : ExceptionRegion} {phase : Phase} (asked : request.block? = some phase)
      (found : s.regions.exception? id = some r) (live : s'.regions.live.head? = some id)
      (early : r.phase < phase) (reached : r'.phase = phase) (unfinished : phase < .done)
      (others : ∀ q, q ≠ phase → r'.labelOf q = r.labelOf q)
      (grown : s.recorder.operations.length < s'.recorder.operations.length)
      (placed : s'.labels.position? (r'.labelOf phase) =
        some (s.recorder.operations.length + 1))

/-- A region that a request put another in the place of, to begin a block of it. -/
theorem becomes_of_replace {top : RegionId} {rest : List RegionId} {new : ExceptionRegion}
    {x : Recorded} {more : List Recorded}
    (hregions : s'.regions = s.regions.replace top (.exception new))
    (hfound : s.regions.exception? top = some r) (hlive : s.regions.live = top :: rest)
    (hasked : request.block? = some phase) (hearly : r.phase < phase) (hreached : new.phase = phase)
    (hunfinished : phase < .done) (hothers : ∀ q, q ≠ phase → new.labelOf q = r.labelOf q)
    (hoperations : s'.recorder.operations = s.recorder.operations ++ x :: more)
    (hplaced : s'.labels.position? (new.labelOf phase) =
      some (s.recorder.operations.length + 1))
    (hr : s'.regions.exception? id = some r') : Becomes s s' id request r' := by
  have hgrown : s.recorder.operations.length < s'.recorder.operations.length := by
    rw [hoperations, List.length_append]
    exact Nat.lt_add_of_pos_right (Nat.succ_pos _)
  have hsame : s'.regions.live = s.regions.live := by
    rw [hregions]
    rfl
  rw [hregions] at hr
  rcases RegionStack.of_exception?_replace hr with hr | ⟨rfl, hnew⟩
  · exact .kept hr rfl (.inl rfl)
  · obtain rfl := Option.some.inj hnew
    exact .begun hasked hfound (by rw [hsame, hlive]; rfl) hearly hreached hunfinished hothers
      hgrown hplaced

theorem becomes_of_effect (h : Effect s s' request reply)
    (hr : s'.regions.exception? id = some r') : Becomes s s' id request r' := by
  have hkept : s.regions.exception? id = some r' → Becomes s s' id request r' := fun hfound =>
    .kept hfound rfl (.inl rfl)
  cases h with
  | recorded quiet recording unmarked => exact hkept (recording.regions ▸ hr)
  | defined recording fresh unmarked => exact hkept (recording.regions ▸ hr)
  | marked recording known unmarked => exact hkept (recording.regions ▸ hr)
  | breakFound recording unmarked => exact hkept (recording.regions ▸ hr)
  | exceptionBegun operations regions placed unmarked =>
    rw [regions] at hr
    rcases RegionStack.of_exception?_enter hr with hr | ⟨rfl, hnew⟩
    · exact hkept hr
    · obtain rfl := Option.some.inj hnew
      refine .opened rfl rfl (by rw [regions]; rfl) rfl (fun q hlt hdone => ?_) placed
      cases q with
      | trying => exact absurd hlt (by decide)
      | catching => rfl
      | finishing => rfl
      | done => exact absurd hdone (by decide)
  | scopeBegun operations regions placed unmarked =>
    rw [regions] at hr
    rcases RegionStack.of_exception?_enter hr with hr | ⟨-, hr⟩
    · exact hkept hr
    · cases hr
  | @targetBegun request region opens operations regions labels =>
    rw [regions] at hr
    rcases RegionStack.of_exception?_enter hr with hr | ⟨-, hr⟩
    · exact hkept hr
    · cases request <;> cases opens <;> cases hr
  | scopeEnded live found operations regions placed unmarked =>
    rw [regions] at hr
    exact hkept hr
  | targetEnded closes live found ofKind operations regions placed unmarked =>
    rw [regions] at hr
    exact hkept hr
  | @catchBegun name region rest r label x more live found early operations jump regions present
      placed unmarked =>
    refine becomes_of_replace regions found live rfl early rfl (by decide) (fun q hq => ?_)
      operations placed hr
    cases q with
    | catching => exact absurd rfl hq
    | _ => rfl
  | @finallyBegun region rest r label x live found early operations jump regions present placed
      unmarked =>
    refine becomes_of_replace regions found live rfl early rfl (by decide) (fun q hq => ?_)
      operations placed hr
    cases q with
    | finishing => exact absurd rfl hq
    | _ => rfl
  | @exceptionEnded region rest r x live found operations last regions placed unmarked =>
    rw [regions] at hr
    rcases RegionStack.of_exception?_replace hr with hr | ⟨rfl, hnew⟩
    · exact hkept hr
    · obtain rfl := Option.some.inj hnew
      exact .kept found (funext fun q => by cases q <;> rfl) (.inr rfl)
  | @breakNamed name region old target label live found asked dispatched unnamed present operations
      regions unmarked =>
    rw [regions] at hr
    rcases RegionStack.of_exception?_replace hr with hr | ⟨-, hnew⟩
    · exact hkept hr
    · cases old <;> cases asked <;> cases hnew

/-- How the blocks of a protected region lie: a block that has not begun has no label, and the
others begin one after the other, before the region is closed. -/
structure Staged (s : Session) (id : RegionId) (r : ExceptionRegion) : Prop where
  later : ∀ q, r.phase < q → q < .done → (r.labelOf q).isSome = false
  placed : ∀ q < Phase.done, (r.labelOf q).isSome = true →
    ∃ a ≤ s.recorder.operations.length, s.labels.position? (r.labelOf q) = some a ∧
      ∀ o, ⟨.closed, id, o⟩ ∈ s.regions.events → a ≤ o
  ordered : ∀ q q' a b, q < q' → q' < .done → s.labels.position? (r.labelOf q) = some a →
    s.labels.position? (r.labelOf q') = some b → a < b

def IsStaged (s : Session) : Prop := ∀ id r, s.regions.exception? id = some r → Staged s id r

namespace Staged

variable {q : Phase} {a : Nat}

/-- A block lies where it lay before. -/
theorem position?_of_grows (h : Staged s id r) (hgrows : Grows s s') (hq : q < .done)
    (ha : s'.labels.position? (r.labelOf q) = some a) :
    s.labels.position? (r.labelOf q) = some a ∧ a ≤ s.recorder.operations.length := by
  obtain ⟨a', hle, ha', -⟩ := h.placed q hq (LabelTable.isSome_of_position? ha)
  obtain rfl := Option.some.inj ((hgrows.labels _ _ ha').symm.trans ha)
  exact ⟨ha', hle⟩

/-- The blocks stay where they are. -/
theorem grows (h : Staged s id r) (hgrows : Grows s s') (hlabels : r'.labelOf = r.labelOf)
    (hphase : r'.phase = r.phase ∨ r'.phase = .done) : Staged s' id r' := by
  obtain ⟨late, hlate, hoffsets⟩ := hgrows.events
  constructor
  · intro q hlt hdone
    rw [hlabels]
    rcases hphase with hphase | hphase
    · exact h.later q (hphase ▸ hlt) hdone
    · rw [hphase] at hlt
      exact absurd hlt (Nat.lt_asymm hdone)
  · intro q hq hsome
    rw [hlabels] at hsome ⊢
    obtain ⟨a, hle, ha, hclosed⟩ := h.placed q hq hsome
    refine ⟨a, Nat.le_trans hle hgrows.length_le, hgrows.labels _ _ ha, fun o ho => ?_⟩
    rw [hlate] at ho
    rcases List.mem_append.1 ho with ho | ho
    · exact hclosed o ho
    · exact Nat.le_trans hle (hoffsets _ ho).1
  · intro q q' a b hlt hdone ha hb
    rw [hlabels] at ha hb
    exact h.ordered q q' a b hlt hdone (h.position?_of_grows hgrows (Nat.lt_trans hlt hdone) ha).1
      (h.position?_of_grows hgrows hdone hb).1

/-- A region that is new has its first block only. -/
theorem of_opened (hfirst : r'.phase = .trying)
    (hbare : ∀ q, .trying < q → q < .done → (r'.labelOf q).isSome = false)
    (hplaced : s'.labels.position? (r'.labelOf .trying) = some a)
    (hle : a ≤ s'.recorder.operations.length)
    (hopen : ∀ o, (⟨.closed, id, o⟩ : RegionEvent) ∉ s'.regions.events) : Staged s' id r' := by
  have honly : ∀ q < Phase.done, (r'.labelOf q).isSome = true → q = .trying := by
    intro q hq hsome
    cases q with
    | trying => rfl
    | done => exact absurd hq (by decide)
    | _ => rw [hbare _ (by decide) hq] at hsome; cases hsome
  constructor
  · intro q hlt hq
    exact hbare q (hfirst ▸ hlt) hq
  · intro q hq hsome
    obtain rfl := honly q hq hsome
    exact ⟨a, hle, hplaced, fun o ho => absurd ho (hopen o)⟩
  · intro q q' a b hlt hq' ha hb
    obtain rfl := honly q' hq' (LabelTable.isSome_of_position? hb)
    exact absurd hlt (Nat.not_lt_zero _)

/-- The blocks from before are those ahead of the one that begins, and none of them begins later
than here. -/
theorem of_begun (h : Staged s id r) (hgrows : Grows s s') (hearly : r.phase < phase)
    (hreached : r'.phase = phase) (hothers : ∀ q, q ≠ phase → r'.labelOf q = r.labelOf q)
    (hgrown : s.recorder.operations.length < s'.recorder.operations.length)
    (hplaced : s'.labels.position? (r'.labelOf phase) =
      some (s.recorder.operations.length + 1))
    (hopen : ∀ o, (⟨.closed, id, o⟩ : RegionEvent) ∉ s'.regions.events) : Staged s' id r' := by
  have hkept := h.grows hgrows rfl (.inl rfl)
  have hne : ∀ q, phase < q → q ≠ phase := fun q hlt heq => Nat.lt_irrefl _ (heq ▸ hlt)
  constructor
  · intro q hlt hq
    rw [hreached] at hlt
    rw [hothers q (hne q hlt)]
    exact h.later q (Nat.lt_trans hearly hlt) hq
  · intro q hq hsome
    by_cases heq : q = phase
    · subst heq
      exact ⟨_, hgrown, hplaced, fun o ho => absurd ho (hopen o)⟩
    · rw [hothers q heq] at hsome ⊢
      exact hkept.placed q hq hsome
  · intro q q' a b hlt hq' ha hb
    by_cases heq : q = phase
    · subst heq
      rw [hothers q' (hne q' hlt)] at hb
      have hnone := hkept.later q' (Nat.lt_trans hearly hlt) hq'
      rw [LabelTable.isSome_of_position? hb] at hnone
      cases hnone
    · rw [hothers q heq] at ha
      by_cases heq' : q' = phase
      · subst heq'
        obtain rfl := Option.some.inj (hplaced.symm.trans hb)
        exact Nat.lt_succ_of_le (h.position?_of_grows hgrows (Nat.lt_trans hlt hq') ha).2
      · rw [hothers q' heq'] at hb
        exact hkept.ordered q q' a b hlt hq' ha hb

end Staged

theorem Answers.isStaged (h : Answers request.run s reply s') (hs : s.InOrder)
    (hstaged : s.IsStaged) : s'.IsStaged := by
  intro id r' hr'
  have hgrows := h.grows
  have hs' := (advances_run _ _ _ _ h).inOrder hs
  have hopen : s'.regions.live.head? = some id → ∀ o, (⟨.closed, id, o⟩ : RegionEvent) ∉
      s'.regions.events := fun hlive =>
    (hs'.history.mem_live_iff.1 (List.mem_of_head? hlive)).2
  cases becomes_of_effect (effect_of_answers h) hr' with
  | kept found labels phase => exact (hstaged id _ found).grows hgrows labels phase
  | opened asked new live first bare placed =>
    exact .of_opened first bare placed hgrows.length_le (hopen live)
  | begun asked found live early reached unfinished others grown placed =>
    exact (hstaged id _ found).of_begun hgrows early reached others grown placed (hopen live)

theorem Runs.isStaged (h : Runs s requests s') (hs : s.InOrder) (hstaged : s.IsStaged) :
    s'.IsStaged := by
  induction h with
  | nil s => exact hstaged
  | cons first rest ih =>
    exact ih ((advances_run _ _ _ _ first).inOrder hs) (first.isStaged hs hstaged)

/-- One of the requests begins this block of the region. -/
def Begins (s₀ : Session) (requests : List Request) (s : Session) (phase : Phase) (id : RegionId) :
    Prop :=
  ∃ before request reply after s₁ s₂, requests = before ++ request :: after ∧
    request.block? = some phase ∧ Runs s₀ before s₁ ∧ Answers request.run s₁ reply s₂ ∧
    Runs s₂ after s ∧ s₂.regions.live.head? = some id

theorem Begins.cons (first : Answers request.run s reply s₁)
    (h : Begins s₁ requests s' phase id) : Begins s (request :: requests) s' phase id := by
  obtain ⟨before, last, reply', after, t, t', rfl, hasks, hbefore, hlast, hafter, hlive⟩ := h
  exact ⟨request :: before, last, reply', after, t, t', rfl, hasks, .cons first hbefore, hlast,
    hafter, hlive⟩

/-- The block of a region that has a label was begun by one of the requests, or before them. -/
theorem Runs.begins_or_found (h : Runs s requests s') (hr : s'.regions.exception? id = some r')
    (hphase : phase < .done) (hsome : (r'.labelOf phase).isSome = true) :
    (∃ r, s.regions.exception? id = some r ∧ (r.labelOf phase).isSome = true) ∨
      Begins s requests s' phase id := by
  induction h with
  | nil s => exact .inl ⟨r', hr, hsome⟩
  | @cons s s₁ s₂ request reply requests first rest ih =>
    rcases ih hr with ⟨r₁, hr₁, hsome₁⟩ | hbegins
    · have hhere : request.block? = some phase → s₁.regions.live.head? = some id →
          Begins s (request :: requests) s₂ phase id := fun hasks hlive =>
        ⟨[], request, reply, requests, s, s₁, rfl, hasks, .nil s, first, rest, hlive⟩
      cases becomes_of_effect (effect_of_answers first) hr₁ with
      | kept found labels phase =>
        rw [labels] at hsome₁
        exact .inl ⟨_, found, hsome₁⟩
      | opened asked new live first bare placed =>
        by_cases hlt : Phase.trying < phase
        · rw [bare phase hlt hphase] at hsome₁
          cases hsome₁
        · cases phase with
          | trying => exact .inr (hhere asked live)
          | _ => exact absurd (by decide) hlt
      | @begun r phase' asked found live early reached unfinished others grown placed =>
        by_cases heq : phase = phase'
        · subst heq
          exact .inr (hhere asked live)
        · rw [others phase heq] at hsome₁
          exact .inl ⟨r, found, hsome₁⟩
    · exact .inr (hbegins.cons first)

/-- A label that a region has it keeps. -/
theorem Answers.labelOf_kept (h : Answers request.run s reply s')
    (hr : s.regions.exception? id = some r) (hsome : (r.labelOf phase).isSome = true) :
    ∃ r', s'.regions.exception? id = some r' ∧ (r'.labelOf phase).isSome = true := by
  obtain ⟨r', hr', -⟩ := (advances_run _ _ _ _ h).exceptions id r hr
  refine ⟨r', hr', ?_⟩
  cases becomes_of_effect (effect_of_answers h) hr' with
  | kept found labels _ =>
    obtain rfl := Option.some.inj (hr.symm.trans found)
    rw [labels]
    exact hsome
  | opened asked new live first bare placed =>
    exact absurd (RegionStack.lt_of_exception? hr) (new ▸ Nat.lt_irrefl _)
  | @begun r₀ phase' asked found live early reached unfinished others grown placed =>
    obtain rfl := Option.some.inj (hr.symm.trans found)
    by_cases heq : phase = phase'
    · exact heq ▸ LabelTable.isSome_of_position? placed
    · rw [others phase heq]
      exact hsome

theorem Runs.labelOf_kept (h : Runs s requests s') (hr : s.regions.exception? id = some r)
    (hsome : (r.labelOf phase).isSome = true) :
    ∃ r', s'.regions.exception? id = some r' ∧ (r'.labelOf phase).isSome = true := by
  induction h generalizing r with
  | nil s => exact ⟨r, hr, hsome⟩
  | cons first rest ih =>
    obtain ⟨r₁, hr₁, hsome₁⟩ := first.labelOf_kept hr hsome
    exact ih hr₁ hsome₁

/-- What the innermost region is after another was put in its place. -/
theorem exception?_of_replace {top : RegionId} {rest : List RegionId}
    (hregions : s'.regions = s.regions.replace top (.exception r'))
    (hfound : s.regions.exception? top = some r) (hbefore : s.regions.live = top :: rest)
    (hlive : s'.regions.live.head? = some id) : s'.regions.exception? id = some r' := by
  have htop : s'.regions.live.head? = some top := by
    rw [hregions]
    exact congrArg List.head? hbefore
  obtain rfl := Option.some.inj (htop.symm.trans hlive)
  rw [hregions, RegionStack.exception?_replace (RegionStack.exception?_eq_some_iff.1 hfound),
    if_pos rfl]
  rfl

/-- The block that a request begins has a label. -/
theorem Answers.labelOf_begun (h : Answers request.run s reply s')
    (hasks : request.block? = some phase) (hlive : s'.regions.live.head? = some id) :
    ∃ r, s'.regions.exception? id = some r ∧ (r.labelOf phase).isSome = true := by
  have hnone : (request.isQuiet || request.target?.isSome || request.closedTarget?.isSome) = true →
      False := fun hnone => by
    rw [Request.block?_eq_none hnone] at hasks
    cases hasks
  cases effect_of_answers h with
  | exceptionBegun operations regions placed unmarked =>
    obtain rfl := Option.some.inj hasks
    rw [regions] at hlive ⊢
    obtain rfl : s.regions.regions.length = id := Option.some.inj hlive
    exact ⟨_, RegionStack.exception?_enter_self .., LabelTable.isSome_of_position? placed⟩
  | catchBegun live found early operations jump regions present placed unmarked =>
    obtain rfl := Option.some.inj hasks
    exact ⟨_, exception?_of_replace regions found live hlive, present⟩
  | finallyBegun live found early operations jump regions present placed unmarked =>
    obtain rfl := Option.some.inj hasks
    exact ⟨_, exception?_of_replace regions found live hlive, present⟩
  | recorded quiet _ _ => exact (hnone (by simp [quiet])).elim
  | targetBegun opens _ _ _ => exact (hnone (by simp [opens])).elim
  | targetEnded closes _ _ _ _ _ _ _ => exact (hnone (by simp [closes])).elim
  | _ => cases hasks

/-- The blocks of the regions of a session are those that its requests begin. -/
theorem begins_iff {kind : SessionKind} {options : Options} {scope : Nat} {bound : List String}
    (h : Runs (start kind options scope bound) requests s) (hphase : phase < .done) :
    Begins (start kind options scope bound) requests s phase id ↔
      ∃ r, s.regions.exception? id = some r ∧ (r.labelOf phase).isSome = true := by
  constructor
  · rintro ⟨before, request, reply, after, s₁, s₂, -, hasks, -, hrequest, hafter, hlive⟩
    obtain ⟨r, hr, hsome⟩ := hrequest.labelOf_begun hasks hlive
    exact hafter.labelOf_kept hr hsome
  · rintro ⟨r, hr, hsome⟩
    rcases h.begins_or_found hr hphase hsome with ⟨r₀, hr₀, -⟩ | hbegins
    · cases hr₀
    · exact hbegins

/-- The stack of protected regions is in use once a protected region was opened. -/
theorem Answers.hasExceptions_iff (h : Answers request.run s reply s') :
    s'.regions.hasExceptions = true ↔
      s.regions.hasExceptions = true ∨ request = .beginException := by
  have hkept : s'.regions.hasExceptions = s.regions.hasExceptions → request ≠ .beginException →
      (s'.regions.hasExceptions = true ↔
        s.regions.hasExceptions = true ∨ request = .beginException) := by
    intro heq hne
    rw [heq]
    exact (or_iff_left hne).symm
  cases effect_of_answers h with
  | recorded quiet recording _ =>
    exact hkept (by rw [recording.regions]) (by rintro rfl; cases quiet)
  | defined recording _ _ => exact hkept (by rw [recording.regions]) nofun
  | marked recording _ _ => exact hkept (by rw [recording.regions]) nofun
  | breakFound recording _ => exact hkept (by rw [recording.regions]) nofun
  | exceptionBegun _ regions _ _ =>
    rw [regions]
    exact iff_of_true (Bool.or_true _) (.inr rfl)
  | scopeBegun _ regions _ _ => exact hkept (by rw [regions]; exact Bool.or_false _) nofun
  | @targetBegun request region opens _ regions _ =>
    have hother : region.exception?.isSome = false := by
      cases request <;> cases opens <;> rfl
    refine hkept ?_ (by rintro rfl; cases opens)
    rw [regions]
    show (_ || _) = _
    rw [hother, Bool.or_false]
  | catchBegun _ _ _ _ _ regions _ _ _ _ => exact hkept (by rw [regions]; rfl) nofun
  | finallyBegun _ _ _ _ _ regions _ _ _ => exact hkept (by rw [regions]; rfl) nofun
  | exceptionEnded _ _ _ _ regions _ _ => exact hkept (by rw [regions]; rfl) nofun
  | scopeEnded _ _ _ regions _ _ => exact hkept (by rw [regions]; rfl) nofun
  | targetEnded closes _ _ _ _ regions _ _ =>
    exact hkept (by rw [regions]; rfl) (by rintro rfl; cases closes)
  | breakNamed _ _ _ _ _ _ _ regions _ => exact hkept (by rw [regions]; rfl) nofun

theorem Runs.hasExceptions_iff (h : Runs s requests s') :
    s'.regions.hasExceptions = true ↔
      s.regions.hasExceptions = true ∨ Request.beginException ∈ requests := by
  induction h with
  | nil s => simp
  | @cons _ _ _ request _ _ first rest ih =>
    rw [ih, first.hasExceptions_iff, List.mem_cons, or_assoc, eq_comm (a := request)]

/-- A session uses the stack of protected regions if and only if it opened one of them. -/
theorem hasExceptions_iff_begins {kind : SessionKind} {options : Options} {scope : Nat}
    {bound : List String} (h : Runs (start kind options scope bound) requests s) :
    s.regions.hasExceptions = true ↔
      ∃ id, Begins (start kind options scope bound) requests s .trying id := by
  rw [h.hasExceptions_iff]
  constructor
  · rintro (hstart | hmem)
    · cases hstart
    · obtain ⟨before, after, rfl⟩ := List.append_of_mem hmem
      obtain ⟨s₁, hbefore, hrest⟩ := h.of_append
      cases hrest with
      | @cons _ s₂ _ _ _ _ first rest =>
        refine ⟨s₁.regions.regions.length, before, _, _, after, s₁, s₂, rfl, rfl, hbefore, first,
          rest, ?_⟩
        cases effect_of_answers first with
        | exceptionBegun _ regions _ _ => rw [regions]; rfl
        | recorded quiet _ _ => cases quiet
        | targetBegun opens _ _ _ => cases opens
        | targetEnded closes _ _ _ _ _ _ _ => cases closes
  · rintro ⟨id, before, request, reply, after, s₁, s₂, rfl, hasks, -⟩
    refine .inr (List.mem_append_right _ ?_)
    cases request with
    | beginException => exact List.mem_cons_self
    | _ => cases hasks

end Session

end Resumable
