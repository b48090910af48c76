import Resumable.Proofs.Session.Searches
import Resumable.Proofs.Session.Wrapping

/-!
# Targets from their first search to the body

All searches that find one region in a session answer alike, and searches that find two regions
never do: the label of a target is new when the first search asks for it, and stays. Once the
target is closed, its label stands where the next operation is recorded, so that is where a jump to
it goes on in the body.
-/

namespace Resumable.Session

variable {kind : SessionKind} {options : Options} {scope : Nat} {bound : List String}
  {s₀ s s' s₁ s₂ : Session} {id : RegionId} {region : Region} {t : BreakTarget} {l : Label}
  {name : Option String} {answer : JumpTarget} {request request' : Request} {reply reply' : Reply}
  {requests : List Request} {forceReturn : Bool} {body : Body}

section Calls

/-- One of the requests, its answer, and the sessions right before and right after it. -/
def Calls (s₀ : Session) (requests : List Request) (s : Session) (request : Request)
    (reply : Reply) (s₁ s₂ : Session) : Prop :=
  ∃ before after, requests = before ++ request :: after ∧ Runs s₀ before s₁ ∧
    Answers request.run s₁ reply s₂ ∧ Runs s₂ after s

/-- One of the requests is a search whose innermost region is this one, and that is its answer. -/
def Lands (property : Option String → Region → Prop) (search : Option String → Request)
    (s₀ : Session) (requests : List Request) (s : Session) (id : RegionId) (answer : JumpTarget) :
    Prop :=
  ∃ name s₁ s₂ region, Calls s₀ requests s (search name) (.target answer) s₁ s₂ ∧
    s₁.regions.Innermost (property name) id region

/-- One of the requests closes the region. -/
def Closes (s₀ : Session) (requests : List Request) (s : Session) (id : RegionId)
    (s₁ s₂ : Session) : Prop :=
  ∃ request reply, Calls s₀ requests s request reply s₁ s₂ ∧ id ∈ s₁.regions.live ∧
    id ∉ s₂.regions.live

theorem Calls.head (first : Answers request.run s reply s₁) (rest : Runs s₁ requests s') :
    Calls s (request :: requests) s' request reply s s₁ :=
  ⟨[], requests, rfl, .nil s, first, rest⟩

theorem Calls.cons (first : Answers request.run s₀ reply s)
    (h : Calls s requests s' request' reply' s₁ s₂) :
    Calls s₀ (request :: requests) s' request' reply' s₁ s₂ := by
  obtain ⟨before, after, rfl, hbefore, hcall, hafter⟩ := h
  exact ⟨request :: before, after, rfl, .cons first hbefore, hcall, hafter⟩

theorem Lands.cons {property : Option String → Region → Prop}
    {search : Option String → Request} (first : Answers request.run s₀ reply s)
    (h : Lands property search s requests s' id answer) :
    Lands property search s₀ (request :: requests) s' id answer := by
  obtain ⟨name, s₁, s₂, region, hcall, hin⟩ := h
  exact ⟨name, s₁, s₂, region, hcall.cons first, hin⟩

end Calls

section Labels

/-- The labels of the targets: a native target has none, and no two targets have the same. -/
structure Targeted (s : Session) : Prop where
  native : ∀ i t, s.regions.target? i = some t → t.native = true → t.label.isSome = false
  defined : ∀ i t, s.regions.target? i = some t → t.label.isSome = true → s.IsDefined t.label
  apart : ∀ i j t u, s.regions.target? i = some t → s.regions.target? j = some u →
    t.label.isSome = true → t.label = u.label → i = j

theorem targeted_start (kind : SessionKind) (options : Options) (scope : Nat)
    (bound : List String) : (start kind options scope bound).Targeted where
  native _ _ ht := by cases ht
  defined _ _ ht := by cases ht
  apart _ _ _ _ ht := by cases ht

theorem Answers.targeted (h : Answers request.run s reply s') (hs : s.IsSound)
    (htargeted : s.Targeted) : s'.Targeted := by
  have hkept := (keeps_run request s s' (.of_answers h) hs).defined
  refine ⟨fun i t ht hnative => ?_, fun i t ht hsome => ?_, fun i j t u ht hu hsome heq => ?_⟩
  · rcases (h.affects i).of_target? ht with hold | hnone | ⟨hdispatched, -⟩
    · exact htargeted.native i t hold hnative
    · exact hnone
    · rw [hnative] at hdispatched
      cases hdispatched
  · rcases (h.affects i).of_target? ht with hold | hnone | ⟨-, -, hdefined, -⟩
    · exact hkept _ (htargeted.defined i t hold hsome)
    · rw [hnone] at hsome
      cases hsome
    · exact hdefined
  · have husome : u.label.isSome = true := heq ▸ hsome
    rcases (h.affects i).of_target? ht with hold | hnone | ⟨-, hfresh, -, name, rfl, -, hsought⟩
    · rcases (h.affects j).of_target? hu with hold' | hnone' | ⟨-, hfresh', -⟩
      · exact htargeted.apart i j t u hold hold' hsome heq
      · rw [hnone'] at husome
        cases husome
      · exact absurd (heq ▸ htargeted.defined i t hold hsome) hfresh'
    · rw [hnone] at hsome
      cases hsome
    · rcases (h.affects j).of_target? hu with hold' | hnone' | ⟨-, -, -, name', hname, -, hsought'⟩
      · exact absurd (heq ▸ htargeted.defined j u hold' husome) hfresh
      · rw [hnone'] at husome
        cases husome
      · -- one search gives a label to one region only
        obtain rfl := Request.findBreakTarget.inj hname
        exact Option.some.inj (hsought.symm.trans hsought')

theorem Runs.targeted (h : Runs s requests s') (hs : s.IsSound) (htargeted : s.Targeted) :
    s'.IsSound ∧ s'.Targeted := by
  induction h with
  | nil s => exact ⟨hs, htargeted⟩
  | cons first rest ih =>
    exact ih (keeps_run _ _ _ (.of_answers first) hs).sound (first.targeted hs htargeted)

/-- A target keeps its label, and all else that is known of it. -/
theorem Runs.target? (h : Runs s requests s') (ht : s.regions.target? id = some t) :
    ∃ label, s'.regions.target? id = some { t with label } ∧
      (t.label.isSome = true → label = t.label) := by
  induction h generalizing t with
  | nil s => exact ⟨t.label, ht, fun _ => rfl⟩
  | cons first rest ih =>
    obtain ⟨label, ht₁, hlabel, -⟩ := (first.affects id).target? ht
    obtain ⟨label', ht', hlabel'⟩ := ih ht₁
    refine ⟨label', ht', fun hsome => ?_⟩
    obtain rfl := hlabel hsome
    exact hlabel' hsome

theorem Runs.loop? (h : Runs s requests s') (hloop : s.regions.loop? id = some (t, l)) :
    ∃ label, s'.regions.loop? id = some ({ t with label }, l) := by
  induction h generalizing t with
  | nil s => exact ⟨t.label, hloop⟩
  | cons first rest ih =>
    obtain ⟨label, hloop₁⟩ := (first.affects id).loop? hloop
    obtain ⟨label', hloop'⟩ := ih hloop₁
    exact ⟨label', hloop'⟩

/-- A closed region is not opened again. -/
theorem Answers.not_mem_live (h : Answers request.run s reply s') (hs : s.InOrder)
    (hid : id < s.regions.regions.length) (hclosed : id ∉ s.regions.live) :
    id ∉ s'.regions.live := by
  have hs' := (advances_run request s reply s' h).inOrder hs
  obtain ⟨late, hlate, -⟩ := h.grows.events
  rw [hs.history.mem_live_iff] at hclosed
  rw [hs'.history.mem_live_iff]
  rintro ⟨-, hopen⟩
  refine hclosed ⟨hid, fun o ho => hopen o ?_⟩
  rw [hlate]
  exact List.mem_append_left _ ho

/-- Nothing happens to a target once it is closed. -/
theorem Runs.target?_of_closed (h : Runs s requests s') (hs : s.InOrder)
    (hclosed : id ∉ s.regions.live) (ht : s.regions.target? id = some t) :
    s'.regions.target? id = some t := by
  induction h with
  | nil s => exact ht
  | cons first rest ih =>
    obtain ⟨label, ht₁, -, hlabel⟩ := (first.affects id).target? ht
    obtain rfl := hlabel hclosed
    exact ih ((advances_run _ _ _ _ first).inOrder hs)
      (first.not_mem_live hs (RegionStack.lt_of_target? ht) hclosed) ht₁

/-- The label of a target was there before, or some search asked for it. -/
theorem Runs.exists_lands (h : Runs s requests s') (ht : s'.regions.target? id = some t)
    (hsome : t.label.isSome = true) : s.regions.target? id = some t ∨
      t.native = false ∧
        ∃ answer, Lands Region.LeftBy .findBreakTarget s requests s' id answer := by
  induction h with
  | nil s => exact .inl ht
  | cons first rest ih =>
    rcases ih ht with ht₁ | ⟨hdispatched, answer, hlands⟩
    · rcases (first.affects id).of_target? ht₁ with hold | hnone |
        ⟨hdispatched, -, -, name, rfl, rfl, hsought⟩
      · exact .inl hold
      · rw [hnone] at hsome
        cases hsome
      · obtain ⟨region, hin⟩ := RegionStack.breakTarget?_eq_some_iff.1 hsought
        exact .inr ⟨hdispatched, _, name, _, _, region, .head first rest, hin⟩
    · exact .inr ⟨hdispatched, answer, hlands.cons first⟩

end Labels

section Landing

theorem Answers.findBreakTarget_eq (h : Answers (findBreakTarget name) s answer s')
    (htargeted : s.Targeted) (hin : s.regions.Innermost (Region.LeftBy name) id region)
    (ht : region.breakTarget? = some t) : ∃ label, answer = t.answer label ∧
      s'.regions.target? id = some { t with label } ∧ (t.native = false → label.isSome = true) := by
  obtain ⟨r, r', hperform⟩ := h
  have htarget := (RegionStack.target?_of_get? hin.found).trans ht
  obtain ⟨s₁, label, hperform', hafter, hpresent, -⟩ :=
    perform_findBreakTarget hin ht (htargeted.defined id t htarget) r
  obtain ⟨hanswer, hsession⟩ := Prod.mk.inj (hperform.symm.trans hperform')
  obtain ⟨rfl, -⟩ := Prod.mk.inj hsession
  exact ⟨label, Except.ok.inj hanswer, hafter, hpresent⟩

/-- Every search for the target of a `break` answers as the region in the end says. -/
theorem Lands.left (h : Lands Region.LeftBy .findBreakTarget s₀ requests s id answer)
    (hs₀ : s₀.IsSound) (htargeted : s₀.Targeted) : ∃ t, s.regions.target? id = some t ∧
      answer = t.answer t.label ∧ (t.native = false → t.label.isSome = true) := by
  obtain ⟨name, s₁, s₂, region, ⟨before, after, rfl, hbefore, hcall, hafter⟩, hin⟩ := h
  obtain ⟨answer', hsearch, heq⟩ := Answers.of_reply hcall
  obtain rfl := Reply.target.inj heq
  obtain ⟨t, ht, -⟩ := hin.holds
  obtain ⟨label, rfl, ht₂, hpresent⟩ :=
    hsearch.findBreakTarget_eq (hbefore.targeted hs₀ htargeted).2 hin ht
  obtain ⟨last, hlast, hkept⟩ := hafter.target? ht₂
  refine ⟨_, hlast, ?_, fun hdispatched => ?_⟩
  · by_cases hnative : t.native = true
    · exact (if_pos hnative).trans (if_pos hnative).symm
    · obtain rfl := hkept (hpresent (by simpa using hnative))
      rfl
  · obtain rfl := hkept (hpresent hdispatched)
    exact hpresent hdispatched

/-- Every search for a loop answers as the loop says. -/
theorem Lands.restarted
    (h : Lands Region.RestartedBy .findContinueTarget s₀ requests s id answer) :
    ∃ t l, s.regions.loop? id = some (t, l) ∧ answer = t.answer l := by
  obtain ⟨name, s₁, s₂, region, ⟨before, after, rfl, hbefore, hcall, hafter⟩, hin⟩ := h
  obtain ⟨answer', hsearch, heq⟩ := Answers.of_reply hcall
  obtain rfl := Reply.target.inj heq
  obtain ⟨t, l, hloop, -⟩ := hin.holds
  have hloop₁ := (RegionStack.loop?_of_get? hin.found).trans hloop
  obtain ⟨label, hlast⟩ := (Runs.cons hcall hafter).loop? hloop₁
  have hanswer := hsearch.findContinueTarget_eq hin hloop
  exact ⟨_, l, hlast, hanswer⟩

end Landing

section Closing

/-- When a target is closed, its label is marked before the operation that is recorded next. -/
theorem Answers.position?_of_closed (h : Answers request.run s reply s')
    (hopen : id ∈ s.regions.live) (hclosed : id ∉ s'.regions.live)
    (ht : s.regions.target? id = some t) : s'.recorder.operations = s.recorder.operations ∧
      s'.regions.target? id = some t ∧ (t.native = false → t.label.isSome = true →
        s'.labels.position? t.label = some s.recorder.operations.length) := by
  have hstill : ∀ {u : RegionStack}, s'.regions = u → id ∈ u.live → False := fun heq hid =>
    hclosed (heq ▸ hid)
  have hlast : ∀ {i : RegionId} {rest : List RegionId}, s.regions.live = i :: rest →
      s'.regions.live = rest → id = i := fun hlive hrest =>
    (List.mem_cons.1 (hlive ▸ hopen)).resolve_right fun hid => hclosed (hrest ▸ hid)
  cases effect_of_answers h with
  | recorded quiet recording unmarked => exact (hstill recording.regions hopen).elim
  | defined recording fresh unmarked => exact (hstill recording.regions hopen).elim
  | marked recording known unmarked => exact (hstill recording.regions hopen).elim
  | breakFound recording unmarked landed => exact (hstill recording.regions hopen).elim
  | exceptionBegun operations regions placed unmarked =>
    exact (hstill regions (List.mem_cons_of_mem _ hopen)).elim
  | scopeBegun operations regions placed unmarked =>
    exact (hstill regions (List.mem_cons_of_mem _ hopen)).elim
  | targetBegun opens operations regions labels =>
    exact (hstill regions (List.mem_cons_of_mem _ hopen)).elim
  | catchBegun live found early operations jump regions present placed unmarked assigned =>
    exact (hstill regions hopen).elim
  | finallyBegun live found early operations jump regions present placed unmarked =>
    exact (hstill regions hopen).elim
  | breakNamed live found asked dispatched unnamed present operations regions unmarked sought =>
    exact (hstill regions hopen).elim
  | exceptionEnded live found operations last regions placed unmarked =>
    obtain rfl := hlast live (by rw [regions]; rfl)
    rw [RegionStack.target?_of_get? (RegionStack.exception?_eq_some_iff.1 found)] at ht
    cases ht
  | scopeEnded live found operations regions placed unmarked =>
    obtain rfl := hlast live (by rw [regions]; rfl)
    rw [RegionStack.target?_of_get? found] at ht
    cases ht
  | targetEnded closes live found ofKind operations regions placed unmarked =>
    obtain rfl := hlast live (by rw [regions]; rfl)
    have htarget := (RegionStack.target?_of_get? found).symm.trans ht
    refine ⟨operations, ?_, fun hdispatched hsome => placed _ ?_⟩
    · rw [regions]
      exact ht
    · rw [Region.owed_of_target htarget hdispatched, if_pos hsome]
      exact List.mem_singleton_self _

/-- A region that is closed in the end was closed by one of the requests. -/
theorem Runs.exists_closes (h : Runs s requests s')
    (hfirst : id ∈ s.regions.live ∨ s.regions.regions.length ≤ id)
    (hid : id < s'.regions.regions.length) (hclosed : id ∉ s'.regions.live) :
    ∃ s₁ s₂, Closes s requests s' id s₁ s₂ := by
  induction h with
  | nil s => exact absurd hid (Nat.not_lt.2 (hfirst.resolve_left hclosed))
  | @cons s s₁ s' request reply requests first rest ih =>
    by_cases hnext : id ∈ s₁.regions.live ∨ s₁.regions.regions.length ≤ id
    · obtain ⟨t₁, t₂, request', reply', hcall, hends⟩ := ih hnext hid hclosed
      exact ⟨t₁, t₂, request', reply', hcall.cons first, hends⟩
    · obtain ⟨hgone, hlt⟩ := not_or.1 hnext
      refine ⟨s, s₁, request, reply, .head first rest, hfirst.resolve_right fun hle => ?_, hgone⟩
      obtain ⟨region, hget⟩ : ∃ region, s₁.regions.get? id = some region :=
        ⟨_, List.getElem?_eq_getElem (Nat.lt_of_not_le hlt)⟩
      have hnone : s.regions.get? id = none := List.getElem?_eq_none hle
      cases first.affects id with
      | kept same =>
        rw [same, hnone] at hget
        cases hget
      | moved found after =>
        rw [hnone] at found
        cases found
      | opened new after live bare => exact hgone live
      | labelled live sought found asked dispatched unnamed after fresh defined =>
        rw [hnone] at found
        cases found

/-- What is a target in the end was one while it was open. -/
theorem Runs.exists_target? (h : Runs s requests s') (ht : s'.regions.target? id = some t)
    (hid : id < s.regions.regions.length) : ∃ t, s.regions.target? id = some t := by
  induction h with
  | nil s => exact ⟨t, ht⟩
  | cons first rest ih =>
    obtain ⟨t₁, ht₁⟩ := ih ht (Nat.lt_of_lt_of_le hid first.grows.regions)
    cases first.affects id with
    | kept same =>
      refine ⟨t₁, ?_⟩
      rw [RegionStack.target?, ← same]
      exact ht₁
    | moved found after =>
      rw [RegionStack.target?_of_get? after] at ht₁
      cases ht₁
    | opened new after live bare => exact absurd hid (new ▸ Nat.lt_irrefl _)
    | labelled live sought found asked dispatched unnamed after fresh defined =>
      exact ⟨_, (RegionStack.target?_of_get? found).trans asked⟩

/-- The label of a target that was closed is where the operations had come to. -/
theorem Closes.position? (h : Closes s₀ requests s id s₁ s₂) (hs₀ : s₀.InOrder)
    (ht : s.regions.target? id = some t) (hdispatched : t.native = false)
    (hsome : t.label.isSome = true) : s₂.recorder.operations = s₁.recorder.operations ∧
      s.labels.position? t.label = some s₂.recorder.operations.length := by
  obtain ⟨request, reply, ⟨before, after, rfl, hbefore, hcall, hafter⟩, hopen, hclosed⟩ := h
  have hs₁ := hbefore.advance.inOrder hs₀
  have hs₂ := (advances_run _ _ _ _ hcall).inOrder hs₁
  obtain ⟨t₁, ht₁⟩ := (Runs.cons hcall hafter).exists_target? ht (hs₁.history.region_lt.2 id hopen)
  obtain ⟨hops, ht₂, hposition⟩ := hcall.position?_of_closed hopen hclosed ht₁
  -- the label is the one the target had when it was closed
  obtain rfl := Option.some.inj (ht.symm.trans (hafter.target?_of_closed hs₂ hclosed ht₂))
  refine ⟨hops, hafter.grows.labels _ _ ?_⟩
  rw [hops]
  exact hposition hdispatched hsome

end Closing

/-- Where a label that was marked is in the body: a case begins there, so its first statement is
that of the operation the label stands before. -/
theorem exists_case_of_position? (hkind : kind.mode = .stateMachine)
    (hruns : Runs (start kind options scope bound) requests s)
    (hbuild : Answers (buildStatements forceReturn) s body s') :
    ∃ state p entered scopes, p = s'.plan state forceReturn ∧ p.build = .ok body ∧
      p.LaidOut body entered scopes ∧ p.operations = s.recorder.operations ∧
      ∀ l n, s.labels.position? l = some n → ∃ k ≤ p.cuts.length, p.caseOf? l = some k ∧
        p.bound k = n ∧
        (∀ x, p.operations[n]? = some x → x.Translates p.comments (p.statement x) ∧
          (p.content k)[0]? = some (p.statement x)) ∧
        p.placed (.returnTuple p.comments 3 "break" (some (.labelRef l))) =
          .returnTuple p.comments 3 "break" (some (.number (toString k))) := by
  obtain ⟨state, p, hp, hb, hsplits, hregions, hlive, hlabels, hlaid⟩ :=
    exists_plan hkind hruns hbuild
  have hops : p.operations = s.recorder.operations := by
    rw [hp]
    exact operations_of_buildStatements hbuild
  refine ⟨state, p, _, _, hp, hb, Body.Plan.laidOut_of_build_eq_ok hlaid hlive hsplits hb, hops,
    fun l n hl => ?_⟩
  have hposition := hlabels l n hl
  obtain ⟨hcase, hcut⟩ := Body.Plan.case_of_position? hlaid hposition
  have hbound := Body.Plan.bound_caseAt hcut
  refine ⟨p.caseAt n, Body.Plan.caseAt_le_length_cuts (hlaid.marked l n hposition), hcase, hbound,
    fun x hx => ⟨Recorded.translates_statement _ _, ?_⟩,
    Body.Plan.placed_jumpTo_of_caseOf? hcase⟩
  have hcontent := Body.Plan.getElem?_content (List.getElem?_eq_some_iff.1 hx).1
  rw [hbound, Nat.sub_self, hx] at hcontent
  exact hcontent

/-- Where `break` and `continue` go, at any point of a session. A search for the target of a
`break` finds the innermost open target that goes by the name. It answers that the jump stays as it
is if the target is native, and otherwise with the label of the target, which it has from then on.
So a target has a label if and only if it is not native and a search found it; all searches that
found it answered the same, and those that found another target never answered with its label. A
search for a loop finds the innermost open loop in the same way, and answers with the label that
restarts it. The label of a target that was closed stands where the operations had come to then, so
in a body a jump to it goes on in the case that begins with the first operation recorded
afterwards, or at the end. -/
theorem searches_of_runs (hkind : kind.mode = .stateMachine)
    (hruns : Runs (start kind options scope bound) requests s) :
    s.Searchable ∧
    (∀ id answer, Lands Region.LeftBy .findBreakTarget (start kind options scope bound) requests s
        id answer →
      ∃ t, s.regions.target? id = some t ∧ answer = t.answer t.label) ∧
    (∀ id t, s.regions.target? id = some t →
      (t.label.isSome = true ↔ t.native = false ∧ ∃ answer,
        Lands Region.LeftBy .findBreakTarget (start kind options scope bound) requests s
          id answer)) ∧
    (∀ id id' l, Lands Region.LeftBy .findBreakTarget (start kind options scope bound) requests s
        id (.label l) →
      Lands Region.LeftBy .findBreakTarget (start kind options scope bound) requests s
        id' (.label l) → id = id') ∧
    (∀ id answer, Lands Region.RestartedBy .findContinueTarget (start kind options scope bound)
        requests s id answer →
      ∃ t l, s.regions.loop? id = some (t, l) ∧ answer = t.answer l) ∧
    (∀ id t, s.regions.target? id = some t → t.label.isSome = true →
      (id ∉ s.regions.live →
        ∃ s₁ s₂, Closes (start kind options scope bound) requests s id s₁ s₂) ∧
      ∀ s₁ s₂, Closes (start kind options scope bound) requests s id s₁ s₂ →
        s₂.recorder.operations = s₁.recorder.operations ∧
        s.labels.position? t.label = some s₂.recorder.operations.length) ∧
    ∀ forceReturn body s', Answers (buildStatements forceReturn) s body s' →
      ∃ state p entered scopes, p = s'.plan state forceReturn ∧ p.build = .ok body ∧
        p.LaidOut body entered scopes ∧ p.operations = s.recorder.operations ∧
        ∀ id t s₁ s₂, s.regions.target? id = some t → t.label.isSome = true →
          Closes (start kind options scope bound) requests s id s₁ s₂ →
          ∃ k ≤ p.cuts.length, p.caseOf? t.label = some k ∧
            p.bound k = s₂.recorder.operations.length ∧
            (∀ x, p.operations[s₂.recorder.operations.length]? = some x →
              x.Translates p.comments (p.statement x) ∧
              (p.content k)[0]? = some (p.statement x)) ∧
            p.placed (.returnTuple p.comments 3 "break" (some (.labelRef t.label))) =
              .returnTuple p.comments 3 "break" (some (.number (toString k))) := by
  have hsound := isSound_start kind options scope bound
  have hstart := targeted_start kind options scope bound
  have hordered := inOrder_start kind options scope bound
  obtain ⟨-, htargeted⟩ := hruns.targeted hsound hstart
  have hplaced : ∀ {id : RegionId} {t : BreakTarget} {s₁ s₂ : Session},
      s.regions.target? id = some t → t.label.isSome = true →
      Closes (start kind options scope bound) requests s id s₁ s₂ →
      s₂.recorder.operations = s₁.recorder.operations ∧
        s.labels.position? t.label = some s₂.recorder.operations.length := by
    intro id t s₁ s₂ ht hsome hcloses
    refine hcloses.position? hordered ht (Bool.eq_false_iff.2 fun hnative => ?_) hsome
    rw [htargeted.native _ _ ht hnative] at hsome
    cases hsome
  refine ⟨searchable_of_defined htargeted.defined, fun id answer hlands => ?_, fun id t ht => ?_,
    fun id id' l hlands hlands' => ?_, fun id answer hlands => hlands.restarted,
    fun id t ht hsome => ⟨fun hclosed => ?_, fun s₁ s₂ hcloses => hplaced ht hsome hcloses⟩,
    fun forceReturn body s' hbuild => ?_⟩
  · obtain ⟨t, ht, hanswer, -⟩ := hlands.left hsound hstart
    exact ⟨t, ht, hanswer⟩
  · constructor
    · intro hsome
      exact (hruns.exists_lands ht hsome).resolve_left fun hfirst => by cases hfirst
    · rintro ⟨hdispatched, answer, hlands⟩
      obtain ⟨t', ht', -, hpresent⟩ := hlands.left hsound hstart
      obtain rfl := Option.some.inj (ht.symm.trans ht')
      exact hpresent hdispatched
  · obtain ⟨t, ht, hanswer, hpresent⟩ := hlands.left hsound hstart
    obtain ⟨u, hu, hanswer', -⟩ := hlands'.left hsound hstart
    obtain ⟨hdispatched, hlabel⟩ := BreakTarget.of_answer_eq_label hanswer.symm
    obtain ⟨-, hlabel'⟩ := BreakTarget.of_answer_eq_label hanswer'.symm
    exact htargeted.apart id id' t u ht hu (hpresent hdispatched) (hlabel.trans hlabel'.symm)
  · exact hruns.exists_closes (.inr (Nat.zero_le _)) (RegionStack.lt_of_target? ht) hclosed
  · obtain ⟨state, p, entered, scopes, hp, hb, hout, hops, hcases⟩ :=
      exists_case_of_position? hkind hruns hbuild
    exact ⟨state, p, entered, scopes, hp, hb, hout, hops, fun id t s₁ s₂ ht hsome hcloses =>
      hcases t.label _ (hplaced ht hsome hcloses).2⟩

/-- A loop that is left from inside a native block, and once more after it. -/
def leaving : List Request :=
  [.defineLabel, .markLabel ⟨1⟩, .beginLoop ⟨1⟩ ["outer"], .beginNativeBreakable [] false,
    .findBreakTarget none, .findBreakTarget (some "outer"), .endNativeBreakable,
    .emit (.jumpIfTrue ⟨2⟩ (.identifier "done")), .emit (.yield none), .findBreakTarget none,
    .findContinueTarget (some "outer"), .emit (.jump ⟨1⟩)]

theorem searches_leaving : ∃ s body s' state p t answer,
    Runs (start .generator {} 0 []) (leaving ++ .endLoop :: [.emit (.yield none)]) s ∧
      Answers (buildStatements true) s body s' ∧ p = s'.plan state true ∧
      s.regions.target? 0 = some t ∧
      Lands Region.LeftBy .findBreakTarget (start .generator {} 0 [])
        (leaving ++ .endLoop :: [.emit (.yield none)]) s 0 answer ∧ answer = t.answer t.label ∧
      s.labels.position? t.label = some 3 ∧
      ∃ k, p.caseOf? t.label = some k ∧ p.bound k = 3 := by
  have hcheck : (runAll (start .generator {} 0 []) {} leaving).any (fun x =>
      decide (0 ∈ x.1.regions.live ∧ x.1.recorder.operations.length = 3) &&
      (runAll x.1 x.2 [.endLoop]).any fun y => decide (0 ∉ y.1.regions.live) &&
        (lower y.1 y.2 [.emit (.yield none)] true).any fun z =>
          (z.1.regions.target? 0).any fun t => t.label.isSome) = true := by
    decide +kernel
  obtain ⟨⟨s₁, r₁⟩, hfirst, hrest⟩ := (Option.any_eq_true _ _).1 hcheck
  obtain ⟨hbefore, hrest⟩ := Bool.and_eq_true_iff.1 hrest
  obtain ⟨hopen, hlen⟩ := of_decide_eq_true hbefore
  obtain ⟨⟨s₂, r₂⟩, hend, hrest⟩ := (Option.any_eq_true _ _).1 hrest
  obtain ⟨hclosed, hrest⟩ := Bool.and_eq_true_iff.1 hrest
  obtain ⟨⟨s, body, s'⟩, hlower, hlast⟩ := (Option.any_eq_true _ _).1 hrest
  obtain ⟨t, ht, hsome⟩ := (Option.any_eq_true _ _).1 hlast
  obtain ⟨hafter, hbuild⟩ := of_lower hlower
  have hruns := runs_of_runAll hfirst
  cases runs_of_runAll hend with
  | @cons _ _ _ _ reply _ hcall hnil =>
    cases hnil with
    | nil =>
      have hall := hruns.append (.cons hcall hafter)
      obtain ⟨-, hanswers, hlabels, -, -, hends, hbody⟩ := searches_of_runs rfl hall
      have hcloses : Closes (start .generator {} 0 [])
          (leaving ++ .endLoop :: [.emit (.yield none)]) s 0 s₁ s₂ :=
        ⟨_, reply, ⟨_, _, rfl, hruns, hcall, hafter⟩, hopen, of_decide_eq_true hclosed⟩
      obtain ⟨-, answer, hlands⟩ := (hlabels 0 t ht).1 hsome
      obtain ⟨u, hu, hanswer⟩ := hanswers 0 answer hlands
      obtain rfl := Option.some.inj (ht.symm.trans hu)
      obtain ⟨hsame, hposition⟩ := (hends 0 t ht hsome).2 s₁ s₂ hcloses
      obtain ⟨state, p, -, -, hp, -, -, -, hcases⟩ := hbody true body s' hbuild
      obtain ⟨k, -, hcase, hbound, -⟩ := hcases 0 t s₁ s₂ ht hsome hcloses
      rw [hsame, hlen] at hposition hbound
      exact ⟨s, body, s', state, p, t, answer, hall, hbuild, hp, ht, hlands, hanswer, hposition,
        k, hcase, hbound⟩

end Resumable.Session
