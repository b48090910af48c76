import Resumable.Proofs.Session.Nameless
import Resumable.Proofs.Session.Stages

/-!
# Where the blocks of a protected region meet

A protected region moves through its phases as its blocks begin and as it is closed, and never
back. What ends a block stands right before the label of what comes next: a jump past the whole
region, or the instruction that goes on with what was pending. So control does not run from one
block into the next, whatever else the driver recorded in between.
-/

namespace Resumable.Session

variable {kind : SessionKind} {options : Options} {scope : Nat} {bound : List String}
  {s s' s₁ : Session} {id : RegionId} {r r' : ExceptionRegion} {request : Request}
  {requests requests' : List Request} {reply : Reply} {l : Label} {op : Operation}

theorem nameless_remembers : Nameless Remembers :=
  .of_eq (fun _ _ hstate _ _ h => hstate.trans h) fun h h' name hname => h' name (h name hname)

/-- No request changes the name of the state once there is one. -/
theorem remembers_run (request : Request) : Across Remembers request.run :=
  nameless_remembers.run_of_tolerant tolerant_remembers request

/-- The operation right before a label. -/
def Before (s : Session) (l : Label) (op : Operation) : Prop :=
  ∃ a x, s.labels.position? l = some (a + 1) ∧ s.recorder.operations[a]? = some x ∧
    x.operation = op

/-- The operation that a label stands before. -/
def At (s : Session) (l : Label) (op : Operation) : Prop :=
  ∃ a x, s.labels.position? l = some a ∧ s.recorder.operations[a]? = some x ∧ x.operation = op

/-- An operation stays where it is. -/
theorem Grows.getElem? (h : Grows s s') {a : Nat} {x : Recorded}
    (hx : s.recorder.operations[a]? = some x) : s'.recorder.operations[a]? = some x := by
  obtain ⟨more, hmore⟩ := h.operations
  rw [hmore, List.getElem?_append_left (List.getElem?_eq_some_iff.1 hx).1]
  exact hx

theorem Before.grows (h : s.Before l op) (hgrows : Grows s s') : s'.Before l op := by
  obtain ⟨a, x, ha, hx, hop⟩ := h
  exact ⟨a, x, hgrows.labels _ _ ha, hgrows.getElem? hx, hop⟩

theorem At.grows (h : s.At l op) (hgrows : Grows s s') : s'.At l op := by
  obtain ⟨a, x, ha, hx, hop⟩ := h
  exact ⟨a, x, hgrows.labels _ _ ha, hgrows.getElem? hx, hop⟩

/-- How far a protected region has come by its handlers and by whether it is open, and what stands
where its blocks meet. -/
structure Arranged (s : Session) (id : RegionId) (r : ExceptionRegion) : Prop where
  phase : r.phase =
    if id ∈ s.regions.live then
      if r.finallyLabel.isSome then .finishing
      else if r.catchLabel.isSome then .catching
      else .trying
    else .done
  caught : r.catchLabel.isSome = true → s.Before r.catchLabel (.jump r.stop) ∧
    ∃ name state, r.catchVariable = some name ∧ s.state = some state ∧
      s.At r.catchLabel (.assign (.identifier name) (StateField.error.of state))
  finished : r.finallyLabel.isSome = true → s.Before r.finallyLabel (.jump r.stop)
  ended : id ∉ s.regions.live →
    s.Before r.stop (if r.finallyLabel.isSome then .endFinally else .jump r.stop)

def IsArranged (s : Session) : Prop := ∀ id r, s.regions.exception? id = some r → Arranged s id r

namespace Arranged

/-- Nothing else moves a region. -/
theorem grows (h : Arranged s id r) (hgrows : Grows s s') (hstate : Remembers s s')
    (hlive : id ∈ s'.regions.live ↔ id ∈ s.regions.live) : Arranged s' id r where
  phase := by
    rw [h.phase]
    exact if_congr hlive.symm rfl rfl
  caught hsome := by
    obtain ⟨hbefore, name, state, hname, hstated, hat⟩ := h.caught hsome
    exact ⟨hbefore.grows hgrows, name, state, hname, hstate _ hstated, hat.grows hgrows⟩
  finished hsome := (h.finished hsome).grows hgrows
  ended hclosed := (h.ended fun hid => hclosed (hlive.2 hid)).grows hgrows

theorem phase_of_live (h : Arranged s id r) (hid : id ∈ s.regions.live) : r.phase =
    if r.finallyLabel.isSome then .finishing
    else if r.catchLabel.isSome then .catching
    else .trying := h.phase.trans (if_pos hid)

/-- An open region without a finally block is not in that phase. -/
theorem lt_finishing_iff (h : Arranged s id r) (hid : id ∈ s.regions.live) :
    r.phase < .finishing ↔ r.finallyLabel.isSome = false := by
  rw [h.phase_of_live hid]
  cases r.finallyLabel.isSome <;> cases r.catchLabel.isSome <;> decide

theorem lt_catching_iff (h : Arranged s id r) (hid : id ∈ s.regions.live) :
    r.phase < .catching ↔ r.finallyLabel.isSome = false ∧ r.catchLabel.isSome = false := by
  rw [h.phase_of_live hid]
  cases r.finallyLabel.isSome <;> cases r.catchLabel.isSome <;> decide

/-- The operation that was recorded first is right before a label marked after it. -/
theorem before_of_append {x : Recorded} {more : List Recorded}
    (hops : s'.recorder.operations = s.recorder.operations ++ x :: more)
    (hplaced : s'.labels.position? l = some (s.recorder.operations.length + 1)) :
    s'.Before l x.operation := by
  refine ⟨s.recorder.operations.length, x, hplaced, ?_, rfl⟩
  rw [hops, List.getElem?_append_right (Nat.le_refl _), Nat.sub_self]
  rfl

theorem of_opened {start stop : Label} (hid : id ∈ s.regions.live) :
    Arranged s id { start, stop } where
  phase := (if_pos hid).symm
  caught hsome := by cases hsome
  finished hsome := by cases hsome
  ended hclosed := absurd hid hclosed

/-- The catch block begins: a jump past the whole was recorded, and after the label of the block
the assignment of the catch variable. -/
theorem of_catchBegun {name state : String} {x y : Recorded} (h : Arranged s id r)
    (hopen : id ∈ s.regions.live) (hlive : s'.regions.live = s.regions.live)
    (early : r.phase < .catching)
    (operations : s'.recorder.operations = s.recorder.operations ++ [x, y])
    (jump : x.operation = .jump r.stop) (present : l.isSome = true)
    (placed : s'.labels.position? l = some (s.recorder.operations.length + 1))
    (stated : s'.state = some state)
    (assigned : y.operation = .assign (.identifier name) (StateField.error.of state)) :
    Arranged s' id { r with phase := .catching, catchVariable := some name, catchLabel := l } := by
  obtain ⟨hfinally, -⟩ := (h.lt_catching_iff hopen).1 early
  refine ⟨?_, fun _ => ⟨?_, name, state, rfl, stated, ?_⟩, fun hsome => ?_, fun hclosed => ?_⟩
  · rw [hlive, if_pos hopen]
    simp only [hfinally, present]
    rfl
  · exact jump ▸ before_of_append operations placed
  · refine ⟨_, y, placed, ?_, assigned⟩
    rw [operations, List.getElem?_append_right (Nat.le_add_right _ 1), Nat.add_sub_cancel_left]
    rfl
  · rw [show r.finallyLabel.isSome = true from hsome] at hfinally
    cases hfinally
  · exact absurd (hlive ▸ hopen) hclosed

/-- The finally block begins, after a jump past the whole. -/
theorem of_finallyBegun {x : Recorded} (h : Arranged s' id r) (hopen : id ∈ s'.regions.live)
    (operations : s'.recorder.operations = s.recorder.operations ++ [x])
    (jump : x.operation = .jump r.stop) (present : l.isSome = true)
    (placed : s'.labels.position? l = some (s.recorder.operations.length + 1)) :
    Arranged s' id { r with phase := .finishing, finallyLabel := l } where
  phase := by
    rw [if_pos hopen]
    exact (if_pos present).symm
  caught := h.caught
  finished _ := jump ▸ before_of_append operations placed
  ended hclosed := absurd hopen hclosed

/-- The region ends, after the instruction that goes on with what was pending or a jump past the
whole. -/
theorem of_ended {x : Recorded} (h : Arranged s id r) (hgrows : Grows s s')
    (hstate : Remembers s s') (hopen : id ∈ s.regions.live) (hclosed : id ∉ s'.regions.live)
    (operations : s'.recorder.operations = s.recorder.operations ++ [x])
    (last : x.operation = if r.phase < .finishing then .jump r.stop else .endFinally)
    (placed : s'.labels.position? r.stop = some (s.recorder.operations.length + 1)) :
    Arranged s' id { r with phase := .done } where
  phase := (if_neg hclosed).symm
  caught hsome := by
    obtain ⟨hbefore, name, state, hname, hstated, hat⟩ := h.caught hsome
    exact ⟨hbefore.grows hgrows, name, state, hname, hstate _ hstated, hat.grows hgrows⟩
  finished hsome := (h.finished hsome).grows hgrows
  ended _ := by
    have hbefore := before_of_append operations placed
    rw [last] at hbefore
    cases hfinally : r.finallyLabel.isSome with
    | true =>
      have hnot : ¬ r.phase < .finishing := fun hlt => by
        rw [(h.lt_finishing_iff hopen).1 hlt] at hfinally
        cases hfinally
      rw [if_neg hnot] at hbefore
      exact hbefore
    | false =>
      rw [if_pos ((h.lt_finishing_iff hopen).2 hfinally)] at hbefore
      exact hbefore

end Arranged

/-- Closing a region that is no exception region keeps those that are. -/
theorem exception?_closed_kept {regions : RegionStack} {top : RegionId} {rest : List RegionId}
    {region : Region} {offset : Nat} (hlive : regions.live = top :: rest)
    (hget : regions.get? top = some region) (hnone : region.exception? = none)
    (h : (regions.closed top rest offset).exception? id = some r) :
    regions.exception? id = some r ∧
      (id ∈ (regions.closed top rest offset).live ↔ id ∈ regions.live) := by
  have hold : regions.exception? id = some r := h
  refine ⟨hold, ?_⟩
  rw [hlive]
  refine (List.mem_cons.trans (or_iff_right fun hid => ?_)).symm
  rw [hid, RegionStack.exception?, hget] at hold
  cases hnone.symm.trans hold

/-- A successful request keeps the protected regions arranged. -/
theorem Answers.isArranged (h : Answers request.run s reply s') (hs : s.InOrder)
    (harranged : s.IsArranged) : s'.IsArranged := by
  intro i new hnew
  have hgrows := h.grows
  have hstate := remembers_run request s s' (.of_answers h)
  have hnodup := hs.history.live_nodup
  have hkept : ∀ {r}, s.regions.exception? i = some r →
      (i ∈ s'.regions.live ↔ i ∈ s.regions.live) → Arranged s' i r := fun hr hlive =>
    (harranged i _ hr).grows hgrows hstate hlive
  have hsame : s'.regions = s.regions → Arranged s' i new := fun heq =>
    hkept (heq ▸ hnew) (by rw [heq])
  have henter : ∀ {region : Region} {offset : Nat}, region.exception? = none →
      s'.regions = (s.regions.enter region offset).2 → Arranged s' i new := by
    intro region offset hnone heq
    obtain ⟨hold, hlive⟩ := RegionStack.exception?_enter_kept hnone (heq ▸ hnew)
    exact hkept hold (heq ▸ hlive)
  have hclose : ∀ {top : RegionId} {rest : List RegionId} {region : Region} {offset : Nat},
      s.regions.live = top :: rest → s.regions.get? top = some region →
      region.exception? = none → s'.regions = s.regions.closed top rest offset →
      Arranged s' i new := by
    intro top rest region offset hlive hget hnone heq
    obtain ⟨hold, hlive⟩ := exception?_closed_kept hlive hget hnone (heq ▸ hnew)
    exact hkept hold (heq ▸ hlive)
  cases effect_of_answers h with
  | recorded quiet recording unmarked => exact hsame recording.regions
  | defined recording fresh unmarked => exact hsame recording.regions
  | marked recording known unmarked => exact hsame recording.regions
  | breakFound recording unmarked => exact hsame recording.regions
  | scopeBegun operations regions placed unmarked => exact henter rfl regions
  | @targetBegun request region opens operations regions labels =>
    exact henter (by cases request <;> cases opens <;> rfl) regions
  | scopeEnded live found operations regions placed unmarked => exact hclose live found rfl regions
  | targetEnded closes live found ofKind operations regions placed unmarked =>
    refine hclose live found (exception?_eq_none_of_kind fun hkind => ?_) regions
    rw [ofKind] at hkind
    subst hkind
    cases request <;> cases closes
  | @breakNamed name id region target label live found asked dispatched unnamed present operations
      regions unmarked =>
    rw [regions] at hnew
    rcases RegionStack.of_exception?_replace hnew with hold | ⟨-, hnew⟩
    · exact hkept hold (by rw [regions]; rfl)
    · cases region <;> cases asked <;> cases hnew
  | exceptionBegun operations regions placed unmarked =>
    rw [regions] at hnew
    rcases RegionStack.of_exception?_enter hnew with hold | ⟨rfl, hself⟩
    · refine hkept hold ?_
      rw [regions]
      exact RegionStack.mem_live_enter_iff (RegionStack.lt_of_exception? hold)
    · obtain rfl := Option.some.inj hself
      refine .of_opened ?_
      rw [regions]
      exact List.mem_cons_self
  | @catchBegun name id rest r label x more live found early operations jump regions present placed
      unmarked assigned =>
    have hopen : id ∈ s.regions.live := live ▸ List.mem_cons_self
    have hlive : s'.regions.live = s.regions.live := by rw [regions]; rfl
    rw [regions] at hnew
    rcases RegionStack.of_exception?_replace hnew with hold | ⟨rfl, hself⟩
    · exact hkept hold (by rw [hlive])
    · obtain rfl := Option.some.inj hself
      obtain ⟨y, state, rfl, hstated, hassign⟩ := assigned
      exact (harranged i r found).of_catchBegun hopen hlive early operations jump present placed
        hstated hassign
  | @finallyBegun id rest r label x live found early operations jump regions present placed
      unmarked =>
    have hopen : id ∈ s.regions.live := live ▸ List.mem_cons_self
    have hlive : s'.regions.live = s.regions.live := by rw [regions]; rfl
    rw [regions] at hnew
    rcases RegionStack.of_exception?_replace hnew with hold | ⟨rfl, hself⟩
    · exact hkept hold (by rw [hlive])
    · obtain rfl := Option.some.inj hself
      exact (hkept found (by rw [hlive])).of_finallyBegun (hlive ▸ hopen) operations jump present
        placed
  | @exceptionEnded id rest r x live found operations last regions placed unmarked =>
    have hopen : id ∈ s.regions.live := live ▸ List.mem_cons_self
    have hlive : s'.regions.live = rest := by rw [regions]; rfl
    have hclosed : id ∉ s'.regions.live := by
      rw [live] at hnodup
      rw [hlive]
      exact (List.nodup_cons.1 hnodup).1
    rw [regions, RegionStack.exception?_replace
      (s := s.regions.closed id rest s.recorder.operations.length)
      (RegionStack.exception?_eq_some_iff.1 found)] at hnew
    by_cases hid : i = id
    · subst hid
      rw [if_pos rfl] at hnew
      obtain rfl := Option.some.inj hnew
      exact (harranged i r found).of_ended hgrows hstate hopen hclosed operations last placed
    · rw [if_neg hid] at hnew
      refine hkept hnew ?_
      rw [hlive, live]
      exact (List.mem_cons.trans (or_iff_right hid)).symm

theorem Runs.isArranged (h : Runs s requests s') (hs : s.InOrder) (harranged : s.IsArranged) :
    s'.IsArranged := by
  induction h with
  | nil s => exact harranged
  | cons first rest ih =>
    exact ih ((advances_run _ _ _ _ first).inOrder hs) (first.isArranged hs harranged)

/-- A request moves a protected region forward if it moves it at all. -/
theorem Answers.rank_le (h : Answers request.run s reply s')
    (hr : s.regions.exception? id = some r) :
    ∃ r', s'.regions.exception? id = some r' ∧ r.phase.rank ≤ r'.phase.rank := by
  obtain ⟨r', hr', -⟩ := (advances_run _ _ _ _ h).exceptions id r hr
  refine ⟨r', hr', ?_⟩
  cases becomes_of_effect (effect_of_answers h) hr' with
  | kept found labels phase =>
    obtain rfl := Option.some.inj (hr.symm.trans found)
    rcases phase with phase | phase
    · exact Nat.le_of_eq (congrArg Phase.rank phase.symm)
    · rw [phase]
      cases r.phase <;> decide
  | opened asked new live first bare placed =>
    exact absurd (RegionStack.lt_of_exception? hr) (new ▸ Nat.lt_irrefl _)
  | begun asked found live early reached unfinished others grown placed =>
    obtain rfl := Option.some.inj (hr.symm.trans found)
    rw [reached]
    exact Nat.le_of_lt early

theorem Runs.rank_le (h : Runs s requests s') (hr : s.regions.exception? id = some r) :
    ∃ r', s'.regions.exception? id = some r' ∧ r.phase.rank ≤ r'.phase.rank := by
  induction h generalizing r with
  | nil s => exact ⟨r, hr, Nat.le_refl _⟩
  | cons first rest ih =>
    obtain ⟨r₁, hr₁, hle⟩ := first.rank_le hr
    obtain ⟨r₂, hr₂, hle'⟩ := ih hr₁
    exact ⟨r₂, hr₂, Nat.le_trans hle hle'⟩

namespace Arranged

/-- The phase of a region can be read off its labels and the stack. -/
theorem phase_iff (h : Arranged s id r) :
    (r.phase = .trying ↔
      r.catchLabel.isSome = false ∧ r.finallyLabel.isSome = false ∧ id ∈ s.regions.live) ∧
    (r.phase = .catching ↔
      r.catchLabel.isSome = true ∧ r.finallyLabel.isSome = false ∧ id ∈ s.regions.live) ∧
    (r.phase = .finishing ↔ r.finallyLabel.isSome = true ∧ id ∈ s.regions.live) ∧
    (r.phase = .done ↔ id ∉ s.regions.live) := by
  rw [h.phase]
  by_cases hlive : id ∈ s.regions.live <;> cases r.finallyLabel.isSome <;>
    cases r.catchLabel.isSome <;> simp [hlive]

/-- Control does not get to the label of a block, or past the end, from the operation before it. -/
theorem exists_abrupt (h : Arranged s id r) {q : Phase} (hq : .trying < q)
    (hsome : (r.labelOf q).isSome = true) (hdone : q = .done → id ∉ s.regions.live) :
    ∃ op, s.Before (r.labelOf q) op ∧ op.isAbrupt = true := by
  cases q with
  | trying => exact absurd hq (Nat.lt_irrefl _)
  | catching => exact ⟨_, (h.caught hsome).1, rfl⟩
  | finishing => exact ⟨_, h.finished hsome, rfl⟩
  | done =>
    refine ⟨_, h.ended (hdone rfl), ?_⟩
    split <;> rfl

end Arranged

/-- Every protected region of a session, at any point of it. Its phase does not go back later. It is
in its try block, its catch block or its finally block while it is open, as its labels say, and
done once it is closed. The catch block and the finally block have a jump past the whole right
before them, and the catch block begins by putting the error of the state in the catch variable. A
closed region ends with the instruction that goes on with what was pending if it has a finally
block, and otherwise with a jump past the whole. So none of its blocks runs into what follows. -/
theorem arranged_of_runs (h : Runs (start kind options scope bound) requests s)
    (hlater : Runs s requests' s') (hr : s.regions.exception? id = some r) :
    (∃ r', s'.regions.exception? id = some r' ∧ r.phase.rank ≤ r'.phase.rank) ∧
    ((r.phase = .trying ↔
        r.catchLabel.isSome = false ∧ r.finallyLabel.isSome = false ∧ id ∈ s.regions.live) ∧
      (r.phase = .catching ↔
        r.catchLabel.isSome = true ∧ r.finallyLabel.isSome = false ∧ id ∈ s.regions.live) ∧
      (r.phase = .finishing ↔ r.finallyLabel.isSome = true ∧ id ∈ s.regions.live) ∧
      (r.phase = .done ↔ id ∉ s.regions.live)) ∧
    (r.catchLabel.isSome = true → s.Before r.catchLabel (.jump r.stop) ∧
      ∃ name state, r.catchVariable = some name ∧ s.state = some state ∧
        s.At r.catchLabel (.assign (.identifier name) (StateField.error.of state))) ∧
    (r.finallyLabel.isSome = true → s.Before r.finallyLabel (.jump r.stop)) ∧
    (id ∉ s.regions.live →
      s.Before r.stop (if r.finallyLabel.isSome then .endFinally else .jump r.stop)) ∧
    ∀ q, .trying < q → (r.labelOf q).isSome = true → (q = .done → id ∉ s.regions.live) →
      ∃ op, s.Before (r.labelOf q) op ∧ op.isAbrupt = true := by
  have harranged :=
    h.isArranged (inOrder_start kind options scope bound) (fun _ _ hr => by cases hr) id r hr
  exact ⟨hlater.rank_le hr, harranged.phase_iff, harranged.caught, harranged.finished,
    harranged.ended, fun q hq hsome hdone => harranged.exists_abrupt hq hsome hdone⟩

/-- A protected block in a loop, with another block without handlers in its catch block. -/
def guarding : List Request :=
  [.defineLabel, .markLabel ⟨1⟩, .beginLoop ⟨1⟩ [], .beginException, .findBreakTarget none,
    .emit (.jumpIfTrue ⟨4⟩ (.identifier "a")), .beginCatch "e", .beginException,
    .emit (.yield none), .endException]

theorem arranged_guarding : ∃ s s' r r' state,
    Runs (start .generator {} 0 []) guarding s ∧
      Runs s [.beginFinally, .endException] s' ∧ s.regions.exception? 1 = some r ∧
      r.phase = .catching ∧
      s.At r.catchLabel (.assign (.identifier "e") (StateField.error.of state)) ∧
      s'.regions.exception? 1 = some r' ∧ r'.phase = .done ∧ s'.Before r'.stop .endFinally := by
  have hcheck : (runAll (start .generator {} 0 []) {} guarding).any (fun x =>
      (x.1.regions.exception? 1).any (fun r => r.catchLabel.isSome && !r.finallyLabel.isSome &&
        decide (1 ∈ x.1.regions.live) && decide (r.catchVariable = some "e")) &&
      (runAll x.1 x.2 [.beginFinally, .endException]).any (fun y =>
        (y.1.regions.exception? 1).any fun r' => r'.finallyLabel.isSome &&
          decide (1 ∉ y.1.regions.live))) = true := by
    decide +kernel
  obtain ⟨⟨s, registry⟩, hrun, hrest⟩ := (Option.any_eq_true _ _).1 hcheck
  obtain ⟨hbefore, hafter⟩ := Bool.and_eq_true_iff.1 hrest
  obtain ⟨r, hr, hfacts⟩ := (Option.any_eq_true _ _).1 hbefore
  obtain ⟨⟨s', registry'⟩, hrun', hlast⟩ := (Option.any_eq_true _ _).1 hafter
  obtain ⟨r', hr', hfacts'⟩ := (Option.any_eq_true _ _).1 hlast
  simp only [Bool.and_eq_true, Bool.not_eq_true', decide_eq_true_eq] at hfacts hfacts'
  obtain ⟨⟨⟨hcatch, hfinally⟩, hlive⟩, hvariable⟩ := hfacts
  obtain ⟨hfinally', hclosed⟩ := hfacts'
  have hruns := runs_of_runAll hrun
  have hlater := runs_of_runAll hrun'
  obtain ⟨-, ⟨-, hphase, -, -⟩, hcaught, -, -, -⟩ := arranged_of_runs hruns hlater hr
  obtain ⟨-, ⟨-, -, -, hdone⟩, -, -, hended, -⟩ :=
    arranged_of_runs (hruns.append hlater) (.nil s') hr'
  obtain ⟨-, name, state, hname, -, hat⟩ := hcaught hcatch
  obtain rfl := Option.some.inj (hvariable.symm.trans hname)
  have hlast := hended hclosed
  rw [if_pos hfinally'] at hlast
  exact ⟨s, s', r, r', state, hruns, hlater, hr, hphase.2 ⟨hcatch, hfinally, hlive⟩, hat, hr',
    hdone.2 hclosed, hlast⟩

end Resumable.Session
