import Resumable.Proofs.Body.Announcement
import Resumable.Proofs.Body.Execution
import Resumable.Proofs.Session.Runs

/-!
# Protected blocks in finished sessions

For every session, what its body says about the protected blocks that got a handler: which case
announces one, when that is the case it starts in, and which labels marked after it began share
a case with the announcement.
-/

namespace Resumable

namespace Node

/-- The elements of the array that a statement pushes, those that are numbers. -/
def pushed? : Node → Option (List (Option Nat))
  | .exprStmt (.call (.member _ "push") [.array elements]) => some (elements.map Node.natural?)
  | _ => none

end Node

/-- What each case of a body pushes. -/
def Body.pushes (b : Body) : List (List (List (Option Nat))) :=
  b.statements.flatMap fun
    | .switchStmt _ clauses => clauses.map fun clause => clause.body.filterMap Node.pushed?
    | _ => []

namespace Session

variable {kind : SessionKind} {options : Options} {scope : Nat} {bound : List String}
  {s s' s₁ s₂ : Session} {requests before inside after : List Request} {forceReturn : Bool}
  {body : Body} {label : Label} {r : ExceptionRegion}

/-- Where a label is marked. -/
theorem Runs.position?_of_markLabel (h : Runs s (.markLabel label :: requests) s') :
    s'.labels.position? label = some s.recorder.operations.length := by
  cases h with
  | cons first rest =>
    obtain ⟨u, s₁, hmark, hlast⟩ := Answers.of_bind first
    obtain ⟨-, rfl⟩ := hlast.of_pure
    exact rest.advance.labels _ _ hmark.of_markLabel.2

/-- A protected block keeps the place it began at. -/
theorem Runs.exists_start (h : Runs s (.beginException :: requests) s') :
    ∃ r, s'.regions.exception? s.regions.regions.length = some r ∧
      s'.labels.position? r.start = some s.recorder.operations.length := by
  cases h with
  | cons first rest =>
    obtain ⟨stop, s₁, hbegin, hlast⟩ := Answers.of_bind first
    obtain ⟨-, rfl⟩ := hlast.of_pure
    obtain ⟨-, r, hr, hpos⟩ := hbegin.of_beginException
    obtain ⟨r', hr', hstart, -⟩ := rest.advance.exceptions _ r hr
    refine ⟨r', hr', ?_⟩
    rw [hstart]
    exact rest.advance.labels _ _ hpos

/-- What a successful session is built from, and how its regions lie. -/
theorem exists_plan (hkind : kind.mode = .stateMachine)
    (hruns : Runs (start kind options scope bound) requests s)
    (hbuild : Answers (buildStatements forceReturn) s body s') :
    ∃ state p, p = s'.plan state forceReturn ∧ p.build = .ok body ∧ p.splitOnAbrupt = true ∧
      p.regions = s.regions ∧ p.regions.live = [] ∧
      (∀ l q, s.labels.position? l = some q → p.labels.position? l = some q) ∧
      Laid p.operations p.labels p.regions := by
  obtain ⟨hrecording, hlive, state, hb⟩ := hbuild.of_buildStatements
  have hall := hruns.advance.trans hrecording.advance
  have hmode : s'.recorder.mode = .stateMachine := hall.mode.trans hkind
  refine ⟨state, s'.plan state forceReturn, rfl, hb, decide_eq_true hmode, hrecording.regions,
    ?_, hrecording.labels, hall.inOrder (inOrder_start kind options scope bound)⟩
  show s'.regions.live = []
  rw [hrecording.regions]
  exact hlive

/-- Where a body announces its protected blocks. A block that got a handler is announced in one
case. It is the case the block starts in, ahead of every operation of the block, unless an inner
block starts in the same case and lasts beyond it. So of two blocks that begin at one operation,
the inner one is announced first. -/
theorem announced_at_start_iff (hkind : kind.mode = .stateMachine)
    (hruns : Runs (start kind options scope bound) requests s)
    (hbuild : Answers (buildStatements forceReturn) s body s') :
    ∃ state p, p = s'.plan state forceReturn ∧ p.build = .ok body ∧ ∃ entered scopes,
      ∀ id r, s.regions.exception? id = some r → r.isHandled = true →
        p.FramedBy body entered scopes ∧
        (∀ j ≤ p.cuts.length, entered j = some id ↔ j = p.announcedIn id) ∧
        p.caseOf? r.start = some (p.startCase id) ∧
        p.labels.position? r.start = some (p.bound (p.startCase id)) ∧
        (entered (p.startCase id) = some id ↔ ∀ inner, p.obscures id inner = false) ∧
        ∀ inner r', s.regions.exception? inner = some r' → r'.isHandled = true → id < inner →
          p.labels.position? r'.start = p.labels.position? r.start →
          p.announcedIn inner < p.announcedIn id := by
  obtain ⟨state, p, hp, hb, hsplits, hregions, hlive, -, hlaid⟩ := exists_plan hkind hruns hbuild
  refine ⟨state, p, hp, hb, fun j => (p.cursorOf j).entered, fun j => (p.cursorOf j).scopes,
    fun id r hr hh => ?_⟩
  rw [← hregions] at hr
  obtain ⟨hframed, hone⟩ := Body.Plan.framedBy_of_isHandled hlaid hlive hsplits hb hr hh
  have hstart := Body.Plan.caseOf?_start hlaid hr
  refine ⟨hframed, hone, hstart, ?_, ?_, ?_⟩
  · exact Body.Plan.position?_start hlaid hr
  · rw [hone _ (Body.Plan.startCase_le_length hlaid hr), eq_comm]
    exact Body.Plan.announcedIn_eq_startCase_iff hlaid hlive
  · intro inner r' hr' hh' hlt hpos
    rw [← hregions] at hr'
    apply Body.Plan.announcedIn_lt_of_startCase_eq hlaid hlive hr' hh' hlt
    have hstart' := Body.Plan.caseOf?_start hlaid hr'
    rw [Body.Plan.caseOf?, hpos] at hstart'
    exact Option.some.inj (hstart.symm.trans hstart')

/-- A block around a suspension. -/
def guarded : List Request :=
  [.beginException, .emit (.yield (some (.identifier "a"))), .beginFinally, .endException]

theorem announced_at_start_guarded : ∃ s body s' state p entered scopes,
    Runs (start .generator {} 0 []) guarded s ∧ Answers (buildStatements true) s body s' ∧
      p = s'.plan state true ∧ p.FramedBy body entered scopes ∧
      entered (p.startCase 0) = some 0 := by
  have hlower : (lower (start .generator {} 0 []) {} guarded true).any (fun (s, _, s') =>
      decide (s'.regions.regions.length = 1) &&
        (s.regions.exception? 0).any ExceptionRegion.isHandled) = true := by
    decide +kernel
  obtain ⟨⟨s, body, s'⟩, hsome, hcheck⟩ := (Option.any_eq_true _ _).1 hlower
  simp only [Bool.and_eq_true, decide_eq_true_eq] at hcheck
  obtain ⟨hlen, hregion⟩ := hcheck
  obtain ⟨r, hr, hh⟩ := (Option.any_eq_true _ _).1 hregion
  obtain ⟨hruns, hbuild⟩ := of_lower hsome
  obtain ⟨state, p, rfl, -, entered, scopes, hall⟩ := announced_at_start_iff rfl hruns hbuild
  obtain ⟨hframed, -, -, -, hstart, -⟩ := hall 0 r hr hh
  exact ⟨s, body, s', state, _, entered, scopes, hruns, hbuild, rfl, hframed,
    hstart.2 (Body.Plan.obscures_eq_false_of_length hlen)⟩

/-- Two blocks that begin at one operation. -/
def doubled : List Request :=
  [.beginException, .beginException, .emit (.yield (some (.identifier "a"))), .beginFinally,
    .endException, .beginFinally, .endException]

/-- The outer block starts in case 0 and has a handler in case 4, but case 0 announces the inner
one alone, and the outer one is announced in case 2, when the inner one is over. -/
theorem announced_late_doubled : ∃ s body s' r,
    Runs (start .generator {} 0 []) doubled s ∧ Answers (buildStatements true) s body s' ∧
      s.regions.exception? 0 = some r ∧ r.isHandled = true ∧
      (s'.plan "_state" true).caseOf? r.start = some 0 ∧
      (s'.plan "_state" true).caseOf? r.finallyLabel = some 4 ∧
      body.pushes =
        [[[some 0, none, some 2, some 3]], [], [[some 0, none, some 4, some 5]], [], [], []] := by
  have hlower : (lower (start .generator {} 0 []) {} doubled true).any (fun (s, body, s') =>
      ((s.regions.exception? 0).any fun r => r.isHandled &&
        decide ((s'.plan "_state" true).caseOf? r.start = some 0) &&
        decide ((s'.plan "_state" true).caseOf? r.finallyLabel = some 4)) &&
      decide (body.pushes =
        [[[some 0, none, some 2, some 3]], [], [[some 0, none, some 4, some 5]], [], [], []])) =
      true := by
    decide +kernel
  obtain ⟨⟨s, body, s'⟩, hsome, hcheck⟩ := (Option.any_eq_true _ _).1 hlower
  simp only [Bool.and_eq_true, decide_eq_true_eq] at hcheck
  obtain ⟨hregion, hpushes⟩ := hcheck
  obtain ⟨r, hr, hcases⟩ := (Option.any_eq_true _ _).1 hregion
  simp only [Bool.and_eq_true, decide_eq_true_eq] at hcases
  obtain ⟨⟨hh, hstart⟩, hfinally⟩ := hcases
  obtain ⟨hruns, hbuild⟩ := of_lower hsome
  exact ⟨s, body, s', r, hruns, hbuild, hr, hh, hstart, hfinally, hpushes⟩

/-- Which labels that are marked after a protected block began share the case that announces the
block, given that it got a handler: those that are marked where that case begins. If no inner
block keeps the block from being announced where it starts, these are the labels that are marked
before anything is recorded inside of it. -/
theorem marked_apart_iff (hkind : kind.mode = .stateMachine)
    (hbefore : Runs (start kind options scope bound) before s₁)
    (hinside : Runs s₁ (.beginException :: inside) s₂)
    (hafter : Runs s₂ (.markLabel label :: after) s)
    (hbuild : Answers (buildStatements forceReturn) s body s')
    (hr : s.regions.exception? s₁.regions.regions.length = some r) (hh : r.isHandled = true) :
    ∃ state p, p = s'.plan state forceReturn ∧ p.build = .ok body ∧ ∃ entered scopes,
      p.FramedBy body entered scopes ∧
      (∀ j ≤ p.cuts.length, entered j = some s₁.regions.regions.length ↔
        j = p.announcedIn s₁.regions.regions.length) ∧
      ∃ k ≤ p.cuts.length, p.caseOf? label = some k ∧
        (entered k ≠ some s₁.regions.regions.length ↔
          s₂.recorder.operations.length ≠ p.bound (p.announcedIn s₁.regions.regions.length)) ∧
        ((∀ inner, p.obscures s₁.regions.regions.length inner = false) →
          (entered k ≠ some s₁.regions.regions.length ↔
            s₂.recorder.operations.length ≠ s₁.recorder.operations.length)) := by
  have hruns := hbefore.append (hinside.append hafter)
  obtain ⟨state, p, hp, hb, hsplits, hregions, hlive, hlabels, hlaid⟩ :=
    exists_plan hkind hruns hbuild
  have hpos := hlabels _ _ hafter.position?_of_markLabel
  have hstart : p.labels.position? r.start = some s₁.recorder.operations.length := by
    obtain ⟨r₀, hr₀, hpos₀⟩ := hinside.exists_start
    obtain ⟨r', hr', heq, -⟩ := hafter.advance.exceptions _ r₀ hr₀
    obtain rfl := Option.some.inj (hr.symm.trans hr')
    rw [heq]
    exact hlabels _ _ (hafter.advance.labels _ _ hpos₀)
  rw [← hregions] at hr
  generalize s₁.regions.regions.length = id at hr ⊢
  obtain ⟨hframed, hone⟩ := Body.Plan.framedBy_of_isHandled hlaid hlive hsplits hb hr hh
  obtain ⟨hcase, hcut⟩ := Body.Plan.case_of_position? hlaid hpos
  have hk := Body.Plan.caseAt_le_length_cuts (hlaid.marked _ _ hpos)
  have hshare : p.caseAt s₂.recorder.operations.length = p.announcedIn id ↔
      s₂.recorder.operations.length = p.bound (p.announcedIn id) := by
    constructor
    · intro heq
      rw [← heq, Body.Plan.bound_caseAt hcut]
    · intro heq
      rw [heq, Body.Plan.caseAt_bound]
      exact Nat.le_of_lt (Body.Plan.announcedIn_lt_length hlaid hlive hr hh)
  refine ⟨state, p, hp, hb, fun j => (p.cursorOf j).entered, fun j => (p.cursorOf j).scopes,
    hframed, hone, _, hk, hcase, ?_, fun hnone => ?_⟩
  · exact not_congr ((hone _ hk).trans hshare)
  · have hfirst := (Body.Plan.announcedIn_eq_startCase_iff hlaid hlive).2 hnone
    have hbound := Body.Plan.position?_start hlaid hr
    rw [hstart, ← hfirst] at hbound
    rw [← Option.some.inj hbound] at hshare
    exact not_congr ((hone _ hk).trans hshare)

/-- A loop in a block, with a statement ahead of its head. -/
def headed : List Request :=
  [.beginException, .emit (.statement (.identifier "x")), .defineLabel, .markLabel ⟨3⟩,
    .emit (.yield (some (.identifier "a"))), .emit (.jump ⟨3⟩), .beginFinally, .endException]

theorem marked_apart_headed : ∃ s₂ s body s' state p entered scopes,
    ∃ k, Runs (start .generator {} 0 []) (headed.take 3) s₂ ∧ Runs s₂ (headed.drop 3) s ∧
      Answers (buildStatements true) s body s' ∧ p = s'.plan state true ∧
      p.FramedBy body entered scopes ∧ p.caseOf? ⟨3⟩ = some k ∧ entered k ≠ some 0 := by
  have hlower : (runAll (start .generator {} 0 []) {} (headed.take 3)).any (fun first =>
      decide (first.1.recorder.operations.length = 1) &&
        (lower first.1 first.2 (headed.drop 3) true).any fun (s, _, s') =>
          decide (s'.regions.regions.length = 1) &&
            (s.regions.exception? 0).any ExceptionRegion.isHandled) = true := by
    decide +kernel
  obtain ⟨⟨s₂, registry⟩, hfirst, hrest⟩ := (Option.any_eq_true _ _).1 hlower
  simp only [Bool.and_eq_true, decide_eq_true_eq] at hrest
  obtain ⟨hone, hlast⟩ := hrest
  obtain ⟨⟨s, body, s'⟩, hsome, hcheck⟩ := (Option.any_eq_true _ _).1 hlast
  simp only [Bool.and_eq_true, decide_eq_true_eq] at hcheck
  obtain ⟨hlen, hregion⟩ := hcheck
  obtain ⟨r, hr, hh⟩ := (Option.any_eq_true _ _).1 hregion
  have hinside := runs_of_runAll hfirst
  obtain ⟨hafter, hbuild⟩ := of_lower hsome
  obtain ⟨state, p, rfl, -, entered, scopes, hframed, -, k, -, hcase, -, happart⟩ :=
    marked_apart_iff rfl (.nil (start .generator {} 0 [])) hinside hafter hbuild hr hh
  refine ⟨s₂, s, body, s', state, _, entered, scopes, k, hinside, hafter, hbuild, rfl, hframed,
    hcase, (happart (Body.Plan.obscures_eq_false_of_length hlen)).2 ?_⟩
  rw [hone]
  exact Nat.one_ne_zero

/-- A loop that a block begins with, after a suspension. -/
def looping : List Request :=
  [.emit (.yield (some (.identifier "b"))), .beginException, .defineLabel, .markLabel ⟨4⟩,
    .emit (.yield (some (.identifier "a"))), .emit (.jump ⟨4⟩), .beginFinally, .endException]

/-- The head of the loop is case 1, which announces the block, and does so again whenever the loop
comes back to its head. -/
theorem marked_together_looping : ∃ s body s' r,
    Runs (start .generator {} 0 []) looping s ∧ Answers (buildStatements true) s body s' ∧
      s.regions.exception? 0 = some r ∧ r.isHandled = true ∧
      (s'.plan "_state" true).caseOf? ⟨4⟩ = some 1 ∧
      body.pushes = [[], [[some 1, none, some 4, some 5]], [], [], [], []] := by
  have hlower : (lower (start .generator {} 0 []) {} looping true).any (fun (s, body, s') =>
      (s.regions.exception? 0).any ExceptionRegion.isHandled &&
        decide ((s'.plan "_state" true).caseOf? ⟨4⟩ = some 1) &&
        decide (body.pushes = [[], [[some 1, none, some 4, some 5]], [], [], [], []])) =
      true := by
    decide +kernel
  obtain ⟨⟨s, body, s'⟩, hsome, hcheck⟩ := (Option.any_eq_true _ _).1 hlower
  simp only [Bool.and_eq_true, decide_eq_true_eq] at hcheck
  obtain ⟨⟨hregion, hcase⟩, hpushes⟩ := hcheck
  obtain ⟨r, hr, hh⟩ := (Option.any_eq_true _ _).1 hregion
  obtain ⟨hruns, hbuild⟩ := of_lower hsome
  exact ⟨s, body, s', r, hruns, hbuild, hr, hh, hcase, hpushes⟩

end Session

end Resumable
