import Resumable.Proofs.Body.Shape
import Resumable.Proofs.Session.Statements

/-!
# The shape of what a session builds

A body has as many cases as the switch that it is, if a case was closed on the walk over the
operations. No case is ever closed for a plain statement list, so its body is flat; all the same
it counts as one with cases if the first statement is a switch of the driver's.
-/

namespace Resumable.Session

variable {s : Session} {p : Body.Plan} {body : Body}

/-- Nothing closes a case of a plain statement list, and nothing is set up before it. -/
theorem IsPlain.caseCount_eq (h : s.IsPlain) {state : String} {forceReturn : Bool}
    (hb : (s.plan state forceReturn).build = .ok body) :
    (s.plan state forceReturn).walkToEnd.closed = [] ∧
      body.caseCount = (s.recorder.operations.head?.map Recorded.clauseCount).getD 0 := by
  obtain ⟨uncut, -⟩ := (h.isJoined state forceReturn).drafts_walkToEnd
  refine ⟨uncut, ?_⟩
  cases Body.Plan.shape_of_build_eq_ok hb with
  | flat _ statements count =>
    simp [count, Body.Plan.leadingClauses, plan, h.unprotected]
  | dispatch clauses cut => exact absurd uncut cut

/-- Whatever a body is built from, it is flat if no case was closed, and one switch over its cases
otherwise. It counts as one with cases if a case was closed, or if its first operation is a switch
with a clause and no exception region is set up before it. No case is closed for a plain statement
list, whatever was called on its session and whatever failed of that. -/
theorem shape_of_builds (hb : p.build = .ok body) :
    p.Shape body ∧
      (body.isStateMachine = true ↔ p.walkToEnd.closed ≠ [] ∨ 0 < p.leadingClauses) ∧
      ∀ (options : Options) (scope : Nat) (bound : List String)
        (history : List (Request × Except LoweringError Reply)) (s : Session) (state : String)
        (forceReturn : Bool), Attempts (start .statements options scope bound) history s →
          p = s.plan state forceReturn →
          p.walkToEnd.closed = [] ∧
            body.caseCount = (s.recorder.operations.head?.map Recorded.clauseCount).getD 0 := by
  have hshape := Body.Plan.shape_of_build_eq_ok hb
  refine ⟨hshape, hshape.isStateMachine_iff, ?_⟩
  rintro options scope bound history s state forceReturn h rfl
  exact h.reachable.isPlain.caseCount_eq hb

/-- The session for a statement list on which these requests were made. -/
def listed (requests : List Request) : Session :=
  (recount (start .statements {} 0 []) {} requests).2

/-- An assignment, and an expression in the place of a statement. -/
def straight : List Request :=
  [.emit (.assign (.identifier "x") (.number "1")), .emit (.statement (.identifier "x"))]

/-- A loop has a case for each stretch of it, and a straight list has none. -/
theorem shape_of_builds_polling : (∃ body, Body.Plan.polling.build = .ok body ∧
      Body.Plan.polling.Shape body ∧ body.caseCount = 3 ∧ body.isStateMachine = true) ∧
    ∃ body, ((listed straight).plan "_state" false).build = .ok body ∧
      body.statements.length = 2 ∧ body.caseCount = 0 := by
  constructor
  · obtain ⟨hshape, hiff, -⟩ := shape_of_builds (p := Body.Plan.polling) rfl
    exact ⟨_, rfl, hshape, rfl, hiff.2 (Or.inl (by decide))⟩
  · obtain ⟨-, -, hlist⟩ := shape_of_builds (p := (listed straight).plan "_state" false) rfl
    obtain ⟨-, hcount⟩ := hlist {} 0 [] _ (listed straight) "_state" false
      (attempts_recount (start .statements {} 0 []) {} straight) rfl
    exact ⟨_, rfl, rfl, hcount⟩

/-- A switch of the driver's. -/
def chosen : Node := .switchStmt (.identifier "x") [⟨some (.number "1"), [.breakStmt none]⟩]

/-- A plain statement list that is one switch of the driver's counts as one with cases. -/
theorem counted_switch : ∃ body s,
    perform (buildStatements false) (listed [.emit (.statement chosen)]) {} = (.ok body, s, {}) ∧
      ((listed [.emit (.statement chosen)]).plan "_state" false).walkToEnd.closed = [] ∧
      body.statements = [chosen] ∧ body.caseCount = 1 ∧ body.isStateMachine = true :=
  ⟨_, _, rfl, rfl, rfl, rfl, rfl⟩

end Resumable.Session
