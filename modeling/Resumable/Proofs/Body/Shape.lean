import Resumable.Proofs.Body.Partition

/-!
# The shape of a body

A body is the flat list of its statements if no case was closed on the walk, and one switch over
the cases otherwise. The number of cases is read off the first statement, so that of a flat body
is the number of clauses of the switch that it begins with, if it begins with one. That statement
comes from the first operation, unless the setup of protected regions stands before it.
-/

namespace Resumable

/-- The clauses of a switch; 0 for any other statement. -/
def Node.clauseCount : Node → Nat
  | .switchStmt _ clauses => clauses.length
  | _ => 0

/-- The clauses of an operation that is a switch, if no span stands around it. -/
def Recorded.clauseCount (r : Recorded) : Nat :=
  match r.operation, r.location with
  | .statement (.switchStmt _ clauses), none => clauses.length
  | _, _ => 0

theorem Node.clauseCount_relabel (numberOf : Label → Option Nat) (node : Node) :
    (node.relabel (numeral numberOf)).clauseCount = node.clauseCount := by
  cases node with
  | switchStmt subject clauses => simp [relabel, relabelClauses_eq_map, clauseCount]
  | labelRef label =>
    rw [relabel, numeral]
    split <;> rfl
  | _ => simp [relabel, clauseCount]

/-- Only a switch that is a statement of its own is seen as one. -/
theorem Recorded.clauseCount_statement (r : Recorded) (comments : Bool) :
    (r.statement comments).clauseCount = r.clauseCount := by
  obtain ⟨operation, location⟩ := r
  cases location with
  | some span => cases operation <;> simp [statement, Node.locate, Node.clauseCount, clauseCount]
  | none =>
    cases operation with
    | statement node =>
      rw [statement, Node.locate, Operation.node, Node.asStatement]
      split
      · next hexpression => cases node <;> first | rfl | cases hexpression
      · cases node <;> rfl
    | _ => simp [statement, Node.locate, Operation.node, clauseCount, Node.clauseCount, Node.assign,
        Node.ifThen, Node.asStatement, Node.isExpression, Instruction.jumpTo,
        Instruction.statement]

namespace Body

variable {body : Body}

theorem caseCount_eq (h : body.statements.head? = some s) : body.caseCount = s.clauseCount := by
  unfold caseCount
  rw [h]
  cases s <;> rfl

theorem caseCount_of_statements_eq_nil (h : body.statements = []) : body.caseCount = 0 := by
  unfold caseCount
  rw [h]
  rfl

/-- While no case has been closed, the open one begins with the first of these operations. -/
def Draft.BeginsWith (d : Draft) (operations : List Recorded) : Prop :=
  d.closed = [] → d.run.head? = operations.head?

namespace Plan

/-- The clauses of the switch that the body begins with if it is flat. -/
def leadingClauses (p : Plan) : Nat :=
  if p.regions.hasExceptions then 0 else (p.operations.head?.map Recorded.clauseCount).getD 0

section Walk

variable {p : Plan} {d : Draft} {operations : List Recorded}

theorem closed_close (hrun : d.run ≠ []) : (p.close d).closed ≠ [] := by
  have hempty : d.run.isEmpty = false := by simpa using hrun
  simp [close, hempty, closeWith]

/-- A case that is closed is there for good. -/
theorem beginsWith_close (h : d.BeginsWith operations) : (p.close d).BeginsWith operations := by
  by_cases hrun : d.run = []
  · have hsame : p.close d = d := by simp [close, hrun]
    rw [hsame]
    exact h
  · intro hclosed
    exact absurd hclosed (closed_close hrun)

theorem beginsWith_arrive (h : d.BeginsWith operations) (index : Nat) (cut : Bool) :
    (p.arrive index (if cut then p.close d else d)).BeginsWith operations := by
  cases cut with
  | false => exact h
  | true => exact beginsWith_close h

theorem beginsWith_take (h : d.BeginsWith operations) (r : Recorded) (index : Nat) :
    (p.take d r index).BeginsWith (operations ++ [r]) := by
  have harrived := beginsWith_arrive (p := p) h index (p.cutsBefore index d)
  unfold take
  generalize p.arrive index (if p.cutsBefore index d then p.close d else d) = arrived at *
  dsimp only
  split
  · next habrupt =>
    -- the open case has an operation already, and its first one stays the first
    obtain ⟨last, hlast, -⟩ := (Option.any_eq_true _ _).1 habrupt
    intro hclosed
    have hhead := harrived hclosed
    cases hrun : arrived.run with
    | nil => simp [hrun] at hlast
    | cons first rest =>
      rw [hrun, List.head?_cons] at hhead
      simp [List.head?_append, ← hhead]
  · intro hclosed
    have hhead := harrived hclosed
    simp [List.head?_append, hhead]

theorem beginsWith_foldl (h : d.BeginsWith operations) (more : List Recorded) (index : Nat) :
    ((more.zipIdx index).foldl (fun d (r, index) => p.take d r index) d).BeginsWith
      (operations ++ more) := by
  induction more generalizing d operations index with
  | nil => simpa using h
  | cons r rest ih => simpa using ih (beginsWith_take h r index) (index + 1)

theorem beginsWith_walkToEnd (p : Plan) : p.walkToEnd.BeginsWith p.operations := by
  have hstart : Draft.BeginsWith { cursor := RegionCursor.start p.regions } [] := fun _ => rfl
  have hwalk : p.walk.BeginsWith p.operations := by
    simpa [walk] using beginsWith_foldl (p := p) hstart p.operations 0
  exact beginsWith_arrive hwalk _ _

end Walk

/-- A body with its number of cases: a flat one, or one switch over the case number. -/
inductive Shape (p : Plan) (body : Body) : Prop where
  | flat (uncut : p.walkToEnd.closed = [])
      (statements : body.statements = (p.setup ++ p.lastStatements p.walkToEnd).map
        (Node.relabel (Node.numeral (p.caseNumber? p.walkToEnd))))
      (count : body.caseCount = p.leadingClauses)
  | dispatch (clauses : List (Clause Node)) (cut : p.walkToEnd.closed ≠ [])
      (statements : body.statements = [.switchStmt (StateField.label.of p.state) clauses])
      (nonempty : clauses ≠ []) (count : body.caseCount = clauses.length)

variable {p : Plan}

/-- The number of cases of a flat body. -/
theorem caseCount_flat {numberOf : Label → Option Nat} (uncut : p.walkToEnd.closed = [])
    (h : body.statements = (p.setup ++ p.lastStatements p.walkToEnd).map
      (Node.relabel (Node.numeral numberOf))) : body.caseCount = p.leadingClauses := by
  have hbegins := beginsWith_walkToEnd p uncut
  unfold leadingClauses
  split
  · next hexceptions =>
    rw [setup, if_pos hexceptions] at h
    rw [caseCount_eq (by rw [h]; rfl), Node.clauseCount_relabel]
    rfl
  · next hexceptions =>
    rw [setup, if_neg hexceptions, List.nil_append, lastStatements] at h
    rw [← hbegins]
    cases hrun : p.walkToEnd.run with
    | cons first rest =>
      rw [hrun] at h
      rw [caseCount_eq (by rw [h]; rfl), Node.clauseCount_relabel, statement,
        Recorded.clauseCount_statement]
      rfl
    | nil =>
      rw [hrun] at h
      split at h
      · rw [caseCount_eq (by rw [h]; rfl), Node.clauseCount_relabel]
        rfl
      · exact caseCount_of_statements_eq_nil h

/-- A body that is not flat is its one switch. -/
theorem exists_labeled_eq_switch {d : Draft} (hclosed : d.closed ≠ []) :
    ∃ clauses, clauses ≠ [] ∧
      p.labeled d = [.switchStmt (StateField.label.of p.state) clauses] := by
  have hempty : d.closed.isEmpty = false := by simpa using hclosed
  unfold labeled
  simp only [hempty, Bool.false_eq_true, if_false]
  split
  · exact ⟨_, hclosed, rfl⟩
  · exact ⟨_, by simp [closeWith], rfl⟩

theorem shape_of_build_eq_ok (hb : p.build = .ok body) : p.Shape body := by
  unfold build at hb
  split at hb
  · cases hb
  · cases hnumber : p.number p.walkToEnd (p.labeled p.walkToEnd) with
    | error e =>
      simp only [hnumber] at hb
      cases hb
    | ok statements =>
      simp only [hnumber] at hb
      obtain ⟨-, rfl⟩ := number_eq_ok_iff.1 hnumber
      obtain rfl := Except.ok.inj hb
      by_cases hclosed : p.walkToEnd.closed = []
      · have hlabeled : p.labeled p.walkToEnd = p.setup ++ p.lastStatements p.walkToEnd := by
          simp [labeled, hclosed]
        rw [hlabeled]
        exact .flat hclosed rfl (caseCount_flat hclosed rfl)
      · obtain ⟨clauses, hne, hlabeled⟩ := exists_labeled_eq_switch (p := p) hclosed
        rw [hlabeled]
        refine .dispatch
          (Node.relabelClauses (Node.numeral (p.caseNumber? p.walkToEnd)) clauses) hclosed ?_ ?_ ?_
        · simp [Node.relabel, StateField.of]
        · simpa [Node.relabelClauses_eq_map] using hne
        · simp [caseCount, Node.relabel]

/-- A body counts as one with cases if a case was closed, or if its first operation is a switch. -/
theorem Shape.isStateMachine_iff (h : p.Shape body) :
    body.isStateMachine = true ↔ p.walkToEnd.closed ≠ [] ∨ 0 < p.leadingClauses := by
  unfold isStateMachine
  rw [decide_eq_true_iff]
  cases h with
  | flat uncut statements count => simp [uncut, count]
  | dispatch clauses cut statements nonempty count =>
    simp [cut, count, List.length_pos_iff.2 nonempty]

end Plan

end Body

end Resumable
