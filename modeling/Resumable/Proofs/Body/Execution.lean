import Resumable.Proofs.Body.Partition

/-!
# Execution

What it means to run the operations of a function, and what it means to run a lowered body.
A `Walk` goes over the operations with an index and follows branches through the label table.
A `Machine` goes over the statements of a body, below the dispatcher: it starts at case 0, a
case runs into the next one, an assignment to the case number stores it, and an instruction
that is returned ends, suspends or restarts the body at a case.

Neither looks into a statement or a value. What a run shows are `Event`s and in the end an
`Ending`; an oracle answers the conditions, from all that was shown before.
-/

namespace Resumable

inductive Event where
  | assigned (target value : Node)
  | ran (statement : Node)
  | tested (condition : Node) (answer : Bool)
  | yielded (value : Option Node)
  | delegated (value : Option Node)

inductive Ending where
  | returned (value : Option Node)
  | thrown (value : Node)
  /-- The run came to something that has no meaning. -/
  | lost

/-- The answer to a condition, from the events before it. -/
abbrev Oracle := List Event → Node → Bool

namespace Node

/-- What stands in a statement list without its span and without the wrapper of an expression. -/
def bare : Node → Node
  | .located node _ => node.bare
  | .exprStmt expression => expression.bare
  | node => node

/-- A condition below its negations, and whether an odd number of them was taken off. -/
def core : Node → Node × Bool
  | .unary "!" (.parenthesized condition) => (condition.core.1, !condition.core.2)
  | node => (node, false)

/-- The value of a decimal numeral. -/
def natural? : Node → Option Nat
  | .number text =>
    if text.toList.all Char.isDigit then some (Nat.ofDigitChars 10 text.toList 0) else none
  | _ => none

/-- Whether the node is the field of the state that holds the case number. -/
def isCaseField (state : String) : Node → Bool
  | .member (.identifier name) field => name = state && field = StateField.label.name
  | _ => false

theorem natural?_number (n : Nat) : (Node.number (toString n)).natural? = some n := by
  have hall : (toString n).toList.all Char.isDigit = true := by
    rw [Nat.toString_eq_repr, Nat.toList_repr, List.all_eq_true]
    intro c hc
    exact Nat.isDigit_of_mem_toDigits (by decide) (by decide) hc
  rw [natural?, if_pos hall, Nat.toString_eq_repr, Nat.toList_repr, Nat.ofDigitChars_ten_toDigits]

theorem core_not (condition : Node) : condition.not.core = (condition.core.1, !condition.core.2) :=
  rfl

end Node

/-- The event of a bare statement that nothing looks into. -/
def Event.ofBare : Node → Event
  | .binary target "=" value => .assigned target value
  | node => .ran node

def Event.ofNode (node : Node) : Event := .ofBare node.bare

/-- The truth of a condition, and the event that shows its answer. -/
def Oracle.ask (oracle : Oracle) (seen : List Event) (condition : Node) : Bool × Event :=
  let answer := oracle seen condition.core.1
  (answer != condition.core.2, .tested condition.core.1 answer)

/-- What a statement of a body does. -/
inductive Act where
  | shows (event : Event)
  /-- Store a case number. -/
  | store (number : Nat)
  /-- Go on at a case. -/
  | jump (number : Nat)
  /-- Go on at a case if the condition is true. -/
  | branch (condition : Node) (number : Nat)
  /-- Suspend, and go on at the case after the one that is stored. -/
  | suspend (event : Event)
  | finish (ending : Ending)
  /-- Go on at the clause that tests for the case stored. -/
  | select (clauses : List (Clause Node))
  | unknown

namespace Act

/-- What the dispatcher does with the value that a body returns. -/
def ofReturned : Option Node → Act
  | some (.instruction 2 value _) => .finish (.returned value)
  | some (.instruction 3 (some number) _) =>
    match number.natural? with
    | some n => .jump n
    | none => .unknown
  | some (.instruction 4 value _) => .suspend (.yielded value)
  | some (.instruction 5 value _) => .suspend (.delegated value)
  | _ => .unknown

/-- What a bare statement does. -/
def ofBare (state : String) : Node → Act
  | .returnStmt value => ofReturned value
  | .throwStmt value => .finish (.thrown value)
  | .ifStmt condition (.returnStmt value) none =>
    match ofReturned value with
    | .jump n => .branch condition n
    | _ => .unknown
  | .switchStmt subject clauses =>
    if subject.isCaseField state then .select clauses
    else .shows (.ofBare (.switchStmt subject clauses))
  | .binary target "=" value =>
    if target.isCaseField state then
      match value.natural? with
      | some n => .store n
      | none => .unknown
    else .shows (.ofBare (.binary target "=" value))
  | node => .shows (.ofBare node)

def ofNode (state : String) (node : Node) : Act := ofBare state node.bare

end Act

/-- The node takes no part in the control of a body: it refers to no label, and as a statement
it is only shown. -/
structure Node.IsInert (state : String) (node : Node) : Prop where
  references : node.references = []
  shows : Act.ofNode state node = .shows (.ofNode node)

/-- A body at work, below the dispatcher. -/
structure Machine where
  /-- The case number that is stored. -/
  label : Nat := 0
  /-- The statements that are still to run. -/
  rest : List Node
  seen : List Event := []
  ending : Option Ending := none

namespace Machine

/-- Whether a clause tests for the case. -/
def tests (number : Nat) (clause : Clause Node) : Bool :=
  (clause.test.bind Node.natural?) = some number

/-- The statements from the clause of a case on, through all that follow. -/
def entry (clauses : List (Clause Node)) (number : Nat) : List Node :=
  (clauses.dropWhile fun c => !tests number c).flatMap Clause.body

def perform (body : List Node) (oracle : Oracle) (m : Machine) (rest : List Node) : Act → Machine
  | .shows event => { m with rest, seen := m.seen ++ [event] }
  | .store number => { m with rest, label := number }
  | .jump number => { m with rest := body, label := number }
  | .branch condition number =>
    let (answer, event) := oracle.ask m.seen condition
    if answer then { m with rest := body, label := number, seen := m.seen ++ [event] }
    else { m with rest, seen := m.seen ++ [event] }
  | .suspend event => { m with rest := body, label := m.label + 1, seen := m.seen ++ [event] }
  | .finish ending => { m with rest, ending := some ending }
  | .select clauses => { m with rest := entry clauses m.label ++ rest }
  | .unknown => { m with rest, ending := some .lost }

/-- One statement more; nothing happens after the end. -/
def step (state : String) (body : List Node) (oracle : Oracle) (m : Machine) : Machine :=
  match m.ending, m.rest with
  | some _, _ => m
  | none, [] => { m with ending := some .lost }
  | none, statement :: rest => m.perform body oracle rest (Act.ofNode state statement)

/-- The machine after a number of steps. -/
def after (state : String) (body : List Node) (oracle : Oracle) : Nat → Machine
  | 0 => { rest := body }
  | k + 1 => (after state body oracle k).step state body oracle

end Machine

/-- The operations of a function at work. -/
structure Walk where
  /-- The index of the next operation. -/
  index : Nat := 0
  seen : List Event := []
  ending : Option Ending := none

namespace Body.Plan

/-- The index that a branch to a label goes to. -/
def target (p : Plan) (label : Label) : Nat := (p.labels.position? label).getD p.operations.length

end Body.Plan

namespace Walk

/-- One operation. A condition and a value are read with `read`, for the labels in them. -/
def perform (p : Body.Plan) (read : Node → Node) (oracle : Oracle) (w : Walk) : Operation → Walk
  | .assign target value =>
    { w with index := w.index + 1, seen := w.seen ++ [.assigned target value] }
  | .statement node =>
    { w with index := w.index + 1, seen := w.seen ++ [.ofNode node] }
  | .jump label => { w with index := p.target label }
  | .jumpIfTrue label condition =>
    let (answer, event) := oracle.ask w.seen (read condition)
    { w with index := if answer then p.target label else w.index + 1, seen := w.seen ++ [event] }
  | .jumpIfFalse label condition =>
    let (answer, event) := oracle.ask w.seen (read condition)
    { w with index := if answer then w.index + 1 else p.target label, seen := w.seen ++ [event] }
  | .yield value =>
    { w with index := w.index + 1, seen := w.seen ++ [.yielded (value.map read)] }
  | .delegate value =>
    { w with index := w.index + 1, seen := w.seen ++ [.delegated (value.map read)] }
  | .complete value => { w with ending := some (.returned (value.map read)) }
  | .throw value => { w with ending := some (.thrown (read value)) }
  | .endFinally => { w with ending := some .lost }

/-- One operation more. Running past the last one returns without a value. -/
def step (p : Body.Plan) (read : Node → Node) (oracle : Oracle) (w : Walk) : Walk :=
  match w.ending, p.operations[w.index]? with
  | some _, _ => w
  | none, none => { w with ending := some (.returned none) }
  | none, some r => w.perform p read oracle r.operation

/-- The walk after a number of steps. -/
def after (p : Body.Plan) (read : Node → Node) (oracle : Oracle) : Nat → Walk
  | 0 => {}
  | k + 1 => (after p read oracle k).step p read oracle

end Walk

/-- The body has shown what the operations have shown, and has ended as they have. -/
structure Machine.Agrees (m : Machine) (w : Walk) : Prop where
  seen : m.seen = w.seen
  ending : m.ending = w.ending

end Resumable
