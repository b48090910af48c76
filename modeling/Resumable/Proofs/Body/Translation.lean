import Mathlib.Data.List.Forall2
import Resumable.Body.Instruction

/-!
# The translation of operations

The statement of each operation, written out. The dispatcher is handed a tuple: the number of the
instruction and, if there is one, its value. The numbers are fixed: 2 completes, 3 goes on at a
label, 4 suspends with a value, 5 delegates to an iterator, and 6 ends a finally block. What is
not for the dispatcher stays an ordinary statement.
-/

namespace Resumable

/-- `return [tag, value];`, with the name of the instruction in a comment if there are comments. -/
def Node.returnTuple (comments : Bool) (tag : Nat) (name : String) (value : Option Node) : Node :=
  .returnStmt (some (.instruction tag value (if comments then some name else none)))

namespace Operation

/-- Each operation with its statement. -/
inductive Translates (comments : Bool) : Operation → Node → Prop where
  | assign (target value : Node) :
      Translates comments (.assign target value) (.exprStmt (.binary target "=" value))
  | expression {node : Node} (isExpression : node.isExpression = true) :
      Translates comments (.statement node) (.exprStmt node)
  | statement {node : Node} (isStatement : node.isExpression = false) :
      Translates comments (.statement node) node
  | jump (label : Label) :
      Translates comments (.jump label)
        (.returnTuple comments 3 "break" (some (.labelRef label)))
  | jumpIfTrue (label : Label) (condition : Node) :
      Translates comments (.jumpIfTrue label condition)
        (.ifStmt condition (.returnTuple comments 3 "break" (some (.labelRef label))) none)
  | jumpIfFalse (label : Label) (condition : Node) :
      Translates comments (.jumpIfFalse label condition)
        (.ifStmt (.unary "!" (.parenthesized condition))
          (.returnTuple comments 3 "break" (some (.labelRef label))) none)
  | yield (value : Option Node) :
      Translates comments (.yield value) (.returnTuple comments 4 "yield" value)
  | delegate (value : Option Node) :
      Translates comments (.delegate value) (.returnTuple comments 5 "yield*" value)
  | complete (value : Option Node) :
      Translates comments (.complete value) (.returnTuple comments 2 "return" value)
  | throw (value : Node) : Translates comments (.throw value) (.throwStmt value)
  | endFinally : Translates comments .endFinally (.returnTuple comments 6 "endfinally" none)

/-- Control does not go on to the operation that follows. -/
inductive Leaves : Operation → Prop where
  | jump (label : Label) : Leaves (.jump label)
  | yield (value : Option Node) : Leaves (.yield value)
  | delegate (value : Option Node) : Leaves (.delegate value)
  | complete (value : Option Node) : Leaves (.complete value)
  | throw (value : Node) : Leaves (.throw value)
  | endFinally : Leaves .endFinally

/-- The function is over. -/
inductive Completes : Operation → Prop where
  | complete (value : Option Node) : Completes (.complete value)
  | throw (value : Node) : Completes (.throw value)

variable {comments : Bool} {op : Operation} {node : Node}

/-- Every operation has one statement. -/
theorem translates_iff : op.Translates comments node ↔ node = (op.node comments).asStatement := by
  constructor
  · intro h
    cases h with
    | expression isExpression => rw [Operation.node, Node.asStatement, if_pos isExpression]
    | statement isStatement =>
      rw [Operation.node, Node.asStatement, if_neg (by simp [isStatement])]
    | _ => rfl
  · rintro rfl
    cases op with
    | statement node =>
      rw [Operation.node, Node.asStatement]
      split
      · next h => exact .expression h
      · next h => exact .statement (by simpa using h)
    | assign target value => exact .assign target value
    | jump label => exact .jump label
    | jumpIfTrue label condition => exact .jumpIfTrue label condition
    | jumpIfFalse label condition => exact .jumpIfFalse label condition
    | yield value => exact .yield value
    | delegate value => exact .delegate value
    | complete value => exact .complete value
    | throw value => exact .throw value
    | endFinally => exact .endFinally

theorem leaves_iff : op.Leaves ↔ op.isAbrupt = true := by
  constructor
  · intro h
    cases h <;> rfl
  · intro h
    cases op <;> first | constructor | cases h

theorem completes_iff : op.Completes ↔ op.isCompletion = true := by
  constructor
  · intro h
    cases h <;> rfl
  · intro h
    cases op <;> first | constructor | cases h

instance : DecidablePred Leaves := fun _ => decidable_of_iff _ leaves_iff.symm

instance : DecidablePred Completes := fun _ => decidable_of_iff _ completes_iff.symm

end Operation

namespace Recorded

/-- A recorded operation with its statement, which carries the span if that is known. -/
inductive Translates (comments : Bool) : Recorded → Node → Prop where
  | bare {op : Operation} {node : Node} (h : op.Translates comments node) :
      Translates comments ⟨op, none⟩ node
  | located {op : Operation} {node : Node} (span : Span) (h : op.Translates comments node) :
      Translates comments ⟨op, some span⟩ (.located node span)

variable {comments : Bool} {r : Recorded} {node : Node} {ops : List Recorded} {nodes : List Node}

/-- Every recorded operation has one statement. -/
theorem translates_iff : r.Translates comments node ↔ r.statement comments = node := by
  obtain ⟨op, location⟩ := r
  constructor
  · intro h
    cases h with
    | bare h => exact (Operation.translates_iff.1 h).symm
    | located span h => rw [Operation.translates_iff.1 h]; rfl
  · rintro rfl
    cases location with
    | none => exact .bare (Operation.translates_iff.2 rfl)
    | some span => exact .located span (Operation.translates_iff.2 rfl)

theorem translates_statement (comments : Bool) (r : Recorded) :
    r.Translates comments (r.statement comments) := translates_iff.2 rfl

/-- The statements of operations, one for each. -/
theorem forall₂_translates_iff : List.Forall₂ (Translates comments) ops nodes ↔
    ops.map (·.statement comments) = nodes := by
  rw [← List.forall₂_eq_eq_eq, List.forall₂_map_left_iff]
  exact ⟨fun h => h.imp fun _ _ => translates_iff.1, fun h => h.imp fun _ _ => translates_iff.2⟩

end Recorded

end Resumable
