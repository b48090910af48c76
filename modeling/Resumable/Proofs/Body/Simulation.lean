import Resumable.Proofs.Body.Meaning

/-!
# The simulation

The machine that runs a built body and the walk over the operations it was built from show the
same events and end alike. The walk is at an index and the machine before the code of that
index, with the case of the index stored. Where the walk goes on to the next operation or
branches, the machine may need one step more than it, to move on the case number or to select
a clause; nothing is shown by that step.
-/

namespace Resumable

theorem Oracle.ask_not (oracle : Oracle) (seen : List Event) (condition : Node) :
    oracle.ask seen condition.not =
      (!(oracle.ask seen condition).1, (oracle.ask seen condition).2) := by
  unfold Oracle.ask
  rw [Node.core_not]
  cases oracle seen condition.core.1 <;> cases condition.core.2 <;> rfl

namespace Body.Plan

/-- The statements of the body. -/
def statements (p : Plan) : List Node := p.unplaced.map p.placed

/-- The walk can come to the index, and what is left to do there is in the body. -/
def Reaches (p : Plan) (i : Nat) : Prop :=
  i < p.operations.length ∨ i = p.operations.length ∧ p.endsWithReturn = true

/-- The machine is about to run what the walk is about to run, or both have ended. -/
inductive Aligned (p : Plan) (m : Machine) (w : Walk) : Prop where
  | running (seen : m.seen = w.seen) (machine : m.ending = none) (walk : w.ending = none)
      (rest : m.rest = (p.code w.index).map p.placed) (label : m.label = p.caseAt w.index)
      (reaches : p.Reaches w.index)
  | ended (seen : m.seen = w.seen) (ending : Ending) (machine : m.ending = some ending)
      (walk : w.ending = some ending)

/-- The machine and the walk agree, and are aligned at once or after one step of the machine. -/
structure Follows (p : Plan) (oracle : Oracle) (m : Machine) (w : Walk) : Prop where
  agrees : m.Agrees w
  aligned : p.Aligned m w ∨ p.Aligned (m.step p.state p.statements oracle) w

variable {p : Plan} {oracle : Oracle} {m : Machine} {w : Walk} {i : Nat}

theorem Aligned.agrees (ha : p.Aligned m w) : m.Agrees w := by
  cases ha with
  | running seen machine walk => exact ⟨seen, machine.trans walk.symm⟩
  | ended seen ending machine walk => exact ⟨seen, machine.trans walk.symm⟩

theorem Aligned.follows (ha : p.Aligned m w) : p.Follows oracle m w := ⟨ha.agrees, Or.inl ha⟩

theorem abruptBefore_succ (hi : i < p.operations.length) :
    p.abruptBefore (i + 1) = p.operations[i].operation.isAbrupt := by
  rw [abruptBefore, getLast?_take_succ hi]
  rfl

theorem completeBefore_succ (hi : i < p.operations.length) :
    p.completeBefore (i + 1) = p.operations[i].operation.isCompletion := by
  rw [completeBefore, getLast?_take_succ hi]
  rfl

/-- What the machine does with the move to the next case. -/
theorem act_advance (p : Plan) (n : Nat) :
    Act.ofNode p.state (p.placed (p.advance n)) = .store n := by
  have hplaced : p.placed (p.advance n) = p.advance n := placed_eq_self rfl
  have hfield : (StateField.label.of p.state).isCaseField p.state = true := by
    simp [StateField.of, Node.isCaseField]
  rw [hplaced]
  simp only [Act.ofNode, advance, Node.assign, Node.bare, Act.ofBare, hfield, if_true,
    Node.natural?_number]

section Steps

variable (h : p.Runnable)

include h

theorem reaches_of_isCut (hi : i ≤ p.operations.length) (hc : i = 0 ∨ p.isCut i = true) :
    p.Reaches i := by
  by_cases heq : i = p.operations.length
  · refine Or.inr ⟨heq, ?_⟩
    rcases hc with rfl | hc
    · have hnil : p.operations = [] := List.length_eq_zero_iff.1 heq.symm
      simp [endsWithReturn, h.returns, completeBefore, hnil]
    · rw [heq] at hc
      simp [endsWithReturn, h.returns, hc]
  · exact Or.inl (by omega)

theorem reaches_succ (hi : i < p.operations.length)
    (hc : p.operations[i].operation.isCompletion = false) : p.Reaches (i + 1) := by
  by_cases heq : i + 1 = p.operations.length
  · refine Or.inr ⟨heq, ?_⟩
    have hcomplete := completeBefore_succ hi
    rw [heq, hc] at hcomplete
    simp [endsWithReturn, h.returns, hcomplete]
  · exact Or.inl (by omega)

/-- A new case begins after a suspension, even at the end. -/
theorem isCut_succ (hi : i < p.operations.length)
    (hs : p.operations[i].operation.isSuspension = true) : p.isCut (i + 1) = true := by
  have habrupt : p.abruptBefore (i + 1) = true := by
    rw [abruptBefore_succ hi]
    cases hop : p.operations[i].operation <;> rw [hop] at hs <;> first | rfl | cases hs
  have hcomplete : p.completeBefore (i + 1) = false := by
    rw [completeBefore_succ hi]
    cases hop : p.operations[i].operation <;> rw [hop] at hs <;> first | rfl | cases hs
  have hle : i + 1 ≤ p.operations.length := hi
  simp [isCut, hle, habrupt, hcomplete, h.returns]

/-- The machine restarts the body with the case of the index stored that the walk goes to. -/
theorem follows_entry (hi : w.index ≤ p.operations.length)
    (hc : w.index = 0 ∨ p.isCut w.index = true) (seen : m.seen = w.seen)
    (machine : m.ending = none) (walk : w.ending = none) (rest : m.rest = p.statements)
    (label : m.label = p.caseAt w.index) : p.Follows oracle m w := by
  refine ⟨⟨seen, machine.trans walk.symm⟩, ?_⟩
  have hreaches := reaches_of_isCut h hi hc
  by_cases hcuts : p.cuts = []
  · have hlen : p.cuts.length = 0 := by rw [hcuts]; rfl
    have hzero : w.index = 0 := by
      rcases hc with hc | hc
      · exact hc
      · have := openCase_lt_length_cuts hc
        omega
    have hcode : p.code 0 = p.content 0 := by
      have hlast := code_bound_last (p := p)
      rwa [hlen, bound_zero] at hlast
    refine Or.inl (.running seen machine walk ?_ label hreaches)
    rw [rest, hzero, statements, unplaced, if_pos hcuts, setup_of_regions h.regions, hcode]
    rfl
  · have hcase := caseAt_le_length_cuts hi
    have hstatements : m.rest = [.switchStmt (StateField.label.of p.state)
        (((List.range (p.cuts.length + 1)).map p.clause).map p.placedClause)] := by
      rw [rest, statements, unplaced, if_neg hcuts, List.map_singleton, placed_switch]
    have hfield : (StateField.label.of p.state).isCaseField p.state = true := by
      simp [StateField.of, Node.isCaseField]
    have hstep : m.step p.state p.statements oracle =
        { m with rest := (p.code w.index).map p.placed } := by
      simp only [Machine.step, machine, hstatements, Act.ofNode, Node.bare, Act.ofBare, hfield,
        if_true, Machine.perform, label, entry_placed_clauses h.regions hcase, bound_caseAt hc,
        List.append_nil]
    rw [hstep]
    exact Or.inr (.running seen machine walk rfl label hreaches)

/-- The machine has run the statement of an operation that the walk goes on after. -/
theorem follows_next (hi : i < p.operations.length) (hw : w.index = i + 1)
    (habrupt : p.operations[i].operation.isAbrupt = false) (seen : m.seen = w.seen)
    (machine : m.ending = none) (walk : w.ending = none)
    (rest : m.rest = (p.move (i + 1) ++ p.code (i + 1)).map p.placed)
    (label : m.label = p.caseAt i) : p.Follows oracle m w := by
  refine ⟨⟨seen, machine.trans walk.symm⟩, ?_⟩
  have hcompletion : p.operations[i].operation.isCompletion = false := by
    cases hc : p.operations[i].operation.isCompletion with
    | false => rfl
    | true => rw [Operation.isAbrupt_of_isCompletion hc] at habrupt; cases habrupt
  have hreaches : p.Reaches w.index := hw ▸ reaches_succ h hi hcompletion
  cases hcut : p.isCut (i + 1) with
  | true =>
    have hmove : p.move (i + 1) = [p.advance (p.caseAt (i + 1))] :=
      if_pos ⟨hcut, (abruptBefore_succ hi).trans habrupt⟩
    rw [hmove, List.map_append, List.map_singleton, List.singleton_append] at rest
    have hstep : m.step p.state p.statements oracle =
        { m with rest := (p.code (i + 1)).map p.placed, label := p.caseAt (i + 1) } := by
      simp only [Machine.step, machine, rest, act_advance, Machine.perform]
    rw [hstep]
    exact Or.inr (.running seen machine walk (by rw [hw]) (by rw [hw]) hreaches)
  | false =>
    rw [move_of_not_isCut hcut, List.nil_append, ← hw] at rest
    have hcase : m.label = p.caseAt w.index := by
      rw [label, hw, caseAt_of_not_isCut hcut]
      rfl
    exact Or.inl (.running seen machine walk rest hcase hreaches)

/-- Both go one operation further. -/
theorem follows_perform (hi : w.index < p.operations.length) (seen : m.seen = w.seen)
    (machine : m.ending = none) (walk : w.ending = none)
    (label : m.label = p.caseAt w.index) :
    p.Follows oracle
      (m.perform p.statements oracle
        ((p.move (w.index + 1) ++ p.code (w.index + 1)).map p.placed)
        (p.act p.operations[w.index].operation))
      (w.perform p p.placed oracle p.operations[w.index].operation) := by
  have hdefined := h.defined _ (List.getElem_mem hi)
  have hplain := h.plain _ (List.getElem_mem hi)
  cases hop : p.operations[w.index].operation with
  | assign target value =>
    exact follows_next h hi rfl (by rw [hop]; rfl) (congrArg (· ++ _) seen) machine walk rfl label
  | statement node =>
    exact follows_next h hi rfl (by rw [hop]; rfl) (congrArg (· ++ _) seen) machine walk rfl label
  | jump l =>
    obtain ⟨hle, hcut, -⟩ :=
      target_spec h (hdefined l (by rw [hop]; exact List.mem_singleton.2 rfl))
    exact follows_entry h hle hcut seen machine walk rfl rfl
  | jumpIfTrue l condition =>
    obtain ⟨hle, hcut, -⟩ := target_spec h (hdefined l (by rw [hop]; simp [Operation.node,
      Node.ifThen, Node.references, Instruction.jumpTo, Instruction.statement,
      Node.referencesOption]))
    simp only [act, Machine.perform, Walk.perform, seen]
    cases (oracle.ask w.seen (p.placed condition)).1 with
    | true => exact follows_entry h hle hcut rfl machine walk rfl rfl
    | false => exact follows_next h hi rfl (by rw [hop]; rfl) rfl machine walk rfl label
  | jumpIfFalse l condition =>
    obtain ⟨hle, hcut, -⟩ := target_spec h (hdefined l (by rw [hop]; simp [Operation.node,
      Node.ifThen, Node.references, Instruction.jumpTo, Instruction.statement,
      Node.referencesOption]))
    simp only [act, Machine.perform, Walk.perform, seen, Oracle.ask_not]
    cases (oracle.ask w.seen (p.placed condition)).1 with
    | true => exact follows_next h hi rfl (by rw [hop]; rfl) rfl machine walk rfl label
    | false => exact follows_entry h hle hcut rfl machine walk rfl rfl
  | yield value =>
    have hcut := isCut_succ h hi (by rw [hop]; rfl)
    refine follows_entry h hi (Or.inr hcut) (congrArg (· ++ _) seen) machine walk rfl ?_
    show m.label + 1 = p.caseAt (w.index + 1)
    rw [label, caseAt_of_isCut hcut]
    rfl
  | delegate value =>
    have hcut := isCut_succ h hi (by rw [hop]; rfl)
    refine follows_entry h hi (Or.inr hcut) (congrArg (· ++ _) seen) machine walk rfl ?_
    show m.label + 1 = p.caseAt (w.index + 1)
    rw [label, caseAt_of_isCut hcut]
    rfl
  | complete value => exact Aligned.follows (.ended seen _ rfl rfl)
  | throw value => exact Aligned.follows (.ended seen _ rfl rfl)
  | endFinally =>
    rw [hop] at hplain
    exact hplain.elim

/-- From where they are aligned, one step of each keeps the machine with the walk. -/
theorem Aligned.step (ha : p.Aligned m w) :
    p.Follows oracle (m.step p.state p.statements oracle) (w.step p p.placed oracle) := by
  cases ha with
  | ended seen ending machine walk =>
    have hm : m.step p.state p.statements oracle = m := by simp only [Machine.step, machine]
    have hw : w.step p p.placed oracle = w := by simp only [Walk.step, walk]
    rw [hm, hw]
    exact Aligned.follows (.ended seen ending machine walk)
  | running seen machine walk rest label reaches =>
    rcases reaches with hi | ⟨hi, hend⟩
    · have hm : m.step p.state p.statements oracle = m.perform p.statements oracle
          ((p.move (w.index + 1) ++ p.code (w.index + 1)).map p.placed)
          (p.act p.operations[w.index].operation) := by
        rw [code_eq hi, List.map_cons] at rest
        simp only [Machine.step, machine, rest, act_statement h (List.getElem_mem hi)]
      have hw : w.step p p.placed oracle =
          w.perform p p.placed oracle p.operations[w.index].operation := by
        simp only [Walk.step, walk, List.getElem?_eq_getElem hi]
      rw [hm, hw]
      exact follows_perform h hi seen machine walk label
    · have hm : m.step p.state p.statements oracle =
          { m with rest := [], ending := some (.returned none) } := by
        rw [hi, code_length, closing, if_pos hend, List.map_singleton, placed_instruction] at rest
        simp only [Machine.step, machine, rest]
        rfl
      have hw : w.step p p.placed oracle = { w with ending := some (.returned none) } := by
        have hnone : p.operations[w.index]? = none := by
          rw [hi]
          exact List.getElem?_eq_none (Nat.le_refl _)
        simp only [Walk.step, walk, hnone]
      rw [hm, hw]
      exact Aligned.follows (.ended seen _ rfl rfl)

/-- The machine keeps up with the walk. -/
theorem exists_machine_follows (oracle : Oracle) (k : Nat) :
    ∃ n, k ≤ n ∧ n ≤ 2 * k ∧
      p.Follows oracle (Machine.after p.state p.statements oracle n)
        (Walk.after p p.placed oracle k) := by
  induction k with
  | zero =>
    exact ⟨0, Nat.le_refl _, Nat.le_refl _,
      follows_entry h (Nat.zero_le _) (Or.inl rfl) rfl rfl rfl rfl (caseAt_zero p).symm⟩
  | succ k ih =>
    obtain ⟨n, hkn, hn, hf⟩ := ih
    rcases hf.aligned with ha | ha
    · exact ⟨n + 1, by omega, by omega, ha.step h⟩
    · exact ⟨n + 2, by omega, by omega, ha.step h⟩

/-- The machine never gets away from the walk. -/
theorem exists_walk_follows (oracle : Oracle) (n : Nat) :
    ∃ k ≤ n, p.Follows oracle (Machine.after p.state p.statements oracle n)
      (Walk.after p p.placed oracle k) := by
  induction n with
  | zero =>
    exact ⟨0, Nat.le_refl _,
      follows_entry h (Nat.zero_le _) (Or.inl rfl) rfl rfl rfl rfl (caseAt_zero p).symm⟩
  | succ n ih =>
    obtain ⟨k, hkn, hf⟩ := ih
    rcases hf.aligned with ha | ha
    · exact ⟨k + 1, by omega, ha.step h⟩
    · exact ⟨k, by omega, ha.follows⟩

end Steps

/-- The body of a plan without regions can be built, and running it shows what running the
operations shows, for every oracle and every number of steps. -/
theorem simulates_of_runnable (h : p.Runnable) :
    ∃ body, p.build = .ok body ∧ ∀ oracle : Oracle,
      (∀ k, ∃ n, k ≤ n ∧ n ≤ 2 * k ∧
        (Machine.after p.state body.statements oracle n).Agrees (Walk.after p p.placed oracle k)) ∧
      (∀ n, ∃ k ≤ n,
        (Machine.after p.state body.statements oracle n).Agrees
          (Walk.after p p.placed oracle k)) := by
  refine ⟨_, build_of_runnable h, fun oracle => ⟨fun k => ?_, fun n => ?_⟩⟩
  · obtain ⟨n, hkn, hn, hf⟩ := exists_machine_follows h oracle k
    exact ⟨n, hkn, hn, hf.agrees⟩
  · obtain ⟨k, hk, hf⟩ := exists_walk_follows h oracle n
    exact ⟨k, hk, hf.agrees⟩

theorem runnable_polling : polling.Runnable where
  splits := rfl
  returns := rfl
  regions := rfl
  marked l hl := by
    obtain ⟨n⟩ := l
    obtain ⟨hpos, hle⟩ := LabelTable.isSome_find?_iff.1 hl
    obtain rfl | rfl : n = 1 ∨ n = 2 := by
      simp only [polling, LabelTable.size, List.length_cons, List.length_nil] at hpos hle
      omega
    · exact ⟨0, rfl, Nat.zero_le _⟩
    · exact ⟨3, rfl, Nat.le_refl _⟩
  defined := by decide
  plain := by
    intro r hr
    simp only [polling, List.mem_cons, List.not_mem_nil, or_false] at hr
    rcases hr with rfl | rfl | rfl <;> trivial

/-- Whether there is more is asked again after each value, whichever way it is run. -/
theorem simulates_polling : polling.Runnable ∧ ∃ body, polling.build = .ok body ∧
    ∀ (oracle : Oracle) (k : Nat), ∃ n, k ≤ n ∧
      (Machine.after "_state" body.statements oracle n).Agrees
        (Walk.after polling polling.placed oracle k) := by
  obtain ⟨body, hb, hagree⟩ := simulates_of_runnable runnable_polling
  refine ⟨runnable_polling, body, hb, fun oracle k => ?_⟩
  obtain ⟨n, hkn, -, ha⟩ := (hagree oracle).1 k
  exact ⟨n, hkn, ha⟩

end Body.Plan

end Resumable
