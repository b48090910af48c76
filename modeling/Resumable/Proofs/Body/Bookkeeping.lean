import Mathlib.Data.List.Nodup
import Mathlib.Data.List.ReduceOption
import Resumable.Proofs.Body.Frames
import Resumable.Proofs.Body.Meaning

/-!
# The stack of protected regions in a body

A body sets up the stack of protected regions before anything else, if there is such a region at
all. Its cases announce every region with a handler once and no region twice. What is pushed are
the numbers of the cases that the blocks of the region begin with, and those go up.
-/

namespace Resumable

/-- The phases, in order. -/
def Phase.all : List Phase := [.trying, .catching, .finishing, .done]

theorem Phase.pairwise_all : Phase.all.Pairwise (· < ·) := by decide

/-- `<state>.trys = [];` -/
def trysSetup (state : String) : Node :=
  .exprStmt (.assign (StateField.trys.of state) (.array []))

/-- `<state>.trys.push([...]);`, with a hole for each number that is missing. -/
def trysPush (state : String) (numbers : List (Option Nat)) : Node :=
  .exprStmt (.call (.member (StateField.trys.of state) "push")
    [.array (numbers.map fun number => number.elim .hole fun n => .number (toString n))])

namespace Node

/-- Whether the node is the field of the state that holds the stack of protected regions. -/
def isTrysField (state : String) : Node → Bool
  | .member (.identifier name) field => name = state && field = StateField.trys.name
  | _ => false

/-- Whether the statement puts a value in the place of the stack of protected regions, or pushes
on it. -/
def changesTrys (state : String) (node : Node) : Bool :=
  match node.bare with
  | .binary target "=" _ => target.isTrysField state
  | .call (.member target "push") _ => target.isTrysField state
  | _ => false

end Node

namespace Body.Plan

/-- The regions that the cases announce, case by case. -/
def announced (p : Plan) (entered : Nat → Option RegionId) : List RegionId :=
  (List.range (p.cuts.length + 1)).filterMap entered

/-- The numbers of the cases that the blocks of a region begin with, and of the case after it. -/
def numbers (p : Plan) (r : ExceptionRegion) : List (Option Nat) :=
  Phase.all.map fun phase => p.caseOf? (r.labelOf phase)

/-- The labels that a region has are marked, one after the other. -/
structure Ranked (p : Plan) (r : ExceptionRegion) : Prop where
  marked : ∀ q, (r.labelOf q).isSome = true → ∃ a, p.labels.position? (r.labelOf q) = some a
  ordered : ∀ q q' a b, q < q' → p.labels.position? (r.labelOf q) = some a →
    p.labels.position? (r.labelOf q') = some b → a < b

/-- What a body does with the stack of protected regions, by the blocks that were begun. -/
structure Bookkeeping (p : Plan) (begins : Phase → RegionId → Prop)
    (entered : Nat → Option RegionId) : Prop where
  /-- If a region was opened, the stack is set up, and there is a case 0 to do it in. -/
  used : (∃ id, begins .trying id) →
    p.cuts ≠ [] ∧ p.setup.map p.placed = [trysSetup p.state]
  unused : (¬∃ id, begins .trying id) → p.setup = [] ∧ p.announced entered = []
  once : ∀ id, begins .catching id ∨ begins .finishing id → (p.announced entered).count id = 1
  atMostOnce : ∀ id, (p.announced entered).count id ≤ 1
  opened : ∀ id ∈ p.announced entered, begins .trying id
  /-- The tuple of a region, with a number for each block it has, and with the one after it. -/
  pushed : ∀ id, begins .trying id → ∃ r, p.regions.exception? id = some r ∧
    p.placed (p.announce id) = trysPush p.state (p.numbers r) ∧
    (∀ phase, (p.caseOf? (r.labelOf phase)).isSome = true ↔ phase = .done ∨ begins phase id) ∧
    (p.numbers r).reduceOption.Pairwise (· < ·)
  /-- Nothing else changes the stack, unless the operations do so themselves. -/
  others : ∀ j, ∀ n ∈ (p.content j ++ p.advanceAfter j).map p.placed,
    n.changesTrys p.state = true → ∃ x ∈ p.operations, n = p.placed (p.statement x) ∧
      (x.operation.code = .assign ∨ x.operation.code = .statement)

variable {p : Plan} {j k : Nat} {id : RegionId} {r : ExceptionRegion} {n : Node}

theorem placed_setup (p : Plan) :
    p.setup.map p.placed = if p.regions.hasExceptions then [trysSetup p.state] else [] := by
  unfold setup
  split <;> rfl

/-- Besides what is set up and announced, only a statement that was recorded as one changes the
stack of protected regions. -/
theorem exists_of_changesTrys (hn : n ∈ (p.content j ++ p.advanceAfter j).map p.placed)
    (hchanges : n.changesTrys p.state = true) :
    ∃ x ∈ p.operations, n = p.placed (p.statement x) ∧
      (x.operation.code = .assign ∨ x.operation.code = .statement) := by
  obtain ⟨m, hm, rfl⟩ := List.mem_map.1 hn
  rcases List.mem_append.1 hm with hm | hm
  · rcases List.mem_append.1 hm with hm | hm
    · obtain ⟨x, hx, rfl⟩ := List.mem_map.1 hm
      refine ⟨x, List.take_subset _ _ (List.drop_subset _ _ hx), rfl, ?_⟩
      rw [Node.changesTrys, bare_placed_statement] at hchanges
      cases hop : x.operation with
      | assign target value => exact .inl rfl
      | statement node => exact .inr rfl
      | _ => rw [hop] at hchanges; cases hchanges
    · split at hm
      · obtain rfl := List.mem_singleton.1 hm
        cases hchanges
      · cases hm
  · unfold advanceAfter at hm
    split at hm
    · obtain rfl := List.mem_singleton.1 hm
      simp [Node.changesTrys, placed, advance, Node.relabel, Node.assign, StateField.of, Node.bare,
        Node.isTrysField, StateField.name] at hchanges
    · cases hm

section Laid

variable (h : Laid p.operations p.labels p.regions)

include h

theorem isSome_caseOf? (hr : p.Ranked r) (q : Phase) :
    (p.caseOf? (r.labelOf q)).isSome = (r.labelOf q).isSome := by
  cases hl : (r.labelOf q).isSome with
  | true =>
    obtain ⟨a, ha⟩ := hr.marked q hl
    rw [(case_of_position? h ha).1]
    rfl
  | false =>
    cases hpos : p.labels.position? (r.labelOf q) with
    | none =>
      rw [caseOf?, hpos]
      rfl
    | some a =>
      rw [LabelTable.isSome_of_position? hpos] at hl
      cases hl

/-- There is a number for the end of a region, and for each block of it that was begun. -/
theorem isSome_caseOf?_iff (hr : p.Ranked r) (hstop : r.stop.isSome = true) {begins : Phase → Prop}
    (hbegins : ∀ q < Phase.done, begins q ↔ (r.labelOf q).isSome = true) (q : Phase) :
    (p.caseOf? (r.labelOf q)).isSome = true ↔ q = .done ∨ begins q := by
  rw [isSome_caseOf? h hr]
  by_cases hq : q < .done
  · rw [hbegins q hq]
    refine (or_iff_right ?_).symm
    rintro rfl
    exact absurd hq (by decide)
  · cases q with
    | done => exact iff_of_true hstop (.inl rfl)
    | _ => exact absurd (by decide) hq

/-- The announcement of a region, in numbers. -/
theorem placed_announce (hid : p.regions.exception? id = some r) (hr : p.Ranked r)
    (hstart : r.start.isSome = true) (hstop : r.stop.isSome = true) :
    p.placed (p.announce id) = trysPush p.state (p.numbers r) := by
  have href : ∀ q, (r.labelOf q).isSome = true → p.placed (.labelRef (r.labelOf q)) =
      (p.caseOf? (r.labelOf q)).elim .hole fun n => .number (toString n) := by
    intro q hsome
    rw [← isSome_caseOf? h hr] at hsome
    obtain ⟨n, hn⟩ := Option.isSome_iff_exists.1 hsome
    show Node.numeral p.caseOf? (r.labelOf q) = _
    rw [Node.numeral, hn]
    rfl
  have hhole : ∀ q, p.placed (labelOrHole (r.labelOf q)) =
      (p.caseOf? (r.labelOf q)).elim .hole fun n => .number (toString n) := by
    intro q
    unfold labelOrHole
    split
    · next hsome => exact href q hsome
    · next hsome =>
      rw [← isSome_caseOf? h hr, Option.not_isSome_iff_eq_none] at hsome
      rw [hsome]
      rfl
  have hpush : p.placed (p.announce id) = .exprStmt (.call
      (.member (StateField.trys.of p.state) "push") [.array
        [p.placed (.labelRef r.start), p.placed (labelOrHole r.catchLabel),
          p.placed (labelOrHole r.finallyLabel), p.placed (.labelRef r.stop)]]) := by
    have hget : p.regions.get? id >>= Region.exception? = some r := hid
    rw [announce, hget]
    rfl
  have h₁ := href .trying hstart
  have h₂ := hhole .catching
  have h₃ := hhole .finishing
  have h₄ := href .done hstop
  simp only [ExceptionRegion.labelOf] at h₁ h₂ h₃ h₄
  rw [hpush, h₁, h₂, h₃, h₄]
  rfl

/-- Passing from one block of a region to a later one means passing into another case. -/
theorem pairwise_numbers (hr : p.Ranked r) : (p.numbers r).reduceOption.Pairwise (· < ·) := by
  rw [numbers, List.reduceOption, List.filterMap_map, List.pairwise_filterMap]
  refine Phase.pairwise_all.imp fun {q q'} hlt m hm n hn => ?_
  have hposition : ∀ {l : Label} {m : Nat}, p.caseOf? l = some m →
      ∃ a, p.labels.position? l = some a ∧ p.caseAt a = m := by
    intro l m hm
    obtain ⟨a, ha, hcase⟩ := Option.bind_eq_some_iff.1 hm
    split at hcase
    · exact ⟨a, ha, Option.some.inj hcase⟩
    · cases hcase
  obtain ⟨a, ha, rfl⟩ := hposition hm
  obtain ⟨b, hb, rfl⟩ := hposition hn
  have hab := hr.ordered q q' a b hlt ha hb
  rcases (case_of_position? h hb).2 with rfl | hcut
  · exact absurd hab (Nat.not_lt_zero a)
  · exact caseAt_lt_of_isCut hab hcut

variable (hlive : p.regions.live = [])

include hlive

/-- No region is announced by two cases. -/
theorem entered_cursorOf_unique (hj : (p.cursorOf j).entered = some id)
    (hk : (p.cursorOf k).entered = some id) : j = k := by
  have hlt : ∀ i, (p.cursorOf i).entered = some id → i < p.cuts.length := by
    intro i hi
    apply Nat.lt_of_not_le
    intro hle
    have hlast := entered_cursorOf_last h hlive
    rw [cursorOf, if_neg (Nat.lt_irrefl _)] at hlast
    rw [cursorOf, if_neg (Nat.not_lt.2 hle), hlast] at hi
    cases hi
  have hj' := (entered_cursorOf_iff h (hlt j hj)).1 hj
  have hk' := (entered_cursorOf_iff h (hlt k hk)).1 hk
  rcases Nat.lt_trichotomy j k with hjk | rfl | hkj
  · exact absurd hj'.1 (hk'.2 j hjk)
  · rfl
  · exact absurd hk'.1 (hj'.2 k hkj)

theorem nodup_announced : (p.announced fun j => (p.cursorOf j).entered).Nodup :=
  List.Nodup.filterMap (fun _ _ _ => entered_cursorOf_unique h hlive) List.nodup_range

theorem mem_announced_of_isHandled (hr : p.regions.exception? id = some r)
    (hh : r.isHandled = true) : id ∈ p.announced fun j => (p.cursorOf j).entered := by
  have hlt := announcedIn_lt_length h hlive hr hh
  refine List.mem_filterMap.2 ⟨p.announcedIn id, List.mem_range.2 (Nat.lt_succ_of_lt hlt), ?_⟩
  exact (entered_cursorOf_iff_of_isHandled h hlive hr hh (Nat.le_of_lt hlt)).2 rfl

omit h hlive in
theorem exists_of_mem_announced (hid : id ∈ p.announced fun j => (p.cursorOf j).entered) :
    ∃ r, p.regions.exception? id = some r := by
  obtain ⟨j, -, hj⟩ := List.mem_filterMap.1 hid
  obtain ⟨r, hr⟩ := (sorted_cursorTo p _).entered id hj
  exact ⟨r, RegionStack.exception?_eq_some_iff.2 hr⟩

/-- A region ends where a case begins. -/
theorem cuts_ne_nil (hr : p.regions.exception? id = some r) : p.cuts ≠ [] := by
  obtain ⟨b, c, hs, -⟩ := h.exists_spans hlive hr
  have hstop := stopCase_le_length h hs
  exact List.ne_nil_of_length_pos (by omega)

/-- The bookkeeping of a finished session, if its regions are ranked and their labels are those of
the blocks that were begun. -/
theorem bookkeeping {begins : Phase → RegionId → Prop}
    (hused : p.regions.hasExceptions = true ↔ ∃ id, begins .trying id)
    (hbegins : ∀ q < Phase.done, ∀ id, begins q id ↔
      ∃ r, p.regions.exception? id = some r ∧ (r.labelOf q).isSome = true)
    (hranked : ∀ id r, p.regions.exception? id = some r → p.Ranked r) :
    p.Bookkeeping begins fun j => (p.cursorOf j).entered := by
  have hopened : ∀ id r, p.regions.exception? id = some r → begins .trying id := by
    intro id r hr
    obtain ⟨b, -, hb⟩ := h.exists_start hr
    exact (hbegins .trying (by decide) id).2 ⟨r, hr, LabelTable.isSome_of_position? hb⟩
  have hnodup := nodup_announced h hlive
  constructor
  · rintro ⟨id, hid⟩
    obtain ⟨r, hr, -⟩ := (hbegins .trying (by decide) id).1 hid
    refine ⟨cuts_ne_nil h hlive hr, ?_⟩
    rw [placed_setup, if_pos (hused.2 ⟨id, hid⟩)]
  · intro hnone
    constructor
    · unfold setup
      rw [if_neg (mt hused.1 hnone)]
    · refine List.eq_nil_iff_forall_not_mem.2 fun id hid => hnone ?_
      obtain ⟨r, hr⟩ := exists_of_mem_announced hid
      exact ⟨id, hopened id r hr⟩
  · intro id hid
    refine List.count_eq_one_of_mem hnodup ?_
    rcases hid with hid | hid
    · obtain ⟨r, hr, hsome⟩ := (hbegins .catching (by decide) id).1 hid
      exact mem_announced_of_isHandled h hlive hr (Bool.or_eq_true_iff.2 (.inl hsome))
    · obtain ⟨r, hr, hsome⟩ := (hbegins .finishing (by decide) id).1 hid
      exact mem_announced_of_isHandled h hlive hr (Bool.or_eq_true_iff.2 (.inr hsome))
  · exact List.nodup_iff_count_le_one.1 hnodup
  · intro id hid
    obtain ⟨r, hr⟩ := exists_of_mem_announced hid
    exact hopened id r hr
  · intro id hid
    obtain ⟨r, hr, hstart⟩ := (hbegins .trying (by decide) id).1 hid
    obtain ⟨b, c, -, -, hstop, -⟩ := h.exists_spans hlive hr
    have hstop := LabelTable.isSome_of_position? hstop
    have hrank := hranked id r hr
    refine ⟨r, hr, placed_announce h hr hrank hstart hstop, ?_, pairwise_numbers h hrank⟩
    refine isSome_caseOf?_iff h hrank hstop fun q hq => (hbegins q hq id).trans ?_
    constructor
    · rintro ⟨r', hr', hsome⟩
      obtain rfl := Option.some.inj (hr.symm.trans hr')
      exact hsome
    · exact fun hsome => ⟨r, hr, hsome⟩
  · exact fun j n hn hchanges => exists_of_changesTrys hn hchanges

end Laid

end Body.Plan

end Resumable
