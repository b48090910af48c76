import Resumable.Proofs.Body.Cases
import Resumable.Proofs.Body.Slots
import Resumable.Proofs.Label.Position

/-!
# Which case announces which region

The cursor has room for one region that is entered and not announced. So a case announces the
exception region that is innermost at its end, unless a case before did so. A region that is
handled is innermost at the end of the case it starts in, and announced there, unless another
region starts in the same case inside of it and lasts beyond that case. Then it has to wait for
the case in which that region is closed.
-/

namespace Resumable.Body.Plan

/-- The exception region that is innermost before an operation. -/
def innermost (p : Plan) (i : Nat) : Option RegionId := (p.regions.openBefore i).head?

/-- The region was innermost at a cut before the index. -/
def announcedBefore (p : Plan) (i : Nat) (id : RegionId) : Bool :=
  (List.range i).any fun k => p.isCut k && decide (p.innermost k = some id)

/-- What is left of a region that was entered. -/
def slot (p : Plan) (i : Nat) (id : RegionId) : Option RegionId :=
  if p.announcedBefore i id then none else some id

/-- The case that an exception region starts in: the one that its start label stands for. -/
def startCase (p : Plan) (id : RegionId) : Nat :=
  ((p.regions.exception? id).bind fun r => p.caseOf? r.start).getD 0

/-- The case that follows an exception region: the one that its stop label stands for. -/
def stopCase (p : Plan) (id : RegionId) : Nat :=
  ((p.regions.exception? id).bind fun r => p.caseOf? r.stop).getD 0

/-- The second region is opened inside of the first, starts in the same case and lasts beyond
that case. -/
def obscures (p : Plan) (id inner : RegionId) : Bool :=
  decide (id < inner) && (p.regions.exception? inner).isSome &&
    decide (p.startCase inner = p.startCase id) &&
      decide (p.startCase inner + 1 < p.stopCase inner)

/-- The outermost region that keeps another one from being announced where it starts. -/
def obscuring? (p : Plan) (id : RegionId) : Option RegionId :=
  (List.range p.regions.regions.length).find? (p.obscures id)

/-- The case that announces a region with a handler. -/
def announcedIn (p : Plan) (id : RegionId) : Nat :=
  match p.obscuring? id with
  | none => p.startCase id
  | some inner => p.stopCase inner - 1

/-- The body is one switch, and these are the regions that its cases announce and the scopes that
stand around their statements. -/
def FramedBy (p : Plan) (body : Body) (entered : Nat → Option RegionId)
    (scopes : Nat → List RegionId) : Prop :=
  body.statements = [.switchStmt (StateField.label.of p.state)
    ((List.range (p.cuts.length + 1)).map fun j =>
      p.placedClause ⟨some (.number (toString j)),
        p.framed j (entered j) (scopes j) (p.content j) ++ p.advanceAfter j⟩)]

variable {p : Plan} {i j b c b' c' : Nat} {id x y : RegionId} {r : ExceptionRegion}

theorem framedBy_of_build_eq_ok {body : Body} (hs : p.splitOnAbrupt = true)
    (hb : p.build = .ok body) (hcuts : p.cuts ≠ []) :
    p.FramedBy body (fun j => (p.cursorOf j).entered) fun j => (p.cursorOf j).scopes := by
  obtain ⟨-, -, rfl⟩ := (build_eq_ok_iff hs).1 hb
  simp only [FramedBy, unplaced, if_neg hcuts, List.map_singleton, placed_switch, List.map_map]
  rfl

theorem announcedBefore_succ (p : Plan) (i : Nat) (id : RegionId) :
    p.announcedBefore (i + 1) id =
      (p.announcedBefore i id || (p.isCut i && decide (p.innermost i = some id))) := by
  rw [announcedBefore, List.range_succ, List.any_append, announcedBefore]
  simp

theorem pending_cursorTo (i : Nat) :
    (p.cursorTo i).pending = p.regions.events.dropWhile (·.offset < i) := by
  induction i with
  | zero =>
    show p.regions.events = _
    cases p.regions.events with
    | nil => rfl
    | cons e rest => rw [List.dropWhile_cons_of_neg (by simp)]
  | succ i ih =>
    have hpending : (if p.isCut i then { p.cursorTo i with entered := none }
        else p.cursorTo i).pending = (p.cursorTo i).pending := by
      split <;> rfl
    have hle : (fun e : RegionEvent => decide (e.offset < i + 1)) =
        fun e => decide (e.offset ≤ i) := by
      funext e
      exact decide_eq_decide.2 Nat.lt_succ_iff
    rw [cursorTo, RegionCursor.pending_reach, hpending, ih, hle,
      dropWhile_dropWhile_of_imp fun e he => by
        simp only [decide_eq_true_eq] at he ⊢
        omega]

/-- On the way from one index to the next the walk replays the events in between. -/
theorem cursorTo_succ (i : Nat) :
    p.cursorTo (i + 1) =
      ((p.regions.events.dropWhile (·.offset < i)).takeWhile (·.offset < i + 1)).foldl
        (RegionCursor.replay p.regions)
        { if p.isCut i then { p.cursorTo i with entered := none } else p.cursorTo i with
          pending :=
            (p.regions.events.dropWhile (·.offset < i)).dropWhile (·.offset < i + 1) } := by
  have hpending : (if p.isCut i then { p.cursorTo i with entered := none }
      else p.cursorTo i).pending = p.regions.events.dropWhile (·.offset < i) := by
    rw [← pending_cursorTo]
    split <;> rfl
  have hle : (fun e : RegionEvent => decide (e.offset < i + 1)) =
      fun e => decide (e.offset ≤ i) := by
    funext e
    exact decide_eq_decide.2 Nat.lt_succ_iff
  rw [cursorTo, RegionCursor.reach, hpending, hle]

section Cursor

variable (h : Laid p.operations p.labels p.regions)

include h

/-- A region that is opened before an operation has not been announced yet. -/
theorem slot_of_opened {o : Nat} (ho : ⟨.opened, id, o⟩ ∈ p.regions.events)
    (hid : (p.regions.exception? id).isSome = true) (hi : i ≤ o + 1) : p.slot i id = some id := by
  have hnot : p.announcedBefore i id = false := by
    rw [announcedBefore, List.any_eq_false]
    intro k hk hcut
    simp only [Bool.and_eq_true, decide_eq_true_eq] at hcut
    have hlt := List.mem_range.1 hk
    have hopen := List.mem_filter.1 (List.mem_of_head? hcut.2)
    obtain ⟨next, hnext⟩ := h.history_logBefore k
    obtain ⟨b, hb⟩ := hnext.exists_opened (hnext.mem_live_iff.1 hopen.1).1
    obtain ⟨hb, hbk⟩ := h.mem_logBefore_iff.1 hb
    have hbk : b < k := hbk
    have hbo : b = o := h.opened_unique hid hb ho
    omega
  rw [slot, hnot]
  rfl

/-- Announcing the innermost region uses up its slot and no other one. -/
theorem holds_announce (hold : (p.cursorTo i).Holds p.regions (p.slot i)
      ((p.regions.logBefore i).foldl RegionEvent.track [])) :
    (if p.isCut i then { p.cursorTo i with entered := none } else p.cursorTo i).Holds p.regions
      (p.slot (i + 1)) ((p.regions.logBefore i).foldl RegionEvent.track []) := by
  have hsorted := h.openBefore_sorted i
  have hinner : p.innermost i = (p.regions.openBefore i).head? := rfl
  change (p.cursorTo i).entered :: (p.cursorTo i).outer =
    (p.regions.openBefore i).map (p.slot i) ++ [none] at hold
  show RegionCursor.entered _ :: RegionCursor.outer _ =
    (p.regions.openBefore i).map (p.slot (i + 1)) ++ [none]
  cases hcut : p.isCut i with
  | false =>
    have hslot : p.slot (i + 1) = p.slot i := by
      funext id
      rw [slot, announcedBefore_succ, hcut, Bool.false_and, Bool.or_false, slot]
    rw [hslot]
    exact hold
  | true =>
    rw [if_pos rfl]
    cases hopen : p.regions.openBefore i with
    | nil =>
      rw [hopen] at hold
      obtain ⟨-, houter⟩ := List.cons.inj hold
      rw [houter]
      rfl
    | cons top rest =>
      rw [hopen] at hold hsorted hinner
      obtain ⟨-, houter⟩ := List.cons.inj hold
      have htop : p.slot (i + 1) top = none := by
        rw [slot, announcedBefore_succ, hcut, hinner]
        simp
      have hrest : ∀ id ∈ rest, p.slot (i + 1) id = p.slot i id := by
        intro id hid
        have hne : top ≠ id := Nat.ne_of_gt ((List.pairwise_cons.1 hsorted).1 id hid)
        rw [slot, announcedBefore_succ, hcut, hinner, slot]
        simp [hne]
      rw [List.map_cons, htop, List.map_congr_left hrest]
      exact congrArg (none :: ·) houter

/-- What the cursor holds when the walk gets to an index. -/
theorem holds_cursorTo (i : Nat) :
    (p.cursorTo i).Holds p.regions (p.slot i)
      ((p.regions.logBefore i).foldl RegionEvent.track []) := by
  induction i with
  | zero =>
    rw [RegionStack.logBefore_zero]
    rfl
  | succ i ih =>
    obtain ⟨next, hnext⟩ := h.history_logBefore (i + 1)
    rw [RegionStack.logBefore_append (Nat.le_succ i)] at hnext ⊢
    rw [cursorTo_succ]
    refine RegionCursor.Holds.foldl_replay hnext (holds_announce h ih) fun e he ha hr => ?_
    have hdrop := List.takeWhile_subset _ he
    have hoff := mem_dropWhile_of_pairwise h.ordered (fun a b hab hb => by
      simp only [decide_eq_true_eq] at hb ⊢
      omega) hdrop
    obtain ⟨action, id, offset⟩ := e
    obtain rfl : action = .opened := ha
    have hmem := (List.dropWhile_suffix _).subset hdrop
    exact slot_of_opened h hmem hr (by simp at hoff; omega)

/-- The region that a case would announce if it ended at the index. -/
theorem entered_cursorTo_iff : (p.cursorTo i).entered = some id ↔
    p.innermost i = some id ∧ p.announcedBefore i id = false := by
  have hold := holds_cursorTo h i
  change (p.cursorTo i).entered :: (p.cursorTo i).outer =
    (p.regions.openBefore i).map (p.slot i) ++ [none] at hold
  rw [innermost]
  cases hopen : p.regions.openBefore i with
  | nil =>
    rw [hopen] at hold
    rw [(List.cons.inj hold).1]
    simp
  | cons top rest =>
    rw [hopen] at hold
    rw [(List.cons.inj hold).1, List.head?_cons, slot]
    constructor
    · intro hs
      split at hs
      · cases hs
      · next hnot =>
        obtain rfl := Option.some.inj hs
        exact ⟨rfl, by simpa using hnot⟩
    · rintro ⟨hid, hnot⟩
      obtain rfl := Option.some.inj hid
      rw [hnot]
      rfl

end Cursor

theorem lt_bound_succ_iff (hj : j < p.cuts.length) : i < p.bound (j + 1) ↔ p.caseAt i ≤ j := by
  obtain ⟨e, he, hc, hb⟩ := exists_isCut_caseAt_eq (p := p) (j := j + 1) (by omega) (by omega)
  rw [hb]
  constructor
  · intro hi
    have := caseAt_lt_of_isCut hi he
    omega
  · intro hi
    apply Nat.lt_of_not_le
    intro hle
    have := caseAt_le (p := p) hle
    omega

theorem isCut_bound_succ (hj : j < p.cuts.length) : p.isCut (p.bound (j + 1)) = true := by
  obtain ⟨e, he, -, hb⟩ := exists_isCut_caseAt_eq (p := p) (j := j + 1) (by omega) (by omega)
  rw [hb]
  exact he

theorem not_obscures_of_obscuring?_eq_none (hx : p.obscuring? x = none)
    (hy : (p.regions.exception? y).isSome = true) : p.obscures x y = false := by
  obtain ⟨r, hr⟩ := Option.isSome_iff_exists.1 hy
  have hall := List.find?_eq_none.1 hx y (List.mem_range.2 (RegionStack.lt_of_exception? hr))
  simpa using hall

/-- Nothing is opened inside of the region that was opened last. -/
theorem obscures_eq_false_of_length (hlen : p.regions.regions.length = id + 1) (inner : RegionId) :
    p.obscures id inner = false := by
  cases hinner : p.regions.exception? inner with
  | none => simp [obscures, hinner]
  | some r =>
    have hlt := RegionStack.lt_of_exception? hinner
    rw [hlen] at hlt
    have hnot : ¬id < inner := Nat.not_lt.2 (Nat.le_of_lt_succ hlt)
    simp [obscures, hnot]

section Cases

variable (h : Laid p.operations p.labels p.regions)

include h

/-- A label that is marked is where a case begins. -/
theorem case_of_position? {l : Label} (hl : p.labels.position? l = some i) :
    p.caseOf? l = some (p.caseAt i) ∧ (i = 0 ∨ p.isCut i = true) := by
  have hle := h.marked l i hl
  refine ⟨by rw [caseOf?, hl, Option.bind_some, if_pos hle], ?_⟩
  by_cases hpos : 0 < i
  · exact Or.inr (isCut_of_hasLabelAt hpos hle (LabelTable.hasLabelAt_of_position? hl))
  · exact Or.inl (by omega)

/-- The cases of a region that spans some operations. -/
theorem cases_of_spans (hs : p.regions.Spans id b c) :
    p.startCase id = p.caseAt b ∧ p.stopCase id = p.caseAt c + 1 ∧
      (b = 0 ∨ p.isCut b = true) ∧ p.isCut (c + 1) = true := by
  obtain ⟨r, hr⟩ := Option.isSome_iff_exists.1 hs.exception
  obtain ⟨hstart, hb⟩ := case_of_position? h (h.opened id r b hr hs.opened)
  obtain ⟨hstop, hc⟩ := case_of_position? h (h.closed id r c hr hs.closed)
  have hcut : p.isCut (c + 1) = true := by simpa using hc
  refine ⟨?_, ?_, hb, hcut⟩
  · rw [startCase, hr, Option.bind_some, hstart]
    rfl
  · rw [stopCase, hr, Option.bind_some, hstop, caseAt_of_isCut hcut]
    rfl

/-- A region starts in the case of its start label. -/
theorem caseOf?_start (hr : p.regions.exception? id = some r) :
    p.caseOf? r.start = some (p.startCase id) := by
  obtain ⟨b, -, hb⟩ := h.exists_start hr
  have hcase := (case_of_position? h hb).1
  rw [startCase, hr, Option.bind_some, hcase]
  rfl

theorem startCase_le_length (hr : p.regions.exception? id = some r) :
    p.startCase id ≤ p.cuts.length := by
  obtain ⟨b, -, hb⟩ := h.exists_start hr
  have hcase := (case_of_position? h hb).1
  rw [caseOf?_start h hr] at hcase
  rw [Option.some.inj hcase]
  exact caseAt_le_length_cuts (h.marked _ b hb)

/-- That case begins with the operation the region begins with. -/
theorem position?_start (hr : p.regions.exception? id = some r) :
    p.labels.position? r.start = some (p.bound (p.startCase id)) := by
  obtain ⟨b, -, hb⟩ := h.exists_start hr
  obtain ⟨hcase, hcut⟩ := case_of_position? h hb
  rw [caseOf?_start h hr] at hcase
  rw [hb, Option.some.inj hcase, bound_caseAt hcut]

/-- A region is open at the end of the cases from the one it starts in up to, and without, the
one it is closed in. -/
theorem mem_openBefore_bound_iff (hs : p.regions.Spans id b c) (hj : j < p.cuts.length) :
    id ∈ p.regions.openBefore (p.bound (j + 1)) ↔ p.startCase id ≤ j ∧ j + 1 < p.stopCase id := by
  obtain ⟨hstart, hstop, -, -⟩ := cases_of_spans h hs
  have hb := lt_bound_succ_iff (i := b) hj
  have hc := lt_bound_succ_iff (i := c) hj
  rw [h.mem_openBefore_iff hs, hstart, hstop, hb]
  omega

/-- The spans of two regions, by their cases. -/
theorem startCase_le_of_lt (hx : p.regions.Spans x b c) (hy : p.regions.Spans y b' c')
    (hxy : x < y) : p.startCase x ≤ p.startCase y ∧
      (p.stopCase x ≤ p.startCase y ∨ p.stopCase y < p.stopCase x) := by
  obtain ⟨hstart, hstop, -, hcut⟩ := cases_of_spans h hx
  obtain ⟨hstart', hstop', -, hcut'⟩ := cases_of_spans h hy
  obtain ⟨hle, hor⟩ := h.apart_or_nested hx hy hxy
  rw [hstart, hstart', hstop, hstop']
  refine ⟨caseAt_le hle, ?_⟩
  rcases hor with hlt | hlt
  · apply Or.inl
    have h1 := caseAt_lt_of_isCut (Nat.lt_add_one c) hcut
    have h2 := caseAt_le (p := p) (show c + 1 ≤ b' from hlt)
    omega
  · apply Or.inr
    have h1 := caseAt_lt_of_isCut (Nat.lt_add_one c') hcut'
    have h2 := caseAt_le (p := p) (show c' + 1 ≤ c from hlt)
    omega

/-- The jump before a handler ends the case that the region starts in, or one after it. -/
theorem startCase_lt_of_isHandled (hs : p.regions.Spans id b c)
    (hr : p.regions.exception? id = some r) (hh : r.isHandled = true) :
    p.startCase id + 1 < p.stopCase id := by
  obtain ⟨hstart, hstop, -, -⟩ := cases_of_spans h hs
  obtain ⟨b', g, x, hb', hbg, hx, habrupt, hgc⟩ := h.handled id r hr hh
  obtain rfl := Option.some.inj ((h.opened id r b hr hs.opened).symm.trans hb')
  have hlt := hgc c hs.closed
  have hc := (h.past _ hs.closed).1
  have hg := (List.getElem?_eq_some_iff.1 hx).1
  have hcut : p.isCut (g + 1) = true := by
    have hlast : p.abruptBefore (g + 1) = true := by
      rw [abruptBefore, List.take_add_one, hx, Option.toList_some, List.getLast?_concat]
      exact habrupt
    have hlen : g + 1 < p.operations.length := by
      have := (h.past _ hs.closed).2 (by simp [RegionStack.closesException, hs.exception])
      have hc : c < p.operations.length := this
      omega
    simp [isCut, hlast, hlen, Nat.le_of_lt hlen]
  have h1 := caseAt_le (p := p) hbg
  have h2 := caseAt_lt_of_isCut (Nat.lt_add_one g) hcut
  have h3 := caseAt_le (p := p) (show g + 1 ≤ c from hlt)
  omega

theorem stopCase_le_length (hs : p.regions.Spans id b c) :
    0 < p.stopCase id ∧ p.stopCase id ≤ p.cuts.length := by
  obtain ⟨-, hstop, -, hcut⟩ := cases_of_spans h hs
  have hle := caseAt_le_length_cuts (le_of_isCut hcut)
  have heq := caseAt_of_isCut hcut
  have : p.caseAt c = p.openCase (c + 1) := rfl
  omega

/-- A case announces the region that is innermost at its end, and was not at an end before. -/
theorem entered_cursorOf_iff (hj : j < p.cuts.length) :
    (p.cursorOf j).entered = some id ↔ p.innermost (p.bound (j + 1)) = some id ∧
      ∀ k < j, p.innermost (p.bound (k + 1)) ≠ some id := by
  rw [cursorOf, if_pos hj, entered_cursorTo_iff h]
  apply and_congr_right
  intro _
  rw [announcedBefore, List.any_eq_false]
  constructor
  · intro hnot k hk heq
    have hlt : p.bound (k + 1) < p.bound (j + 1) := by
      rw [lt_bound_succ_iff hj, caseAt_bound (by omega)]
      omega
    apply hnot _ (List.mem_range.2 hlt)
    simp [isCut_bound_succ (show k < p.cuts.length by omega), heq]
  · intro hnot i hi hcut
    simp only [Bool.and_eq_true, decide_eq_true_eq] at hcut
    have hlt := (lt_bound_succ_iff hj).1 (List.mem_range.1 hi)
    have hb := bound_caseAt_of_isCut hcut.1
    obtain ⟨k, hk⟩ : ∃ k, p.caseAt i = k + 1 :=
      ⟨p.caseAt i - 1, by have := caseAt_pos_of_isCut hcut.1; omega⟩
    rw [hk] at hb
    exact hnot k (by omega) (by rw [hb]; exact hcut.2)

section Closed

variable (hlive : p.regions.live = [])

include hlive

theorem exists_spans_of_isSome (hid : (p.regions.exception? id).isSome = true) :
    ∃ b c, p.regions.Spans id b c ∧ c < p.operations.length := by
  obtain ⟨r, hr⟩ := Option.isSome_iff_exists.1 hid
  obtain ⟨b, c, hs, -, -, hlt⟩ := h.exists_spans hlive hr
  exact ⟨b, c, hs, hlt⟩

/-- The region that is innermost at the end of a case, by the cases of all regions. -/
theorem innermost_bound_iff (hs : p.regions.Spans id b c) (hj : j < p.cuts.length) :
    p.innermost (p.bound (j + 1)) = some id ↔
      (p.startCase id ≤ j ∧ j + 1 < p.stopCase id) ∧
        ∀ y, (p.regions.exception? y).isSome = true → id < y →
          ¬(p.startCase y ≤ j ∧ j + 1 < p.stopCase y) := by
  rw [innermost, h.head?_openBefore_iff, mem_openBefore_bound_iff h hs hj]
  apply and_congr_right
  intro _
  constructor
  · intro hmax y hy hlt hopen
    obtain ⟨b', c', hs', -⟩ := exists_spans_of_isSome h hlive hy
    have hle := hmax y ((mem_openBefore_bound_iff h hs' hj).2 hopen)
    exact Nat.not_lt.2 hle hlt
  · intro hmax y hy
    have hsome := (List.mem_filter.1 hy).2
    obtain ⟨b', c', hs', -⟩ := exists_spans_of_isSome h hlive hsome
    refine Nat.le_of_not_lt fun hlt => hmax y hsome hlt ?_
    exact (mem_openBefore_bound_iff h hs' hj).1 hy

/-- Every region has been announced or left at the end of the last case. -/
theorem entered_cursorOf_last : (p.cursorOf p.cuts.length).entered = none := by
  rw [cursorOf, if_neg (Nat.lt_irrefl _)]
  cases he : (p.cursorTo (p.operations.length + 1)).entered with
  | none => rfl
  | some id =>
    obtain ⟨hinner, -⟩ := (entered_cursorTo_iff h).1 he
    have hmem := List.mem_of_head? hinner
    obtain ⟨b, c, hs, hlt⟩ := exists_spans_of_isSome h hlive (List.mem_filter.1 hmem).2
    have := ((h.mem_openBefore_iff hs).1 hmem).2
    omega

/-- The first region that obscures another one. -/
theorem obscuring?_eq_some (hy : p.obscuring? x = some y) :
    (∃ b c, p.regions.Spans y b c) ∧ x < y ∧ p.startCase y = p.startCase x ∧
      p.startCase y + 1 < p.stopCase y ∧ ∀ z < y, p.obscures x z = false := by
  have hobscures := List.find?_some hy
  simp only [obscures, Bool.and_eq_true, decide_eq_true_eq] at hobscures
  obtain ⟨⟨⟨hlt, hsome⟩, hstart⟩, hlast⟩ := hobscures
  obtain ⟨b, c, hs, -⟩ := exists_spans_of_isSome h hlive hsome
  refine ⟨⟨b, c, hs⟩, hlt, hstart, hlast, fun z hz => ?_⟩
  obtain ⟨-, early, late, hsplit, hnone⟩ := List.find?_eq_some_iff_append.1 hy
  have hy' : y < p.regions.regions.length := List.mem_range.1 (List.mem_of_find?_eq_some hy)
  have hzmem : z ∈ early := by
    have hzr : z ∈ List.range p.regions.regions.length :=
      List.mem_range.2 (Nat.lt_trans hz hy')
    have hsorted := List.pairwise_lt_range (n := p.regions.regions.length)
    rw [hsplit] at hzr hsorted
    rcases List.mem_append.1 hzr with hzr | hzr
    · exact hzr
    · rcases List.mem_cons.1 hzr with rfl | hzr
      · exact absurd hz (Nat.lt_irrefl _)
      · have := (List.pairwise_cons.1 (List.pairwise_append.1 hsorted).2.1).1 z hzr
        exact absurd hz (Nat.lt_asymm this)
  simpa using hnone z hzmem

theorem announcedIn_lt_length (hr : p.regions.exception? id = some r) (hh : r.isHandled = true) :
    p.announcedIn id < p.cuts.length := by
  obtain ⟨b, c, hs, -⟩ := exists_spans_of_isSome h hlive (Option.isSome_iff_exists.2 ⟨r, hr⟩)
  have hlasts := startCase_lt_of_isHandled h hs hr hh
  have hstop := stopCase_le_length h hs
  cases hobs : p.obscuring? id with
  | none =>
    have hin : p.announcedIn id = p.startCase id := by rw [announcedIn, hobs]
    omega
  | some inner =>
    have hin : p.announcedIn id = p.stopCase inner - 1 := by rw [announcedIn, hobs]
    obtain ⟨⟨b', c', hs'⟩, -⟩ := obscuring?_eq_some h hlive hobs
    have hstop' := stopCase_le_length h hs'
    omega

/-- The end of the case that announces a region is the first at which it is innermost. -/
theorem innermost_announcedIn (hr : p.regions.exception? id = some r) (hh : r.isHandled = true) :
    p.innermost (p.bound (p.announcedIn id + 1)) = some id := by
  have hlt := announcedIn_lt_length h hlive hr hh
  obtain ⟨b, c, hs, -⟩ := exists_spans_of_isSome h hlive (Option.isSome_iff_exists.2 ⟨r, hr⟩)
  have hlasts := startCase_lt_of_isHandled h hs hr hh
  rw [innermost_bound_iff h hlive hs hlt]
  cases hobs : p.obscuring? id with
  | none =>
    have hin : p.announcedIn id = p.startCase id := by rw [announcedIn, hobs]
    rw [hin]
    refine ⟨⟨Nat.le_refl _, hlasts⟩, fun y hy hlty hopen => ?_⟩
    obtain ⟨b', c', hs', -⟩ := exists_spans_of_isSome h hlive hy
    have hle := (startCase_le_of_lt h hs hs' hlty).1
    have hnot := not_obscures_of_obscuring?_eq_none hobs hy
    have heq : p.startCase y = p.startCase id := by omega
    simp [obscures, hlty, hy, heq] at hnot
    omega
  | some inner =>
    obtain ⟨⟨b', c', hs'⟩, hlti, hstart, hlasti, hbefore⟩ := obscuring?_eq_some h hlive hobs
    have hstop := stopCase_le_length h hs'
    have hin : p.announcedIn id = p.stopCase inner - 1 := by rw [announcedIn, hobs]
    have hnested := (startCase_le_of_lt h hs hs' hlti).2
    refine ⟨by omega, fun y hy hlty hopen => ?_⟩
    obtain ⟨b'', c'', hs'', -⟩ := exists_spans_of_isSome h hlive hy
    rcases Nat.lt_trichotomy y inner with hyi | rfl | hyi
    · -- around the obscuring region: then it obscures as well, and comes first
      have hle := (startCase_le_of_lt h hs hs'' hlty).1
      have hle' := (startCase_le_of_lt h hs'' hs' hyi).1
      have hnot := hbefore y hyi
      have heq : p.startCase y = p.startCase id := by omega
      simp [obscures, hlty, hy, heq] at hnot
      omega
    · omega
    · have := (startCase_le_of_lt h hs' hs'' hyi).2
      omega

theorem innermost_ne_of_lt_announcedIn (hr : p.regions.exception? id = some r)
    (hh : r.isHandled = true) (hj : j < p.announcedIn id) :
    p.innermost (p.bound (j + 1)) ≠ some id := by
  intro heq
  have hlt := announcedIn_lt_length h hlive hr hh
  obtain ⟨b, c, hs, -⟩ := exists_spans_of_isSome h hlive (Option.isSome_iff_exists.2 ⟨r, hr⟩)
  obtain ⟨hopen, hinner⟩ := (innermost_bound_iff h hlive hs (by omega)).1 heq
  cases hobs : p.obscuring? id with
  | none =>
    have hin : p.announcedIn id = p.startCase id := by rw [announcedIn, hobs]
    omega
  | some inner =>
    obtain ⟨⟨b', c', hs'⟩, hlti, hstart, hlasti, -⟩ := obscuring?_eq_some h hlive hobs
    have hin : p.announcedIn id = p.stopCase inner - 1 := by rw [announcedIn, hobs]
    exact hinner inner hs'.exception hlti (by omega)

/-- A region with a handler is announced in one case, and this is the case. -/
theorem entered_cursorOf_iff_of_isHandled (hr : p.regions.exception? id = some r)
    (hh : r.isHandled = true) (hj : j ≤ p.cuts.length) :
    (p.cursorOf j).entered = some id ↔ j = p.announcedIn id := by
  have hlt := announcedIn_lt_length h hlive hr hh
  have hinner := innermost_announcedIn h hlive hr hh
  by_cases hj' : j < p.cuts.length
  · rw [entered_cursorOf_iff h hj']
    constructor
    · rintro ⟨heq, hk⟩
      rcases Nat.lt_trichotomy j (p.announcedIn id) with hlt' | heq' | hlt'
      · exact absurd heq (innermost_ne_of_lt_announcedIn h hlive hr hh hlt')
      · exact heq'
      · exact absurd hinner (hk _ hlt')
    · rintro rfl
      exact ⟨hinner, fun k hk => innermost_ne_of_lt_announcedIn h hlive hr hh hk⟩
  · obtain rfl : j = p.cuts.length := by omega
    rw [entered_cursorOf_last h hlive]
    constructor
    · intro hnone
      cases hnone
    · intro heq
      omega

/-- So the body has cases once there is such a region, and they announce it as they should. -/
theorem framedBy_of_isHandled {body : Body} (hs : p.splitOnAbrupt = true)
    (hb : p.build = .ok body) (hr : p.regions.exception? id = some r) (hh : r.isHandled = true) :
    p.FramedBy body (fun j => (p.cursorOf j).entered) (fun j => (p.cursorOf j).scopes) ∧
      ∀ j ≤ p.cuts.length, (p.cursorOf j).entered = some id ↔ j = p.announcedIn id := by
  have hin := announcedIn_lt_length h hlive hr hh
  have hcuts : p.cuts ≠ [] := List.ne_nil_of_length_pos (by omega)
  constructor
  · exact framedBy_of_build_eq_ok hs hb hcuts
  · intro j hj
    exact entered_cursorOf_iff_of_isHandled h hlive hr hh hj

/-- Of two regions with handlers that start in the same case, the inner one is announced first. -/
theorem announcedIn_lt_of_startCase_eq (hr : p.regions.exception? y = some r)
    (hh : r.isHandled = true) (hxy : x < y) (heq : p.startCase x = p.startCase y) :
    p.announcedIn y < p.announcedIn x := by
  have hy : (p.regions.exception? y).isSome = true := by rw [hr]; rfl
  obtain ⟨b', c', hs', -⟩ := exists_spans_of_isSome h hlive hy
  have hlasts := startCase_lt_of_isHandled h hs' hr hh
  have hobs : p.obscures x y = true := by simp [obscures, hxy, hy, heq, hlasts]
  cases hx' : p.obscuring? x with
  | none => rw [not_obscures_of_obscuring?_eq_none hx' hy] at hobs; cases hobs
  | some inner =>
    obtain ⟨⟨b, c, hs⟩, -, hstart, hlasts', hbefore⟩ := obscuring?_eq_some h hlive hx'
    have hle : inner ≤ y := Nat.le_of_not_lt fun hlt => by
      rw [hbefore y hlt] at hobs
      cases hobs
    have hinx : p.announcedIn x = p.stopCase inner - 1 := by rw [announcedIn, hx']
    cases hy' : p.obscuring? y with
    | none =>
      have hiny : p.announcedIn y = p.startCase y := by rw [announcedIn, hy']
      omega
    | some inner' =>
      obtain ⟨⟨b'', c'', hs''⟩, hlt, hstart', -, -⟩ := obscuring?_eq_some h hlive hy'
      have hiny : p.announcedIn y = p.stopCase inner' - 1 := by rw [announcedIn, hy']
      have hpos := stopCase_le_length h hs''
      have := (startCase_le_of_lt h hs hs'' (Nat.lt_of_le_of_lt hle hlt)).2
      omega

/-- Only a region that obscures another one keeps it from being announced where it starts. -/
theorem announcedIn_eq_startCase_iff :
    p.announcedIn id = p.startCase id ↔ ∀ inner, p.obscures id inner = false := by
  cases hobs : p.obscuring? id with
  | none =>
    have hin : p.announcedIn id = p.startCase id := by rw [announcedIn, hobs]
    refine ⟨fun _ inner => ?_, fun _ => hin⟩
    cases hinner : (p.regions.exception? inner).isSome with
    | true => exact not_obscures_of_obscuring?_eq_none hobs hinner
    | false => simp [obscures, hinner]
  | some inner =>
    have hin : p.announcedIn id = p.stopCase inner - 1 := by rw [announcedIn, hobs]
    obtain ⟨-, -, hstart, hlasts, -⟩ := obscuring?_eq_some h hlive hobs
    constructor
    · intro heq
      omega
    · intro hall
      have := List.find?_some hobs
      rw [hall inner] at this
      cases this

end Closed

end Cases

end Resumable.Body.Plan
