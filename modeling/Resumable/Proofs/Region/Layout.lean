import Resumable.Label.Table
import Resumable.Operation.Basic
import Resumable.Proofs.Region.History

/-!
# How regions lie among the operations

`Laid` is what a session keeps true of its operations, its labels and its regions. The log of
the regions is a history, in the order of the operations; the labels of an exception region
are marked where it is opened and closed; its closing is followed by an operation that ends its
last block; and a region with a handler holds the jump that ended the block before the handler.
The changes that a session makes to the three keep it.
-/

namespace Resumable

/-- The region has got a handler. -/
def ExceptionRegion.isHandled (r : ExceptionRegion) : Bool :=
  r.catchLabel.isSome || r.finallyLabel.isSome

/-- The label of the block that a phase begins with; past the last one, the label of the end. -/
def ExceptionRegion.labelOf (r : ExceptionRegion) : Phase → Label
  | .trying => r.start
  | .catching => r.catchLabel
  | .finishing => r.finallyLabel
  | .done => r.stop

namespace RegionStack

def exception? (s : RegionStack) (id : RegionId) : Option ExceptionRegion :=
  s.get? id >>= Region.exception?

def closesException (s : RegionStack) (e : RegionEvent) : Bool :=
  e.action = .closed && (s.exception? e.region).isSome

theorem exception?_eq_some_iff {s : RegionStack} {id : RegionId} {r : ExceptionRegion} :
    s.exception? id = some r ↔ s.get? id = some (.exception r) := by
  unfold exception?
  cases s.get? id with
  | none => simp
  | some region => cases region <;> simp [Region.exception?]

theorem length_enter (s : RegionStack) (region : Region) (offset : Nat) :
    (s.enter region offset).2.regions.length = s.regions.length + 1 := List.length_append

theorem exception?_enter_of_lt {s : RegionStack} {id : RegionId} (h : id < s.regions.length)
    (region : Region) (offset : Nat) :
    (s.enter region offset).2.exception? id = s.exception? id := by
  simp [exception?, enter, get?, List.getElem?_append_left h]

theorem exception?_enter_self (s : RegionStack) (region : Region) (offset : Nat) :
    (s.enter region offset).2.exception? s.regions.length = region.exception? := by
  simp [exception?, enter, get?]

theorem lt_of_exception? {s : RegionStack} {id : RegionId} {r : ExceptionRegion}
    (h : s.exception? id = some r) : id < s.regions.length :=
  (List.getElem?_eq_some_iff.1 (exception?_eq_some_iff.1 h)).1

/-- Opening a region neither opens nor closes another one. -/
theorem mem_live_enter_iff {s : RegionStack} {id : RegionId} {region : Region} {offset : Nat}
    (h : id < s.regions.length) : id ∈ (s.enter region offset).2.live ↔ id ∈ s.live :=
  List.mem_cons.trans (or_iff_right fun hid => Nat.lt_irrefl _ (hid ▸ h))

/-- What is an exception region after another region was opened: one from before, or that one. -/
theorem of_exception?_enter {s : RegionStack} {id : RegionId} {region : Region} {offset : Nat}
    {r : ExceptionRegion} (h : (s.enter region offset).2.exception? id = some r) :
    s.exception? id = some r ∨ id = s.regions.length ∧ region.exception? = some r := by
  by_cases hlt : id < s.regions.length
  · rw [exception?_enter_of_lt hlt] at h
    exact Or.inl h
  · have hlt' := lt_of_exception? h
    rw [length_enter] at hlt'
    obtain rfl : id = s.regions.length :=
      Nat.le_antisymm (Nat.le_of_lt_succ hlt') (Nat.le_of_not_lt hlt)
    rw [exception?_enter_self] at h
    exact Or.inr ⟨rfl, h⟩

/-- Opening a region that is no exception region keeps those that are. -/
theorem exception?_enter_kept {s : RegionStack} {id : RegionId} {region : Region} {offset : Nat}
    {r : ExceptionRegion} (hnone : region.exception? = none)
    (h : (s.enter region offset).2.exception? id = some r) :
    s.exception? id = some r ∧ (id ∈ (s.enter region offset).2.live ↔ id ∈ s.live) := by
  rcases of_exception?_enter h with hold | ⟨-, hself⟩
  · exact ⟨hold, mem_live_enter_iff (lt_of_exception? hold)⟩
  · rw [hnone] at hself
    cases hself

theorem exception?_replace {s : RegionStack} {id : RegionId} {old : Region}
    (h : s.get? id = some old) (new : Region) (i : RegionId) :
    (s.replace id new).exception? i = if i = id then new.exception? else s.exception? i := by
  have hlt : id < s.regions.length := (List.getElem?_eq_some_iff.1 h).1
  simp only [exception?, replace, get?, List.getElem?_set, hlt, if_true, eq_comm (a := id)]
  split <;> rfl

/-- What is an exception region after another region was put in a place: one from before, or that
one. -/
theorem of_exception?_replace {s : RegionStack} {id i : RegionId} {new : Region}
    {r : ExceptionRegion} (h : (s.replace id new).exception? i = some r) :
    s.exception? i = some r ∨ i = id ∧ new.exception? = some r := by
  cases hget : s.get? id with
  | none =>
    -- nothing is there to be replaced
    have hsame : s.replace id new = s := by
      rw [replace, List.set_eq_of_length_le (List.getElem?_eq_none_iff.1 hget)]
    exact Or.inl (hsame ▸ h)
  | some old =>
    rw [exception?_replace hget] at h
    split at h
    · next heq => exact Or.inr ⟨heq, h⟩
    · exact Or.inl h

end RegionStack

structure Laid (operations : List Recorded) (labels : LabelTable) (regions : RegionStack) :
    Prop where
  history : RegionHistory regions.events regions.live regions.regions.length
  ordered : regions.events.Pairwise fun e f =>
    e.offset ≤ f.offset ∧ (regions.closesException e = true → e.offset < f.offset)
  past : ∀ e ∈ regions.events, e.offset ≤ operations.length ∧
    (regions.closesException e = true → e.offset < operations.length)
  opened : ∀ id r o, regions.exception? id = some r → ⟨.opened, id, o⟩ ∈ regions.events →
    labels.position? r.start = some o
  closed : ∀ id r o, regions.exception? id = some r → ⟨.closed, id, o⟩ ∈ regions.events →
    labels.position? r.stop = some (o + 1)
  handled : ∀ id r, regions.exception? id = some r → r.isHandled = true →
    ∃ b g x, labels.position? r.start = some b ∧ b ≤ g ∧ operations[g]? = some x ∧
      x.operation.isAbrupt = true ∧ ∀ o, ⟨.closed, id, o⟩ ∈ regions.events → g < o
  marked : ∀ l q, labels.position? l = some q → q ≤ operations.length

namespace Laid

variable {operations more : List Recorded} {labels labels' : LabelTable} {regions : RegionStack}
  {id : RegionId}

theorem empty : Laid [] {} {} where
  history := .start
  ordered := .nil
  past _ he := absurd he List.not_mem_nil
  opened _ _ _ _ he := absurd he List.not_mem_nil
  closed _ _ _ _ he := absurd he List.not_mem_nil
  handled _ _ hr := by cases hr
  marked l q hq := by
    have hnone : ({} : LabelTable).position? l = none := by
      unfold LabelTable.position? LabelTable.find?
      split <;> rfl
    rw [hnone] at hq
    cases hq

/-- Operations are added, and labels are marked. -/
theorem grow (h : Laid operations labels regions)
    (hgrow : ∀ l q, labels.position? l = some q → labels'.position? l = some q)
    (hmarked : ∀ l q, labels'.position? l = some q → q ≤ (operations ++ more).length) :
    Laid (operations ++ more) labels' regions where
  history := h.history
  ordered := h.ordered
  past e he := by
    obtain ⟨hle, hlt⟩ := h.past e he
    rw [List.length_append]
    exact ⟨by omega, fun hc => by have := hlt hc; omega⟩
  opened id r o hr ho := hgrow _ _ (h.opened id r o hr ho)
  closed id r o hr ho := hgrow _ _ (h.closed id r o hr ho)
  handled id r hr hh := by
    obtain ⟨b, g, x, hb, hbg, hx, habrupt, hc⟩ := h.handled id r hr hh
    have hlt := (List.getElem?_eq_some_iff.1 hx).1
    exact ⟨b, g, x, hgrow _ _ hb, hbg, by rw [List.getElem?_append_left hlt, hx], habrupt, hc⟩
  marked := hmarked

/-- A region is opened. If it is an exception region, its start has just been marked. -/
theorem enter (h : Laid operations labels regions) (region : Region)
    (hr : ∀ r, region.exception? = some r →
      labels.position? r.start = some operations.length ∧ r.isHandled = false) :
    Laid operations labels (regions.enter region operations.length).2 := by
  have hkeep : ∀ e ∈ regions.events,
      (regions.enter region operations.length).2.exception? e.region =
        regions.exception? e.region := fun e he =>
    RegionStack.exception?_enter_of_lt (h.history.region_lt.1 e he) region _
  have hcloses : ∀ e ∈ regions.events,
      (regions.enter region operations.length).2.closesException e =
        regions.closesException e := fun e he => by
    rw [RegionStack.closesException, hkeep e he, RegionStack.closesException]
  have hnew : ∀ e ∈ (regions.enter region operations.length).2.events, e ∈ regions.events ∨
      e = ⟨.opened, regions.regions.length, operations.length⟩ := fun e he => by
    simpa using List.mem_append.1 he
  constructor
  · have hhistory := h.history.opened operations.length
    simpa [RegionStack.enter] using hhistory
  · refine List.pairwise_append.2 ⟨h.ordered.imp_of_mem fun {e f} he hf hef => ?_, by simp, ?_⟩
    · rw [hcloses e he]
      exact hef
    · intro e he f hf
      obtain rfl := List.mem_singleton.1 hf
      rw [hcloses e he]
      exact h.past e he
  · intro e he
    rcases hnew e he with he | rfl
    · rw [hcloses e he]
      exact h.past e he
    · exact ⟨Nat.le_refl _, fun hc => by simp [RegionStack.closesException] at hc⟩
  · intro id r o hid ho
    rcases hnew _ ho with ho | ho
    · rw [hkeep _ ho] at hid
      exact h.opened id r o hid ho
    · cases ho
      rw [RegionStack.exception?_enter_self] at hid
      exact (hr r hid).1
  · intro id r o hid ho
    rcases hnew _ ho with ho | ho
    · rw [hkeep _ ho] at hid
      exact h.closed id r o hid ho
    · cases ho
  · intro id r hid hh
    rcases RegionStack.of_exception?_enter hid with hid | ⟨-, hid⟩
    · obtain ⟨b, g, x, hb, hbg, hx, habrupt, hc⟩ := h.handled id r hid hh
      refine ⟨b, g, x, hb, hbg, hx, habrupt, fun o ho => ?_⟩
      rcases hnew _ ho with ho | ho
      · exact hc o ho
      · cases ho
    · rw [(hr r hid).2] at hh
      cases hh
  · exact h.marked

/-- The innermost region is closed. If it is an exception region, at least one operation follows
at once, and its stop is marked after that. -/
theorem leave (h : Laid operations labels regions) {rest : List RegionId}
    (hlive : regions.live = id :: rest)
    (hgrow : ∀ l q, labels.position? l = some q → labels'.position? l = some q)
    (hmarked : ∀ l q, labels'.position? l = some q → q ≤ (operations ++ more).length)
    (hc : ∀ r, regions.exception? id = some r →
      labels'.position? r.stop = some (operations.length + 1) ∧ 0 < more.length) :
    Laid (operations ++ more) labels'
      { regions with
        live := rest, events := regions.events ++ [⟨.closed, id, operations.length⟩] } := by
  have hg := h.grow hgrow hmarked
  have hnew : ∀ e ∈ regions.events ++ [⟨.closed, id, operations.length⟩],
      e ∈ regions.events ∨ e = ⟨.closed, id, operations.length⟩ := fun e he => by
    simpa using List.mem_append.1 he
  constructor
  · exact .closed operations.length (hlive ▸ h.history)
  · refine List.pairwise_append.2 ⟨h.ordered, by simp, fun e he f hf => ?_⟩
    obtain rfl := List.mem_singleton.1 hf
    exact h.past e he
  · intro e he
    rcases hnew e he with he | rfl
    · exact hg.past e he
    · refine ⟨by rw [List.length_append]; exact Nat.le_add_right _ _, fun hcloses => ?_⟩
      simp only [RegionStack.closesException, Bool.and_eq_true] at hcloses
      obtain ⟨r, hr⟩ := Option.isSome_iff_exists.1 hcloses.2
      have hpos := (hc r hr).2
      show operations.length < (operations ++ more).length
      rw [List.length_append]
      omega
  · intro i r o hr ho
    rcases hnew _ ho with ho | ho
    · exact hg.opened i r o hr ho
    · cases ho
  · intro i r o hr ho
    rcases hnew _ ho with ho | ho
    · exact hg.closed i r o hr ho
    · cases ho
      exact (hc r hr).1
  · intro i r hr hh
    obtain ⟨b, g, x, hb, hbg, hx, habrupt, hcl⟩ := h.handled i r hr hh
    have hlt := (List.getElem?_eq_some_iff.1 hx).1
    refine ⟨b, g, x, hgrow _ _ hb, hbg, by rw [List.getElem?_append_left hlt, hx], habrupt,
      fun o ho => ?_⟩
    rcases hnew _ ho with ho | ho
    · exact hcl o ho
    · cases ho
      exact hlt
  · exact hmarked

/-- A region is put in the place of another of its kind, with the same bounds. It may have got a
handler if it is still open and a block in it was ended by a jump. -/
theorem replace (h : Laid operations labels regions) {old new : Region}
    (hold : regions.get? id = some old)
    (hkind : old.exception?.isSome = new.exception?.isSome)
    (hnew : ∀ r r', old.exception? = some r → new.exception? = some r' →
      r'.start = r.start ∧ r'.stop = r.stop ∧ (r'.isHandled = true → r.isHandled = true ∨
        id ∈ regions.live ∧ ∃ b g x, labels.position? r.start = some b ∧ b ≤ g ∧
          operations[g]? = some x ∧ x.operation.isAbrupt = true)) :
    Laid operations labels (regions.replace id new) := by
  have hself : regions.exception? id = old.exception? := by
    rw [RegionStack.exception?, hold]
    rfl
  have hcloses : ∀ e, (regions.replace id new).closesException e = regions.closesException e := by
    intro e
    rw [RegionStack.closesException, RegionStack.exception?_replace hold,
      RegionStack.closesException]
    split
    · next heq => rw [heq, hself, hkind]
    · rfl
  have hentry : ∀ i r', (regions.replace id new).exception? i = some r' →
      ∃ r, regions.exception? i = some r ∧ r'.start = r.start ∧ r'.stop = r.stop ∧
        (r'.isHandled = true → r.isHandled = true ∨
          i ∈ regions.live ∧ ∃ b g x, labels.position? r.start = some b ∧ b ≤ g ∧
            operations[g]? = some x ∧ x.operation.isAbrupt = true) := by
    intro i r' hi
    rcases RegionStack.of_exception?_replace hi with hi | ⟨rfl, hr'⟩
    · exact ⟨r', hi, rfl, rfl, Or.inl⟩
    · rw [hr'] at hkind
      obtain ⟨r, hr⟩ := Option.isSome_iff_exists.1 hkind
      exact ⟨r, hself.trans hr, hnew r r' hr hr'⟩
  constructor
  · have hlen : (regions.replace id new).regions.length = regions.regions.length := List.length_set
    rw [hlen]
    exact h.history
  · refine h.ordered.imp fun {e f} hef => ?_
    rw [hcloses e]
    exact hef
  · intro e he
    rw [hcloses e]
    exact h.past e he
  · intro i r' o hi ho
    obtain ⟨r, hr, hstart, -, -⟩ := hentry i r' hi
    rw [hstart]
    exact h.opened i r o hr ho
  · intro i r' o hi ho
    obtain ⟨r, hr, -, hstop, -⟩ := hentry i r' hi
    rw [hstop]
    exact h.closed i r o hr ho
  · intro i r' hi hh
    obtain ⟨r, hr, hstart, -, hhandled⟩ := hentry i r' hi
    rw [hstart]
    rcases hhandled hh with hh | ⟨hlive, b, g, x, hb, hbg, hx, habrupt⟩
    · exact h.handled i r hr hh
    · have hopen := (h.history.mem_live_iff.1 hlive).2
      exact ⟨b, g, x, hb, hbg, hx, habrupt, fun o ho => absurd ho (hopen o)⟩
  · exact h.marked

/-- Where an exception region begins. -/
theorem exists_start (h : Laid operations labels regions) {r : ExceptionRegion}
    (hr : regions.exception? id = some r) :
    ∃ b, ⟨.opened, id, b⟩ ∈ regions.events ∧ labels.position? r.start = some b := by
  obtain ⟨b, hb⟩ := h.history.exists_opened (RegionStack.lt_of_exception? hr)
  exact ⟨b, hb, h.opened id r b hr hb⟩

/-- Where an exception region that is no longer open ends: before the operation that ends its
last block. -/
theorem exists_stop (h : Laid operations labels regions) {r : ExceptionRegion}
    (hr : regions.exception? id = some r) (hlive : id ∉ regions.live) :
    ∃ c, ⟨.closed, id, c⟩ ∈ regions.events ∧ labels.position? r.stop = some (c + 1) ∧
      c < operations.length := by
  have hclosed : ¬ ∀ o, ⟨.closed, id, o⟩ ∉ regions.events := fun hall =>
    hlive (h.history.mem_live_iff.2 ⟨RegionStack.lt_of_exception? hr, hall⟩)
  obtain ⟨c, hc⟩ := Classical.not_forall.1 hclosed
  have hc := Classical.not_not.1 hc
  refine ⟨c, hc, h.closed id r c hr hc, (h.past _ hc).2 ?_⟩
  simp [RegionStack.closesException, hr]

end Laid

end Resumable
