import Resumable.Proofs.Region.Layout

/-!
# The nesting of protected regions

An exception region that has been opened and closed spans the operations between the two
events. Two of them are nested or apart. Which of them are open before an operation is a
matter of their spans alone, and the innermost of those is the one opened last.
-/

namespace Resumable

section Lists

variable {α : Type} {p q : α → Bool}

theorem dropWhile_dropWhile_of_imp (h : ∀ a, p a = true → q a = true) (l : List α) :
    (l.dropWhile p).dropWhile q = l.dropWhile q := by
  induction l with
  | nil => rfl
  | cons a l ih =>
    cases hp : p a with
    | true => rw [List.dropWhile_cons_of_pos hp, ih, List.dropWhile_cons_of_pos (h a hp)]
    | false => rw [List.dropWhile_cons_of_neg (by simp [hp])]

theorem takeWhile_append_takeWhile_dropWhile (h : ∀ a, p a = true → q a = true) (l : List α) :
    l.takeWhile p ++ (l.dropWhile p).takeWhile q = l.takeWhile q := by
  induction l with
  | nil => rfl
  | cons a l ih =>
    cases hp : p a with
    | true =>
      rw [List.takeWhile_cons_of_pos hp, List.dropWhile_cons_of_pos hp,
        List.takeWhile_cons_of_pos (h a hp), List.cons_append, ih]
    | false =>
      rw [List.takeWhile_cons_of_neg (by simp [hp]), List.dropWhile_cons_of_neg (by simp [hp])]
      rfl

theorem mem_dropWhile_of_pairwise {R : α → α → Prop} {l : List α} (h : l.Pairwise R)
    (hp : ∀ a b, R a b → p b = true → p a = true) {a : α} (ha : a ∈ l.dropWhile p) :
    p a = false := by
  induction l with
  | nil => cases ha
  | cons b l ih =>
    obtain ⟨hb, hl⟩ := List.pairwise_cons.1 h
    cases hpb : p b with
    | true =>
      rw [List.dropWhile_cons_of_pos hpb] at ha
      exact ih hl ha
    | false =>
      rw [List.dropWhile_cons_of_neg (by simp [hpb])] at ha
      rcases List.mem_cons.1 ha with rfl | ha
      · exact hpb
      · cases hpa : p a with
        | false => rfl
        | true => rw [hp b a (hb a ha) hpa] at hpb; cases hpb

end Lists

namespace RegionStack

/-- The events before an operation. -/
def logBefore (s : RegionStack) (i : Nat) : List RegionEvent := s.events.takeWhile (·.offset < i)

theorem logBefore_zero (s : RegionStack) : s.logBefore 0 = [] := by
  rw [logBefore]
  cases s.events with
  | nil => rfl
  | cons e rest => rw [List.takeWhile_cons_of_neg (by simp)]

/-- The log up to a later operation goes on from that up to an earlier one. -/
theorem logBefore_append {s : RegionStack} {i k : Nat} (hik : i ≤ k) :
    s.logBefore k =
      s.logBefore i ++ (s.events.dropWhile (·.offset < i)).takeWhile (·.offset < k) := by
  rw [logBefore, logBefore]
  refine (takeWhile_append_takeWhile_dropWhile (fun e he => ?_) s.events).symm
  simp only [decide_eq_true_eq] at he ⊢
  omega

/-- The exception regions that are open before an operation, the innermost first. -/
def openBefore (s : RegionStack) (i : Nat) : List RegionId :=
  ((s.logBefore i).foldl RegionEvent.track []).filter fun id => (s.exception? id).isSome

/-- The exception region was opened before one operation and closed before another. -/
structure Spans (s : RegionStack) (id : RegionId) (b c : Nat) : Prop where
  exception : (s.exception? id).isSome = true
  opened : ⟨.opened, id, b⟩ ∈ s.events
  closed : ⟨.closed, id, c⟩ ∈ s.events

end RegionStack

namespace Laid

variable {operations : List Recorded} {labels : LabelTable} {regions : RegionStack}
  {id x y : RegionId} {b c b' c' i : Nat}

theorem mem_logBefore_iff (h : Laid operations labels regions) {e : RegionEvent} :
    e ∈ regions.logBefore i ↔ e ∈ regions.events ∧ e.offset < i := by
  constructor
  · intro he
    exact ⟨List.takeWhile_subset _ he,
      by simpa using List.all_eq_true.1 List.all_takeWhile e he⟩
  · rintro ⟨he, hlt⟩
    rw [← List.takeWhile_append_dropWhile (p := fun e : RegionEvent => decide (e.offset < i))
      (l := regions.events)] at he
    rcases List.mem_append.1 he with he | he
    · exact he
    · have hnot := mem_dropWhile_of_pairwise h.ordered (fun a b hab hb => by
        simp only [decide_eq_true_eq] at hb ⊢
        omega) he
      simp at hnot
      omega

theorem history_logBefore (h : Laid operations labels regions) (i : Nat) :
    ∃ next, RegionHistory (regions.logBefore i)
      ((regions.logBefore i).foldl RegionEvent.track []) next := by
  have hall := h.history
  rw [← List.takeWhile_append_dropWhile (p := fun e : RegionEvent => decide (e.offset < i))
    (l := regions.events)] at hall
  obtain ⟨live, next, hearly, -⟩ := hall.early_part
  refine ⟨next, ?_⟩
  have hlive := hearly.foldl_track
  unfold RegionStack.logBefore
  rw [hlive]
  exact hearly

theorem opened_unique (h : Laid operations labels regions) (hs : (regions.exception? id).isSome)
    (hb : ⟨.opened, id, b⟩ ∈ regions.events) (hb' : ⟨.opened, id, b'⟩ ∈ regions.events) :
    b = b' := by
  obtain ⟨r, hr⟩ := Option.isSome_iff_exists.1 hs
  exact Option.some.inj ((h.opened id r b hr hb).symm.trans (h.opened id r b' hr hb'))

theorem closed_unique (h : Laid operations labels regions) (hs : (regions.exception? id).isSome)
    (hc : ⟨.closed, id, c⟩ ∈ regions.events) (hc' : ⟨.closed, id, c'⟩ ∈ regions.events) :
    c = c' := by
  obtain ⟨r, hr⟩ := Option.isSome_iff_exists.1 hs
  have := Option.some.inj ((h.closed id r c hr hc).symm.trans (h.closed id r c' hr hc'))
  omega

/-- Every exception region has a span once nothing is open any more. -/
theorem exists_spans (h : Laid operations labels regions) (hlive : regions.live = [])
    {r : ExceptionRegion} (hr : regions.exception? id = some r) :
    ∃ b c, regions.Spans id b c ∧ labels.position? r.start = some b ∧
      labels.position? r.stop = some (c + 1) ∧ c < operations.length := by
  obtain ⟨b, hb, hstart⟩ := h.exists_start hr
  obtain ⟨c, hc, hstop, hlt⟩ := h.exists_stop hr (by rw [hlive]; exact List.not_mem_nil)
  exact ⟨b, c, ⟨by rw [hr]; rfl, hb, hc⟩, hstart, hstop, hlt⟩

/-- The region is open after the operation before which it was opened, up to the one before
which it is closed. -/
theorem mem_openBefore_iff (h : Laid operations labels regions) (hs : regions.Spans id b c) :
    id ∈ regions.openBefore i ↔ b < i ∧ i ≤ c := by
  obtain ⟨next, hnext⟩ := h.history_logBefore i
  rw [RegionStack.openBefore, List.mem_filter, hnext.mem_live_iff]
  constructor
  · rintro ⟨⟨hlt, hopen⟩, -⟩
    obtain ⟨o, ho⟩ := hnext.exists_opened hlt
    obtain ⟨ho, hoi⟩ := h.mem_logBefore_iff.1 ho
    obtain rfl := h.opened_unique hs.exception hs.opened ho
    refine ⟨hoi, Nat.le_of_not_lt fun hci => hopen c ?_⟩
    exact h.mem_logBefore_iff.2 ⟨hs.closed, hci⟩
  · rintro ⟨hbi, hic⟩
    refine ⟨⟨?_, fun o ho => ?_⟩, hs.exception⟩
    · exact hnext.region_lt.1 _ (h.mem_logBefore_iff.2 ⟨hs.opened, hbi⟩)
    · obtain ⟨ho, hoi⟩ := h.mem_logBefore_iff.1 ho
      obtain rfl := h.closed_unique hs.exception hs.closed ho
      exact absurd hoi (Nat.not_lt.2 hic)

theorem openBefore_sorted (h : Laid operations labels regions) (i : Nat) :
    (regions.openBefore i).Pairwise (fun a b => b < a) := by
  obtain ⟨next, hnext⟩ := h.history_logBefore i
  exact hnext.live_sorted.filter _

/-- The innermost open region is the one opened last. -/
theorem head?_openBefore_iff (h : Laid operations labels regions) :
    (regions.openBefore i).head? = some id ↔
      id ∈ regions.openBefore i ∧ ∀ y ∈ regions.openBefore i, y ≤ id := by
  have hsorted := h.openBefore_sorted i
  cases hopen : regions.openBefore i with
  | nil => simp
  | cons top rest =>
    rw [hopen] at hsorted
    have htop := (List.pairwise_cons.1 hsorted).1
    rw [List.head?_cons]
    constructor
    · intro heq
      obtain rfl := Option.some.inj heq
      refine ⟨List.mem_cons_self, fun y hy => ?_⟩
      rcases List.mem_cons.1 hy with rfl | hy
      · exact Nat.le_refl _
      · exact Nat.le_of_lt (htop y hy)
    · rintro ⟨hid, hmax⟩
      rcases List.mem_cons.1 hid with rfl | hid
      · rfl
      · exact absurd (htop id hid) (Nat.not_lt.2 (hmax top List.mem_cons_self))

/-- A region that is opened later begins no earlier, and the two are apart or nested. -/
theorem apart_or_nested (h : Laid operations labels regions) (hx : regions.Spans x b c)
    (hy : regions.Spans y b' c') (hxy : x < y) : b ≤ b' ∧ (c < b' ∨ c' < c) := by
  have hordered := h.ordered
  have hclosesx : regions.closesException ⟨.closed, x, c⟩ = true := by
    simp [RegionStack.closesException, hx.exception]
  have hclosesy : regions.closesException ⟨.closed, y, c'⟩ = true := by
    simp [RegionStack.closesException, hy.exception]
  constructor
  · obtain ⟨early, late, hsplit⟩ := List.append_of_mem hy.opened
    have hall := h.history
    rw [hsplit, List.append_cons] at hall
    obtain ⟨_, _, hto, -⟩ := hall.early_part
    obtain ⟨live, hearly⟩ := hto.of_opened
    obtain ⟨o, ho⟩ := hearly.exists_opened hxy
    have hmem : (⟨.opened, x, o⟩ : RegionEvent) ∈ regions.events := by
      rw [hsplit]
      exact List.mem_append_left _ ho
    obtain rfl := h.opened_unique hx.exception hx.opened hmem
    rw [hsplit] at hordered
    exact ((List.pairwise_append.1 hordered).2.2 _ ho _ List.mem_cons_self).1
  · obtain ⟨early, late, hsplit⟩ := List.append_of_mem hx.closed
    have hall := h.history
    rw [hsplit, List.append_cons] at hall
    obtain ⟨_, next, hto, -⟩ := hall.early_part
    have hearly := hto.of_closed
    have htop := (List.pairwise_cons.1 hearly.live_sorted).1
    rw [hsplit] at hordered
    obtain ⟨-, hlate, hacross⟩ := List.pairwise_append.1 hordered
    have hmem : ∀ e, e ∈ early → e ∈ regions.events := fun e he => by
      rw [hsplit]
      exact List.mem_append_left _ he
    by_cases hlt : y < next
    · -- opened before `x` was closed: then `y` was closed before, for it is inside of `x`
      apply Or.inr
      have hclosed : ¬ ∀ o, ⟨.closed, y, o⟩ ∉ early := fun hopen => by
        rcases List.mem_cons.1 (hearly.mem_live_iff.2 ⟨hlt, hopen⟩) with rfl | hlive
        · exact Nat.lt_irrefl _ hxy
        · exact Nat.lt_asymm hxy (htop y hlive)
      obtain ⟨o, ho⟩ := Classical.not_forall.1 hclosed
      have ho := Classical.not_not.1 ho
      obtain rfl := h.closed_unique hy.exception hy.closed (hmem _ ho)
      exact (hacross _ ho _ List.mem_cons_self).2 hclosesy
    · apply Or.inl
      have hopened := hy.opened
      rw [hsplit] at hopened
      rcases List.mem_append.1 hopened with ho | ho
      · exact absurd (hearly.region_lt.1 _ ho) hlt
      · rcases List.mem_cons.1 ho with ho | ho
        · cases ho
        · exact ((List.pairwise_cons.1 hlate).1 _ ho).2 hclosesx

end Laid

end Resumable
