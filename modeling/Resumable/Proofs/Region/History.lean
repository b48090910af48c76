import Resumable.Region.Stack

/-!
# The log of a region stack

The openings and closings that a region stack can have seen. Each region is opened once, in the
order of the numbers, and only the innermost open region is closed. So which regions are open
after a part of the log can be read off the log, and regions are nested or apart.
-/

namespace Resumable

/-- A log, with the regions left open by it, the innermost first, and the number of regions
opened. -/
inductive RegionHistory : List RegionEvent → List RegionId → Nat → Prop where
  | start : RegionHistory [] [] 0
  | opened {events : List RegionEvent} {live : List RegionId} {next : Nat} (offset : Nat)
      (before : RegionHistory events live next) :
      RegionHistory (events ++ [⟨.opened, next, offset⟩]) (next :: live) (next + 1)
  | closed {events : List RegionEvent} {live : List RegionId} {next : Nat} {id : RegionId}
      (offset : Nat) (before : RegionHistory events (id :: live) next) :
      RegionHistory (events ++ [⟨.closed, id, offset⟩]) live next

/-- What an event does to the regions that are open. -/
def RegionEvent.track (live : List RegionId) (e : RegionEvent) : List RegionId :=
  match e.action with
  | .opened => e.region :: live
  | .closed => live.tail

namespace RegionHistory

variable {events early late : List RegionEvent} {live : List RegionId} {next : Nat}
  {id : RegionId} {o : Nat}

/-- The regions left open are those that replaying the log leaves open. -/
theorem foldl_track (h : RegionHistory events live next) :
    events.foldl RegionEvent.track [] = live := by
  induction h with
  | start => rfl
  | opened offset before ih =>
    rw [List.foldl_append, ih]
    rfl
  | closed offset before ih =>
    rw [List.foldl_append, ih]
    rfl

/-- A part of a log from its beginning on is a log. -/
theorem early_part (h : RegionHistory (early ++ late) live next) :
    ∃ live' next', RegionHistory early live' next' ∧ next' ≤ next := by
  generalize hall : early ++ late = events at h
  induction h generalizing late with
  | start =>
    obtain ⟨rfl, -⟩ := List.append_eq_nil_iff.1 hall
    exact ⟨[], 0, .start, Nat.le_refl _⟩
  | @opened events live next offset before ih =>
    rcases List.eq_nil_or_concat late with rfl | ⟨rest, e, rfl⟩
    · rw [List.append_nil] at hall
      exact ⟨next :: live, next + 1, hall ▸ .opened offset before, Nat.le_refl _⟩
    · rw [List.concat_eq_append, ← List.append_assoc] at hall
      obtain ⟨live', next', hearly, hle⟩ := ih (List.append_inj_left' hall rfl)
      exact ⟨live', next', hearly, Nat.le_succ_of_le hle⟩
  | @closed events live next id offset before ih =>
    rcases List.eq_nil_or_concat late with rfl | ⟨rest, e, rfl⟩
    · rw [List.append_nil] at hall
      exact ⟨live, next, hall ▸ .closed offset before, Nat.le_refl _⟩
    · rw [List.concat_eq_append, ← List.append_assoc] at hall
      exact ih (List.append_inj_left' hall rfl)

/-- The number of a region is smaller than that of the next one. -/
theorem region_lt (h : RegionHistory events live next) :
    (∀ e ∈ events, e.region < next) ∧ ∀ id ∈ live, id < next := by
  induction h with
  | start =>
    exact ⟨fun _ he => absurd he List.not_mem_nil, fun _ hid => absurd hid List.not_mem_nil⟩
  | opened offset before ih =>
    constructor
    · intro e he
      rcases List.mem_append.1 he with he | he
      · exact Nat.lt_succ_of_lt (ih.1 e he)
      · obtain rfl := List.mem_singleton.1 he
        exact Nat.lt_succ_self _
    · intro id hid
      rcases List.mem_cons.1 hid with rfl | hid
      · exact Nat.lt_succ_self _
      · exact Nat.lt_succ_of_lt (ih.2 id hid)
  | closed offset before ih =>
    refine ⟨fun e he => ?_, fun id hid => ih.2 id (List.mem_cons_of_mem _ hid)⟩
    rcases List.mem_append.1 he with he | he
    · exact ih.1 e he
    · obtain rfl := List.mem_singleton.1 he
      exact ih.2 _ List.mem_cons_self

/-- An open region was opened after those around it. -/
theorem live_sorted (h : RegionHistory events live next) : live.Pairwise (fun a b => b < a) := by
  induction h with
  | start => exact .nil
  | opened offset before ih => exact .cons before.region_lt.2 ih
  | closed offset before ih => exact ih.of_cons

theorem live_nodup (h : RegionHistory events live next) : live.Nodup :=
  h.live_sorted.imp fun hlt => Nat.ne_of_gt hlt

/-- Every region counted was opened. -/
theorem exists_opened (h : RegionHistory events live next) (hid : id < next) :
    ∃ o, ⟨.opened, id, o⟩ ∈ events := by
  induction h with
  | start => exact absurd hid (Nat.not_lt_zero _)
  | @opened events live next offset before ih =>
    by_cases hlt : id < next
    · obtain ⟨o, ho⟩ := ih hlt
      exact ⟨o, List.mem_append_left _ ho⟩
    · obtain rfl := Nat.le_antisymm (Nat.le_of_lt_succ hid) (Nat.le_of_not_lt hlt)
      exact ⟨offset, List.mem_append_right _ List.mem_cons_self⟩
  | closed offset before ih =>
    obtain ⟨o, ho⟩ := ih hid
    exact ⟨o, List.mem_append_left _ ho⟩

/-- A region is open exactly if it was opened and not closed since. -/
theorem mem_live_iff (h : RegionHistory events live next) :
    id ∈ live ↔ id < next ∧ ∀ o, ⟨.closed, id, o⟩ ∉ events := by
  induction h with
  | start => simp
  | @opened events live next offset before ih =>
    rw [List.mem_cons, ih]
    constructor
    · rintro (rfl | ⟨hlt, hopen⟩)
      · refine ⟨Nat.lt_succ_self _, fun o ho => ?_⟩
        rcases List.mem_append.1 ho with ho | ho
        · exact Nat.lt_irrefl _ (before.region_lt.1 _ ho)
        · cases List.mem_singleton.1 ho
      · refine ⟨Nat.lt_succ_of_lt hlt, fun o ho => ?_⟩
        rcases List.mem_append.1 ho with ho | ho
        · exact hopen o ho
        · cases List.mem_singleton.1 ho
    · rintro ⟨hlt, hopen⟩
      by_cases heq : id = next
      · exact Or.inl heq
      · exact Or.inr ⟨Nat.lt_of_le_of_ne (Nat.le_of_lt_succ hlt) heq,
          fun o ho => hopen o (List.mem_append_left _ ho)⟩
  | @closed events live next top offset before ih =>
    have hsorted := List.pairwise_cons.1 before.live_sorted
    constructor
    · intro hid
      obtain ⟨hlt, hopen⟩ := ih.1 (List.mem_cons_of_mem _ hid)
      refine ⟨hlt, fun o ho => ?_⟩
      rcases List.mem_append.1 ho with ho | ho
      · exact hopen o ho
      · cases List.mem_singleton.1 ho
        exact Nat.lt_irrefl _ (hsorted.1 _ hid)
    · rintro ⟨hlt, hopen⟩
      have hmem := ih.2 ⟨hlt, fun o ho => hopen o (List.mem_append_left _ ho)⟩
      rcases List.mem_cons.1 hmem with rfl | hmem
      · exact absurd (List.mem_append_right _ List.mem_cons_self) (hopen offset)
      · exact hmem

/-- The region that a part of the log opens next is the first that was not opened in it. -/
theorem of_opened (h : RegionHistory (early ++ [⟨.opened, id, o⟩]) live next) :
    ∃ live', RegionHistory early live' id := by
  generalize hall : early ++ [⟨.opened, id, o⟩] = events at h
  cases h with
  | start => simp at hall
  | opened offset before =>
    obtain ⟨rfl, heq⟩ := List.append_inj' hall rfl
    cases heq
    exact ⟨_, before⟩
  | closed offset before =>
    obtain ⟨-, heq⟩ := List.append_inj' hall rfl
    cases heq

/-- The region that a part of the log closes next is the innermost open one. -/
theorem of_closed (h : RegionHistory (early ++ [⟨.closed, id, o⟩]) live next) :
    RegionHistory early (id :: live) next := by
  generalize hall : early ++ [⟨.closed, id, o⟩] = events at h
  cases h with
  | start => simp at hall
  | opened offset before =>
    obtain ⟨-, heq⟩ := List.append_inj' hall rfl
    cases heq
  | closed offset before =>
    obtain ⟨rfl, heq⟩ := List.append_inj' hall rfl
    cases heq
    exact before

/-- What holds of the open regions, and of something that is kept up with them, after a part of a
log holds after the whole if every event keeps it. An event that closes a region meets it as the
innermost one. -/
theorem foldl_induction {σ : Type} {f : σ → RegionEvent → σ} {P : List RegionId → σ → Prop}
    {c : σ} (h : RegionHistory (early ++ late) live next)
    (hearly : P (early.foldl RegionEvent.track []) c)
    (hstep : ∀ e ∈ late, ∀ live c, P live c →
      (e.action = .closed → ∃ rest, live = e.region :: rest) → P (e.track live) (f c e)) :
    P ((early ++ late).foldl RegionEvent.track []) (late.foldl f c) := by
  induction late generalizing early c with
  | nil => rwa [List.append_nil]
  | cons e late ih =>
    rw [List.append_cons] at h ⊢
    have hone : P ((early ++ [e]).foldl RegionEvent.track []) (f c e) := by
      rw [List.foldl_append]
      obtain ⟨live', next', hto, -⟩ := h.early_part
      refine hstep e List.mem_cons_self _ _ hearly fun ha => ?_
      obtain ⟨action, id, offset⟩ := e
      obtain rfl : action = .closed := ha
      exact ⟨live', hto.of_closed.foldl_track⟩
    exact ih h hone fun e he => hstep e (List.mem_cons_of_mem _ he)

end RegionHistory

end Resumable
