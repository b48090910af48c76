import Resumable.Proofs.Body.Announcement
import Resumable.Proofs.Region.Scopes

/-!
# What stands around the operations

A case begins with what is set up and announced, then come the statements of its operations in
the scopes that are open, and then the move to the next case. The scopes are those that are open
before each of the operations, for scopes are only opened and closed where a case begins.
-/

namespace Resumable

namespace RegionCursor

variable {regions : RegionStack} {c : RegionCursor}

/-- The scopes of the cursor are those among the open regions. -/
def Wraps (regions : RegionStack) (live : List RegionId) (c : RegionCursor) : Prop :=
  c.scopes = live.filter fun id => (regions.scope? id).isSome

/-- One event. -/
theorem Wraps.replay {live : List RegionId} (h : c.Wraps regions live) (e : RegionEvent)
    (htop : e.action = .closed → ∃ rest, live = e.region :: rest) :
    (c.replay regions e).Wraps regions (e.track live) := by
  have hkept : regions.scope? e.region = none →
      (c.replay regions e).scopes = c.scopes ∧
        ∀ rest, (e.region :: rest).filter (fun id => (regions.scope? id).isSome) =
          rest.filter fun id => (regions.scope? id).isSome := by
    intro hnone
    refine ⟨?_, fun rest => List.filter_cons_of_neg (by rw [hnone]; simp)⟩
    unfold RegionCursor.replay
    split
    · rfl
    · rfl
    · next r _ hr => rw [RegionStack.scope?_eq_some_iff.2 hr] at hnone; cases hnone
    · next r _ hr => rw [RegionStack.scope?_eq_some_iff.2 hr] at hnone; cases hnone
    · rfl
  cases hscope : regions.scope? e.region with
  | none =>
    obtain ⟨hscopes, hskip⟩ := hkept hscope
    cases ha : e.action with
    | opened =>
      simp only [Wraps, hscopes, RegionEvent.track, ha, hskip]
      exact h
    | closed =>
      obtain ⟨rest, rfl⟩ := htop ha
      rw [Wraps, hskip] at h
      simp only [Wraps, hscopes, RegionEvent.track, ha, List.tail_cons]
      exact h
  | some r =>
    have hget := RegionStack.scope?_eq_some_iff.1 hscope
    have hkeep : ∀ rest, (e.region :: rest).filter (fun id => (regions.scope? id).isSome) =
        e.region :: rest.filter fun id => (regions.scope? id).isSome := fun rest =>
      List.filter_cons_of_pos (by rw [hscope]; rfl)
    unfold RegionCursor.replay
    cases ha : e.action with
    | opened =>
      simp only [Wraps, hget, RegionEvent.track, ha, hkeep]
      rw [h]
    | closed =>
      obtain ⟨rest, rfl⟩ := htop ha
      rw [Wraps, hkeep] at h
      simp only [Wraps, hget, RegionEvent.track, ha, List.tail_cons, h]

end RegionCursor

namespace Body.Plan

/-- The statements in the scopes of regions, the first of them the innermost. -/
def wrap (scopes : List ScopeRegion) (statements : List Node) : List Node :=
  scopes.foldl (fun statements r => [.withStmt (.identifier r.object) (.block statements)])
    statements

/-- What stands before the operations of a case: the setup of the stack of protected regions, and
the announcement of a region. -/
def lead (p : Plan) (j : Nat) (entered : Option RegionId) : List Node :=
  (if j = 0 then p.setup else []) ++ (entered.map p.announce).toList

/-- The body, flat or case by case: what the cases announce, and the scopes around what they
hold. -/
structure LaidOut (p : Plan) (body : Body) (entered : Nat → Option RegionId)
    (scopes : Nat → List ScopeRegion) : Prop where
  flat : p.cuts = [] →
    body.statements = (p.lead 0 (entered 0) ++ wrap (scopes 0) (p.content 0)).map p.placed
  switch : p.cuts ≠ [] → body.statements =
    [.switchStmt (StateField.label.of p.state) ((List.range (p.cuts.length + 1)).map fun j =>
      p.placedClause ⟨some (.number (toString j)),
        p.lead j (entered j) ++ wrap (scopes j) (p.content j) ++ p.advanceAfter j⟩)]

/-- The scopes around what a case holds. -/
def scopesOf (p : Plan) (j : Nat) : List ScopeRegion :=
  (p.cursorOf j).scopes.filterMap p.regions.scope?

variable {p : Plan} {i j : Nat}

theorem foldl_inScope (p : Plan) (ids : List RegionId) (statements : List Node) :
    ids.foldl p.inScope statements = wrap (ids.filterMap p.regions.scope?) statements := by
  induction ids generalizing statements with
  | nil => rfl
  | cons id ids ih =>
    rw [List.foldl_cons, ih, inScope]
    cases hscope : p.regions.get? id >>= Region.scope? with
    | none => rw [List.filterMap_cons_none (show p.regions.scope? id = none from hscope)]
    | some r =>
      rw [List.filterMap_cons_some (show p.regions.scope? id = some r from hscope)]
      rfl

theorem framed_eq (p : Plan) (j : Nat) (entered : Option RegionId) (ids : List RegionId) :
    p.framed j entered ids (p.content j) =
      p.lead j entered ++ wrap (ids.filterMap p.regions.scope?) (p.content j) := by
  rw [framed, foldl_inScope, lead, List.append_assoc]

section Laid

variable (h : Laid p.operations p.labels p.regions)

include h

theorem wraps_cursorTo (i : Nat) :
    (p.cursorTo i).Wraps p.regions ((p.regions.logBefore i).foldl RegionEvent.track []) := by
  induction i with
  | zero =>
    rw [RegionStack.logBefore_zero]
    rfl
  | succ i ih =>
    obtain ⟨next, hnext⟩ := h.history_logBefore (i + 1)
    rw [RegionStack.logBefore_append (Nat.le_succ i)] at hnext ⊢
    rw [cursorTo_succ]
    refine hnext.foldl_induction ?_ fun e _ live c hc htop => hc.replay e htop
    split <;> exact ih

theorem filterMap_scopes_cursorTo (i : Nat) :
    (p.cursorTo i).scopes.filterMap p.regions.scope? = p.regions.scopesBefore i := by
  rw [wraps_cursorTo h i, RegionStack.scopesBefore, List.filterMap_filter]
  congr 1
  funext id
  cases p.regions.scope? id <;> rfl

/-- The scopes around what a case holds are those that are open before each of its operations, if
every scope is opened and closed where a label is marked. -/
theorem scopesOf_caseAt (hi : i < p.operations.length)
    (hmarked : ∀ e ∈ p.regions.events, (p.regions.scope? e.region).isSome = true →
      p.labels.hasLabelAt e.offset = true) :
    p.scopesOf (p.caseAt i) = p.regions.scopesBefore (i + 1) := by
  -- a scope event after the operation is a cut, so it is past the end of the case
  have hpast : ∀ e ∈ p.regions.events, i + 1 ≤ e.offset →
      (p.regions.scope? e.region).isSome = true →
      e.offset ≤ p.operations.length ∧ p.caseAt i < p.caseAt e.offset := by
    intro e he hle hscope
    have hlast := (h.past e he).1
    have hcut := isCut_of_hasLabelAt (by omega) hlast (hmarked e he hscope)
    exact ⟨hlast, caseAt_lt_of_isCut hle hcut⟩
  rw [scopesOf, cursorOf, filterMap_scopes_cursorTo h]
  have hnone : ∀ k, (∀ o < k, o ≤ p.operations.length → p.caseAt o ≤ p.caseAt i) →
      ∀ e ∈ p.regions.events, i + 1 ≤ e.offset → e.offset < k →
        p.regions.scope? e.region = none := by
    intro k hk e he hle hlt
    cases hscope : p.regions.scope? e.region with
    | none => rfl
    | some r =>
      obtain ⟨hlast, hcase⟩ := hpast e he hle (by rw [hscope]; rfl)
      exact absurd (hk e.offset hlt hlast) (Nat.not_le.2 hcase)
  split
  · next hj =>
    have hlt : i + 1 ≤ p.bound (p.caseAt i + 1) := (lt_bound_succ_iff hj).2 (Nat.le_refl _)
    refine h.scopesBefore_eq_of_le hlt (hnone _ fun o ho _ => ?_)
    exact (lt_bound_succ_iff hj).1 ho
  · next hj =>
    refine h.scopesBefore_eq_of_le (by omega) (hnone _ fun o _ ho => ?_)
    have := caseAt_le_length_cuts ho
    omega

variable (hlive : p.regions.live = [])

include hlive

/-- No scope is left around what the last case holds. -/
theorem scopesOf_last : p.scopesOf p.cuts.length = [] := by
  have hall : p.regions.logBefore (p.operations.length + 1) = p.regions.events := by
    refine Laid.logBefore_eq (List.append_nil _).symm (fun e he => ?_) fun e he => by cases he
    exact Nat.lt_succ_of_le (h.past e he).1
  rw [scopesOf, cursorOf, if_neg (Nat.lt_irrefl _), filterMap_scopes_cursorTo h,
    RegionStack.scopesBefore, hall, h.history.foldl_track, hlive]
  rfl

/-- How the body of a finished session is laid out. -/
theorem laidOut_of_build_eq_ok {body : Body} (hs : p.splitOnAbrupt = true)
    (hb : p.build = .ok body) :
    p.LaidOut body (fun j => (p.cursorOf j).entered) p.scopesOf := by
  obtain ⟨-, -, rfl⟩ := (build_eq_ok_iff hs).1 hb
  refine ⟨fun hcuts => ?_, fun hcuts => ?_⟩
  · have hentered := entered_cursorOf_last h hlive
    have hscopes := scopesOf_last h hlive
    rw [hcuts] at hentered hscopes
    simp only [unplaced, if_pos hcuts]
    rw [show (p.cursorOf 0).entered = none from hentered, show p.scopesOf 0 = [] from hscopes]
    simp [lead, wrap]
  · simp only [unplaced, if_neg hcuts, List.map_singleton, placed_switch, List.map_map]
    congr 2
    refine List.map_congr_left fun j _ => ?_
    show p.placedClause (p.clause j) = _
    rw [clause, framed_eq]
    rfl

end Laid

/-- Where the statement of an operation is: in the case that its index falls into, as far from
the beginning as the operation is from where the case begins. -/
theorem getElem?_content (hi : i < p.operations.length) :
    (p.content (p.caseAt i))[i - p.bound (p.caseAt i)]? = p.operations[i]?.map p.statement := by
  have hle := bound_caseAt_le (p := p) (Nat.le_of_lt hi)
  have hlt : i < p.bound (p.caseAt i + 1) := by
    have hcase := caseAt_le_length_cuts (p := p) (Nat.le_of_lt hi)
    by_cases hj : p.caseAt i < p.cuts.length
    · exact (lt_bound_succ_iff hj).2 (Nat.le_refl _)
    · rw [show p.caseAt i = p.cuts.length by omega, bound_after_last]
      exact hi
  have hstretch : (p.stretch (p.caseAt i))[i - p.bound (p.caseAt i)]? = p.operations[i]? := by
    rw [stretch, List.getElem?_drop, List.getElem?_take, Nat.add_sub_cancel' hle, if_pos hlt]
  have hlen : i - p.bound (p.caseAt i) < ((p.stretch (p.caseAt i)).map p.statement).length := by
    rw [List.length_map]
    refine (List.getElem?_eq_some_iff.1 (hstretch.trans (List.getElem?_eq_getElem hi))).1
  rw [content, List.getElem?_append_left hlen, List.getElem?_map, hstretch]

end Body.Plan

end Resumable
