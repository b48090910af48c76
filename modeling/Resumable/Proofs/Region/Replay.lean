import Resumable.Proofs.Region.History

/-!
# Replaying the log of a region stack

A region stack keeps three records of the same things: every region with its number, the regions
that are still open, and the log of the openings and closings. The log alone tells the other two.
`Faithful` says how, and every sequence of operations on an empty stack leaves a stack of which it
holds, whatever the regions are overwritten with in between.
-/

namespace Resumable

/-- An operation on a region stack. The searches only look at it. -/
inductive StackCall where
  | enter (region : Region) (offset : Nat)
  | leave (kind : RegionKind) (offset : Nat)
  /-- Any change of a region, whether it is still open or not. -/
  | replace (id : RegionId) (region : Region)
  | expect (kind : RegionKind)
  | breakTarget (name : Option String)
  | continueTarget (name : Option String)
  deriving DecidableEq, Repr

namespace StackCall

/-- The stack after the operation. One that fails leaves the stack as it was. -/
def perform (s : RegionStack) : StackCall → RegionStack
  | .enter region offset => (s.enter region offset).2
  | .leave kind offset =>
    match s.leave kind offset with
    | .ok (_, s') => s'
    | .error _ => s
  | .replace id region => s.replace id region
  | .expect _ | .breakTarget _ | .continueTarget _ => s

/-- The operation opens an exception region. -/
def opensException : StackCall → Bool
  | .enter region _ => region.kind = .exception
  | _ => false

end StackCall

/-- The stack that operations make of an empty one. -/
def RegionStack.ofCalls (calls : List StackCall) : RegionStack := calls.foldl StackCall.perform {}

namespace RegionEvent

/-- What an event makes of the open regions, the innermost first. Only the innermost of them can be
closed. -/
def replay (live : List RegionId) (e : RegionEvent) : Option (List RegionId) :=
  match e.action, live with
  | .opened, live => some (e.region :: live)
  | .closed, id :: rest => if id = e.region then some rest else none
  | .closed, [] => none

def opened? (e : RegionEvent) : Option RegionId :=
  match e.action with
  | .opened => some e.region
  | .closed => none

def closed? (e : RegionEvent) : Option RegionId :=
  match e.action with
  | .opened => none
  | .closed => some e.region

/-- The regions opened in a log, in order. -/
def openings (events : List RegionEvent) : List RegionId := events.filterMap opened?

/-- The regions closed in a log, in order. -/
def closings (events : List RegionEvent) : List RegionId := events.filterMap closed?

/-- The regions opened in a log and not closed in it, in the order of their openings. -/
def unclosed (events : List RegionEvent) : List RegionId :=
  (openings events).filter (· ∉ closings events)

variable {events : List RegionEvent} {id : RegionId} {offset : Nat}

@[simp] theorem openings_opened :
    openings (events ++ [⟨.opened, id, offset⟩]) = openings events ++ [id] := by
  simp [openings, opened?]

@[simp] theorem openings_closed :
    openings (events ++ [⟨.closed, id, offset⟩]) = openings events := by
  simp [openings, opened?]

@[simp] theorem closings_opened :
    closings (events ++ [⟨.opened, id, offset⟩]) = closings events := by
  simp [closings, closed?]

@[simp] theorem closings_closed :
    closings (events ++ [⟨.closed, id, offset⟩]) = closings events ++ [id] := by
  simp [closings, closed?]

theorem mem_closings_iff : id ∈ closings events ↔ ∃ o, ⟨.closed, id, o⟩ ∈ events := by
  rw [closings, List.mem_filterMap]
  constructor
  · rintro ⟨⟨action, region, o⟩, he, hid⟩
    cases action with
    | opened => cases hid
    | closed =>
      obtain rfl : region = id := Option.some.inj hid
      exact ⟨o, he⟩
  · rintro ⟨o, he⟩
    exact ⟨_, he, rfl⟩

end RegionEvent

namespace RegionHistory

open RegionEvent

variable {events : List RegionEvent} {live : List RegionId} {next : Nat} {id : RegionId}

/-- Replaying a log never closes a region that is not the innermost one. -/
theorem foldlM_replay (h : RegionHistory events live next) :
    events.foldlM replay [] = some live := by
  induction h with
  | start => rfl
  | opened offset before ih =>
    rw [List.foldlM_append, ih]
    rfl
  | closed offset before ih =>
    rw [List.foldlM_append, ih]
    simp [replay]

/-- The regions are opened in the order of their numbers. -/
theorem openings_eq (h : RegionHistory events live next) : openings events = List.range next := by
  induction h with
  | start => rfl
  | opened offset before ih => rw [openings_opened, ih, List.range_succ]
  | closed offset before ih => rw [openings_closed, ih]

theorem mem_live_iff_not_mem_closings (h : RegionHistory events live next) :
    id ∈ live ↔ id < next ∧ id ∉ closings events := by
  rw [h.mem_live_iff, mem_closings_iff, not_exists]

/-- No region is closed twice. -/
theorem nodup_closings (h : RegionHistory events live next) : (closings events).Nodup := by
  induction h with
  | start => exact .nil
  | opened offset before ih => rwa [closings_opened]
  | @closed events live next id offset before ih =>
    have hopen := (before.mem_live_iff_not_mem_closings.1 List.mem_cons_self).2
    rw [closings_closed]
    refine List.nodup_append.2 ⟨ih, List.pairwise_singleton _ id, fun a ha b hb heq => ?_⟩
    obtain rfl := List.mem_singleton.1 hb
    exact hopen (heq ▸ ha)

/-- The open regions are those that the log opens and does not close, the last opened first. -/
theorem live_eq (h : RegionHistory events live next) : live = (unclosed events).reverse := by
  have hsorted : (unclosed events).reverse.Pairwise (fun a b => b < a) := by
    rw [unclosed, h.openings_eq, List.pairwise_reverse]
    exact List.pairwise_lt_range.filter _
  have hmem : ∀ id, id ∈ live ↔ id ∈ (unclosed events).reverse := by
    intro id
    rw [h.mem_live_iff_not_mem_closings, List.mem_reverse, unclosed, h.openings_eq,
      List.mem_filter, List.mem_range, decide_eq_true_iff]
  have hperm : live.Perm (unclosed events).reverse :=
    (List.perm_ext_iff_of_nodup h.live_nodup (hsorted.imp fun hlt => Nat.ne_of_gt hlt)).2 hmem
  exact hperm.eq_of_pairwise (fun a b _ _ hab hba => absurd hab (Nat.lt_asymm hba))
    h.live_sorted hsorted

end RegionHistory

theorem Region.isSome_exception? (region : Region) :
    region.exception?.isSome = decide (region.kind = .exception) := by
  cases region with
  | exception r => rfl
  | scope r => rfl
  | breakable target => cases hn : target.native <;> simp [kind, exception?, hn]
  | loop target label => cases hn : target.native <;> simp [kind, exception?, hn]

namespace RegionStack

open RegionEvent

variable {s s' : RegionStack} {calls : List StackCall} {id : RegionId} {rest : List RegionId}
  {region : Region} {kind : RegionKind}

/-- The three records of a region stack agree. -/
structure Faithful (s : RegionStack) : Prop where
  /-- Replaying the log closes only what is innermost then, and ends with the open regions. -/
  replayed : s.events.foldlM replay [] = some s.live
  /-- Each region is opened once, in the order of the numbers. -/
  opened : openings s.events = List.range s.regions.length
  /-- No region is closed twice. -/
  closed : (closings s.events).Nodup
  live : s.live = (unclosed s.events).reverse
  depth : s.depth = (unclosed s.events).length
  /-- Without an open region there is nothing to close. -/
  idle : s.live = [] → ∀ kind offset, s.leave kind offset = .error (.regionMismatch kind none)
  /-- What can be closed is the innermost region, as what it is now. -/
  innermost : ∀ id rest, s.live = id :: rest → ∃ region, s.get? id = some region ∧
    ∀ kind offset, s.leave kind offset =
      if region.kind = kind then
        .ok (id, { s with live := rest, events := s.events ++ [⟨.closed, id, offset⟩] })
      else .error (.regionMismatch kind (some region.kind))

theorem leave_of_live_eq_nil (hlive : s.live = []) (kind : RegionKind) (offset : Nat) :
    s.leave kind offset = .error (.regionMismatch kind none) := by
  have hnone : s.innermost? = none := by
    rw [innermost?, hlive]
    rfl
  rw [leave, expect, hnone]
  rfl

theorem leave_of_live_eq_cons (hlive : s.live = id :: rest) (hget : s.get? id = some region)
    (kind : RegionKind) (offset : Nat) :
    s.leave kind offset =
      if region.kind = kind then
        .ok (id, { s with live := rest, events := s.events ++ [⟨.closed, id, offset⟩] })
      else .error (.regionMismatch kind (some region.kind)) := by
  have hinner : s.innermost? = some (id, region.kind) := by
    rw [innermost?, hlive, List.head?_cons, Option.bind_eq_bind, Option.bind_some, hget]
    rfl
  rw [leave, expect, hinner, hlive]
  by_cases hkind : region.kind = kind
  · simp only [hkind, if_true]
    rfl
  · simp only [hkind, if_false]
    rfl

/-- It is enough that the log is a history of the openings and the closings. -/
theorem faithful_of_history (h : RegionHistory s.events s.live s.regions.length) : s.Faithful where
  replayed := h.foldlM_replay
  opened := h.openings_eq
  closed := h.nodup_closings
  live := h.live_eq
  depth := by
    rw [depth, h.live_eq, List.length_reverse]
  idle := leave_of_live_eq_nil
  innermost id rest hlive := by
    have hlt : id < s.regions.length := h.region_lt.2 id (hlive ▸ List.mem_cons_self)
    exact ⟨s.regions[id], List.getElem?_eq_getElem hlt,
      leave_of_live_eq_cons hlive (List.getElem?_eq_getElem hlt)⟩

theorem ofCalls_concat (calls : List StackCall) (call : StackCall) :
    ofCalls (calls ++ [call]) = call.perform (ofCalls calls) := by
  rw [ofCalls, List.foldl_append]
  rfl

/-- An operation adds at most one event to the log, for what it opens or closes. -/
theorem history_perform (h : RegionHistory s.events s.live s.regions.length) (call : StackCall) :
    RegionHistory (call.perform s).events (call.perform s).live
      (call.perform s).regions.length := by
  cases call with
  | enter region offset =>
    show RegionHistory _ _ (s.regions ++ [region]).length
    rw [List.length_append]
    exact .opened offset h
  | leave kind offset =>
    rw [StackCall.perform]
    split
    · next id s' hleave =>
      obtain ⟨hinner, rfl⟩ := leave_eq_ok_iff.1 hleave
      obtain ⟨top, htop, hrest⟩ := Option.bind_eq_some_iff.1 hinner
      obtain ⟨region, -, hpair⟩ := Option.bind_eq_some_iff.1 hrest
      obtain ⟨rfl, -⟩ := Prod.mk.inj (Option.some.inj hpair)
      obtain ⟨rest, hlive⟩ := List.head?_eq_some_iff.1 htop
      rw [hlive] at h
      have hclosed := RegionHistory.closed offset h
      rwa [show rest = s.live.tail by rw [hlive]; rfl] at hclosed
    · exact h
  | replace id region =>
    show RegionHistory _ _ (s.regions.set id region).length
    rwa [List.length_set]
  | expect kind => exact h
  | breakTarget name => exact h
  | continueTarget name => exact h

theorem history_foldl (h : RegionHistory s.events s.live s.regions.length)
    (calls : List StackCall) :
    RegionHistory (calls.foldl StackCall.perform s).events (calls.foldl StackCall.perform s).live
      (calls.foldl StackCall.perform s).regions.length := by
  induction calls generalizing s with
  | nil => exact h
  | cons call calls ih => exact ih (history_perform h call)

theorem faithful_ofCalls (calls : List StackCall) : (ofCalls calls).Faithful :=
  faithful_of_history (history_foldl .start calls)

theorem hasExceptions_perform (s : RegionStack) (call : StackCall) :
    (call.perform s).hasExceptions = (s.hasExceptions || call.opensException) := by
  cases call with
  | enter region offset =>
    show (s.hasExceptions || region.exception?.isSome) = _
    rw [StackCall.opensException, Region.isSome_exception?]
  | leave kind offset =>
    refine Eq.trans ?_ (Bool.or_false _).symm
    rw [StackCall.perform]
    split
    · next id s' hleave =>
      obtain ⟨-, rfl⟩ := leave_eq_ok_iff.1 hleave
      rfl
    · rfl
  | _ => exact (Bool.or_false _).symm

/-- Whether an exception region was ever opened stays known. -/
theorem hasExceptions_foldl (s : RegionStack) (calls : List StackCall) :
    (calls.foldl StackCall.perform s).hasExceptions =
      (s.hasExceptions || calls.any StackCall.opensException) := by
  induction calls generalizing s with
  | nil => exact (Bool.or_false _).symm
  | cons call calls ih =>
    rw [List.foldl_cons, ih, hasExceptions_perform, List.any_cons, Bool.or_assoc]

theorem hasExceptions_ofCalls (calls : List StackCall) :
    (ofCalls calls).hasExceptions = calls.any StackCall.opensException := by
  rw [ofCalls, hasExceptions_foldl]
  exact Bool.false_or _

end RegionStack

end Resumable
