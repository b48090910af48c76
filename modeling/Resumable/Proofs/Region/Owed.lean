import Mathlib.Data.List.Perm.Basic
import Resumable.Region.Stack

/-!
# What open regions owe

A region can leave a label to be marked when it is closed: the one past its end, or the one that
a `break` out of it goes to. Opening and closing regions and changing one of them change what the
open ones owe by the labels of that one region.
-/

namespace Resumable

namespace Region

/-- The label past the end of an exception region or of a scope. -/
def stop? : Region → Option Label
  | .exception region => some region.stop
  | .scope region => some region.stop
  | _ => none

/-- The label that a `break` goes to, if one asked for it and the target is not native. -/
def breakLabel? (region : Region) : Option Label :=
  region.breakTarget?.bind fun target =>
    if target.native || target.label.isNone then none else some target.label

/-- The labels that stay unmarked until a region is closed. -/
def owed : Region → List Label
  | .exception region => [region.stop]
  | .scope region => [region.stop]
  | .breakable target | .loop target _ =>
    if target.native || target.label.isNone then [] else [target.label]

theorem owed_eq (region : Region) :
    region.owed = region.stop?.toList ++ region.breakLabel?.toList := by
  cases region with
  | exception r => rfl
  | scope r => rfl
  | breakable t =>
    simp only [owed, stop?, breakLabel?, breakTarget?, Option.bind_some]
    split <;> rfl
  | loop t label =>
    simp only [owed, stop?, breakLabel?, breakTarget?, Option.bind_some]
    split <;> rfl

/-- A region of one of these kinds is a target whose jumps go through labels. -/
theorem exists_target_of_kind {region : Region}
    (hkind : region.kind = .breakable ∨ region.kind = .loop) :
    ∃ target, region.breakTarget? = some target ∧ target.native = false := by
  cases region with
  | exception r => rcases hkind with hkind | hkind <;> cases hkind
  | scope r => rcases hkind with hkind | hkind <;> cases hkind
  | breakable t =>
    refine ⟨t, rfl, ?_⟩
    cases hn : t.native with
    | false => rfl
    | true => simp [kind, hn] at hkind
  | loop t label =>
    refine ⟨t, rfl, ?_⟩
    cases hn : t.native with
    | false => rfl
    | true => simp [kind, hn] at hkind

/-- A target whose jumps go through labels owes its label, if a jump asked for one. -/
theorem owed_of_target {region : Region} {target : BreakTarget}
    (htarget : region.breakTarget? = some target) (hnative : target.native = false) :
    region.owed = if target.label.isSome then [target.label] else [] := by
  have hflag : (target.native || target.label.isNone) = !target.label.isSome := by
    rw [hnative, Label.isSome, Bool.not_not, Bool.false_or]
  cases region with
  | exception r => cases htarget
  | scope r => cases htarget
  | breakable t =>
    obtain rfl := Option.some.inj htarget
    rw [owed, hflag]
    cases t.label.isSome <;> rfl
  | loop t label =>
    obtain rfl := Option.some.inj htarget
    rw [owed, hflag]
    cases t.label.isSome <;> rfl

theorem owed_of_native {region : Region} {target : BreakTarget}
    (htarget : region.breakTarget? = some target) (hnative : target.native = true) :
    region.owed = [] := by
  cases region with
  | exception r => cases htarget
  | scope r => cases htarget
  | breakable t =>
    obtain rfl := Option.some.inj htarget
    rw [owed, hnative]
    rfl
  | loop t label =>
    obtain rfl := Option.some.inj htarget
    rw [owed, hnative]
    rfl

/-- A target that is left by a jump owes the label of the jump from then on. -/
theorem owed_setBreakLabel {region : Region} {target : BreakTarget} {label : Label}
    (hasked : region.breakTarget? = some target) (hdispatched : target.native = false)
    (hunnamed : target.label.isSome = false) (hpresent : label.isSome = true) :
    region.owed = [] ∧ (region.setBreakLabel label).owed = [label] := by
  cases region with
  | exception r => cases hasked
  | scope r => cases hasked
  | breakable t =>
    obtain rfl := Option.some.inj hasked
    simp_all [setBreakLabel, owed, Label.isSome]
  | loop t l =>
    obtain rfl := Option.some.inj hasked
    simp_all [setBreakLabel, owed, Label.isSome]

end Region

namespace RegionStack

/-- The stack after its innermost region was closed. -/
def closed (s : RegionStack) (id : RegionId) (rest : List RegionId) (offset : Nat) :
    RegionStack :=
  { s with live := rest, events := s.events ++ [⟨.closed, id, offset⟩] }

/-- What a region owes. -/
def owing (s : RegionStack) (id : RegionId) : List Label := (s.get? id).elim [] Region.owed

/-- What the open regions owe. -/
def owed (s : RegionStack) : List Label := s.live.flatMap s.owing

/-- The labels past the ends of the open exception regions and scopes. -/
def stops (s : RegionStack) : List Label := s.live.filterMap fun id => s.get? id >>= Region.stop?

/-- The labels that jumps out of the open targets go to. -/
def breakLabels (s : RegionStack) : List Label :=
  s.live.filterMap fun id => s.get? id >>= Region.breakLabel?

variable {s : RegionStack} {id : RegionId} {old new region : Region} {rest : List RegionId}
  {offset : Nat}

theorem get?_replace (h : s.get? id = some old) (new : Region) (i : RegionId) :
    (s.replace id new).get? i = if i = id then some new else s.get? i := by
  have hlt : id < s.regions.length := (List.getElem?_eq_some_iff.1 h).1
  simp only [replace, get?, List.getElem?_set, hlt, if_true, eq_comm (a := id)]

theorem owing_of_get? (h : s.get? id = some region) : s.owing id = region.owed := by
  rw [owing, h]
  rfl

theorem mem_owed {l : Label} (hid : id ∈ s.live) (hget : s.get? id = some region)
    (hl : l ∈ region.owed) : l ∈ s.owed :=
  List.mem_flatMap.2 ⟨id, hid, by rw [owing_of_get? hget]; exact hl⟩

theorem owed_perm (s : RegionStack) : s.owed.Perm (s.stops ++ s.breakLabels) := by
  have hsplit : s.owing = fun id => (s.get? id >>= Region.stop?).toList ++
      (s.get? id >>= Region.breakLabel?).toList := by
    funext id
    unfold owing
    cases s.get? id with
    | none => rfl
    | some region => exact region.owed_eq
  rw [owed, hsplit, stops, breakLabels, List.filterMap_eq_flatMap_toList,
    List.filterMap_eq_flatMap_toList]
  exact (List.flatMap_append_perm s.live _ _).symm

/-- A region that is opened adds what it owes. -/
theorem owed_enter (hlive : ∀ id ∈ s.live, id < s.regions.length) :
    (s.enter region offset).2.owed = region.owed ++ s.owed := by
  have hself : (s.enter region offset).2.owing s.regions.length = region.owed :=
    owing_of_get? (s.get?_enter region offset)
  have hkept : s.live.map (s.enter region offset).2.owing = s.live.map s.owing := by
    refine List.map_congr_left fun id hid => ?_
    have hget : (s.enter region offset).2.get? id = s.get? id :=
      List.getElem?_append_left (hlive id hid)
    rw [owing, hget, owing]
  show (s.regions.length :: s.live).flatMap (s.enter region offset).2.owing = _
  rw [List.flatMap_cons, hself, List.flatMap_def, hkept, owed, List.flatMap_def]

/-- A region that is closed takes what it owes. -/
theorem owed_of_live (hlive : s.live = id :: rest) (hget : s.get? id = some region)
    (offset : Nat) : s.owed = region.owed ++ (s.closed id rest offset).owed := by
  rw [owed, hlive, List.flatMap_cons, owing_of_get? hget]
  rfl

theorem owed_replace_of_not_mem (hget : s.get? id = some old) (hid : id ∉ s.live) (new : Region) :
    (s.replace id new).owed = s.owed := by
  have hkept : s.live.map (s.replace id new).owing = s.live.map s.owing := by
    refine List.map_congr_left fun i hi => ?_
    have hne : i ≠ id := fun heq => hid (heq ▸ hi)
    rw [owing, get?_replace hget, if_neg hne, owing]
  show s.live.flatMap (s.replace id new).owing = _
  rw [List.flatMap_def, hkept, owed, List.flatMap_def]

/-- A region that owes something else than before. -/
theorem owed_replace_perm (hget : s.get? id = some old) (hid : id ∈ s.live)
    (hnodup : s.live.Nodup) (new : Region) :
    ∃ others, s.owed.Perm (old.owed ++ others) ∧
      (s.replace id new).owed.Perm (new.owed ++ others) := by
  obtain ⟨outside, inside, hsplit⟩ := List.append_of_mem hid
  rw [hsplit] at hnodup
  have hne : ∀ i ∈ outside ++ inside, i ≠ id := by
    intro i hi heq
    subst heq
    exact (List.nodup_cons.1 (List.perm_middle.nodup_iff.1 hnodup)).1 hi
  have hkept : ∀ ids : List RegionId, (∀ i ∈ ids, i ∈ outside ++ inside) →
      ids.flatMap (s.replace id new).owing = ids.flatMap s.owing := by
    intro ids hids
    rw [List.flatMap_def, List.flatMap_def]
    congr 1
    refine List.map_congr_left fun i hi => ?_
    rw [owing, get?_replace hget, if_neg (hne i (hids i hi)), owing]
  have hself : (s.replace id new).owing id = new.owed :=
    owing_of_get? ((get?_replace hget new id).trans (if_pos rfl))
  refine ⟨outside.flatMap s.owing ++ inside.flatMap s.owing, ?_, ?_⟩
  · rw [owed, hsplit, List.flatMap_append, List.flatMap_cons, owing_of_get? hget]
    exact List.perm_append_comm_assoc ..
  · show (s.live.flatMap (s.replace id new).owing).Perm _
    rw [hsplit, List.flatMap_append, List.flatMap_cons, hself,
      hkept outside fun i hi => List.mem_append_left _ hi,
      hkept inside fun i hi => List.mem_append_right _ hi]
    exact List.perm_append_comm_assoc ..

/-- A region that is changed otherwise leaves what is owed as it was. -/
theorem owed_replace_of_eq (hget : s.get? id = some old) (hid : id ∈ s.live)
    (hnodup : s.live.Nodup) (heq : new.owed = old.owed) :
    (s.replace id new).owed.Perm s.owed := by
  obtain ⟨others, hold, hnew⟩ := owed_replace_perm hget hid hnodup new
  rw [heq] at hnew
  exact hnew.trans hold.symm

end RegionStack

end Resumable
