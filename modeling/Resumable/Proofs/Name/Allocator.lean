import Resumable.Name.Allocator
import Resumable.Proofs.Name.Temporary

/-!
# What handing out a name does

`Created` is all that a call for a name does to its allocator and to the registry, whichever way the
name was come by.
-/

namespace Resumable.Name

variable {name : String} {preferred : Option String} {registered : Bool} {a a' : Allocator}
  {r r' : Registry}

theorem Registry.mem_names_register {name' : String} :
    name' ∈ (r.register name).2.names ↔ name' ∈ r.names ∨ name' = name := by
  unfold register
  split
  · next hknown =>
    exact ⟨.inl, fun h => h.elim id fun heq => heq ▸ contains_eq_true.1 hknown⟩
  · exact List.mem_append.trans (or_congr_right List.mem_singleton)

theorem Registry.names_register (h : name ∉ r.names) :
    (r.register name).2.names = r.names ++ [name] := by
  unfold register
  rw [dif_neg (mt contains_eq_true.1 h)]

namespace Allocator

theorem mem_taken : name ∈ a.taken r ↔ name ∈ a.issued ∨ name ∈ r.names ∨ name ∈ a.bound := by
  rw [taken, List.mem_append, List.mem_append, or_assoc]

/-- The names that a call may have looked at when it leaves the temporaries at the place `next`:
the preferred one, and those of the places it moves past. -/
def asked (a : Allocator) (preferred : Option String) (next : Nat) : List String :=
  preferred.toList ++ (List.range' a.next (next - a.next)).map temporary

theorem asked_subset {next next' : Nat} (h : next ≤ next') :
    a.asked preferred next ⊆ a.asked preferred next' := by
  intro name hname
  rcases List.mem_append.1 hname with hname | hname
  · exact List.mem_append_left _ hname
  · obtain ⟨n, hn, rfl⟩ := List.mem_map.1 hname
    refine List.mem_append_right _ (List.mem_map_of_mem ?_)
    rw [List.mem_range'_1] at hn ⊢
    omega

/-- The name is the preferred one if that is free, and otherwise the first free temporary. -/
theorem choose_cases (a : Allocator) (r : Registry) (preferred : Option String) :
    (∃ name, preferred = some name ∧ name ∉ a.taken r ∧ a.choose r preferred = (name, a.next)) ∨
      (∀ name, preferred = some name → name ∈ a.taken r) ∧
        a.choose r preferred = (temporary (firstFree (a.taken r) a.next),
          firstFree (a.taken r) a.next + 1) := by
  unfold choose
  dsimp only
  split
  · next name hname =>
    obtain ⟨hpreferred, hfree⟩ := Option.filter_eq_some_iff.1 hname
    refine .inl ⟨name, hpreferred, ?_, rfl⟩
    simpa only [Bool.not_eq_true', ← Bool.not_eq_true, List.contains_iff_mem] using hfree
  · next hnone =>
    refine .inr ⟨fun name hpreferred => ?_, rfl⟩
    have htaken := Option.filter_eq_none_iff.1 hnone name hpreferred
    simpa only [Bool.not_eq_true', Bool.not_eq_false, List.contains_iff_mem] using htaken

theorem run_create (preferred : Option String) (registered : Bool) (a : Allocator) (r : Registry) :
    ((create preferred registered).run a).run r =
      (((a.choose r preferred).1,
        { a with
          next := (a.choose r preferred).2
          issued := (a.choose r preferred).1 :: a.issued }),
        if registered then (r.register (a.choose r preferred).1).2 else r) := by
  cases registered <;> rfl

/-- A name was handed out: it was free, and it is not any more. -/
structure Created (a : Allocator) (r : Registry) (preferred : Option String) (registered : Bool)
    (name : String) (a' : Allocator) (r' : Registry) : Prop where
  unissued : name ∉ a.issued
  unregistered : name ∉ r.names
  unbound : name ∉ a.bound
  asked : name ∈ a.asked preferred a'.next
  scope : a'.scope = a.scope
  bound : a'.bound = a.bound
  issued : a'.issued = name :: a.issued
  declared : a'.declared = a.declared
  registry : r'.names = if registered then r.names ++ [name] else r.names

theorem created_of_run
    (h : ((create preferred registered).run a).run r = ((name, a'), r')) :
    Created a r preferred registered name a' r' := by
  rw [run_create] at h
  obtain ⟨hanswer, rfl⟩ := Prod.mk.inj h
  obtain ⟨rfl, rfl⟩ := Prod.mk.inj hanswer
  have hfree : (a.choose r preferred).1 ∉ a.taken r ∧
      (a.choose r preferred).1 ∈ a.asked preferred (a.choose r preferred).2 := by
    rcases choose_cases a r preferred with ⟨name, rfl, hfree, hchoose⟩ | ⟨-, hchoose⟩ <;>
      rw [hchoose]
    · exact ⟨hfree, List.mem_append_left _ (List.mem_singleton_self name)⟩
    · have hle := le_firstFree (a.taken r) a.next
      refine ⟨temporary_firstFree _ _, List.mem_append_right _ (List.mem_map_of_mem ?_)⟩
      rw [List.mem_range'_1]
      omega
  have hnot := mt mem_taken.2 hfree.1
  simp only [not_or] at hnot
  refine ⟨hnot.1, hnot.2.1, hnot.2.2, hfree.2, rfl, rfl, rfl, rfl, ?_⟩
  cases registered with
  | true => exact Registry.names_register hnot.2.1
  | false => rfl

/-- A name that is handed out can be declared at once. -/
theorem exists_created_of_run_declare
    (h : ((do
      let name ← create preferred registered
      declare name
      return name : AllocatorM String).run a).run r = ((name, a'), r')) :
    ∃ a₁, Created a r preferred registered name a₁ r' ∧
      a' = { a₁ with declared := a₁.declared ++ [name] } := by
  obtain ⟨hanswer, rfl⟩ := Prod.mk.inj h
  obtain ⟨rfl, rfl⟩ := Prod.mk.inj hanswer
  exact ⟨_, created_of_run rfl, rfl⟩

/-- An expression that is no identifier is held in a new variable. -/
theorem exists_created_of_run_ensureIdentifier {expression identifier : Node}
    {assignments : List (Node × Node)} (hexpression : expression.unlocated.isIdentifier = false)
    (h : ((ensureIdentifier expression).run a).run r = (((identifier, assignments), a'), r')) :
    ∃ name a₁, identifier = .identifier name ∧ Created a r none false name a₁ r' ∧
      a' = { a₁ with declared := a₁.declared ++ [name] } := by
  rw [ensureIdentifier, hexpression] at h
  obtain ⟨hanswer, rfl⟩ := Prod.mk.inj h
  obtain ⟨hpair, rfl⟩ := Prod.mk.inj hanswer
  obtain ⟨rfl, -⟩ := Prod.mk.inj hpair
  exact ⟨_, _, rfl, created_of_run rfl, rfl⟩

theorem run_ensureIdentifier_of_isIdentifier {expression : Node}
    (hexpression : expression.unlocated.isIdentifier = true) :
    ((ensureIdentifier expression).run a).run r = (((expression, []), a), r) := by
  rw [ensureIdentifier, hexpression]
  rfl

theorem exists_run_ensureIdentifier_of_run_valueOrDefault {value default expression : Node}
    {assignments : List (Node × Node)}
    (h : ((valueOrDefault value default).run a).run r = (((expression, assignments), a'), r')) :
    ∃ held, expression = .conditional (.binary held "===" .undefined) default held ∧
      ((ensureIdentifier value).run a).run r = (((held, assignments), a'), r') := by
  obtain ⟨hanswer, rfl⟩ := Prod.mk.inj h
  obtain ⟨hpair, rfl⟩ := Prod.mk.inj hanswer
  obtain ⟨rfl, rfl⟩ := Prod.mk.inj hpair
  exact ⟨_, rfl, rfl⟩

end Allocator

end Resumable.Name
