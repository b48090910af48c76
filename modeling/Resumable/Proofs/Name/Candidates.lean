import Mathlib.Data.Finset.Card
import Mathlib.Logic.Relation
import Mathlib.Order.Interval.Finset.Nat
import Resumable.Proofs.Name.Allocator

/-!
# The candidates that a call tries

If the preferred name is not free, the temporaries are tried one after another. `Search` is this
loop; nothing in it bounds the number of turns. It ends because no two places have the same name and
only finitely many names are taken. The next place only ever moves on, so no candidate is tried
again.
-/

namespace Resumable.Name

/-- The places tried from a place on, one after another. The last of them, and no other, is free. -/
inductive Search (free : String → Prop) : Nat → List Nat → Prop
  | found {place : Nat} (hfree : free (temporary place)) : Search free place [place]
  | passed {place : Nat} {tried : List Nat} (htaken : ¬ free (temporary place))
    (next : Search free (place + 1) tried) : Search free place (place :: tried)

section Search

variable {free : String → Prop} {place first n : Nat} {tried : List Nat} {taken : List String}

theorem Search.le_of_mem (h : Search free place tried) (hn : n ∈ tried) : place ≤ n := by
  induction h with
  | found hfree =>
    rw [List.mem_singleton] at hn
    omega
  | passed htaken next ih =>
    rcases List.mem_cons.1 hn with rfl | hn
    · exact Nat.le_refl n
    · have hlater := ih hn
      omega

/-- The search tries all places up to the first free one. -/
theorem search_of_isLeast (h : IsLeast {n | place ≤ n ∧ free (temporary n)} first) :
    Search free place (List.range' place (first - place) ++ [first]) := by
  obtain ⟨⟨hle, hfree⟩, hleast⟩ := h
  induction hgap : first - place generalizing place with
  | zero =>
    obtain rfl : place = first := by omega
    exact .found hfree
  | succ gap ih =>
    have htaken : ¬ free (temporary place) := by
      intro hplace
      have hfirst := hleast ⟨Nat.le_refl place, hplace⟩
      omega
    refine .passed htaken (ih ?_ (by omega) (by omega))
    rintro n ⟨hn, hnfree⟩
    exact hleast ⟨by omega, hnfree⟩

/-- The places passed over have different names, and all of these are taken. -/
theorem sub_le_card (h : IsLeast {n | place ≤ n ∧ temporary n ∉ taken} first) :
    first - place ≤ taken.toFinset.card := by
  have hpassed : (Finset.Ico place first).image temporary ⊆ taken.toFinset := by
    intro name hname
    obtain ⟨n, hn, rfl⟩ := Finset.mem_image.1 hname
    obtain ⟨hle, hlt⟩ := Finset.mem_Ico.1 hn
    rw [List.mem_toFinset]
    by_contra hfree
    exact absurd (h.2 ⟨hle, hfree⟩) (Nat.not_le_of_lt hlt)
  have hcard := Finset.card_le_card hpassed
  rwa [Finset.card_image_of_injective _ temporary_injective, Nat.card_Ico] at hcard

theorem isLeast_firstFree (taken : List String) (place : Nat) :
    IsLeast {n | place ≤ n ∧ temporary n ∉ taken} (firstFree taken place) :=
  ⟨⟨le_firstFree taken place, temporary_firstFree taken place⟩,
    fun _ h => firstFree_le h.1 h.2⟩

end Search

namespace Allocator

variable {a a' : Allocator} {r : Registry} {resolver : Nat → String → Bool} {name : String}

/-- A name that the call may hand out: not handed out before, not registered and, as the resolver
says, not bound in the scope. -/
def IsFree (resolver : Nat → String → Bool) (a : Allocator) (r : Registry) (name : String) : Prop :=
  name ∉ a.issued ∧ name ∉ r.names ∧ resolver a.scope name = false

/-- The resolver binds finitely many names in the scope, and these are the bound names at hand. -/
def IsBoundBy (resolver : Nat → String → Bool) (a : Allocator) : Prop :=
  ∀ name, name ∈ a.bound ↔ resolver a.scope name = true

theorem IsBoundBy.isFree_iff (h : a.IsBoundBy resolver) :
    a.IsFree resolver r name ↔ name ∉ a.taken r := by
  rw [IsFree, mem_taken, not_or, not_or, h name, Bool.not_eq_true]

/-- What becomes of an allocator by a call, whatever is registered at that time. -/
inductive Call : Allocator → Allocator → Prop
  | create (a : Allocator) (r : Registry) (preferred : Option String) (registered : Bool) :
    Call a (((create preferred registered).run a).run r).1.2
  | declare (a : Allocator) (r : Registry) (name : String) :
    Call a (((declare name).run a).run r).1.2
  | ensureIdentifier (a : Allocator) (r : Registry) (expression : Node) :
    Call a (((ensureIdentifier expression).run a).run r).1.2
  | valueOrDefault (a : Allocator) (r : Registry) (value default : Node) :
    Call a (((valueOrDefault value default).run a).run r).1.2

theorem le_choose (a : Allocator) (r : Registry) (preferred : Option String) :
    a.next ≤ (a.choose r preferred).2 := by
  rcases choose_cases a r preferred with ⟨name, -, -, hchoose⟩ | ⟨-, hchoose⟩
  · rw [hchoose]
  · have hle := le_firstFree (a.taken r) a.next
    rw [hchoose]
    omega

theorem next_le_ensureIdentifier (a : Allocator) (r : Registry) (expression : Node) :
    a.next ≤ (((ensureIdentifier expression).run a).run r).1.2.next := by
  unfold ensureIdentifier
  split
  · exact Nat.le_refl a.next
  · exact le_choose a r none

theorem Call.next_le (h : Call a a') : a.next ≤ a'.next := by
  cases h with
  | create r preferred registered =>
    rw [run_create]
    exact le_choose a r preferred
  | declare r name => exact Nat.le_refl a.next
  | ensureIdentifier r expression => exact next_le_ensureIdentifier a r expression
  | valueOrDefault r value default => exact next_le_ensureIdentifier a r value

/-- The next place is never moved back. -/
theorem next_le_of_calls (h : Relation.ReflTransGen Call a a') : a.next ≤ a'.next := by
  induction h with
  | refl => exact Nat.le_refl a.next
  | tail _ call ih => exact ih.trans call.next_le

/-- A call for a name always returns. If the preferred name is free it is that one. Otherwise the
temporaries are tried from the next place on until one is free, which is the first free one there
is; these are at most one more than there are names that were handed out, registered or bound. The
call leaves the next place behind the last one it tried, and no later call tries a place before
it. -/
theorem creates_first_free (hbound : a.IsBoundBy resolver) (preferred : Option String)
    (registered : Bool) :
    Function.Injective temporary ∧
    ∃ name a' r', ((create preferred registered).run a).run r = ((name, a'), r') ∧
      (∀ wanted, preferred = some wanted → a.IsFree resolver r wanted →
        name = wanted ∧ a'.next = a.next) ∧
      ((∀ wanted, preferred = some wanted → ¬ a.IsFree resolver r wanted) →
        ∃ c tried, name = temporary c ∧ a'.next = c + 1 ∧
          IsLeast {n | a.next ≤ n ∧ a.IsFree resolver r (temporary n)} c ∧
          Search (a.IsFree resolver r) a.next (tried ++ [c]) ∧
          (tried ++ [c]).length ≤ (a.issued ++ r.names ++ a.bound).toFinset.card + 1) ∧
      ∀ later, Relation.ReflTransGen Call a' later → ∀ free tried,
        Search free later.next tried → ∀ n ∈ tried, a'.next ≤ n := by
  refine ⟨temporary_injective, _, _, _, run_create preferred registered a r, ?_, ?_, ?_⟩
  · rintro wanted rfl hfree
    rcases choose_cases a r (some wanted) with ⟨name, hname, -, hchoose⟩ | ⟨htaken, -⟩
    · rw [hchoose]
      exact ⟨(Option.some.inj hname).symm, rfl⟩
    · exact absurd (htaken wanted rfl) (hbound.isFree_iff.1 hfree)
  · intro htaken
    rcases choose_cases a r preferred with ⟨name, hname, hfree, -⟩ | ⟨-, hchoose⟩
    · exact absurd (hbound.isFree_iff.2 hfree) (htaken name hname)
    · have hleast := isLeast_firstFree (a.taken r) a.next
      have hcard := sub_le_card hleast
      simp only [← hbound.isFree_iff] at hleast
      rw [hchoose]
      refine ⟨_, _, rfl, rfl, hleast, search_of_isLeast hleast, ?_⟩
      rw [List.length_append, List.length_range']
      exact Nat.succ_le_succ hcard
  · intro later hcalls free tried hsearch n hn
    exact (next_le_of_calls hcalls).trans (hsearch.le_of_mem hn)

/-- A resolver that binds two names in one scope. -/
def bindsTwo (scope : Nat) (name : String) : Bool := scope = 1 && ["_b", "x"].contains name

/-- An allocator for that scope that handed out a name. -/
def hemmed : Allocator := { scope := 1, bound := ["_b", "x"], issued := ["_a"] }

/-- With a third name registered, the fourth temporary is the first free one. -/
theorem creates_first_free_hemmed :
    hemmed.IsBoundBy bindsTwo ∧
      (((create (some "x") false).run hemmed).run { names := ["_c"] }).1.1 = "_d" ∧
      ∃ c tried, temporary c = "_d" ∧
        IsLeast {n | hemmed.next ≤ n ∧ hemmed.IsFree bindsTwo { names := ["_c"] } (temporary n)} c ∧
        Search (hemmed.IsFree bindsTwo { names := ["_c"] }) hemmed.next (tried ++ [c]) ∧
        (tried ++ [c]).length ≤ 5 := by
  have hbound : hemmed.IsBoundBy bindsTwo := by
    intro name
    simp [hemmed, bindsTwo]
  have htaken : ¬ hemmed.IsFree bindsTwo { names := ["_c"] } "x" := by
    rw [hbound.isFree_iff]
    decide
  have hname : (((create (some "x") false).run hemmed).run { names := ["_c"] }).1.1 = "_d" := by
    decide +kernel
  obtain ⟨-, name, a', r', hrun, -, htries, -⟩ :=
    creates_first_free (r := { names := ["_c"] }) hbound (some "x") false
  obtain ⟨c, tried, rfl, -, hleast, hsearch, hlength⟩ := htries (by rintro _ ⟨⟩; exact htaken)
  refine ⟨hbound, hname, c, tried, ?_, hleast, hsearch, hlength⟩
  rw [← hname, hrun]

end Allocator

end Resumable.Name
