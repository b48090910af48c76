import Mathlib.Logic.Function.Basic
import Resumable.Proofs.Name.Allocator

/-!
# Allocators that share a registry

Any number of allocators hand out names in turns, and names are registered besides. What is bound in
a scope is for a resolver to say, which may bind names without end and need not answer at the next
call as it did before. A call asks it about a few names only, so the call is made on an allocator
whose bound names are right for these.

A name is free when it is handed out. What it is afterwards depends on the registry: a registered
name is never handed out again, by whichever allocator. But only the allocator itself remembers a
name that it did not register.
-/

namespace Resumable.Name

structure Pool where
  /-- The allocators, by their numbers. -/
  allocators : Nat → Allocator
  registry : Registry

/-- What happens to a pool. -/
inductive PoolEvent where
  /-- The allocator with the number `owner` handed out a name, and registered it if asked to. -/
  | created (owner : Nat) (preferred : Option String) (registered : Bool) (name : String)
  /-- A name was registered that no allocator was asked for. -/
  | enlisted (name : String)
  deriving DecidableEq, Repr

namespace PoolEvent

/-- The name that is in the registry from then on. -/
def registers? : PoolEvent → Option String
  | .created _ _ true name => some name
  | .created _ _ false _ => none
  | .enlisted name => some name

/-- The name that was handed out and registered. -/
def unique? : PoolEvent → Option String
  | .created _ _ true name => some name
  | _ => none

/-- The later event hands out no name that the earlier one registered, and none that the earlier one
handed out, if it is of the same allocator. -/
def Spares : PoolEvent → PoolEvent → Prop
  | _, .enlisted _ => True
  | .enlisted name, .created _ _ _ name' => name' ≠ name
  | .created owner _ registered name, .created owner' _ _ name' =>
    registered = true ∨ owner' = owner → name' ≠ name

end PoolEvent

namespace Pool

variable {resolver : Nat → String → Bool} {scopes : Nat → Nat} {pool pool' : Pool}
  {event : PoolEvent} {events : List PoolEvent} {owner : Nat} {preferred : Option String}
  {registered : Bool} {name : String}

/-- Allocators that handed out nothing yet, and an empty registry. -/
def start (scopes : Nat → Nat) : Pool where
  allocators owner := { scope := scopes owner, bound := [] }
  registry := {}

/-- A name from one of the allocators, with the bound names at hand. -/
def create (pool : Pool) (owner : Nat) (preferred : Option String) (registered : Bool)
    (bound : List String) : String × Pool :=
  let ((name, a), r) := ((Allocator.create preferred registered).run
    { pool.allocators owner with bound }).run pool.registry
  (name, ⟨Function.update pool.allocators owner a, r⟩)

/-- One event. The bound names are those of the names asked about that the resolver binds. -/
inductive Step (resolver : Nat → String → Bool) : Pool → PoolEvent → Pool → Prop where
  | created {pool pool' : Pool} {owner : Nat} {preferred : Option String} {registered : Bool}
      {name : String} {bound : List String}
      (call : pool.create owner preferred registered bound = (name, pool'))
      (resolves : ∀ asked ∈ (pool.allocators owner).asked preferred (pool'.allocators owner).next,
        asked ∈ bound ↔ resolver (pool.allocators owner).scope asked = true) :
      Step resolver pool (.created owner preferred registered name) pool'
  | enlisted {pool : Pool} (name : String) :
      Step resolver pool (.enlisted name) { pool with registry := (pool.registry.register name).2 }

/-- The events from the start on, in order. -/
inductive History (scopes : Nat → Nat) : List PoolEvent → Pool → Prop where
  | start : History scopes [] (start scopes)
  | step {events : List PoolEvent} {pool pool' : Pool} {event : PoolEvent}
      {resolver : Nat → String → Bool} (before : History scopes events pool)
      (next : Step resolver pool event pool') : History scopes (events ++ [event]) pool'

theorem allocators_create (pool : Pool) (owner : Nat) (preferred : Option String)
    (registered : Bool) (bound : List String) :
    (pool.create owner preferred registered bound).2.allocators =
      let chosen := Allocator.choose { pool.allocators owner with bound } pool.registry preferred
      Function.update pool.allocators owner
        { pool.allocators owner with
          bound, next := chosen.2, issued := chosen.1 :: (pool.allocators owner).issued } := by
  rw [create, Allocator.run_create]

theorem created_of_create {bound : List String}
    (call : pool.create owner preferred registered bound = (name, pool')) :
    ∃ a, pool'.allocators = Function.update pool.allocators owner a ∧
      Allocator.Created { pool.allocators owner with bound } pool.registry preferred registered name
        a pool'.registry := by
  obtain ⟨rfl, rfl⟩ := Prod.mk.inj call
  exact ⟨_, rfl, Allocator.created_of_run rfl⟩

theorem Step.of_create {bound : List String}
    (hname : (pool.create owner preferred registered bound).1 = name)
    (resolves : ∀ asked ∈ (pool.allocators owner).asked preferred
        ((pool.create owner preferred registered bound).2.allocators owner).next,
      asked ∈ bound ↔ resolver (pool.allocators owner).scope asked = true) :
    Step resolver pool (.created owner preferred registered name)
      (pool.create owner preferred registered bound).2 :=
  .created (Prod.ext hname rfl) resolves

/-- A call returns if any of the temporaries that are left is free, whatever else is bound. -/
theorem exists_step {n : Nat} (hleft : (pool.allocators owner).next ≤ n)
    (hfree : temporary n ∉ (pool.allocators owner).issued ∧ temporary n ∉ pool.registry.names ∧
      resolver (pool.allocators owner).scope (temporary n) = false)
    (preferred : Option String) (registered : Bool) :
    ∃ name pool', Step resolver pool (.created owner preferred registered name) pool' := by
  obtain ⟨hissued, hregistry, hunbound⟩ := hfree
  let a := pool.allocators owner
  let bound := (a.asked preferred (n + 1)).filter (resolver a.scope)
  have hnottaken : temporary n ∉ Allocator.taken { a with bound } pool.registry := by
    rw [Allocator.mem_taken, not_or, not_or]
    refine ⟨hissued, hregistry, fun hmem => ?_⟩
    rw [(List.mem_filter.1 hmem).2] at hunbound
    cases hunbound
  have hnext : (Allocator.choose { a with bound } pool.registry preferred).2 ≤ n + 1 := by
    rcases Allocator.choose_cases { a with bound } pool.registry preferred with
      ⟨_, -, -, hchoose⟩ | ⟨-, hchoose⟩ <;> rw [hchoose]
    · exact Nat.le_succ_of_le hleft
    · exact Nat.succ_le_succ (firstFree_le hleft hnottaken)
  have hcall := (Prod.eta (pool.create owner preferred registered bound)).symm
  refine ⟨_, _, .created hcall fun asked hasked => ?_⟩
  rw [allocators_create, Function.update_self] at hasked
  exact List.mem_filter.trans (and_iff_right (Allocator.asked_subset hnext hasked))

/-- What the pool remembers of its events. -/
structure Recalls (scopes : Nat → Nat) (events : List PoolEvent) (pool : Pool) : Prop where
  scope : ∀ owner, (pool.allocators owner).scope = scopes owner
  issued : ∀ owner preferred registered name, .created owner preferred registered name ∈ events →
    name ∈ (pool.allocators owner).issued
  registry : ∀ event ∈ events, ∀ name, event.registers? = some name → name ∈ pool.registry.names

namespace Recalls

variable {bound : List String} {a : Allocator}

theorem start (scopes : Nat → Nat) : Recalls scopes [] (start scopes) where
  scope _ := rfl
  issued _ _ _ _ hmem := absurd hmem List.not_mem_nil
  registry _ hmem := absurd hmem List.not_mem_nil

theorem enlisted (h : Recalls scopes events pool) (name : String) :
    Recalls scopes (events ++ [.enlisted name])
      { pool with registry := (pool.registry.register name).2 } where
  scope := h.scope
  issued owner preferred registered name' hmem := by
    rcases List.mem_append.1 hmem with hmem | hmem
    · exact h.issued owner preferred registered name' hmem
    · cases List.mem_singleton.1 hmem
  registry e he name' hname := by
    refine Registry.mem_names_register.2 ?_
    rcases List.mem_append.1 he with he | he
    · exact .inl (h.registry e he name' hname)
    · obtain rfl := List.mem_singleton.1 he
      exact .inr (Option.some.inj hname).symm

theorem created (h : Recalls scopes events pool)
    (hupdate : pool'.allocators = Function.update pool.allocators owner a)
    (hcreated : Allocator.Created { pool.allocators owner with bound } pool.registry preferred
      registered name a pool'.registry) :
    Recalls scopes (events ++ [.created owner preferred registered name]) pool' where
  scope owner' := by
    rw [hupdate]
    by_cases howner : owner' = owner
    · subst howner
      rw [Function.update_self, hcreated.scope, h.scope owner']
    · rw [Function.update_of_ne howner, h.scope owner']
  issued owner' preferred' registered' name' hmem := by
    have hupdated : name' ∈ (pool.allocators owner').issued ∨ owner' = owner ∧ name' = name := by
      rcases List.mem_append.1 hmem with hmem | hmem
      · exact .inl (h.issued owner' preferred' registered' name' hmem)
      · cases List.mem_singleton.1 hmem
        exact .inr ⟨rfl, rfl⟩
    rw [hupdate]
    by_cases howner : owner' = owner
    · subst howner
      rw [Function.update_self, hcreated.issued, List.mem_cons]
      exact hupdated.symm.imp_left And.right
    · rw [Function.update_of_ne howner]
      exact hupdated.resolve_right fun hsame => howner hsame.1
  registry e he name' hname := by
    rw [hcreated.registry]
    rcases List.mem_append.1 he with he | he
    · have hknown := h.registry e he name' hname
      split
      · exact List.mem_append_left _ hknown
      · exact hknown
    · obtain rfl := List.mem_singleton.1 he
      cases registered with
      | true => exact List.mem_append_right _ (List.mem_singleton.2 (Option.some.inj hname).symm)
      | false => cases hname

/-- What is remembered is not handed out again. -/
theorem spares (h : Recalls scopes events pool)
    (hcreated : Allocator.Created { pool.allocators owner with bound } pool.registry preferred
      registered name a pool'.registry) :
    ∀ earlier ∈ events, earlier.Spares (.created owner preferred registered name) := by
  intro earlier hearlier
  cases earlier with
  | enlisted name' =>
    rintro rfl
    exact hcreated.unregistered (h.registry _ hearlier name rfl)
  | created owner' preferred' registered' name' =>
    rintro hkept rfl
    rcases hkept with rfl | rfl
    · exact hcreated.unregistered (h.registry _ hearlier name rfl)
    · exact hcreated.unissued (h.issued owner _ _ name hearlier)

end Recalls

namespace History

theorem recalls (h : History scopes events pool) : Recalls scopes events pool := by
  induction h with
  | start => exact .start scopes
  | step before next ih =>
    cases next with
    | created call resolves =>
      obtain ⟨a, hupdate, hcreated⟩ := created_of_create call
      exact ih.created hupdate hcreated
    | enlisted name => exact ih.enlisted name

theorem pairwise_spares (h : History scopes events pool) : events.Pairwise PoolEvent.Spares := by
  induction h with
  | start => exact .nil
  | @step events pool pool' event resolver before next ih =>
    refine List.pairwise_append.2 ⟨ih, List.pairwise_singleton _ event, fun e he e' he' => ?_⟩
    obtain rfl := List.mem_singleton.1 he'
    cases next with
    | created call resolves =>
      obtain ⟨a, -, hcreated⟩ := created_of_create call
      exact before.recalls.spares hcreated e he
    | enlisted name => cases e <;> trivial

end History

/-- Whatever allocators shared a registry before, whatever they were asked for and whatever was
registered besides: the name that an allocator hands out next is not bound in its scope, it was not
registered, and the allocator did not hand it out before. The call registers that name if it is
asked to, and nothing otherwise. So no two calls that register a name get the same one, and no
allocator hands out a name after it was registered. -/
theorem fresh_of_history (h : History scopes events pool) :
    (∀ resolver owner preferred registered name pool',
      Step resolver pool (.created owner preferred registered name) pool' →
        resolver (scopes owner) name = false ∧
        name ∉ pool.registry.names ∧
        (∀ preferred' registered', .created owner preferred' registered' name ∉ events) ∧
        pool'.registry.names =
          if registered then pool.registry.names ++ [name] else pool.registry.names) ∧
    (events.filterMap PoolEvent.unique?).Nodup ∧
    events.Pairwise fun e e' => ∀ name, e.registers? = some name →
      ∀ owner preferred registered, e' ≠ .created owner preferred registered name := by
  have hregistered : events.Pairwise fun e e' => ∀ name, e.registers? = some name →
      ∀ owner preferred registered, e' ≠ .created owner preferred registered name := by
    refine h.pairwise_spares.imp ?_
    rintro e e' hspares name hname owner preferred registered rfl
    cases e with
    | enlisted name' => exact hspares (Option.some.inj hname).symm
    | created owner' preferred' registered' name' =>
      cases registered' with
      | true => exact hspares (.inl rfl) (Option.some.inj hname).symm
      | false => cases hname
  refine ⟨fun resolver owner preferred registered name pool' hstep => ?_, ?_, hregistered⟩
  · cases hstep with
    | created call resolves =>
      obtain ⟨a, hupdate, hcreated⟩ := created_of_create call
      refine ⟨?_, hcreated.unregistered, fun preferred' registered' hmem => ?_, hcreated.registry⟩
      · have hnext : (pool'.allocators owner).next = a.next := by
          rw [hupdate, Function.update_self]
        have hunbound := mt (resolves name (hnext ▸ hcreated.asked)).2 hcreated.unbound
        rwa [h.recalls.scope, Bool.not_eq_true] at hunbound
      · exact hcreated.unissued (h.recalls.issued owner _ _ name hmem)
  · rw [List.Nodup, List.pairwise_filterMap]
    refine hregistered.imp ?_
    rintro e e' hlater name hname name' hname' rfl
    rcases e with ⟨_, _, _ | _, _⟩ | _ <;> cases hname
    rcases e' with ⟨_, _, _ | _, _⟩ | _ <;> cases hname'
    exact hlater name rfl _ _ _ rfl

/-- A pool in which two names are registered. -/
def crowded : Pool :=
  (Pool.create { start id with registry := { names := ["_a"] } } 0 (some "_b") true []).2

/-- In a scope that leaves a single name free, the call comes upon it. -/
theorem fresh_of_history_crowded :
    History id [.enlisted "_a", .created 0 (some "_b") true "_b"] crowded ∧
      Step (fun _ name => name ≠ "_c") crowded (.created 1 (some "_b") false "_c")
        (crowded.create 1 (some "_b") false ["_a", "_b"]).2 ∧
      "_c" ∉ crowded.registry.names ∧
      (crowded.create 1 (some "_b") false ["_a", "_b"]).2.registry.names =
        crowded.registry.names := by
  have hstep : Step (fun _ _ => false) { start id with registry := { names := ["_a"] } }
      (.created 0 (some "_b") true "_b") crowded :=
    .of_create (by decide +kernel) (by decide +kernel)
  have hfirst : Step (fun _ _ => false) (start id) (.enlisted "_a")
      { start id with registry := { names := ["_a"] } } := .enlisted "_a"
  have hhistory := (History.start.step hfirst).step hstep
  have hnext : Step (fun _ name => name ≠ "_c") crowded (.created 1 (some "_b") false "_c")
      (crowded.create 1 (some "_b") false ["_a", "_b"]).2 :=
    .of_create (by decide +kernel) (by decide +kernel)
  obtain ⟨-, hunregistered, -, hunchanged⟩ :=
    (fresh_of_history hhistory).1 _ 1 (some "_b") false "_c" _ hnext
  exact ⟨hhistory, hnext, hunregistered, hunchanged⟩

/-- A name that was handed out and registered was handed out to no other call, except an earlier one
of another allocator that did not register it. -/
theorem earlier_of_unique (h : History scopes events pool) {i j owner' : Nat}
    {preferred' : Option String} (hne : i ≠ j)
    (hunique : events[i]? = some (.created owner preferred true name))
    (hother : events[j]? = some (.created owner' preferred' registered name)) :
    j < i ∧ owner' ≠ owner ∧ registered = false := by
  have hspares : ∀ (m n : Nat) (e e' : PoolEvent), m < n → events[m]? = some e →
      events[n]? = some e' → e.Spares e' := by
    intro m n e e' hlt he he'
    obtain ⟨hm, rfl⟩ := List.getElem?_eq_some_iff.1 he
    obtain ⟨hn, rfl⟩ := List.getElem?_eq_some_iff.1 he'
    exact List.pairwise_iff_getElem.1 h.pairwise_spares m n hm hn hlt
  rcases Nat.lt_or_gt_of_ne hne with hlt | hlt
  · exact absurd rfl (hspares i j _ _ hlt hunique hother (.inl rfl))
  · have hkept := fun hbars => hspares j i _ _ hlt hother hunique hbars rfl
    exact ⟨hlt, fun howner => hkept (.inr howner.symm),
      Bool.eq_false_iff.2 fun hregistered => hkept (.inl hregistered)⟩

/-- A pool in which a name was handed out and not registered. -/
def unlisted : Pool := ((start id).create 0 (some "x") false []).2

/-- Another allocator may hand out the same name later, and register it. -/
theorem steps_unlisted :
    Step (fun _ _ => false) (start id) (.created 0 (some "x") false "x") unlisted ∧
      Step (fun _ _ => false) unlisted (.created 1 (some "x") true "x")
        (unlisted.create 1 (some "x") true []).2 :=
  ⟨.of_create (by decide +kernel) (by decide +kernel),
    .of_create (by decide +kernel) (by decide +kernel)⟩

theorem earlier_of_unique_unlisted :
    History id [.created 0 (some "x") false "x", .created 1 (some "x") true "x"]
        (unlisted.create 1 (some "x") true []).2 ∧
      (0 < 1 ∧ 0 ≠ 1 ∧ false = false) := by
  have hhistory := (History.start.step steps_unlisted.1).step steps_unlisted.2
  exact ⟨hhistory, earlier_of_unique hhistory (show 1 ≠ 0 by decide) rfl rfl⟩

/-- So a registered name need not be handed out to a single call. -/
theorem not_unique_of_registered :
    (Step (fun _ _ => false) (start id) (.created 0 (some "x") false "x") unlisted ∧
      Step (fun _ _ => false) unlisted (.created 1 (some "x") true "x")
        (unlisted.create 1 (some "x") true []).2) ∧
      ¬ ∀ scopes events pool, History scopes events pool →
        ∀ (i j : Nat) name owner preferred owner' preferred' registered, i ≠ j →
          events[i]? = some (PoolEvent.created owner preferred true name) →
          events[j]? ≠ some (PoolEvent.created owner' preferred' registered name) := by
  refine ⟨steps_unlisted, fun hclaim => ?_⟩
  have hhistory := (History.start.step steps_unlisted.1).step steps_unlisted.2
  exact hclaim _ _ _ hhistory 1 0 "x" 1 (some "x") 0 (some "x") false (by decide) rfl rfl

end Pool

end Resumable.Name
