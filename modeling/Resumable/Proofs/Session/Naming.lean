import Resumable.Proofs.Name.Allocator
import Resumable.Proofs.Session.Failures
import Resumable.Proofs.Session.Nameless

/-!
# Names that a session makes up

A call hands names out to its driver, keeps names to itself, and is given names. `Names` says which
of them a call deals with: those it makes up are new, and they are all that is new. Only the names
of the state parameter and of the parameter that resolves a promise are kept back.
-/

namespace Resumable

/-- The request hands out a name that it makes up, or declares one that it is given. -/
def Request.dealsNames : Request → Bool
  | .createUniqueIdentifier .. | .declareLocal .. | .addVariable _ | .addParameter _
  | .ensureIdentifier _ | .valueOrDefault .. => true
  | _ => false

def Node.identifier? : Node → Option String
  | .identifier name => some name
  | _ => none

namespace Session

open Name.Allocator (Created)

variable {α : Type} {s s' s₁ : Session}
  {reserved reserved' handed handed' given given' : List String} {name : String}
  {preferred : Option String} {registered : Bool} {request : Request}
  {outcome : Except LoweringError Reply}

/-- The name that a call made up and handed out. -/
def handedName? : Request × Except LoweringError Reply → Option String
  | (.createUniqueIdentifier .., .ok (.name name)) => some name
  | (.declareLocal .., .ok (.name name)) => some name
  | (.ensureIdentifier expression, .ok (.node held)) =>
    if expression.unlocated.isIdentifier then none else held.identifier?
  | (.valueOrDefault value _, .ok (.node (.conditional _ _ held))) =>
    if value.unlocated.isIdentifier then none else held.identifier?
  | _ => none

/-- The name of a variable, of a parameter or for a caught exception that a call was given. -/
def givenName? : Request × Except LoweringError Reply → Option String
  | (.addVariable name, .ok _) => some name
  | (.addParameter parameter, .ok _) => some parameter.name
  | (.beginCatch name, .ok _) => some name
  | _ => none

/-- Between the two sessions the names `reserved` were made up and kept back, the names `handed`
were made up and handed out, and the names `given` came from the driver. -/
structure Names (reserved handed given : List String) (s s' : Session) : Prop where
  kind : s'.kind = s.kind
  bound : s'.names.bound = s.names.bound
  issued : ∀ n, n ∈ s'.names.issued ↔ n ∈ reserved ∨ n ∈ handed ∨ n ∈ s.names.issued
  fresh : ∀ n, n ∈ reserved ∨ n ∈ handed → n ∉ s.names.issued ∧ n ∉ s.names.bound
  apart : ∀ n ∈ reserved, n ∉ handed
  state : s'.state = s.state ∨ ∃ n ∈ reserved, s'.state = some n
  declared : ∀ n ∈ s'.names.declared, n ∈ s.names.declared ∨ n ∈ handed ∨ n ∈ given
  parameters : ∀ p ∈ s'.parameters, p ∈ s.parameters ∨ p.name ∈ given

namespace Names

/-- No name was made up. -/
theorem of_given (hkind : s'.kind = s.kind) (hbound : s'.names.bound = s.names.bound)
    (hissued : s'.names.issued = s.names.issued) (hstate : s'.state = s.state)
    (hdeclared : ∀ n ∈ s'.names.declared, n ∈ s.names.declared ∨ n ∈ given)
    (hparameters : ∀ p ∈ s'.parameters, p ∈ s.parameters ∨ p.name ∈ given) :
    Names [] [] given s s' where
  kind := hkind
  bound := hbound
  issued n := by simp [hissued]
  fresh n hn := by simp at hn
  apart n hn := absurd hn List.not_mem_nil
  state := .inl hstate
  declared n hn := (hdeclared n hn).imp_right .inr
  parameters := hparameters

/-- Whatever else differs. -/
theorem of_eq (hkind : s'.kind = s.kind) (hnames : s'.names = s.names) (hstate : s'.state = s.state)
    (hparameters : s'.parameters = s.parameters) : Names [] [] given s s' :=
  .of_given hkind (hnames ▸ rfl) (hnames ▸ rfl) hstate (fun _ hn => .inl (hnames ▸ hn))
    fun _ hp => .inl (hparameters ▸ hp)

theorem trans (h : Names reserved handed given s s₁) (h' : Names reserved' handed' given' s₁ s') :
    Names (reserved' ++ reserved) (handed' ++ handed) (given' ++ given) s s' where
  kind := h'.kind.trans h.kind
  bound := h'.bound.trans h.bound
  issued n := by
    rw [h'.issued, h.issued, List.mem_append, List.mem_append]
    tauto
  fresh n hn := by
    have hold := h.fresh n
    have hnew := h'.fresh n
    rw [h.issued, h.bound] at hnew
    rw [List.mem_append, List.mem_append] at hn
    tauto
  apart n hn hhanded := by
    have hold := h.apart n
    have hnew := h'.apart n
    have hfresh := h'.fresh n
    rw [h.issued] at hfresh
    rw [List.mem_append] at hn hhanded
    tauto
  state := by
    rcases h'.state with hsame | ⟨n, hn, hstate⟩
    · rcases h.state with hbefore | ⟨n, hn, hstate⟩
      · exact .inl (hsame.trans hbefore)
      · exact .inr ⟨n, List.mem_append_right _ hn, hsame.trans hstate⟩
    · exact .inr ⟨n, List.mem_append_left _ hn, hstate⟩
  declared n hn := by
    have hold := h.declared n
    have hnew := h'.declared n hn
    rw [List.mem_append, List.mem_append]
    tauto
  parameters p hp := by
    have hold := h.parameters p
    have hnew := h'.parameters p hp
    rw [List.mem_append]
    tauto

theorem mono_given (h : Names reserved handed [] s s') (given : List String) :
    Names reserved handed given s s' where
  kind := h.kind
  bound := h.bound
  issued := h.issued
  fresh := h.fresh
  apart := h.apart
  state := h.state
  declared n hn := (h.declared n hn).imp_right fun hn => .inl (by simpa using hn)
  parameters p hp := .inl (by simpa using h.parameters p hp)

end Names

/-- The call made up no names but some that it kept back. -/
def Reserves (s s' : Session) : Prop := ∃ reserved, Names reserved [] [] s s'

theorem Reserves.of_eq (hkind : s'.kind = s.kind) (hnames : s'.names = s.names)
    (hstate : s'.state = s.state) (hparameters : s'.parameters = s.parameters) : Reserves s s' :=
  ⟨[], .of_eq hkind hnames hstate hparameters⟩

theorem nameless_names : Nameless (Names [] [] []) := .of_eq .of_eq .trans

theorem nameless_reserves : Nameless Reserves := .of_eq .of_eq fun h h' => by
  obtain ⟨reserved, h⟩ := h
  obtain ⟨reserved', h'⟩ := h'
  exact ⟨_, h.trans h'⟩

section Making

/-- An action on the allocator changes nothing besides. -/
theorem Answers.exists_run {action : Name.AllocatorM α} {a : α}
    (h : Answers (naming action) s a s') : ∃ r r' names,
      (action.run s.names).run r = ((a, names), r') ∧ s' = { s with names } := by
  obtain ⟨r, r', h⟩ := h
  obtain ⟨hanswer, hrest⟩ := Prod.mk.inj h
  obtain ⟨rfl, rfl⟩ := Prod.mk.inj hrest
  obtain rfl := Except.ok.inj hanswer
  exact ⟨r, _, _, rfl, rfl⟩

theorem Answers.exists_created
    (h : Answers (createUniqueIdentifier preferred registered) s name s') : ∃ r r' names,
      Created s.names r preferred registered name names r' ∧ s' = { s with names } := by
  obtain ⟨r, r', names, hrun, rfl⟩ := Answers.exists_run h
  exact ⟨r, r', names, Name.Allocator.created_of_run hrun, rfl⟩

/-- A name that was made up is kept back, for the state or not. -/
theorem Names.of_reserved {r r' : Name.Registry} {names : Name.Allocator} {state : Option String}
    (h : Created s.names r preferred registered name names r')
    (hstate : state = s.state ∨ state = some name) :
    Names [name] [] [] s { s with names, state } where
  kind := rfl
  bound := h.bound
  issued n := by simp [h.issued]
  fresh n hn := by
    obtain rfl : n = name := by simpa using hn
    exact ⟨h.unissued, h.unbound⟩
  apart n _ := List.not_mem_nil
  state := hstate.imp_right fun hname => ⟨name, List.mem_singleton_self name, hname⟩
  declared n hn := .inl (h.declared ▸ hn)
  parameters p hp := .inl hp

/-- A name that was made up is handed out, as a variable or not. -/
theorem Names.of_handed {r r' : Name.Registry} {names names' : Name.Allocator}
    (h : Created s.names r preferred registered name names r')
    (hnames : names' = names ∨ names' = { names with declared := names.declared ++ [name] }) :
    Names [] [name] [] s { s with names := names' } where
  kind := rfl
  bound := by rcases hnames with rfl | rfl <;> exact h.bound
  issued n := by rcases hnames with rfl | rfl <;> simp [h.issued]
  fresh n hn := by
    obtain rfl : n = name := by simpa using hn
    exact ⟨h.unissued, h.unbound⟩
  apart n hn := absurd hn List.not_mem_nil
  state := .inl rfl
  declared n hn := by
    rcases hnames with rfl | rfl
    · exact .inl (h.declared ▸ hn)
    · rcases List.mem_append.1 hn with hn | hn
      · exact .inl (h.declared ▸ hn)
      · exact .inr (.inl hn)
  parameters p hp := .inl hp

/-- A call that does not fail answers. -/
theorem Sure.exists_answers {call : SessionM α} (h : Sure call) (hleaves : Leaves call s s') :
    ∃ a, Answers call s a s' := by
  obtain ⟨r, rfl⟩ := hleaves
  generalize hperform : perform call s r = attempt
  obtain ⟨outcome, s₁, r₁⟩ := attempt
  cases outcome with
  | ok a => exact ⟨a, r, r₁, hperform⟩
  | error e => exact (h s e s₁ ⟨r, r₁, hperform⟩).elim

theorem Answers.names_stateName (h : Answers stateName s name s') :
    Reserves s s' ∧ s'.state = some name := by
  unfold stateName at h
  have h := h.of_get_bind
  split at h
  · next hstate =>
    obtain ⟨rfl, rfl⟩ := h.of_pure
    exact ⟨nameless_reserves.refl s', hstate⟩
  · obtain ⟨name', s₁, hname, hrest⟩ := h.of_bind
    obtain ⟨u, s₂, hset, hlast⟩ := hrest.of_bind
    obtain ⟨rfl, rfl⟩ := hlast.of_pure
    obtain ⟨r, r', names, hcreated, rfl⟩ := hname.exists_created
    obtain rfl := hset.of_modify
    exact ⟨⟨_, .of_reserved hcreated (.inr rfl)⟩, rfl⟩

theorem reserves_stateName : Across Reserves stateName := by
  intro s s' h
  obtain ⟨name, h⟩ := Sure.stateName.exists_answers h
  exact h.names_stateName.1

theorem reserves_createUniqueIdentifier (preferred : Option String) (registered : Bool) :
    Across Reserves (createUniqueIdentifier preferred registered) := by
  intro s s' h
  obtain ⟨name, h⟩ := (Sure.naming _).exists_answers h
  obtain ⟨r, r', names, hcreated, rfl⟩ := Answers.exists_created h
  exact ⟨_, .of_reserved hcreated (.inl rfl)⟩

end Making

section Requests

/-- A request keeps the names it makes up back, unless it is one of a few. -/
theorem reserves_run (hdeals : request.dealsNames = false) : Across Reserves request.run := by
  have hR := nameless_reserves
  cases hnaming : request.isNaming with
  | false => exact hR.run hnaming
  | true =>
    cases request with
    | createResume =>
      exact hR.reply (hR.function (hR.bind reserves_stateName fun _ => hR.pure _)) .node
    | beginCatch name => exact hR.reply (hR.beginCatch reserves_stateName name) fun _ => .done
    | stateName => exact hR.reply reserves_stateName .name
    | buildStatements forceReturn =>
      exact hR.reply (hR.buildStatements reserves_stateName forceReturn) .body
    | buildFunction shape name =>
      exact hR.reply (hR.buildFunction reserves_stateName reserves_createUniqueIdentifier shape name)
        .node
    | createUniqueIdentifier preferred registered | declareLocal preferred registered
    | addVariable name | addParameter parameter | ensureIdentifier expression
    | valueOrDefault value default => cases hdeals
    | _ => cases hnaming

theorem handedName?_eq_none (hdeals : request.dealsNames = false) :
    handedName? (request, outcome) = none := by
  cases request <;> first | rfl | cases hdeals

theorem names_declare (s : Session) (name : String) : Names [] [] [name] s
    { s with names := { s.names with declared := s.names.declared ++ [name] } } :=
  .of_given rfl rfl rfl rfl (fun _ hn => List.mem_append.1 hn) fun _ hp => .inl hp

theorem names_addParameter (s : Session) (parameter : Parameter Node) :
    Names [] [] [parameter.name] s
      { s with parameters := s.parameters ++ [{ parameter with default := none }] } := by
  refine .of_given rfl rfl rfl rfl (fun _ hn => .inl hn) fun p hp => ?_
  rcases List.mem_append.1 hp with hp | hp
  · exact .inl hp
  · obtain rfl := List.mem_singleton.1 hp
    exact .inr List.mem_cons_self

theorem Answers.names_addParameter {parameter : Parameter Node} {u : Unit}
    (h : Answers (addParameter parameter) s u s') : Names [] [] [parameter.name] s s' := by
  obtain ⟨location, s₁, hlocation, hrest⟩ := (h.of_requireFunction_bind).of_bind
  have htaken := nameless_names.takeLocation s s₁ (.of_answers hlocation)
  dsimp only at hrest
  split at hrest
  · obtain ⟨u', s₂, hreport, hadd⟩ := hrest.of_bind
    obtain rfl := hadd.of_modify
    have hreported : Names [] [] [] s₁ s₂ := by
      rw [hreport.of_modify]
      exact .of_eq rfl rfl rfl rfl
    exact (htaken.trans hreported).trans (Session.names_addParameter s₂ parameter)
  · obtain rfl := hrest.of_modify
    exact htaken.trans (Session.names_addParameter s₁ parameter)

/-- The value of an identifier is at hand; that of another expression is held in a new variable. -/
theorem names_of_ensured {r r' : Name.Registry} {names : Name.Allocator}
    {expression identifier : Node} {assignments : List (Node × Node)}
    (h : ((Name.Allocator.ensureIdentifier expression).run s.names).run r =
      (((identifier, assignments), names), r')) :
    Names [] (if expression.unlocated.isIdentifier then none
      else identifier.identifier?).toList [] s { s with names } := by
  cases hexpression : expression.unlocated.isIdentifier with
  | true =>
    rw [Name.Allocator.run_ensureIdentifier_of_isIdentifier hexpression] at h
    obtain ⟨hanswer, rfl⟩ := Prod.mk.inj h
    obtain ⟨-, rfl⟩ := Prod.mk.inj hanswer
    exact .of_eq rfl rfl rfl rfl
  | false =>
    obtain ⟨name, names', rfl, hcreated, rfl⟩ :=
      Name.Allocator.exists_created_of_run_ensureIdentifier hexpression h
    exact .of_handed hcreated (.inr rfl)

/-- What a request that succeeds does to names. -/
theorem Answers.exists_names {reply : Reply} (h : Answers request.run s reply s') :
    ∃ reserved, Names reserved (handedName? (request, .ok reply)).toList
      (givenName? (request, .ok reply)).toList s s' := by
  cases hdeals : request.dealsNames with
  | false =>
    obtain ⟨reserved, hnames⟩ := reserves_run hdeals s s' (.of_answers h)
    rw [handedName?_eq_none hdeals]
    exact ⟨reserved, hnames.mono_given _⟩
  | true =>
    have hassigned : ∀ {assignments s₁}, Leaves (emitAssignments assignments) s₁ s' →
        Names [] [] [] s₁ s' := nameless_names.emitAssignments _ _ s'
    cases request with
    | createUniqueIdentifier preferred registered =>
      obtain ⟨name, hcall, rfl⟩ := Answers.of_reply h
      obtain ⟨r, r', names, hcreated, rfl⟩ := Answers.exists_created hcall
      exact ⟨[], .of_handed hcreated (.inl rfl)⟩
    | declareLocal preferred registered =>
      obtain ⟨name, hcall, rfl⟩ := Answers.of_reply h
      obtain ⟨r, r', names, hrun, rfl⟩ := Answers.exists_run hcall
      obtain ⟨names', hcreated, rfl⟩ := Name.Allocator.exists_created_of_run_declare hrun
      exact ⟨[], .of_handed hcreated (.inr rfl)⟩
    | addVariable name =>
      obtain ⟨u, hcall, rfl⟩ := Answers.of_reply h
      obtain ⟨r, r', names, hrun, rfl⟩ := (Answers.of_requireFunction_bind hcall).exists_run
      obtain ⟨hanswer, -⟩ := Prod.mk.inj hrun
      obtain ⟨-, rfl⟩ := Prod.mk.inj hanswer
      exact ⟨[], names_declare s name⟩
    | addParameter parameter =>
      obtain ⟨u, hcall, rfl⟩ := Answers.of_reply h
      exact ⟨[], hcall.names_addParameter⟩
    | ensureIdentifier expression =>
      obtain ⟨identifier, hcall, rfl⟩ := Answers.of_reply h
      obtain ⟨⟨_, assignments⟩, s₁, hname, hrest⟩ := Answers.of_bind hcall
      obtain ⟨u, s₂, hassign, hlast⟩ := hrest.of_bind
      obtain ⟨rfl, rfl⟩ := hlast.of_pure
      obtain ⟨r, r', names, hrun, rfl⟩ := hname.exists_run
      exact ⟨[], (names_of_ensured hrun).trans (hassigned (.of_answers hassign))⟩
    | valueOrDefault value default =>
      obtain ⟨expression, hcall, rfl⟩ := Answers.of_reply h
      obtain ⟨⟨_, assignments⟩, s₁, hname, hrest⟩ := Answers.of_bind hcall
      obtain ⟨u, s₂, hassign, hlast⟩ := hrest.of_bind
      obtain ⟨rfl, rfl⟩ := hlast.of_pure
      obtain ⟨r, r', names, hrun, rfl⟩ := hname.exists_run
      obtain ⟨held, rfl, hensured⟩ :=
        Name.Allocator.exists_run_ensureIdentifier_of_run_valueOrDefault hrun
      exact ⟨[], (names_of_ensured hensured).trans (hassigned (.of_answers hassign))⟩
    | _ => cases hdeals

/-- A request that fails made up no names but some that it kept back. -/
theorem Fails.reserves {e : LoweringError} (h : Fails request.run s e s') : Reserves s s' := by
  cases hdeals : request.dealsNames with
  | false =>
    obtain ⟨r, r', hperform⟩ := h
    exact reserves_run hdeals s s' ⟨r, by rw [hperform]⟩
  | true =>
    have hfunction : ∀ {call : FunctionCall} {f : Unit → SessionM Unit}, Sure (f ()) →
        Fails (do (requireFunction call >>= f); return Reply.done) s e s' → Reserves s s' := by
      intro call f hsure h
      rcases h.of_bind with h | ⟨u, s₁, -, h⟩
      · rcases h.of_requireFunction_bind with ⟨rfl, -⟩ | ⟨-, h⟩
        · exact nameless_reserves.refl s'
        · exact (hsure s e s' h).elim
      · exact h.of_pure.elim
    cases request with
    | addVariable name => exact hfunction (.naming _) h
    | addParameter parameter =>
      refine hfunction (Sure.takeLocation.bind fun location => ?_) h
      dsimp only
      split
      · exact (Sure.report _ _ _).bind fun _ => .modify _
      · exact .modify _
    | createUniqueIdentifier preferred registered | declareLocal preferred registered =>
      exact ((Sure.naming _).bind (fun _ => .pure _) s e s' h).elim
    | ensureIdentifier expression | valueOrDefault value default =>
      exact (Sure.bind ((Sure.naming _).bind fun _ => (Sure.emitAssignments _).bind fun _ =>
        .pure _) (fun _ => .pure _) s e s' h).elim
    | _ => cases hdeals

/-- What a request does to names, whatever its outcome. -/
theorem exists_names_of_perform {r r' : Name.Registry}
    (h : perform request.run s r = (outcome, s', r')) :
    ∃ reserved, Names reserved (handedName? (request, outcome)).toList
      (givenName? (request, outcome)).toList s s' := by
  cases outcome with
  | ok reply => exact Answers.exists_names ⟨r, r', h⟩
  | error e =>
    obtain ⟨reserved, hnames⟩ := Fails.reserves ⟨r, r', h⟩
    refine ⟨reserved, ?_⟩
    cases request <;> exact hnames

end Requests

end Session

end Resumable
