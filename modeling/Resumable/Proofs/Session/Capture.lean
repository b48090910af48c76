import Resumable.Proofs.Session.Attempts
import Resumable.Proofs.Session.Naming

/-!
# The parameters that a built function adds

A function is built around an inner function, whose parameter is the state, and for a promise around
another one, whose parameter resolves it. `Ledger` keeps apart what names a session kept back for
these and what names its driver may have put into the code. A driver that only gives names that are
bound around the function, or that it was handed out before, does not come upon the former.
-/

namespace Resumable.Session

variable {kind : SessionKind} {options : Options} {scope : Nat} {bound reserved : List String}
  {s₀ s s' : Session} {history history' : List (Request × Except LoweringError Reply)}
  {call : Request × Except LoweringError Reply} {resolver : String → Bool} {name : String}
  {shape : FunctionShape} {functionName : Option String} {node : Node}

/-- The names that the calls handed out or were given. -/
def outside (history : List (Request × Except LoweringError Reply)) : List String :=
  history.filterMap handedName? ++ history.filterMap givenName?

theorem mem_outside : name ∈ outside history ↔
    name ∈ history.filterMap handedName? ∨ name ∈ history.filterMap givenName? := List.mem_append

theorem mem_filterMap_cons {α β : Type} {f : α → Option β} {a : α} {l : List α} {b : β} :
    b ∈ (a :: l).filterMap f ↔ b ∈ (f a).toList ∨ b ∈ l.filterMap f := by
  rw [List.mem_filterMap, List.exists_mem_cons_iff, Option.mem_toList, List.mem_filterMap]

theorem mem_filterMap_concat {α β : Type} {f : α → Option β} {l : List α} {a : α} {b : β} :
    b ∈ (l ++ [a]).filterMap f ↔ b ∈ l.filterMap f ∨ b ∈ (f a).toList := by
  rw [List.filterMap_append, List.mem_append, mem_filterMap_cons, List.filterMap_nil]
  exact or_congr_right (or_iff_left List.not_mem_nil)

theorem outside_subset_append (before after : List (Request × Except LoweringError Reply)) :
    outside before ⊆ outside (before ++ after) := by
  intro name hname
  rw [mem_outside, List.filterMap_append, List.filterMap_append]
  exact (mem_outside.1 hname).imp (List.mem_append_left _) (List.mem_append_left _)

/-- Every name that the driver gave is bound, or a call had handed it out by then. The names
`handed` were handed out before. -/
def IsDisciplined (resolver : String → Bool) (handed : List String) :
    List (Request × Except LoweringError Reply) → Prop
  | [] => True
  | call :: rest => (∀ name ∈ givenName? call, resolver name = true ∨ name ∈ handed) ∧
    IsDisciplined resolver ((handedName? call).toList ++ handed) rest

instance decidableIsDisciplined (resolver : String → Bool) (handed : List String) :
    ∀ history, Decidable (IsDisciplined resolver handed history)
  | [] => isTrue trivial
  | call :: rest =>
    have := decidableIsDisciplined resolver ((handedName? call).toList ++ handed) rest
    inferInstanceAs (Decidable
      ((∀ name ∈ givenName? call, resolver name = true ∨ name ∈ handed) ∧ _))

theorem IsDisciplined.resolver_or_handed {handed : List String}
    (h : IsDisciplined resolver handed history) (hname : name ∈ history.filterMap givenName?) :
    resolver name = true ∨ name ∈ handed ∨ name ∈ history.filterMap handedName? := by
  induction history generalizing handed with
  | nil => cases hname
  | cons call rest ih =>
    rw [mem_filterMap_cons]
    rcases mem_filterMap_cons.1 hname with hgiven | hlater
    · exact (h.1 name (Option.mem_toList.1 hgiven)).imp_right .inl
    · refine (ih h.2 hlater).imp_right ?_
      rw [List.mem_append]
      tauto

/-- The names `reserved` were kept back, and all others come from the calls. -/
structure Ledger (bound : List String) (history : List (Request × Except LoweringError Reply))
    (reserved : List String) (s : Session) : Prop where
  inScope : s.names.bound = bound
  unbound : ∀ n ∈ s.names.issued, n ∉ bound
  kept : ∀ n ∈ reserved, n ∈ s.names.issued
  handed : ∀ n ∈ history.filterMap handedName?, n ∈ s.names.issued ∧ n ∉ reserved
  state : ∀ n, s.state = some n → n ∈ reserved
  declared : ∀ n ∈ s.names.declared, n ∈ outside history
  parameters : ∀ p ∈ s.parameters, p.name ∈ outside history

namespace Ledger

theorem start (kind : SessionKind) (options : Options) (scope : Nat) (bound : List String) :
    Ledger bound [] [] (Session.start kind options scope bound) where
  inScope := rfl
  unbound n hn := absurd hn List.not_mem_nil
  kept n hn := absurd hn List.not_mem_nil
  handed n hn := absurd hn List.not_mem_nil
  state n hn := by cases hn
  declared n hn := absurd hn List.not_mem_nil
  parameters p hp := absurd hp List.not_mem_nil

/-- A call is entered with the names that it dealt with. -/
theorem step {more : List String} (h : Ledger bound history reserved s)
    (hnames : Names more (handedName? call).toList (givenName? call).toList s s') :
    Ledger bound (history ++ [call]) (more ++ reserved) s' where
  inScope := hnames.bound.trans h.inScope
  unbound n hn := by
    rcases (hnames.issued n).1 hn with hn | hn | hn
    · exact h.inScope ▸ (hnames.fresh n (.inl hn)).2
    · exact h.inScope ▸ (hnames.fresh n (.inr hn)).2
    · exact h.unbound n hn
  kept n hn := by
    rw [hnames.issued]
    rcases List.mem_append.1 hn with hn | hn
    · exact .inl hn
    · exact .inr (.inr (h.kept n hn))
  handed n hn := by
    rw [hnames.issued, List.mem_append, not_or]
    rcases mem_filterMap_concat.1 hn with hn | hn
    · obtain ⟨hissued, hout⟩ := h.handed n hn
      exact ⟨.inr (.inr hissued), fun hmore => (hnames.fresh n (.inl hmore)).1 hissued, hout⟩
    · exact ⟨.inr (.inl hn), fun hmore => hnames.apart n hmore hn,
        fun hold => (hnames.fresh n (.inr hn)).1 (h.kept n hold)⟩
  state n hn := by
    rcases hnames.state with hstate | ⟨m, hm, hstate⟩
    · exact List.mem_append_right _ (h.state n (hstate ▸ hn))
    · obtain rfl := Option.some.inj (hstate.symm.trans hn)
      exact List.mem_append_left _ hm
  declared n hn := by
    rcases hnames.declared n hn with hn | hn | hn
    · exact outside_subset_append history [call] (h.declared n hn)
    · exact mem_outside.2 (.inl (mem_filterMap_concat.2 (.inr hn)))
    · exact mem_outside.2 (.inr (mem_filterMap_concat.2 (.inr hn)))
  parameters p hp := by
    rcases hnames.parameters p hp with hp | hp
    · exact outside_subset_append history [call] (h.parameters p hp)
    · exact mem_outside.2 (.inr (mem_filterMap_concat.2 (.inr hp)))

theorem attempts (h : Ledger bound history reserved s) (h' : Attempts s history' s') :
    ∃ reserved', reserved ⊆ reserved' ∧ Ledger bound (history ++ history') reserved' s' := by
  induction h' with
  | start => exact ⟨reserved, List.Subset.refl _, by rwa [List.append_nil]⟩
  | call before performed ih =>
    obtain ⟨reserved₁, hsubset, hledger⟩ := ih
    obtain ⟨more, hnames⟩ := exists_names_of_perform performed
    rw [← List.append_assoc]
    exact ⟨_, fun n hn => List.mem_append_right _ (hsubset hn), hledger.step hnames⟩

/-- A name that was kept back is none that the calls handed out, and so none that they were given,
if these are bound or were handed out too. -/
theorem not_mem_outside (h : Ledger bound history reserved s)
    (hgiven : ∀ n ∈ history.filterMap givenName?, n ∈ bound ∨ n ∈ history.filterMap handedName?)
    (hname : name ∈ reserved) : name ∉ outside history := by
  have hunhanded : name ∉ history.filterMap handedName? := fun hmem => (h.handed name hmem).2 hname
  intro hmem
  rcases mem_outside.1 hmem with hhanded | hmem
  · exact hunhanded hhanded
  · rcases hgiven name hmem with hbound | hhanded
    · exact h.unbound name (h.kept name hname) hbound
    · exact hunhanded hhanded

end Ledger

/-- A function is built under a name for the state and, for a promise, another one. They are kept
back, and the variables and the parameters are those that the session has. -/
theorem Answers.of_buildFunction (h : Answers (buildFunction shape functionName) s node s')
    (hissued : ∀ n, s.state = some n → n ∈ s.names.issued) :
    ∃ reserved state statements, Names reserved [] [] s s' ∧ s'.state = some state ∧
      ((∀ promise, s.kind ≠ .async promise) ∧
          node = shape.assemble functionName s.parameters
            (s.hoisted ++ [.returnStmt (some (driven state statements))]) ∨
        ∃ promise resolve, s.kind = .async promise ∧ resolve ∈ reserved ∧ resolve ≠ state ∧
          node = shape.assemble functionName s.parameters
            (s.hoisted ++
              [.returnStmt (some (promised promise resolve (driven state statements)))])) := by
  have h := Answers.of_requireFunction_bind h
  dsimp only at h
  split at h
  · obtain ⟨u, s₁, hthrow, -⟩ := h.of_bind
    exact hthrow.of_throw.elim
  obtain ⟨body, s₁, hbody, h⟩ := h.of_bind
  obtain ⟨state, s₂, hstate, h⟩ := h.of_bind
  have hsame := hbody.untouched_buildStatements.trans hstate.untouched_stateName
  obtain ⟨hreserves, hstated⟩ := hstate.names_stateName
  obtain ⟨reserved, hnames⟩ := nameless_reserves.trans
    (nameless_reserves.buildStatements reserves_stateName true s s₁ (.of_answers hbody)) hreserves
  have hhoisted : s₂.hoisted = s.hoisted := by
    rw [hoisted, hoisted, hsame.declared, hsame.functions]
  have hmem : state ∈ s₂.names.issued := by
    rw [hnames.issued]
    rcases hnames.state with heq | ⟨n, hn, heq⟩
    · exact .inr (.inr (hissued state (heq ▸ hstated)))
    · obtain rfl := Option.some.inj (heq.symm.trans hstated)
      exact .inl hn
  have h := h.of_get_bind
  rw [hsame.parameters, hhoisted, hnames.kind] at h
  split at h
  · next promise hkind =>
    obtain ⟨resolve, s₃, hresolve, h⟩ := h.of_bind
    obtain ⟨result, s₄, hpure, h⟩ := h.of_bind
    obtain ⟨rfl, rfl⟩ := hpure.of_pure
    obtain ⟨rfl, rfl⟩ := h.of_pure
    obtain ⟨r, r', names, hcreated, rfl⟩ := hresolve.exists_created
    have hadded : Names [resolve] [] [] s₂ { s₂ with names } := .of_reserved hcreated (.inl rfl)
    exact ⟨_, state, body.statements, hnames.trans hadded, hstated, .inr ⟨promise, resolve, hkind,
      List.mem_cons_self, fun heq => hcreated.unissued (heq ▸ hmem), rfl⟩⟩
  · next hkind =>
    obtain ⟨result, s₃, hpure, h⟩ := h.of_bind
    obtain ⟨rfl, rfl⟩ := hpure.of_pure
    obtain ⟨rfl, rfl⟩ := h.of_pure
    exact ⟨reserved, state, body.statements, hnames, hstated, .inl ⟨hkind, rfl⟩⟩

theorem Attempts.kind_eq (h : Attempts s₀ history s) : s.kind = s₀.kind := by
  induction h with
  | start => rfl
  | call before performed ih =>
    obtain ⟨reserved, hnames⟩ := exists_names_of_perform performed
    exact hnames.kind.trans ih

/-- The name is none of the variables and the parameters of the session, and no call handed it out
or was given it, be it for a variable, for a parameter or for a caught exception. -/
structure IsApart (s : Session) (history : List (Request × Except LoweringError Reply))
    (name : String) : Prop where
  locals : name ∉ s.declared
  parameters : ∀ p ∈ s.parameters, p.name ≠ name
  calls : name ∉ outside history

/-- The parameters that a built function adds capture nothing. Before and after it was built the
driver may have made any calls, as long as it gave only names that are bound in the scope of the
function or that it was handed out before. Then the name of the state, and that of the parameter
that resolves a promise, differ from one another, from every variable and every parameter of the
function, from every variable for a caught exception, and from every name that was handed out at any
time. What is bound is for a resolver to say, and the session has it by a list that is right about
the names that it is given. -/
theorem captures_nothing {before after : List (Request × Except LoweringError Reply)}
    {last : Session} (hbefore : Attempts (start kind options scope bound) before s)
    (hbuilt : Answers (Request.buildFunction shape functionName).run s (.node node) s')
    (hafter : Attempts s' after last)
    (hhistory : history =
      before ++ (.buildFunction shape functionName, .ok (.node node)) :: after)
    (hbound : ∀ name ∈ history.filterMap givenName?, resolver name = true → name ∈ bound)
    (hgiven : IsDisciplined resolver [] history) :
    ∃ state statements, IsApart s history state ∧
      ((∀ promise, kind ≠ .async promise) ∧
          node = shape.assemble functionName s.parameters
            (s.hoisted ++ [.returnStmt (some (driven state statements))]) ∨
        ∃ promise resolve, kind = .async promise ∧ resolve ≠ state ∧ IsApart s history resolve ∧
          node = shape.assemble functionName s.parameters
            (s.hoisted ++
              [.returnStmt (some (promised promise resolve (driven state statements)))])) := by
  obtain ⟨reserved, -, hledger⟩ := (Ledger.start kind options scope bound).attempts hbefore
  rw [List.nil_append] at hledger
  obtain ⟨node', hcall, heq⟩ := Answers.of_reply hbuilt
  obtain rfl := Reply.node.inj heq
  obtain ⟨more, state, statements, hnames, hstated, hshape⟩ :=
    hcall.of_buildFunction fun n hn => hledger.kept n (hledger.state n hn)
  have hbuilding : Ledger bound (before ++ [(.buildFunction shape functionName, .ok (.node node))])
      (more ++ reserved) s' := hledger.step hnames
  obtain ⟨reserved', hsubset, hlast⟩ := hbuilding.attempts hafter
  rw [List.append_assoc, List.singleton_append, ← hhistory] at hlast
  have hknown : ∀ n ∈ history.filterMap givenName?,
      n ∈ bound ∨ n ∈ history.filterMap handedName? := by
    intro n hn
    rcases hgiven.resolver_or_handed hn with hresolved | hnone | hhanded
    · exact .inl (hbound n hn hresolved)
    · cases hnone
    · exact .inr hhanded
  have hapart : ∀ name ∈ more ++ reserved, IsApart s history name := by
    intro name hname
    have hout := hlast.not_mem_outside hknown (hsubset hname)
    have hbefore : name ∉ outside before := fun hmem =>
      hout (hhistory ▸ outside_subset_append before _ hmem)
    refine ⟨fun hmem => hbefore (hledger.declared name hmem), fun p hp heq => ?_, hout⟩
    exact hbefore (heq ▸ hledger.parameters p hp)
  have hkind : s.kind = kind := hbefore.kind_eq
  rw [hkind] at hshape
  refine ⟨state, statements, hapart state (hbuilding.state state hstated), ?_⟩
  refine hshape.imp_right ?_
  rintro ⟨promise, resolve, hasync, hresolve, hne, hnode⟩
  exact ⟨promise, resolve, hasync, hne, hapart resolve (List.mem_append_left _ hresolve), hnode⟩

/-- A driver that asks for the preferred names of both parameters before the session does. -/
def forestalling : List Request :=
  [.createUniqueIdentifier (some "_state") false, .declareLocal (some "_resolve") false,
    .addParameter { name := "x" }, .beginException, .beginCatch "_state", .endException]

/-- Names for which it asks after the function was built. -/
def following : List Request :=
  [.ensureIdentifier .null, .createUniqueIdentifier (some "_state") false]

/-- The calls made on a session, then one more, and those that follow it. -/
def callsAround (first : List (Request × Except LoweringError Reply) × Session) (request : Request)
    (following : List Request) : List (Request × Except LoweringError Reply) :=
  let attempt := perform request.run first.2 {}
  first.1 ++ (request, attempt.1) :: (recount attempt.2.1 attempt.2.2 following).1

/-- Names of an odd length are bound. -/
theorem captures_nothing_forestalling : ∃ before s node s' after last state resolve statements,
    Attempts (start (.async (.identifier "Promise")) {} 0 ["x"]) before s ∧
      Answers (Request.buildFunction .declaration (some "f")).run s (.node node) s' ∧
      Attempts s' after last ∧
      outside (before ++ (.buildFunction .declaration (some "f"), .ok (.node node)) :: after) =
        ["_state", "_resolve", "_c", "_d", "x", "_state"] ∧
      resolve ≠ state ∧
      node = FunctionShape.declaration.assemble (some "f") s.parameters
        (s.hoisted ++ [.returnStmt (some
          (promised (.identifier "Promise") resolve (driven state statements)))]) := by
  let request : Request := .buildFunction .declaration (some "f")
  let first := recount (start (.async (.identifier "Promise")) {} 0 ["x"]) {} forestalling
  let resolver : String → Bool := fun name => name.length % 2 = 1
  have hbefore : Attempts (start (.async (.identifier "Promise")) {} 0 ["x"]) first.1 first.2 :=
    attempts_recount _ {} forestalling
  have hcheck : ((perform request.run first.2 {}).1.isOk &&
      decide ((∀ name ∈ (callsAround first request following).filterMap givenName?,
          resolver name = true → name ∈ ["x"]) ∧
        IsDisciplined resolver [] (callsAround first request following) ∧
        outside (callsAround first request following) =
          ["_state", "_resolve", "_c", "_d", "x", "_state"])) = true := by
    decide +kernel
  unfold callsAround at hcheck
  generalize hperform : perform request.run first.2 {} = attempt at hcheck
  obtain ⟨outcome, s', registry⟩ := attempt
  obtain ⟨hok, hcalls⟩ := Bool.and_eq_true_iff.1 hcheck
  cases outcome with
  | error e => cases hok
  | ok reply =>
    obtain ⟨hbound, hgiven, houtside⟩ := of_decide_eq_true hcalls
    have hbuilt : Answers request.run first.2 reply s' := ⟨{}, registry, hperform⟩
    obtain ⟨node, -, rfl⟩ := Answers.of_reply hbuilt
    have hafter := attempts_recount s' registry following
    obtain ⟨state, statements, -, ⟨hsync, -⟩ | ⟨promise, resolve, hasync, hne, -, hnode⟩⟩ :=
      captures_nothing hbefore hbuilt hafter rfl hbound hgiven
    · exact absurd rfl (hsync (.identifier "Promise"))
    · obtain rfl := SessionKind.async.inj hasync
      exact ⟨first.1, first.2, node, s', _, _, state, resolve, statements, hbefore, hbuilt, hafter,
        houtside, hne, hnode⟩

end Resumable.Session
