import Resumable.Proofs.Session.Layout

/-!
# The calls on protected blocks

Beginning a protected block, beginning a handler in it, and ending it. Each is one step from one
layout of the regions to another, though its parts are not: when a handler begins its label is
marked after the jump that ends the block before, and when the whole ends the region is closed
before the operation that ends its last block.
-/

namespace Resumable.Session

variable {s s' s₁ s₂ : Session} {id : RegionId} {r r' : ExceptionRegion}

/-- A protected block begins at the operation its start label is marked at. -/
theorem Answers.of_beginException {stop : Label} (h : Answers beginException s stop s') :
    Advance s s' ∧ ∃ r, s'.regions.exception? s.regions.regions.length = some r ∧
      s'.labels.position? r.start = some s.recorder.operations.length := by
  unfold beginException at h
  obtain ⟨start, s₁, hstart, h₁⟩ := h.of_requireFunction_bind.of_bind
  obtain ⟨stop', s₂, hstop, h₂⟩ := h₁.of_bind
  obtain ⟨u, s₃, hmark, h₃⟩ := h₂.of_bind
  obtain ⟨v, s₄, henter, h₄⟩ := h₃.of_bind
  obtain ⟨-, rfl⟩ := h₄.of_pure
  obtain ⟨id, s₅, hregion, hlast⟩ := Answers.of_bind henter
  obtain ⟨-, rfl⟩ := hlast.of_pure
  obtain ⟨hrecord, hpos⟩ := hmark.of_markLabel
  have hdefines := hstart.of_defineLabel.trans hstop.of_defineLabel
  have hall := hdefines.trans hrecord
  have hlen : s₃.recorder.operations.length = s₂.recorder.operations.length := by
    obtain ⟨more, hmore, hnil⟩ := hrecord.operations
    rw [hmore, List.map_eq_nil_iff.1 hnil, List.append_nil]
  have hlen' : s₂.recorder.operations.length = s.recorder.operations.length := by
    obtain ⟨more, hmore, hnil⟩ := hdefines.operations
    rw [hmore, List.map_eq_nil_iff.1 hnil, List.append_nil]
  rw [← hlen] at hpos
  obtain ⟨-, rfl⟩ := hregion.of_enterRegion
  have hadvance := Advance.enter s₃ (.exception { start, stop := stop' }) fun r hr => by
    obtain rfl := Option.some.inj hr
    exact ⟨hpos, rfl⟩
  refine ⟨hall.advance.trans hadvance, { start, stop := stop' }, ?_, ?_⟩
  · rw [← hall.regions]
    exact RegionStack.exception?_enter_self _ _ _
  · rw [← hlen', ← hlen]
    exact hpos

/-- The region is the innermost one, and has not come as far as the phase asked for. -/
theorem Answers.of_currentException {requested : Phase}
    (h : Answers (currentException requested) s (id, r) s') :
    s' = s ∧ s.regions.exception? id = some r ∧ r.phase < requested ∧
      ∃ rest, s.regions.live = id :: rest := by
  unfold currentException at h
  have h := h.of_get_bind
  split at h
  · exact h.of_throw.elim
  · next id' hexpect =>
    split at h
    · exact h.of_throw.elim
    · next region hregion =>
      split at h
      · next hphase =>
        obtain ⟨heq, rfl⟩ := h.of_pure
        obtain ⟨rfl, rfl⟩ := Prod.mk.inj heq
        refine ⟨rfl, hregion, hphase, ?_⟩
        unfold RegionStack.expect RegionStack.innermost? at hexpect
        cases hhead : s'.regions.live with
        | nil => rw [hhead] at hexpect; cases hexpect
        | cons top rest =>
          cases hget : s'.regions.get? top with
          | none => simp [hhead, hget] at hexpect
          | some found =>
            simp only [hhead, List.head?_cons, hget, Option.bind_eq_bind, Option.bind_some,
              Option.pure_def] at hexpect
            split at hexpect
            · obtain rfl := Except.ok.inj hexpect
              exact ⟨rest, rfl⟩
            · cases hexpect
      · exact h.of_throw.elim

/-- The region gets a handler after a jump was recorded in it. -/
theorem Recording.advance_handled {label : Label} (h : Recording s s₁ [.jump label])
    (hr : s.regions.exception? id = some r) (hlive : id ∈ s.regions.live)
    (hstart : r'.start = r.start) (hstop : r'.stop = r.stop) :
    Advance s { s₁ with regions := s₁.regions.replace id (.exception r') } := by
  have hget : s₁.regions.get? id = some (.exception r) := by
    rw [h.regions]
    exact RegionStack.exception?_eq_some_iff.1 hr
  have hreplace := RegionStack.exception?_replace hget (.exception r')
  refine ⟨h.mode, h.labels, fun i t ht => ?_, fun hs => ?_⟩
  · show ∃ t', (s₁.regions.replace id (.exception r')).exception? i = some t' ∧ _
    rw [hreplace]
    by_cases heq : i = id
    · subst heq
      obtain rfl := Option.some.inj (hr.symm.trans ht)
      exact ⟨r', if_pos rfl, hstart, hstop⟩
    · refine ⟨t, ?_, rfl, rfl⟩
      rw [if_neg heq, h.regions]
      exact ht
  · refine Laid.replace (h.inOrder hs) hget rfl fun t t' ht ht' => ?_
    obtain rfl := Option.some.inj ht
    obtain rfl := Option.some.inj ht'
    refine ⟨hstart, hstop, fun _ => Or.inr ⟨by rw [h.regions]; exact hlive, ?_⟩⟩
    obtain ⟨b, hb, hpos⟩ := hs.exists_start hr
    obtain ⟨more, hmore, hjump⟩ := h.operations
    obtain ⟨x, rfl, hx⟩ := List.map_eq_singleton_iff.1 hjump
    refine ⟨b, s.recorder.operations.length, x, h.labels _ _ hpos, (hs.past _ hb).1, ?_, ?_⟩
    · rw [hmore]
      exact List.getElem?_concat_length
    · rw [hx]
      rfl

/-- Beginning a handler, up to the change of its region. -/
theorem advance_handler {requested : Phase} {label : Label} {u : Unit} {v : PUnit}
    {s₃ s₄ : Session} (change : Label → ExceptionRegion)
    (hcurrent : Answers (currentException requested) s (id, r) s₁)
    (hjump : Answers (emit (.jump r.stop)) s₁ u s₂) (hplace : Answers placeLabel s₂ label s₃)
    (hupdate : Answers (updateException id (change label)) s₃ v s₄)
    (hstart : (change label).start = r.start) (hstop : (change label).stop = r.stop) :
    Advance s s₄ := by
  obtain ⟨rfl, hr, -, rest, hlive⟩ := hcurrent.of_currentException
  have hrecord : Recording s₁ s₃ [.jump r.stop] := hjump.of_emit.trans hplace.of_placeLabel
  rw [hupdate.of_modify]
  exact hrecord.advance_handled hr (by rw [hlive]; exact List.mem_cons_self) hstart hstop

theorem advances_beginCatch (name : String) : Advances (beginCatch name) := by
  intro s a s' h
  unfold beginCatch at h
  obtain ⟨⟨id, r⟩, s₁, hcurrent, h₁⟩ := h.of_requireFunction_bind.of_bind
  obtain ⟨u, s₂, hjump, h₂⟩ := h₁.of_bind
  obtain ⟨label, s₃, hplace, h₃⟩ := h₂.of_bind
  obtain ⟨v, s₄, hupdate, h₄⟩ := h₃.of_bind
  obtain ⟨field, s₅, hfield, hassign⟩ := h₄.of_bind
  have hadvance := advance_handler
    (fun label => { r with phase := .catching, catchVariable := some name, catchLabel := label })
    hcurrent hjump hplace hupdate rfl rfl
  exact hadvance.trans (hfield.of_stateField.advance.trans hassign.of_emit.advance)

theorem advances_beginFinally : Advances beginFinally := by
  intro s a s' h
  unfold beginFinally at h
  obtain ⟨⟨id, r⟩, s₁, hcurrent, h₁⟩ := h.of_requireFunction_bind.of_bind
  obtain ⟨u, s₂, hjump, h₂⟩ := h₁.of_bind
  obtain ⟨label, s₃, hplace, hupdate⟩ := h₂.of_bind
  exact advance_handler (fun label => { r with phase := .finishing, finallyLabel := label })
    hcurrent hjump hplace hupdate rfl rfl

/-- The region is closed, the operation that ends its last block is recorded, and then its stop
is marked. -/
theorem advance_close {op : Operation} {u v : Unit} {w : PUnit} {rest : List RegionId}
    {s₃ : Session} (hr : s.regions.exception? id = some r) (hlive : s.regions.live = id :: rest)
    (hclosed : s₁ = { s with regions := { s.regions with
      live := rest
      events := s.regions.events ++ [⟨.closed, id, s.recorder.operations.length⟩] } })
    (hop : op.isIdle = false) (hemit : Answers (emit op) s₁ u s₂)
    (hmark : Answers (markLabel r.stop) s₂ v s₃)
    (hupdate : Answers (updateException id { r with phase := .done }) s₃ w s') : Advance s s' := by
  have hend := hemit.of_emit
  rw [hop] at hend
  obtain ⟨hmarks, hstop⟩ := hmark.of_markLabel
  have hrecord : Recording s₁ s₃ [op] := hend.trans hmarks
  obtain ⟨more, hmore, hmap⟩ := hrecord.operations
  obtain ⟨x, rfl, -⟩ := List.map_eq_singleton_iff.1 hmap
  have hstop' : s₃.labels.position? r.stop = some (s.recorder.operations.length + 1) := by
    obtain ⟨more', hmore', hmap'⟩ := hend.operations
    obtain ⟨x', rfl, -⟩ := List.map_eq_singleton_iff.1 hmap'
    rw [hstop, hmore', List.length_append, hclosed]
    rfl
  have hops : s₃.recorder.operations = s.recorder.operations ++ [x] := by
    rw [hmore, hclosed]
  have hlabels : ∀ l q, s.labels.position? l = some q → s₃.labels.position? l = some q := by
    intro l q hq
    apply hrecord.labels l q
    rw [hclosed]
    exact hq
  have hregions : s₃.regions = s₁.regions := hrecord.regions
  have hget : s₃.regions.get? id = some (.exception r) := by
    rw [hregions, hclosed]
    exact RegionStack.exception?_eq_some_iff.1 hr
  rw [hupdate.of_modify]
  refine ⟨?_, hlabels, fun i t ht => ?_, fun hs => ?_⟩
  · show s₃.recorder.mode = s.recorder.mode
    rw [hrecord.mode, hclosed]
  · show ∃ t', (s₃.regions.replace id (.exception { r with phase := .done })).exception? i =
      some t' ∧ _
    rw [RegionStack.exception?_replace hget]
    by_cases heq : i = id
    · subst heq
      obtain rfl := Option.some.inj (hr.symm.trans ht)
      exact ⟨_, if_pos rfl, rfl, rfl⟩
    · refine ⟨t, ?_, rfl, rfl⟩
      rw [if_neg heq, hregions, hclosed]
      exact ht
  · have hmarked : ∀ l q, s₃.labels.position? l = some q →
        q ≤ (s.recorder.operations ++ [x]).length := by
      intro l q hq
      rw [← hops]
      rcases hrecord.marked l q hq with hq | hq
      · rw [hclosed] at hq
        have := hs.marked l q hq
        rw [hops, List.length_append]
        omega
      · exact hq
    have hlaid : s₃.InOrder := by
      unfold InOrder
      rw [hops, hregions, hclosed]
      apply hs.leave hlive hlabels hmarked
      intro t ht
      obtain rfl := Option.some.inj (hr.symm.trans ht)
      exact ⟨hstop', Nat.one_pos⟩
    refine Laid.replace hlaid hget rfl fun t t' ht ht' => ?_
    obtain rfl := Option.some.inj ht
    obtain rfl := Option.some.inj ht'
    exact ⟨rfl, rfl, Or.inl⟩

theorem advances_endException : Advances endException := by
  intro s a s' h
  unfold endException at h
  obtain ⟨id, s₁, hleave, h₁⟩ := h.of_requireFunction_bind.of_bind
  obtain ⟨region, hget, hkind, rest, hlive, hclosed⟩ := hleave.of_leaveRegion
  have h₂ := h₁.of_get_bind
  split at h₂
  · exact h₂.of_throw.elim
  · next r hr =>
    have hexception : s.regions.exception? id = some r := by
      rw [hclosed] at hr
      exact hr
    dsimp only at h₂
    split at h₂
    · obtain ⟨u, s₂, hemit, h₃⟩ := h₂.of_bind
      obtain ⟨v, s₃, hmark, hupdate⟩ := h₃.of_bind
      exact advance_close hexception hlive hclosed rfl hemit hmark hupdate
    · obtain ⟨u, s₂, hemit, h₃⟩ := h₂.of_bind
      obtain ⟨v, s₃, hmark, hupdate⟩ := h₃.of_bind
      exact advance_close hexception hlive hclosed rfl hemit hmark hupdate

end Resumable.Session
