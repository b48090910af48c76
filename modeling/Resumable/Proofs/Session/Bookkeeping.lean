import Resumable.Proofs.Body.Bookkeeping
import Resumable.Proofs.Session.Announcement
import Resumable.Proofs.Session.Stages

/-!
# Protected regions pushed once

For every session: which of the protected regions it opened the finished body pushes, how often,
and with which numbers.
-/

namespace Resumable.Session

variable {kind : SessionKind} {options : Options} {scope : Nat} {bound : List String}
  {s s' : Session} {requests : List Request} {forceReturn : Bool} {body : Body} {id : RegionId}
  {r : ExceptionRegion} {p : Body.Plan}

/-- Once a region is closed its stop comes after its blocks. -/
theorem Staged.ranked (h : Staged s id r) (hlabels : p.labels = s.labels)
    (hregions : p.regions = s.regions) (hlaid : Laid p.operations p.labels p.regions)
    (hlive : p.regions.live = []) (hr : p.regions.exception? id = some r) : p.Ranked r := by
  obtain ⟨b, c, hs, -, hstop, -⟩ := hlaid.exists_spans hlive hr
  have hclosed := hs.closed
  rw [hregions] at hclosed
  constructor
  · intro q hsome
    by_cases hq : q < .done
    · obtain ⟨a, -, ha, -⟩ := h.placed q hq hsome
      exact ⟨a, hlabels ▸ ha⟩
    · cases q with
      | done => exact ⟨_, hstop⟩
      | _ => exact absurd (by decide) hq
  · intro q q' a b hlt ha hb
    by_cases hq' : q' < .done
    · rw [hlabels] at ha hb
      exact h.ordered q q' a b hlt hq' ha hb
    · cases q' with
      | done =>
        obtain ⟨a', -, ha', hle⟩ := h.placed q hlt (LabelTable.isSome_of_position? ha)
        rw [hlabels, ha'] at ha
        have hac := hle c hclosed
        have hbc := Option.some.inj (hstop.symm.trans hb)
        have haa := Option.some.inj ha
        omega
      | _ => exact absurd (by decide) hq'

/-- The stack of protected regions in a finished body. If the session opened a region, the stack is
set up first thing in case 0, and otherwise nowhere. A region with a catch or a finally block is
pushed once, another one at most once, and nothing else is. What is pushed are the numbers of the
cases that the blocks of the region begin with, and of the case after it, in increasing order, with
a hole for a block that was never begun. -/
theorem bookkeeping_of_finished (hkind : kind.mode = .stateMachine)
    (hruns : Runs (start kind options scope bound) requests s)
    (hbuild : Answers (buildStatements forceReturn) s body s') :
    ∃ state p, p = s'.plan state forceReturn ∧ p.build = .ok body ∧
      ∃ (entered : Nat → Option RegionId) (scopes : Nat → List ScopeRegion),
        p.LaidOut body entered scopes ∧
        p.Bookkeeping (Begins (start kind options scope bound) requests s) entered := by
  obtain ⟨state, p, hp, hb, hsplits, hregions, hlive, hlabels, hlaid⟩ :=
    exists_plan hkind hruns hbuild
  have hstaged := hruns.isStaged (inOrder_start kind options scope bound) fun _ _ hr => by cases hr
  have hgrows := Grows.of_recording hbuild.of_buildStatements.1
  have hranked : ∀ id r, p.regions.exception? id = some r → p.Ranked r := by
    intro id r hr
    have hs := (hstaged id r (hregions ▸ hr)).grows hgrows rfl (.inl rfl)
    exact hs.ranked (by rw [hp]; rfl) (by rw [hp]; rfl) hlaid hlive hr
  refine ⟨state, p, hp, hb, _, p.scopesOf, Body.Plan.laidOut_of_build_eq_ok hlaid hlive hsplits hb,
    Body.Plan.bookkeeping hlaid hlive ?_ (fun q hq id => ?_) hranked⟩
  · rw [hregions]
    exact hasExceptions_iff_begins hruns
  · rw [hregions]
    exact begins_iff hruns hq

/-- A block with a catch and a finally block, and in the former a block without handlers. -/
def recovering : List Request :=
  [.beginException, .emit (.yield (some (.identifier "a"))), .beginCatch "e", .beginException,
    .emit (.yield (some (.identifier "b"))), .endException, .beginFinally, .endException]

theorem bookkeeping_recovering : ∃ s body s' state p entered scopes,
    Runs (start .generator {} 0 []) recovering s ∧ Answers (buildStatements true) s body s' ∧
      p = s'.plan state true ∧ p.LaidOut body entered scopes ∧
      p.setup.map p.placed = [trysSetup p.state] ∧ (p.announced entered).count 0 = 1 := by
  have hlower : (lower (start .generator {} 0 []) {} recovering true).any (fun (s, _, _) =>
      (s.regions.exception? 0).any fun r => r.start.isSome && r.catchLabel.isSome) = true := by
    decide +kernel
  obtain ⟨⟨s, body, s'⟩, hsome, hregion⟩ := (Option.any_eq_true _ _).1 hlower
  obtain ⟨r, hr, hlabels⟩ := (Option.any_eq_true _ _).1 hregion
  obtain ⟨hstart, hcatch⟩ := Bool.and_eq_true_iff.1 hlabels
  obtain ⟨hruns, hbuild⟩ := of_lower hsome
  obtain ⟨state, p, hp, -, entered, scopes, hlaid, hbook⟩ :=
    bookkeeping_of_finished rfl hruns hbuild
  have hopened : Begins (start .generator {} 0 []) recovering s .trying 0 :=
    (begins_iff hruns (by decide)).2 ⟨r, hr, hstart⟩
  have hcaught : Begins (start .generator {} 0 []) recovering s .catching 0 :=
    (begins_iff hruns (by decide)).2 ⟨r, hr, hcatch⟩
  exact ⟨s, body, s', state, p, entered, scopes, hruns, hbuild, hp, hlaid,
    (hbook.used ⟨0, hopened⟩).2, hbook.once 0 (.inl hcaught)⟩

end Resumable.Session
