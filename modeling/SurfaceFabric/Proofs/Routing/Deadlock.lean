import SurfaceFabric.Proofs.Routing.Barred
import SurfaceFabric.Proofs.Routing.Progress

/-!
Deadlocks are final. Once a round ends with no gate running, nothing is held, every gate that is ready has
been offered admission on the vacant grid, and none of them is admitted later. So a run comes to the same
end however many idle ticks it allows for.
-/

namespace SurfaceFabric

namespace RoutingJob

variable {job : RoutingJob} {pace : Pace} {slacks : List Nat} {s s' : RoutingState} {n t : Nat}

/-- Why a gate is refused for good: there is none of that number, or a symbol of it has no cell. -/
theorem tryRoute_error {f f' : Fabric} {e : CompileError}
    (h : job.tryRoute f n t = .ok (f', .error e)) :
    job.circuit.gate? n = none ∧ e = .circuit .unknownNode ∨ ∃ g u, job.circuit.gate? n = some g ∧
      u ∈ g.operands ∧ u.isFactory = false ∧ f.mapping.coordinate? u = none ∧ e = .unmapped u := by
  rw [tryRoute] at h
  cases hg : job.circuit.gate? n with
  | none =>
      rw [hg] at h
      cases h
      exact .inl ⟨rfl, rfl⟩
  | some g =>
      rw [hg] at h
      obtain ⟨stop, -, h⟩ := bind_eq_ok_iff.1 h
      obtain ⟨⟨found, tickets, m⟩, hresolve⟩ :
          ∃ r, job.resolve n g.isReset g.operands [] [] f.mapping = r := ⟨_, rfl⟩
      rw [hresolve] at h
      cases found with
      | unmapped u =>
          cases h
          obtain ⟨hu, hplain, hnone⟩ := unmapped_of_resolve hresolve
          exact .inr ⟨g, u, rfl, hu, hplain, hnone, rfl⟩
      | lacking => cases h
      | found cells =>
          obtain ⟨plan, -, h⟩ := bind_eq_ok_iff.1 h
          cases plan <;> cases h

theorem admitAll_error {nodes : List Nat} {e : CompileError}
    (h : job.admitAll nodes s = .ok (s', .error e)) : ∃ f f' n, n ∈ nodes ∧
      f.mapping.cells = s.fabric.mapping.cells ∧ job.tryRoute f n s.clock = .ok (f', .error e) := by
  induction nodes generalizing s with
  | nil => simp [admitAll] at h
  | cons n rest ih =>
      rw [admitAll] at h
      obtain ⟨⟨f, found⟩, htry, h⟩ := bind_eq_ok_iff.1 h
      rcases found with e' | _ | r
      · simp only [pure_eq_ok_iff, Prod.mk.injEq, Except.error.injEq] at h
        obtain ⟨-, rfl⟩ := h
        exact ⟨_, _, n, List.mem_cons_self, rfl, htry⟩
      · obtain ⟨f, f', m, hm, hcells, htry'⟩ := ih h
        exact ⟨f, f', m, List.mem_cons_of_mem _ hm, hcells.trans (tryRoute_cells htry), htry'⟩
      · obtain ⟨f, f', m, hm, hcells, htry'⟩ := ih h
        exact ⟨f, f', m, List.mem_cons_of_mem _ hm, hcells.trans (tryRoute_cells htry), htry'⟩

theorem running_subset_of_admitAll {nodes : List Nat} (h : job.admitAll nodes s = .ok (s', .ok ())) :
    s.running ⊆ s'.running := by
  induction nodes generalizing s with
  | nil =>
      simp only [admitAll, pure_eq_ok_iff, Prod.mk.injEq, and_true] at h
      exact h ▸ List.Subset.refl _
  | cons n rest ih =>
      obtain ⟨f, -, h⟩ | ⟨a, h⟩ := admitAll_cons h
      · exact ih (s := { s with fabric := f }) h
      · exact List.Subset.trans (List.subset_append_left _ _) (ih h)

/-! ### Stalls -/

/-- A run that has come to a standstill: nothing runs, nothing is held, and what is ready waits for good. -/
structure Stalled (job : RoutingJob) (s : RoutingState) : Prop where
  unfinished : s.finished.length < job.circuit.size
  idle : s.running = []
  vacant : s.fabric.grid.holds = []
  barred : ∀ n, job.Admissible s n → ∃ g, job.circuit.gate? n = some g ∧ job.Barred s.fabric n g

/-- A round in which no gate gets to run, on a vacant grid. -/
theorem barred_of_admitAll {nodes : List Nat} (hnodes : ∀ n ∈ nodes, n < job.circuit.size)
    (hvacant : s.fabric.grid.holds = []) (h : job.admitAll nodes s = .ok (s', .ok ()))
    (hidle : s'.running = []) : ∃ q, s.fabric.mapping.pool.Leaks q ∧
      s' = { s with fabric := s.fabric.withPool q } ∧
      ∀ n ∈ nodes, ∃ g, job.circuit.gate? n = some g ∧ job.Barred s'.fabric n g := by
  induction nodes generalizing s with
  | nil =>
      simp only [admitAll, pure_eq_ok_iff, Prod.mk.injEq, and_true] at h
      subst h
      exact ⟨_, .refl _ _, rfl, by simp⟩
  | cons n rest ih =>
      obtain ⟨f, htry, h⟩ | ⟨a, h⟩ := admitAll_cons h
      · obtain ⟨g, hg⟩ := Circuit.gate?_isSome (hnodes n List.mem_cons_self)
        have hwaits := waits_of_tryRoute hg htry
        obtain ⟨rfl, -⟩ := hwaits.eq_of_tryRoute hg htry
        obtain ⟨q, hq, rfl, hrest⟩ := ih
          (s := { s with fabric := s.fabric.withPool (job.poolAfter s.fabric.mapping n g) })
          (fun m hm => hnodes m (List.mem_cons_of_mem _ hm)) hvacant h
        refine ⟨q, Pool.Leaks.trans (job.leaks_poolAfter _ n g) hq, rfl, fun m hm => ?_⟩
        rcases List.mem_cons.1 hm with rfl | hm
        · exact ⟨g, hg, (hwaits.barred hvacant).leaks hq⟩
        · exact hrest m hm
      · have hmem : a.route ∈ s'.running :=
          running_subset_of_admitAll h (List.mem_append_right _ List.mem_cons_self)
        rw [hidle] at hmem
        cases hmem

/-- A round after which no gate runs has stalled. -/
theorem stalled_of_admitAll (htracked : Tracked job s) (hmanned : Manned s)
    (h : job.offer slacks s = .ok (s', .ok ()))
    (hopen : s'.finished.length ≠ job.circuit.size) (hidle : s'.running = []) : Stalled job s' := by
  have hvacant : (job.completeDue s).fabric.grid.holds = [] := by
    refine hmanned.complete.holds_eq_nil (List.eq_nil_iff_forall_not_mem.2 fun r hr => ?_)
    have hmem := running_subset_of_admitAll h hr
    rw [hidle] at hmem
    cases hmem
  have hreach : Reaches job jump slacks s s' := reaches_of_ready h
  have hle := (htracked.reaches hreach).finished_length_le
  obtain ⟨q, -, rfl, hbarred⟩ :=
    barred_of_admitAll (fun n hn => (mem_ready.1 hn).lt_size) hvacant h hidle
  refine ⟨by omega, hidle, hvacant, fun n hn => hbarred n (mem_ready.2 ?_)⟩
  exact ⟨hn.lt_size, hn.dependencies_finished, hn.not_routed⟩

namespace Stalled

theorem leaks {q : Pool} (h : Stalled job s) (hq : s.fabric.mapping.pool.Leaks q) (t stalled : Nat) :
    Stalled job { s with fabric := s.fabric.withPool q, clock := t, stalled := stalled } := by
  refine ⟨h.unfinished, h.idle, h.vacant, fun n hn => ?_⟩
  obtain ⟨g, hg, hbarred⟩ := h.barred n ⟨hn.lt_size, hn.dependencies_finished, hn.not_routed⟩
  exact ⟨g, hg, hbarred.leaks hq⟩

/-- Nothing is admitted from a stall on. -/
theorem step (h : Stalled job s) (hstep : Step job pace slacks s s') :
    Stalled job s' ∧ s'.routes = s.routes ∧ s'.finished = s.finished := by
  cases hstep with
  | complete =>
      rw [completeDue_eq_self (by simp [h.idle])]
      exact ⟨h, rfl, rfl⟩
  | @wait n f hn htry =>
      obtain ⟨g, hg, hbarred⟩ := h.barred n hn
      obtain ⟨rfl, -⟩ := (hbarred.waits s.clock).eq_of_tryRoute hg htry
      exact ⟨h.leaks (job.leaks_poolAfter _ n g) s.clock s.stalled, rfl, rfl⟩
  | @enter n hn a =>
      obtain ⟨g, hg, hbarred⟩ := h.barred n hn
      have hnone := ((hbarred.waits s.clock).eq_of_tryRoute hg (tryRoute_eq_some_iff.2 ⟨a, rfl, rfl⟩)).2
      cases hnone
  | advance => exact ⟨h.leaks (.refl _ _) _ _, rfl, rfl⟩

theorem reaches (h : Stalled job s) (hreach : Reaches job pace slacks s s') :
    Stalled job s' ∧ s'.routes = s.routes ∧ s'.finished = s.finished := by
  induction hreach with
  | refl => exact ⟨h, rfl, rfl⟩
  | tail _ hstep ih =>
      obtain ⟨hs, hroutes, hfinished⟩ := ih
      obtain ⟨hs', hroutes', hfinished'⟩ := hs.step hstep
      exact ⟨hs', hroutes'.trans hroutes, hfinished'.trans hfinished⟩

/-- A round of a stall: no gate is admitted, unless the end of one is out of the word. -/
theorem admitAll (h : Stalled job s) (nodes : List Nat) (hnodes : ∀ n ∈ nodes, job.Admissible s n) :
    (∃ q, s.fabric.mapping.pool.Leaks q ∧
      job.admitAll nodes s = .ok ({ s with fabric := s.fabric.withPool q }, .ok ())) ∨
    job.admitAll nodes s = .error .overflow ∧ ∃ n g, job.Admissible s n ∧
      job.circuit.gate? n = some g ∧ Word.top < s.clock + max g.cycles 1 := by
  induction nodes generalizing s with
  | nil => exact .inl ⟨_, .refl _ _, rfl⟩
  | cons n rest ih =>
      have hn := hnodes n List.mem_cons_self
      obtain ⟨g, hg, hbarred⟩ := h.barred n hn
      have hleaks := job.leaks_poolAfter s.fabric.mapping n g
      rw [RoutingJob.admitAll, (hbarred.waits s.clock).tryRoute_poolAfter hg]
      split
      · obtain ⟨q, hq, hrest⟩ | ⟨hrest, m, g', hm, hend⟩ := ih (h.leaks hleaks s.clock s.stalled) fun m hm => by
          obtain ⟨hlt, hdeps, hrouted⟩ := hnodes m (List.mem_cons_of_mem _ hm)
          exact ⟨hlt, hdeps, hrouted⟩
        · exact .inl ⟨q, Pool.Leaks.trans hleaks hq, hrest⟩
        · exact .inr ⟨hrest, m, g', ⟨hm.lt_size, hm.dependencies_finished, hm.not_routed⟩, hend⟩
      · next hend => exact .inr ⟨rfl, n, g, hn, hg, Nat.not_le.1 hend⟩

end Stalled

/-- How the clock moves while no gate runs. -/
theorem settle_advance_of_idle (job : RoutingJob) (pace : Pace) (slacks : List Nat) (hidle : s.running = [])
    {progressed : Bool} {k : Nat} (hk : k = if progressed then 0 else s.stalled + 1) :
    (job.advance pace slacks s progressed).settle =
      if Word.top < k then .error .overflow
      else if job.settings.deadlockThreshold < k then
        .ok (.error ⟨s.clock, (job.ready slacks s).length⟩)
      else if Word.top ≤ s.clock then .error .overflow
      else .ok (.ok (s.clock + 1, k)) := by
  have hrest : Outcome.settle (do
      if job.settings.deadlockThreshold < k then
        Outcome.refuse ⟨s.clock, (job.ready slacks s).length⟩
      return (← Word.add s.clock 1, k) : Outcome Deadlock (Nat × Nat)) =
        if job.settings.deadlockThreshold < k then .ok (.error ⟨s.clock, (job.ready slacks s).length⟩)
        else if Word.top ≤ s.clock then .error .overflow else .ok (.ok (s.clock + 1, k)) := by
    split
    · rfl
    · rw [Word.add]
      split
      · rw [if_neg (by omega)]
        rfl
      · rw [if_pos (by omega)]
        rfl
  rw [← hrest, advance, hidle]
  cases progressed with
  | true =>
      obtain rfl : k = 0 := hk
      rfl
  | false =>
      obtain rfl : k = s.stalled + 1 := hk
      by_cases htop : s.stalled + 1 ≤ Word.top
      · simp only [Word.add_eq_ok_iff.2 ⟨htop, rfl⟩, if_neg (Nat.not_lt.2 htop)]
        rfl
      · have hfault : Word.add s.stalled 1 = .error .overflow := if_neg htop
        simp only [hfault, if_pos (Nat.not_le.1 htop)]
        rfl

/-- Idle ticks after a round in which no gate gets to run. -/
def idleTicks (s s' : RoutingState) : Nat := if progressed s s' then 0 else s'.stalled + 1

theorem idleTicks_le (s s' : RoutingState) : idleTicks s s' ≤ s'.stalled + 1 := by
  unfold idleTicks
  split <;> omega

/-- Where a run comes to after a round in which no gate gets to run: to a deadlock after too many idle ticks,
and else to the next tick. -/
theorem runFrom_of_idle (hsize : s.finished.length < job.circuit.size)
    (hoffer : job.offer slacks s = .ok (s', .ok ()))
    (hopen : s'.finished.length ≠ job.circuit.size) (hidle : s'.running = []) (pace : Pace) :
    (idleTicks s s' ≤ Word.top → idleTicks s s' ≤ job.settings.deadlockThreshold → s'.clock < Word.top →
      Step job pace slacks s' { s' with clock := s'.clock + 1, stalled := idleTicks s s' }) ∧
    job.runFrom pace slacks s =
      if Word.top < idleTicks s s' then .error .overflow
      else if job.settings.deadlockThreshold < idleTicks s s' then
        .ok (s'.fabric, .error (.deadlock ⟨s'.clock, (job.ready slacks s').length⟩))
      else if Word.top ≤ s'.clock then .error .overflow
      else job.runFrom pace slacks { s' with clock := s'.clock + 1, stalled := idleTicks s s' } := by
  have hadvance := settle_advance_of_idle job pace slacks hidle
    (show idleTicks s s' = if progressed s s' then 0 else s'.stalled + 1 from rfl)
  refine ⟨fun hword hle hclock => ?_, ?_⟩
  · rw [if_neg (Nat.not_lt.2 hword), if_neg (Nat.not_lt.2 hle), if_neg (Nat.not_le.2 hclock)] at hadvance
    exact .advance (Outcome.settle_eq_ok_ok_iff.1 hadvance) (Nat.lt_succ_self _) hclock
  · have hclock : s'.clock = s.clock := (admitAll_keeps hoffer).1
    rw [runFrom_of_admitAll hsize hoffer, if_neg hopen, hadvance]
    split
    · rfl
    split
    · rfl
    split
    · rfl
    · exact if_pos ⟨by omega, by omega⟩

/-- The word is too small for some idle ticks, or for a gate that is offered admission after them. -/
def Overruns (job : RoutingJob) (s : RoutingState) (ticks : Nat) : Prop :=
  Word.top ≤ max s.stalled job.settings.deadlockThreshold ∨
    ∃ length, Word.top < s.clock + ticks + length ∧
      (length = 0 ∨ ∃ n g, job.Admissible s n ∧ job.circuit.gate? n = some g ∧ length = max g.cycles 1)

theorem Overruns.before {q : Pool} {ticks k : Nat}
    (h : Overruns job { s with fabric := s.fabric.withPool q, clock := s.clock + 1, stalled := k } ticks)
    (hle : k ≤ job.settings.deadlockThreshold) : Overruns job s (ticks + 1) := by
  obtain htop | ⟨length, htop, hlength⟩ := h
  · exact .inl (by dsimp only at htop; omega)
  · refine .inr ⟨length, by dsimp only at htop; omega, hlength.imp_right ?_⟩
    rintro ⟨n, g, hn, hg, rfl⟩
    exact ⟨n, g, ⟨hn.lt_size, hn.dependencies_finished, hn.not_routed⟩, hg, rfl⟩

/-- A stall ends in a deadlock, with all that is ready waiting. -/
theorem Stalled.runFrom (h : Stalled job s) (slacks : List Nat) (pace : Pace) :
    (∃ q d, s.fabric.mapping.pool.Leaks q ∧ d.waiting = (job.ready slacks s).length ∧
      job.runFrom pace slacks s = .ok (s.fabric.withPool q, .error (.deadlock d))) ∨
    job.runFrom pace slacks s = .error .overflow ∧
      Overruns job s (job.settings.deadlockThreshold - s.stalled) := by
  induction hleft : Word.top - s.clock using Nat.strong_induction_on generalizing s with
  | _ left ih =>
      have hcomplete : job.completeDue s = s := completeDue_eq_self (by simp [h.idle])
      obtain ⟨q, hq, hoffer⟩ | ⟨hoffer, n, g, hn, hg, hend⟩ :=
        h.admitAll (job.ready slacks s) (fun n hn => mem_ready.1 hn)
      · have hround : job.offer slacks s = .ok ({ s with fabric := s.fabric.withPool q }, .ok ()) := by
          rw [offer, hcomplete]
          exact hoffer
        rw [(runFrom_of_idle h.unfinished hround (Nat.ne_of_lt h.unfinished) h.idle pace).2,
          show idleTicks s _ = s.stalled + 1 by simp [idleTicks, progressed]]
        split
        · exact .inr ⟨rfl, .inl (by omega)⟩
        split
        · exact .inl ⟨q, _, hq, rfl, rfl⟩
        split
        · next hclock =>
            change Word.top ≤ s.clock at hclock
            exact .inr ⟨rfl, .inr ⟨0, by omega, .inl rfl⟩⟩
        · have hclock : s.clock < Word.top := Nat.not_le.1 ‹_›
          obtain ⟨q', d, hq', hd, hrest⟩ | ⟨hrest, hover⟩ := ih (Word.top - (s.clock + 1)) (by omega)
            (h.leaks hq (s.clock + 1) (s.stalled + 1)) rfl
          · exact .inl ⟨q', d, Pool.Leaks.trans hq hq', hd, hrest⟩
          · have hticks : job.settings.deadlockThreshold - s.stalled =
                job.settings.deadlockThreshold - (s.stalled + 1) + 1 := by omega
            rw [hticks]
            exact .inr ⟨hrest, hover.before (by omega)⟩
      · refine .inr ⟨?_, .inr ⟨max g.cycles 1, by omega, .inr ⟨n, g, hn, hg, rfl⟩⟩⟩
        rw [RoutingJob.runFrom, if_pos h.unfinished]
        simp only [hcomplete]
        rw [hoffer]
        rfl

/-- A round after which no gate runs ends the run in a deadlock. -/
theorem runFrom_of_stalled (hsize : s.finished.length < job.circuit.size)
    (hoffer : job.offer slacks s = .ok (s', .ok ()))
    (h : Stalled job s') (pace : Pace) :
    (∃ f d, job.runFrom pace slacks s = .ok (f, .error (.deadlock d)) ∧
      d.waiting = (job.ready slacks s').length) ∨
    job.runFrom pace slacks s = .error .overflow ∧
      Overruns job s' (job.settings.deadlockThreshold + 1) := by
  have hk := idleTicks_le s s'
  rw [(runFrom_of_idle hsize hoffer (Nat.ne_of_lt h.unfinished) h.idle pace).2]
  split
  · exact .inr ⟨rfl, .inl (by omega)⟩
  split
  · exact .inl ⟨_, _, rfl, rfl⟩
  split
  · exact .inr ⟨rfl, .inr ⟨0, by omega, .inl rfl⟩⟩
  · next hover hclock =>
      have hnext := h.leaks (.refl _ _) (s'.clock + 1) (idleTicks s s')
      obtain ⟨q, d, -, hd, hrest⟩ | ⟨hrest, hover'⟩ := hnext.runFrom slacks pace
      · exact .inl ⟨_, d, hrest, hd⟩
      · refine .inr ⟨hrest, (hover'.before (Nat.not_lt.1 hover)).imp_right ?_⟩
        rintro ⟨length, htop, hlength⟩
        exact ⟨length, by dsimp only at htop; omega, hlength⟩

/-- A run that is refused gets, step by step, to a round in which a gate is refused for good, or after which no gate
has been running for too long. -/
theorem reaches_of_refusal {f : Fabric} {e : CompileError} (h : job.runFrom jump slacks s = .ok (f, .error e)) :
    ∃ s₁ s', Reaches job jump slacks s s₁ ∧ f = s'.fabric ∧
      (job.offer slacks s₁ = .ok (s', .error e) ∨
        job.offer slacks s₁ = .ok (s', .ok ()) ∧
          s'.finished.length ≠ job.circuit.size ∧ s'.running = [] ∧
          e = .deadlock ⟨s'.clock, (job.ready slacks s').length⟩) := by
  induction hleft : Word.top - s.clock using Nat.strong_induction_on generalizing s with
  | _ left ih =>
      cases turn job slacks s with
      | ended hsize =>
          rw [runFrom, if_neg hsize] at h
          cases h
      | fault hsize hoffer =>
          rw [runFrom_of_fault hsize hoffer] at h
          cases h
      | refusal hsize hoffer =>
          rw [runFrom_of_refusal hsize hoffer] at h
          cases h
          exact ⟨s, _, .refl, rfl, .inl hoffer⟩
      | finished hsize hoffer hdone =>
          rw [runFrom_of_finished hsize hoffer hdone] at h
          cases h
      | @round s' finish hround =>
          rw [hround.runFrom_jump] at h
          split at h
          · next htop =>
              have hclock := hround.clock_eq
              have hlt := hround.jump_spec.1
              obtain ⟨s₁, s'', hreach, hs''⟩ :=
                ih (Word.top - jump s'.fabric.grid s'.clock finish) (by omega) h rfl
              exact ⟨s₁, s'', (hround.reaches_jump htop).trans hreach, hs''⟩
          · cases h
      | @idle s' hsize hoffer hopen hidle =>
          have hclock : s'.clock = s.clock := (admitAll_keeps hoffer).1
          obtain ⟨hstep, hrun⟩ := runFrom_of_idle hsize hoffer hopen hidle jump
          rw [hrun] at h
          split at h
          · cases h
          split at h
          · cases h
            exact ⟨s, s', .refl, rfl, .inr ⟨hoffer, hopen, hidle, rfl⟩⟩
          split at h
          · cases h
          · next hword hle htop =>
              have hnext := (reaches_of_ready hoffer).tail
                (hstep (Nat.not_lt.1 hword) (Nat.not_lt.1 hle) (Nat.not_le.1 htop))
              obtain ⟨s₁, s'', hreach, hs''⟩ := ih (Word.top - (s'.clock + 1)) (by omega) h rfl
              exact ⟨s₁, s'', hnext.trans hreach, hs''⟩

/-- A deadlock is reported after a round that has stalled. -/
theorem stalled_of_runFrom {f : Fabric} {d : Deadlock} (htracked : Tracked job s) (hmanned : Manned s)
    (h : job.runFrom jump slacks s = .ok (f, .error (.deadlock d))) :
    ∃ s', Reaches job jump slacks s s' ∧ Stalled job s' ∧ f = s'.fabric ∧
      d = ⟨s'.clock, (job.ready slacks s').length⟩ := by
  obtain ⟨s₁, s', hreach, hf, hoffer | ⟨hoffer, hopen, hidle, hd⟩⟩ := reaches_of_refusal h
  · obtain ⟨_, _, _, -, -, htry⟩ := admitAll_error hoffer
    obtain ⟨-, he⟩ | ⟨_, _, -, -, -, -, he⟩ := tryRoute_error htry <;> cases he
  · have hstalled := stalled_of_admitAll (htracked.reaches hreach) (hmanned.reaches hreach) hoffer hopen hidle
    cases hd
    exact ⟨s', hreach.trans (reaches_of_ready hoffer), hstalled, hf, rfl⟩

/-! ### Thresholds -/

def withThreshold (job : RoutingJob) (k : Nat) : RoutingJob :=
  { job with settings := { job.settings with deadlockThreshold := k } }

section Threshold

variable (job : RoutingJob) (k : Nat)

theorem resolve_withThreshold (n : Nat) (isReset : Bool) (operands : List Symbol) (cells : List Cell)
    (tickets : List Ticket) (m : Mapping) :
    (job.withThreshold k).resolve n isReset operands cells tickets m =
      job.resolve n isReset operands cells tickets m := resolve_of_schedule_eq (by rfl)

theorem legs_withThreshold (grid : LockGrid) (shared : List Cell) (start stop : Nat)
    (blocked cells : List Cell) :
    (job.withThreshold k).legs grid shared start stop blocked cells =
      job.legs grid shared start stop blocked cells := by
  induction cells generalizing blocked with
  | nil => rfl
  | cons a tail ih =>
      cases tail with
      | nil => rfl
      | cons b rest =>
          rw [legs, legs]
          simp only [ih]
          rfl

theorem plan?_withThreshold (f : Fabric) (n start stop : Nat) (cells : List Cell) :
    (job.withThreshold k).plan? f n start stop cells = job.plan? f n start stop cells := by
  unfold plan?
  simp only [legs_withThreshold]
  rfl

theorem tryRoute_withThreshold (f : Fabric) (n t : Nat) :
    (job.withThreshold k).tryRoute f n t = job.tryRoute f n t := by
  unfold tryRoute
  simp only [resolve_withThreshold, plan?_withThreshold]
  rfl

theorem admitAll_withThreshold (nodes : List Nat) (s : RoutingState) :
    (job.withThreshold k).admitAll nodes s = job.admitAll nodes s := by
  induction nodes generalizing s with
  | nil => rfl
  | cons n rest ih =>
      rw [admitAll, admitAll]
      simp only [tryRoute_withThreshold, ih]

theorem waits_withThreshold (f : Fabric) (n t : Nat) (g : Gate) :
    (job.withThreshold k).Waits f n t g ↔ job.Waits f n t g := by
  unfold Waits
  simp only [resolve_withThreshold, plan?_withThreshold]

end Threshold

theorem Stalled.withThreshold (h : Stalled job s) (k : Nat) : Stalled (job.withThreshold k) s := by
  refine ⟨h.unfinished, h.idle, h.vacant, fun n hn => ?_⟩
  obtain ⟨g, hg, hbarred⟩ := h.barred n ⟨hn.lt_size, hn.dependencies_finished, hn.not_routed⟩
  exact ⟨g, hg, fun q hq t => (job.waits_withThreshold k _ n t g).2 (hbarred q hq t)⟩

/-- A run comes to the same for all thresholds, or it stalls for all of them with as many gates waiting. -/
theorem runFrom_withThreshold (htracked : ∀ k, Tracked (job.withThreshold k) s) (hmanned : Manned s) :
    (∃ result, ∀ k, (job.withThreshold k).runFrom jump slacks s = result) ∨
    ∃ waiting, ∀ k, (∃ f d, (job.withThreshold k).runFrom jump slacks s = .ok (f, .error (.deadlock d)) ∧
      d.waiting = waiting) ∨ (job.withThreshold k).runFrom jump slacks s = .error .overflow := by
  induction hleft : Word.top - s.clock using Nat.strong_induction_on generalizing s with
  | _ left ih =>
      have hround {result : Checked (RoutingState × Except CompileError Unit)}
          (hoffer : job.offer slacks s = result)
          (k : Nat) : (job.withThreshold k).admitAll ((job.withThreshold k).ready slacks
            ((job.withThreshold k).completeDue s)) ((job.withThreshold k).completeDue s) = result := by
        rw [admitAll_withThreshold]
        exact hoffer
      have hunfinished (hsize : s.finished.length < job.circuit.size) (k : Nat) :
          s.finished.length < (job.withThreshold k).circuit.size := hsize
      cases turn job slacks s with
      | ended hsize =>
          refine .inl ⟨.ok (s.fabric, .ok (routingOf s)), fun k => ?_⟩
          rw [runFrom]
          exact if_neg hsize
      | fault hsize hoffer => exact .inl ⟨_, fun k => runFrom_of_fault (hunfinished hsize k) (hround hoffer k) jump⟩
      | refusal hsize hoffer =>
          exact .inl ⟨_, fun k => runFrom_of_refusal (hunfinished hsize k) (hround hoffer k) jump⟩
      | finished hsize hoffer hdone =>
          exact .inl ⟨_, fun k => runFrom_of_finished (hunfinished hsize k) (hround hoffer k) hdone jump⟩
      | @round s' finish h =>
          have hk (k : Nat) : Round (job.withThreshold k) slacks s s' finish :=
            ⟨h.unfinished, hround h.admitAll_eq k, h.length_ne, h.least_eq⟩
          by_cases htop : jump s'.fabric.grid s'.clock finish ≤ Word.top
          · have hreach (k : Nat) := (hk k).reaches_jump htop
            have hclock := h.clock_eq
            have hlt := h.jump_spec.1
            have hnext (k : Nat) := (hk k).runFrom_jump.trans (if_pos htop)
            simp only [hnext]
            exact ih (Word.top - jump s'.fabric.grid s'.clock finish) (by omega)
              (fun k => (htracked k).reaches (hreach k)) (hmanned.reaches (hreach 0)) rfl
          · exact .inl ⟨.error .overflow, fun k => (hk k).runFrom_jump.trans (if_neg htop)⟩
      | @idle s' hsize hoffer hopen hidle =>
          refine .inr ⟨(job.ready slacks s').length, fun k => ?_⟩
          have hstalled := stalled_of_admitAll (htracked k) hmanned (hround hoffer k) hopen hidle
          exact (runFrom_of_stalled (hunfinished hsize k) (hround hoffer k) hstalled jump).imp_right And.left

inductive SameEnd : Checked (Fabric × Except CompileError Routing) →
    Checked (Fabric × Except CompileError Routing) → Prop
  | same (result : Checked (Fabric × Except CompileError Routing)) : SameEnd result result
  | deadlock {f f' : Fabric} {d d' : Deadlock} (h : d.waiting = d'.waiting) :
      SameEnd (.ok (f, .error (.deadlock d))) (.ok (f', .error (.deadlock d')))

theorem run_sameEnd {f : Fabric} {k k' : Nat} (hholds : f.grid.holds = [])
    (h : (job.withThreshold k).run f ≠ .error .overflow)
    (h' : (job.withThreshold k').run f ≠ .error .overflow) :
    SameEnd ((job.withThreshold k).run f) ((job.withThreshold k').run f) := by
  cases hslacks : job.circuit.slacks with
  | error e =>
      have hrun (k : Nat) : (job.withThreshold k).run f = .error e := by
        show (job.circuit.slacks >>= _) = _
        rw [hslacks]
        rfl
      rw [hrun, hrun]
      exact .same _
  | ok slacks =>
      have hrun (k : Nat) : (job.withThreshold k).run f =
          (job.withThreshold k).runFrom jump slacks ⟨0, 0, f, [], [], []⟩ := by
        show (job.circuit.slacks >>= _) = _
        rw [hslacks]
        rfl
      simp only [hrun] at h h' ⊢
      obtain ⟨result, hsame⟩ | ⟨waiting, hstall⟩ := runFrom_withThreshold
        (fun k => tracked_start (job.withThreshold k) f) (manned_of_holds_eq_nil hholds)
      · rw [hsame, hsame]
        exact .same _
      · obtain ⟨f₁, d, hd, hwaiting⟩ := (hstall k).resolve_right h
        obtain ⟨f₂, d', hd', hwaiting'⟩ := (hstall k').resolve_right h'
        rw [hd, hd']
        exact .deadlock (hwaiting.trans hwaiting'.symm)

end RoutingJob

open RoutingJob in
/-- A deadlock is final. No gate runs then and no cell is held. Each gate that is ready lacks a factory, has an
operand off the grid or has a leg without a path, and is not admitted later, however long the run goes on.
So all thresholds lead to the same end. -/
theorem deadlock_is_final {c : Circuit} {l : Layout} {m : Mapping} {schedule : Schedule}
    {settings : RoutingSettings} {job : RoutingJob} {f : Fabric}
    (hstart : RoutingJob.start c l m schedule settings = .ok (job, f)) :
    (∀ f' d, job.run f = .ok (f', .error (.deadlock d)) → ∃ slacks s, c.slacks = .ok slacks ∧
      Reaches job jump slacks ⟨0, 0, f, [], [], []⟩ s ∧ f' = s.fabric ∧
      d = ⟨s.clock, (job.ready slacks s).length⟩ ∧ s.running = [] ∧ s.fabric.grid.holds = [] ∧
      ∀ n ∈ job.ready slacks s, ∃ g, c.gate? n = some g ∧ job.Stuck s.fabric n g ∧
        ∀ k s' t, Reaches (job.withThreshold k) jump slacks s s' → t + max g.cycles 1 ≤ Word.top →
          ∃ f'', job.tryRoute s'.fabric n t = .ok (f'', .ok none)) ∧
    ∀ k k', (job.withThreshold k).run f ≠ .error .overflow →
      (job.withThreshold k').run f ≠ .error .overflow →
        SameEnd ((job.withThreshold k).run f) ((job.withThreshold k').run f) := by
  obtain ⟨grid, hgrid, rfl, rfl⟩ := start_eq_ok_iff.1 hstart
  have hholds := LockGrid.holds_ofLayout hgrid
  refine ⟨fun f' d hrun => ?_, fun k k' h h' => run_sameEnd hholds h h'⟩
  obtain ⟨slacks, hslacks, hrun⟩ := bind_eq_ok_iff.1 hrun
  obtain ⟨s, hreach, hstalled, hf', hd⟩ :=
    stalled_of_runFrom (tracked_start _ _) (manned_of_holds_eq_nil hholds) hrun
  refine ⟨slacks, s, hslacks, hreach, hf', hd, hstalled.idle, hstalled.vacant, fun n hn => ?_⟩
  obtain ⟨g, hg, hbarred⟩ := hstalled.barred n (mem_ready.1 hn)
  refine ⟨g, hg, (waits_iff_stuck hstalled.vacant).1 (hbarred.waits s.clock), fun k s' t hreach' ht => ?_⟩
  obtain ⟨hstalled', hroutes, hfinished⟩ := (hstalled.withThreshold k).reaches hreach'
  have hn' := (mem_ready.1 hn)
  obtain ⟨g', hg', hbarred'⟩ := hstalled'.barred n
    ⟨hn'.lt_size, hfinished ▸ hn'.dependencies_finished, hroutes ▸ hn'.not_routed⟩
  obtain rfl : g = g' := Option.some.inj (hg.symm.trans hg')
  rw [← tryRoute_withThreshold _ k, (hbarred'.waits t).tryRoute_poolAfter hg', if_pos ht]
  exact ⟨_, rfl⟩

/-- The gate on three operands waits for good once the other one has ended, at every threshold. -/
theorem threeOperands_deadlock_final : ∃ job f f',
    RoutingJob.start ThreeOperands.circuit ThreeOperands.layout ThreeOperands.mapping
        ThreeOperands.schedule ThreeOperands.settings = .ok (job, f) ∧
      job.run f = .ok (f', .error (.deadlock ⟨5, 1⟩)) ∧ f'.grid.holds = [] ∧
      (∃ n g, ThreeOperands.circuit.gate? n = some g ∧ job.Stuck f' n g ∧
        ∀ t, t + max g.cycles 1 ≤ Word.top → ∃ f'', job.tryRoute f' n t = .ok (f'', .ok none)) ∧
      RoutingJob.SameEnd ((job.withThreshold 0).run f) ((job.withThreshold 9).run f) := by
  have h : (do
      let p ← RoutingJob.start ThreeOperands.circuit ThreeOperands.layout ThreeOperands.mapping
        ThreeOperands.schedule ThreeOperands.settings
      return ((← p.1.run p.2).2, (← (p.1.withThreshold 0).run p.2).2, (← (p.1.withThreshold 9).run p.2).2)) =
        .ok (.error (.deadlock ⟨5, 1⟩), .error (.deadlock ⟨4, 1⟩), .error (.deadlock ⟨13, 1⟩)) := by
    decide +kernel
  obtain ⟨⟨job, f⟩, hstart, h⟩ := bind_eq_ok_iff.1 h
  obtain ⟨⟨f', result⟩, hrun, h⟩ := bind_eq_ok_iff.1 h
  obtain ⟨low, hlow, h⟩ := bind_eq_ok_iff.1 h
  obtain ⟨high, hhigh, h⟩ := bind_eq_ok_iff.1 h
  obtain ⟨rfl, -, -⟩ := by simpa only [pure_eq_ok_iff, Prod.mk.injEq] using h
  obtain ⟨hdeadlock, hsame⟩ := deadlock_is_final hstart
  obtain ⟨slacks, s, -, -, rfl, hd, -, hvacant, hready⟩ := hdeadlock f' _ hrun
  have hlength : (job.ready slacks s).length = 1 := (congrArg Deadlock.waiting hd).symm
  obtain ⟨n, hn⟩ := List.exists_mem_of_length_pos (l := job.ready slacks s) (by omega)
  obtain ⟨g, hg, hstuck, hlater⟩ := hready n hn
  refine ⟨job, f, _, hstart, hrun, hvacant, ⟨n, g, hg, hstuck, fun t ht => hlater 0 s t .refl ht⟩, ?_⟩
  exact hsame 0 9 (by rw [hlow]; simp) (by rw [hhigh]; simp)

namespace Stranded

/-- A gate on one symbol that is off the grid. -/
def circuit : Circuit := Circuit.empty.append (.single "h" (.register "a") 1)

def layout : Layout :=
  .ofTiling ⟨2, 1, [.isolated 0 (.taken .register ⟨0, 0, 1, 1⟩),
    .isolated 1 (.taken .route ⟨1, 0, 2, 1⟩)], 2⟩ 0

def mapping : Mapping := ⟨.empty, [(.register "a", ⟨5, 5⟩)], ⟨[]⟩⟩

def schedule : Schedule := ⟨1, 1, [[0]], [0], [1], [none]⟩

end Stranded

/-- A gate needs neither a factory nor a leg to be in a deadlock. -/
theorem stranded_gate_deadlocks : ∃ job f f',
    RoutingJob.start Stranded.circuit Stranded.layout Stranded.mapping Stranded.schedule {} =
        .ok (job, f) ∧
      job.run f = .ok (f', .error (.deadlock ⟨8, 1⟩)) ∧
      ∀ n g, Stranded.circuit.gate? n = some g →
        g.operands.length = 1 ∧ ∀ u ∈ g.operands, u.isFactory = false := by
  have h : (do
      let p ← RoutingJob.start Stranded.circuit Stranded.layout Stranded.mapping Stranded.schedule {}
      return (← p.1.run p.2).2) = .ok (.error (.deadlock ⟨8, 1⟩)) := by
    decide +kernel
  obtain ⟨⟨job, f⟩, hstart, h⟩ := bind_eq_ok_iff.1 h
  obtain ⟨⟨f', result⟩, hrun, h⟩ := bind_eq_ok_iff.1 h
  cases h
  refine ⟨job, f, f', hstart, hrun, fun n g hg => ?_⟩
  obtain ⟨node, hnode, rfl⟩ := Option.map_eq_some_iff.1 hg
  have hall : ∀ node ∈ Stranded.circuit.nodes, node.gate.operands.length = 1 ∧
      ∀ u ∈ node.gate.operands, u.isFactory = false := by
    decide
  exact hall node (List.mem_of_getElem? hnode)

end SurfaceFabric
