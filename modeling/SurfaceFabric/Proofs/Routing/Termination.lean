import SurfaceFabric.Proofs.Routing.Safety

/-!
The loop of a run ends. In each turn that does not end it the clock moves on: no further than the gates routed so far
take together while some of them run, and from then on by idle ticks, up to a deadlock.
-/

namespace SurfaceFabric

namespace RoutingJob

variable {job : RoutingJob} {slacks : List Nat} {s s' : RoutingState} {grid : LockGrid} {m : Mapping}

/-- A turn of the loop that does not end it: gates are completed and admitted, not all are finished, and the clock
moves on. -/
inductive Passes (job : RoutingJob) (slacks : List Nat) (s : RoutingState) : RoutingState → Prop
  | intro {s' : RoutingState} {t stalled : Nat} (hsize : s.finished.length < job.circuit.size)
      (hoffer : job.offer slacks s = .ok (s', .ok ()))
      (hopen : s'.finished.length ≠ job.circuit.size)
      (hadvance : job.advance jump slacks s' (progressed s s') = .ok (t, stalled)) :
      Passes job slacks s { s' with clock := t, stalled := stalled }

/-- How a run from a state ends: with a routing, in a deadlock, at a symbol without a cell, or at a gate with two
operands in one cell. -/
inductive Ends (job : RoutingJob) (slacks : List Nat) (s : RoutingState) :
    Checked (Fabric × Except CompileError Routing) → Prop
  | routed (f : Fabric) (r : Routing) : Ends job slacks s (.ok (f, .ok r))
  | deadlock (f : Fabric) (d : Deadlock) : Ends job slacks s (.ok (f, .error (.deadlock d)))
  | unmapped {f : Fabric} {n : Nat} {g : Gate} {u : Symbol} (hg : job.circuit.gate? n = some g) (hu : u ∈ g.operands)
      (hnone : s.fabric.mapping.cell? u = none) : Ends job slacks s (.ok (f, .error (.unmapped u)))
  | collision {s' : RoutingState} {n : Nat} (hreach : Reaches job jump slacks s s') (hn : job.Admissible s' n)
      (hshared : job.SharesCell s'.fabric n) : Ends job slacks s (.error .sharedCell)

theorem Advancing.ends (h : Advancing job grid m s) (hbuilt : job.circuit.Built) (hstalled : s.stalled = 0)
    (hword : job.circuit.totalCycles + job.settings.deadlockThreshold + 1 ≤ Word.top) (slacks : List Nat) :
    Ends job slacks s (job.runFrom jump slacks s) := by
  cases hrun : job.runFrom jump slacks s with
  | error e =>
      exact h.failsOnly_runFrom (P := fun e => Ends job slacks s (.error e)) hbuilt hstalled
        (fun _ _ => .collision) (fun hover => absurd hword (Nat.not_le.2 hover)) e hrun
  | ok outcome =>
      obtain ⟨f, result⟩ := outcome
      cases result with
      | ok r => exact .routed f r
      | error e =>
          obtain ⟨d, rfl⟩ | ⟨n, g, u, hg, hu, -, hnone, rfl⟩ := refusal_of_runFrom hrun
          · exact .deadlock f d
          · exact .unmapped hg hu hnone

/-- What bounds the clock: gates that run end within the cycles of those routed so far, and once none runs the idle
ticks are counted. -/
inductive InTime (job : RoutingJob) (grid : LockGrid) (m : Mapping) (s : RoutingState) : Prop
  | advancing (h : Advancing job grid m s) (hstalled : s.stalled = 0)
  | stalled (h : Stalled job s) (hclock : s.clock ≤ job.circuit.totalCycles + s.stalled + 1)
      (hle : s.stalled ≤ job.settings.deadlockThreshold)

theorem advance_of_idle (hidle : s.running = []) {progressed : Bool} {t k : Nat}
    (h : job.advance jump slacks s progressed = .ok (t, k)) :
    t = s.clock + 1 ∧ k = (if progressed then 0 else s.stalled + 1) ∧ k ≤ job.settings.deadlockThreshold := by
  obtain ⟨ticks, hticks⟩ : ∃ ticks, ticks = if progressed then 0 else s.stalled + 1 := ⟨_, rfl⟩
  have hsettle := settle_advance_of_idle job jump slacks hidle hticks
  rw [Outcome.settle_eq_ok_ok_iff.2 h] at hsettle
  split_ifs at hsettle with htop hdead hclock <;> cases hsettle
  exact ⟨rfl, hticks, Nat.not_lt.1 hdead⟩

namespace InTime

theorem clock_le (h : InTime job grid m s) :
    s.clock ≤ job.circuit.totalCycles + job.settings.deadlockThreshold + 1 := by
  cases h with
  | advancing h =>
      have hle := h.clock_le.trans h.spent_le
      omega
  | stalled => omega

/-- A turn that does not end the loop moves the clock on, and stays within its time. -/
theorem passes (h : InTime job grid m s) (hbuilt : job.circuit.Built)
    (hword : job.circuit.totalCycles ≤ Word.top) (hpass : Passes job slacks s s') :
    s.clock < s'.clock ∧ InTime job grid m s' := by
  obtain @⟨s', t, k, hsize, hoffer, hopen, hadvance⟩ := hpass
  have hclock : s'.clock = s.clock := (admitAll_keeps hoffer).1
  cases h with
  | advancing h hstalled =>
      obtain ⟨hs', -⟩ := h.complete.admitAll hbuilt (ready_nodup _) (fun _ hn => mem_ready.1 hn) hoffer
      -- The last gates that ran are done, or the clock jumps to the next end or lock boundary of those that run.
      by_cases hidle : s'.running = []
      · obtain ⟨rfl, -, hle⟩ := advance_of_idle hidle hadvance
        have hstall := stalled_of_admitAll h.tracked h.manned hoffer hopen hidle
        have hspent := hs'.clock_le.trans hs'.spent_le
        exact ⟨by dsimp only; omega, .stalled (hstall.leaks (.refl _ _) _ k) (by dsimp only; omega) hle⟩
      · obtain ⟨finish, hleast⟩ := exists_min? (List.map_eq_nil_iff.not.2 hidle)
        have hround : Round job slacks s s' finish := ⟨hsize, hoffer, hopen, hleast⟩
        cases (hround.advance_eq _).symm.trans hadvance
        obtain ⟨hle, hnext⟩ := h.round hbuilt hround
        exact ⟨hclock ▸ hround.jump_spec.1, .advancing (hnext (hle.trans hword)) rfl⟩
  | stalled h hbound hle =>
      rw [offer, completeDue_eq_self (by simp [h.idle])] at hoffer
      obtain ⟨q, hq, hwait⟩ | ⟨hover, -⟩ := h.admitAll _ fun n hn => mem_ready.1 hn
      · cases hwait.symm.trans hoffer
        obtain ⟨rfl, hk, hle⟩ := advance_of_idle h.idle hadvance
        have hquiet : k = s.stalled + 1 := by simpa [progressed] using hk
        exact ⟨Nat.lt_succ_self _, .stalled (h.leaks hq _ k) (by dsimp only; omega) hle⟩
      · rw [hover] at hoffer
        cases hoffer

theorem run (h : InTime job grid m s) (hbuilt : job.circuit.Built)
    (hword : job.circuit.totalCycles + job.settings.deadlockThreshold + 1 ≤ Word.top)
    (hrun : Relation.ReflTransGen (Passes job slacks) s s') :
    InTime job grid m s' ∧ job.runFrom jump slacks s = job.runFrom jump slacks s' := by
  induction hrun with
  | refl => exact ⟨h, rfl⟩
  | tail _ hpass ih =>
      obtain ⟨hs, hsame⟩ := ih
      obtain ⟨hlt, hs'⟩ := hs.passes hbuilt (by omega) hpass
      have htop := hs'.clock_le.trans hword
      obtain ⟨hsize, hoffer, hopen, hadvance⟩ := hpass
      refine ⟨hs', hsame.trans ?_⟩
      rw [runFrom_of_admitAll hsize hoffer, if_neg hopen, Outcome.settle_eq_ok_ok_iff.2 hadvance]
      exact if_pos ⟨hlt, htop⟩

theorem exists_last (h : InTime job grid m s) (hbuilt : job.circuit.Built)
    (hword : job.circuit.totalCycles + job.settings.deadlockThreshold + 1 ≤ Word.top) (slacks : List Nat) :
    ∃ s', Relation.ReflTransGen (Passes job slacks) s s' ∧ ∀ s'', ¬Passes job slacks s' s'' := by
  -- The clock moves on with each turn and stays within its bound, so the ticks left below the top go down.
  induction hleft : Word.top - s.clock using Nat.strong_induction_on generalizing s with
  | _ left ih =>
      by_cases hmore : ∃ s', Passes job slacks s s'
      · obtain ⟨s', hpass⟩ := hmore
        obtain ⟨hlt, hs'⟩ := h.passes hbuilt (by omega) hpass
        have hle := hs'.clock_le
        obtain ⟨last, hrun, hlast⟩ := ih (Word.top - s'.clock) (by omega) hs' rfl
        exact ⟨last, .head hpass hrun, hlast⟩
      · exact ⟨s, .refl, not_exists.1 hmore⟩

end InTime

end RoutingJob

open RoutingJob in
/-- A run comes to an end. Every turn of its loop that does not end it moves the clock on, and the clock is never past
the cycles of all gates and the idle ticks of a deadlock. After finitely many turns there is a routing, a deadlock or
a symbol without a cell, or two operands of a gate are in one cell. -/
theorem run_ends_in_time {c : Circuit} {l : Layout} {m : Mapping} {schedule : Schedule} {settings : RoutingSettings}
    {job : RoutingJob} {f : Fabric} (hbuilt : c.Built)
    (hstart : RoutingJob.start c l m schedule settings = .ok (job, f))
    (hword : c.totalCycles + settings.deadlockThreshold + 1 ≤ Word.top) :
    ∃ slacks first, c.slacks = .ok slacks ∧ first = ⟨0, 0, f, [], [], []⟩ ∧
      (∀ s, Relation.ReflTransGen (job.Passes slacks) first s →
        s.clock ≤ c.totalCycles + settings.deadlockThreshold + 1 ∧
          ∀ s', job.Passes slacks s s' → s.clock < s'.clock) ∧
      (∃ last, Relation.ReflTransGen (job.Passes slacks) first last ∧ (∀ s, ¬job.Passes slacks last s) ∧
        job.run f = job.runFrom jump slacks last) ∧ job.Ends slacks first (job.run f) := by
  obtain ⟨grid, hgrid, hjob, rfl⟩ := start_eq_ok_iff.1 hstart
  obtain ⟨slacks, hslacks⟩ := hbuilt.exists_slacks
  have hfirst := advancing_start job ⟨grid, m, []⟩ (LockGrid.holds_ofLayout hgrid)
  have hrunFrom : job.run ⟨grid, m, []⟩ = job.runFrom jump slacks ⟨0, 0, ⟨grid, m, []⟩, [], [], []⟩ :=
    (runAt_jump job _).symm.trans (runAt_eq_runFrom (by rw [hjob]; exact hslacks) jump _)
  subst hjob
  have hintime := InTime.advancing hfirst rfl
  obtain ⟨last, hrun, hlast⟩ := hintime.exists_last hbuilt hword slacks
  refine ⟨slacks, _, hslacks, rfl, fun s hs => ?_, ⟨last, hrun, hlast, ?_⟩, ?_⟩
  · have hs := (hintime.run hbuilt hword hs).1
    exact ⟨hs.clock_le, fun s' hpass => (hs.passes hbuilt (by dsimp only; omega) hpass).1⟩
  · exact hrunFrom.trans (hintime.run hbuilt hword hrun).2
  · rw [hrunFrom]
    exact hfirst.ends hbuilt rfl hword slacks

/-- A gate that is off the grid waits until it is in a deadlock, within ten ticks. -/
theorem stranded_run_ends : ∃ job f slacks last,
    RoutingJob.start Stranded.circuit Stranded.layout Stranded.mapping Stranded.schedule {} = .ok (job, f) ∧
      Stranded.circuit.totalCycles + ({} : RoutingSettings).deadlockThreshold + 1 = 10 ∧ last.clock ≤ 10 ∧
      (∀ s, ¬job.Passes slacks last s) ∧ job.run f = job.runFrom RoutingJob.jump slacks last := by
  obtain ⟨⟨job, f⟩, hstart⟩ : ∃ p, RoutingJob.start Stranded.circuit Stranded.layout Stranded.mapping
    Stranded.schedule {} = .ok p := ⟨_, rfl⟩
  obtain ⟨slacks, first, -, -, hturns, ⟨last, hreach, hlast, hrun⟩, -⟩ :=
    run_ends_in_time (Circuit.Built.empty.extend (by decide)) hstart (by decide)
  exact ⟨job, f, slacks, last, hstart, rfl, (hturns last hreach).1, hlast, hrun⟩

namespace Stacked

def circuit : Circuit := Circuit.empty.append (.joint "cx" [.register "a", .register "b"] 1)

def layout : Layout := .ofTiling ⟨2, 1, [.isolated 0 (.taken .register ⟨0, 0, 2, 1⟩)], 1⟩ 0

/-- Both symbols are in one cell. -/
def mapping : Mapping := ⟨.empty, [(.register "a", ⟨0, 0⟩), (.register "b", ⟨0, 0⟩)], ⟨[]⟩⟩

end Stacked

/-- A run may break off: there is no leg between two operands in one cell. -/
theorem stacked_operands_fault : Stacked.circuit.Built ∧
    Stacked.circuit.totalCycles + ({} : RoutingSettings).deadlockThreshold + 1 ≤ Word.top ∧
    (do
      let p ← RoutingJob.start Stacked.circuit Stacked.layout Stacked.mapping Stranded.schedule {}
      return (← p.1.run p.2).2) = .error .sharedCell :=
  ⟨Circuit.Built.empty.extend (by decide), by decide, by decide +kernel⟩

end SurfaceFabric
