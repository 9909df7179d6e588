import SurfaceFabric.Proofs.Routing.LockPlan
import SurfaceFabric.Proofs.Routing.Order
import SurfaceFabric.Proofs.Teleport

/-!
Locks are exclusive. A gate takes a cell only if no other gate holds it in the meantime; the one
exception is an end of a teleport that is already the endpoint of a teleport in the same window, and
then both gates are served by one merged teleport.
-/

namespace SurfaceFabric

namespace RoutingJob

variable {job : RoutingJob} {pace : Pace} {slacks : List Nat}

theorem mem_sharedEndpoints {f : Fabric} {window : Nat × Nat} {c : Cell} :
    c ∈ sharedEndpoints f window ↔
      ∃ tp ∈ f.teleports, (tp.start = window.1 ∧ tp.stop = window.2) ∧ c ∈ tp.endpoints := by
  simp [sharedEndpoints, and_assoc]

/-- What a gate locks is free, or else it is the end of one of its teleports and also of a recorded one
of the same window. -/
theorem Admission.free_or_shared {f : Fabric} {n t : Nat} (a : Admission job f n t) {k : CellLock}
    (hk : k ∈ a.route.locks) : f.grid.isFree k.cell k.start k.stop = true ∨
      (∃ tp ∈ f.teleports, (k.start = tp.start ∧ k.stop = tp.stop) ∧ k.cell ∈ tp.endpoints) ∧
        ∃ tp ∈ a.plan.teleports, k.cell ∈ tp.endpoints := by
  have hfeasible := a.feasible
  simp only [isFeasible, Bool.and_eq_true, List.all_eq_true, Bool.or_eq_true,
    decide_eq_true_eq] at hfeasible
  obtain ⟨hlocks, hends⟩ := hfeasible
  rcases List.mem_append.1 hk with hk' | hk'
  · exact .inl (hlocks k hk')
  · refine (hends k hk').imp_right fun hshared => ?_
    obtain ⟨tp, htp, hwindow, hcell⟩ := mem_sharedEndpoints.1 hshared
    obtain ⟨own, hown, hend⟩ := a.plan_fits.joined k hk'
    obtain ⟨hstart, hstop⟩ := a.plan_fits.alike k hk own hown hend
    obtain ⟨hfirst, hlast⟩ := a.plan_fits.window own hown
    refine ⟨⟨tp, htp, ⟨?_, ?_⟩, hcell⟩, own, hown, hend⟩
    · exact hstart.trans (hfirst.trans hwindow.1.symm)
    · exact hstop.trans (hlast.trans hwindow.2.symm)

/-- A gate that has to wait changes neither locks nor teleports. -/
theorem tryRoute_none {f f' : Fabric} {n t : Nat} (h : job.tryRoute f n t = .ok (f', .ok none)) :
    f'.grid = f.grid ∧ f'.teleports = f.teleports := by
  rcases tryRoute_refused h (by simp) with rfl | ⟨-, -, -, -, -, rfl⟩
  · exact ⟨rfl, rfl⟩
  · exact ⟨rfl, rfl⟩

theorem complete_grid (job : RoutingJob) (f : Fabric) (r : Route) :
    (job.complete f r).grid = f.grid.release r.gate := by
  unfold complete
  split
  · rfl
  · split
    · cases Gate.factoryOperand? _ <;> rfl
    · rfl

theorem complete_teleports (job : RoutingJob) (f : Fabric) (r : Route) :
    (job.complete f r).teleports = f.teleports := by
  unfold complete
  split
  · rfl
  · split
    · cases Gate.factoryOperand? _ <;> rfl
    · rfl

theorem foldl_complete (job : RoutingJob) (ended : List Route) (f : Fabric) :
    (ended.foldl job.complete f).teleports = f.teleports ∧
      (∀ c, (ended.foldl job.complete f).grid.inside c = f.grid.inside c) ∧
      ∀ h, h ∈ (ended.foldl job.complete f).grid.holds ↔
        h ∈ f.grid.holds ∧ ∀ r ∈ ended, h.lock.owner ≠ r.gate := by
  induction ended generalizing f with
  | nil => simp
  | cons r ended ih =>
      obtain ⟨hteleports, hinside, hholds⟩ := ih (job.complete f r)
      rw [complete_teleports] at hteleports
      rw [complete_grid] at hinside hholds
      refine ⟨hteleports, hinside, fun h => ?_⟩
      rw [List.foldl_cons, hholds h, LockGrid.mem_holds_release]
      simp [and_assoc]

/-- What the state of a run knows about locks. Those of gates that have not ended are held, every endpoint
of a teleport is locked by a gate for its window, and a lock that meets a teleport belongs to it. -/
structure Exclusive (job : RoutingJob) (s : RoutingState) : Prop where
  inside : ∀ h ∈ s.fabric.grid.holds, s.fabric.grid.inside h.cell = true
  timely : ∀ r ∈ s.routes, ∀ l ∈ r.locks, l.start < l.stop ∧ l.stop ≤ r.finish
  held : ∀ r ∈ s.routes, s.clock < r.finish → ∀ l ∈ r.locks,
    ⟨l.cell, ⟨r.gate, l.start, l.stop⟩⟩ ∈ s.fabric.grid.holds
  anchored : ∀ tp ∈ s.fabric.teleports, ∀ c ∈ tp.endpoints,
    c ∈ job.switches ∧ ∃ r ∈ s.routes, ⟨c, tp.start, tp.stop⟩ ∈ r.locks
  joined : ∀ r ∈ s.routes, ∀ l ∈ r.locks, ∀ tp ∈ s.fabric.teleports, l.Joins r.gate tp
  met : ∀ x ∈ s.routes, ∀ y ∈ s.routes, x.gate ≠ y.gate → ∀ k ∈ x.locks, ∀ l ∈ y.locks,
    k.cell = l.cell → k.start < l.stop → l.start < k.stop →
      ∃ tp ∈ s.fabric.teleports, k.Meets tp ∧ l.Meets tp

namespace Exclusive

variable {s : RoutingState} {n : Nat}

/-- A lock that clashes with one that was taken earlier is the end of a recorded teleport. -/
theorem clash (h : Exclusive job s) (a : Admission job s.fabric n s.clock) {k l : CellLock} {y : Route}
    (hk : k ∈ a.route.locks) (hy : y ∈ s.routes) (hl : l ∈ y.locks) (hcell : k.cell = l.cell)
    (hkl : k.start < l.stop) (hlk : l.start < k.stop) :
    (∃ tp ∈ s.fabric.teleports, k.Meets tp ∧ l.Meets tp ∧ k.start = tp.start ∧ k.stop = tp.stop) ∧
      ∃ tp ∈ a.plan.teleports, k.Meets tp := by
  obtain ⟨hstart, hlt, -⟩ := a.plan_fits.timely k hk
  have hheld := h.held y hy (by have := h.timely y hy l hl; omega) l hl
  rcases a.free_or_shared hk with hfree | ⟨⟨tp, htp, ⟨hfirst, hlast⟩, hend⟩, own, hown, hownEnd⟩
  · exact absurd ⟨hlk, hkl⟩ ((LockGrid.isFree_iff.1 hfree).2 _ hheld hcell.symm)
  · obtain ⟨hownFirst, hownLast⟩ := a.plan_fits.alike k hk own hown hownEnd
    refine ⟨⟨tp, htp, ⟨hend, ?_, ?_⟩, ⟨hcell ▸ hend, ?_, ?_⟩, hfirst, hlast⟩, own, hown, hownEnd, ?_, ?_⟩
      <;> omega

/-- The locks of a gate that is admitted have the windows of the recorded teleports they meet. -/
theorem agrees (h : Exclusive job s) (a : Admission job s.fabric n s.clock) {k : CellLock}
    (hk : k ∈ a.route.locks) {tp : Teleport} (htp : tp ∈ s.fabric.teleports) : k.Agrees tp := by
  rintro ⟨hcell, hstart, hstop⟩
  obtain ⟨-, r, hr, hl⟩ := h.anchored tp htp k.cell hcell
  obtain ⟨⟨tp', htp', -, hmeets, hfirst, hlast⟩, -⟩ := h.clash a hk hr hl rfl hstart hstop
  obtain ⟨⟨hfirst', hlast'⟩, -⟩ := h.joined r hr _ hl tp' htp' hmeets
  exact ⟨hfirst.trans hfirst'.symm, hlast.trans hlast'.symm⟩

theorem joins_new (h : Exclusive job s) (a : Admission job s.fabric n s.clock) {k : CellLock}
    (hk : k ∈ a.route.locks) : ∀ tp ∈ a.fabric.teleports, k.Joins n tp := by
  have hnew (t : Teleport) (ht : t ∈ a.plan.teleports) : k.Agrees t ∧ n ∈ t.gates :=
    ⟨fun hmeets => a.plan_fits.alike k hk t ht hmeets.1, by simp [a.plan_fits.gates t ht]⟩
  by_cases hmeets : ∃ tp ∈ s.fabric.teleports, k.Meets tp
  · refine CellLock.Agrees.joins_recordAll (fun tp htp => h.agrees a hk htp) hnew ?_
    obtain ⟨tp, htp, hmeets⟩ := hmeets
    obtain ⟨-, r, hr, hl⟩ := h.anchored tp htp k.cell hmeets.1
    exact (h.clash a hk hr hl rfl hmeets.2.1 hmeets.2.2).2
  · refine CellLock.Joins.recordAll (fun tp htp hm => absurd ⟨tp, htp, hm⟩ hmeets)
      (fun t ht => (hnew t ht).1) fun t ht _ => .inl (hnew t ht).2

theorem joins_old (h : Exclusive job s) (a : Admission job s.fabric n s.clock) {l : CellLock} {y : Route}
    (hy : y ∈ s.routes) (hl : l ∈ y.locks) : ∀ tp ∈ a.fabric.teleports, l.Joins y.gate tp := by
  have hclash (t : Teleport) (ht : t ∈ a.plan.teleports) (hmeets : l.Meets t) :
      ∃ tp ∈ s.fabric.teleports, l.Meets tp ∧ t.start = tp.start ∧ t.stop = tp.stop := by
    have hk := a.plan_fits.locked t ht l.cell hmeets.1
    obtain ⟨⟨tp, htp, -, hm, hwindow⟩, -⟩ := h.clash a hk hy hl rfl hmeets.2.2 hmeets.2.1
    exact ⟨tp, htp, hm, hwindow⟩
  refine CellLock.Joins.recordAll (h.joined y hy l hl) ?_ ?_
  · intro t ht hmeets
    obtain ⟨tp, htp, hm, hfirst, hlast⟩ := hclash t ht hmeets
    obtain ⟨⟨hstart, hstop⟩, -⟩ := h.joined y hy l hl tp htp hm
    exact ⟨hstart.trans hfirst.symm, hstop.trans hlast.symm⟩
  · intro t ht hmeets
    obtain ⟨tp, htp, hm, -⟩ := hclash t ht hmeets
    exact .inr ⟨tp, htp, hm⟩

theorem inside_new (h : Exclusive job s) (a : Admission job s.fabric n s.clock) {k : CellLock}
    (hk : k ∈ a.route.locks) : s.fabric.grid.inside k.cell = true := by
  obtain ⟨hstart, hlt, -⟩ := a.plan_fits.timely k hk
  rcases a.free_or_shared hk with hfree | ⟨⟨tp, htp, ⟨-, hlast⟩, hend⟩, -⟩
  · exact (LockGrid.isFree_iff.1 hfree).1
  · obtain ⟨-, r, hr, hl⟩ := h.anchored tp htp k.cell hend
    have hstop : tp.stop ≤ r.finish := (h.timely r hr _ hl).2
    exact h.inside _ (h.held r hr (by omega) _ hl)

theorem mem_holds_enter (h : Exclusive job s) (a : Admission job s.fabric n s.clock) {x : Hold} :
    x ∈ a.fabric.grid.holds ↔ x ∈ s.fabric.grid.holds ∨
      ∃ k ∈ a.route.locks, x = ⟨k.cell, ⟨n, k.start, k.stop⟩⟩ := by
  have hgrid : a.fabric.grid = (a.route.locks.map fun k => (⟨k.cell, ⟨n, k.start, k.stop⟩⟩ : Hold)).foldl
      LockGrid.hold s.fabric.grid := rfl
  rw [hgrid, LockGrid.mem_holds_foldl_hold, List.mem_map]
  refine or_congr_right ⟨?_, ?_⟩
  · rintro ⟨⟨k, hk, rfl⟩, -⟩
    exact ⟨k, hk, rfl⟩
  · rintro ⟨k, hk, rfl⟩
    exact ⟨⟨k, hk, rfl⟩, h.inside_new a hk⟩

theorem inside_enter (a : Admission job s.fabric n s.clock) (c : Cell) :
    a.fabric.grid.inside c = s.fabric.grid.inside c :=
  LockGrid.inside_foldl_hold _ _ _

theorem anchored_enter (h : Exclusive job s) (a : Admission job s.fabric n s.clock) :
    ∀ tp ∈ a.fabric.teleports, ∀ c ∈ tp.endpoints,
      c ∈ job.switches ∧ ∃ r ∈ s.routes ++ [a.route], ⟨c, tp.start, tp.stop⟩ ∈ r.locks := by
  refine Teleport.forall_mem_recordAll ?_ ?_ ?_
  · intro x y hshares hx hy c hc
    obtain ⟨⟨hstart, hstop⟩, -⟩ := Teleport.sharesEndpoint_iff.1 hshares
    rcases mem_appendNew.1 hc with hc | hc
    · exact hx c hc
    · simpa only [Teleport.absorb, hstart, hstop] using hy c hc
  · intro tp htp c hc
    obtain ⟨hswitch, r, hr, hl⟩ := h.anchored tp htp c hc
    exact ⟨hswitch, r, List.mem_append_left _ hr, hl⟩
  · intro tp htp c hc
    exact ⟨a.plan_fits.switches tp htp c hc, a.route, by simp, a.plan_fits.locked tp htp c hc⟩

theorem met_enter (h : Exclusive job s) (a : Admission job s.fabric n s.clock) :
    ∀ x ∈ s.routes ++ [a.route], ∀ y ∈ s.routes ++ [a.route], x.gate ≠ y.gate →
      ∀ k ∈ x.locks, ∀ l ∈ y.locks, k.cell = l.cell → k.start < l.stop → l.start < k.stop →
        ∃ tp ∈ a.fabric.teleports, k.Meets tp ∧ l.Meets tp := by
  have hlater {k l : CellLock} (hold : ∃ tp ∈ s.fabric.teleports, k.Meets tp ∧ l.Meets tp) :
      ∃ tp ∈ a.fabric.teleports, k.Meets tp ∧ l.Meets tp := by
    obtain ⟨tp, htp, hk, hl⟩ := hold
    obtain ⟨tp', htp', hwithin⟩ := Teleport.exists_within_recordAll htp
    exact ⟨tp', htp', hk.mono hwithin, hl.mono hwithin⟩
  intro x hx y hy hne k hk l hl hcell hkl hlk
  rcases List.mem_append.1 hx with hx | hx <;> rcases List.mem_append.1 hy with hy | hy
  · exact hlater (h.met x hx y hy hne k hk l hl hcell hkl hlk)
  · rw [List.mem_singleton.1 hy] at hl
    obtain ⟨⟨tp, htp, hml, hmk, -⟩, -⟩ := h.clash a hl hx hk hcell.symm hlk hkl
    exact hlater ⟨tp, htp, hmk, hml⟩
  · rw [List.mem_singleton.1 hx] at hk
    obtain ⟨⟨tp, htp, hmk, hml, -⟩, -⟩ := h.clash a hk hy hl hcell hkl hlk
    exact hlater ⟨tp, htp, hmk, hml⟩
  · rw [List.mem_singleton.1 hx, List.mem_singleton.1 hy] at hne
    exact absurd rfl hne

theorem enter (h : Exclusive job s) (a : Admission job s.fabric n s.clock) :
    Exclusive job (s.enter a) := by
  refine ⟨?_, ?_, ?_, h.anchored_enter a, ?_, h.met_enter a⟩
  · intro x hx
    rw [inside_enter]
    rcases (h.mem_holds_enter a).1 hx with hx | ⟨k, hk, rfl⟩
    · exact h.inside x hx
    · exact h.inside_new a hk
  · intro r hr l hl
    rcases List.mem_append.1 hr with hr | hr
    · exact h.timely r hr l hl
    · rw [List.mem_singleton.1 hr] at hl ⊢
      exact (a.plan_fits.timely l hl).2
  · intro r hr hclock l hl
    refine (h.mem_holds_enter a).2 ?_
    rcases List.mem_append.1 hr with hr | hr
    · exact .inl (h.held r hr hclock l hl)
    · rw [List.mem_singleton.1 hr] at hl ⊢
      exact .inr ⟨l, hl, rfl⟩
  · intro r hr l hl
    rcases List.mem_append.1 hr with hr | hr
    · exact h.joins_old a hr hl
    · rw [List.mem_singleton.1 hr] at hl ⊢
      exact h.joins_new a hl

/-- Only gates that have ended lose their locks, as no two gates have the same number. -/
theorem complete (h : Exclusive job s) (htracked : Tracked job s) :
    Exclusive job (job.completeDue s) := by
  obtain ⟨hteleports, hinside, hholds⟩ := foldl_complete job (due s) s.fabric
  have heq : (job.completeDue s).fabric = (due s).foldl job.complete s.fabric := rfl
  refine ⟨?_, h.timely, ?_, ?_, ?_, ?_⟩
  · intro x hx
    rw [heq, hinside]
    exact h.inside x ((hholds x).1 hx).1
  · intro r hr hclock l hl
    refine (hholds _).2 ⟨h.held r hr hclock l hl, ?_⟩
    intro ended hended hgate
    obtain ⟨hrunning, hfinish⟩ := mem_due.1 hended
    have := List.inj_on_of_nodup_map htracked.nodup hr (htracked.running_routed _ hrunning) hgate
    rw [this] at hclock
    exact absurd hclock hfinish.not_gt
  · rw [heq, hteleports]
    exact h.anchored
  · rw [heq, hteleports]
    exact h.joined
  · rw [heq, hteleports]
    exact h.met

theorem step {s' : RoutingState} (h : Exclusive job s) (htracked : Tracked job s)
    (hstep : Step job pace slacks s s') : Exclusive job s' := by
  cases hstep with
  | complete => exact h.complete htracked
  | wait _ htry =>
      obtain ⟨hgrid, hteleports⟩ := tryRoute_none htry
      obtain ⟨inside, timely, held, anchored, joined, met⟩ := h
      rw [← hgrid] at inside held
      rw [← hteleports] at anchored joined met
      exact ⟨inside, timely, held, anchored, joined, met⟩
  | enter _ a => exact h.enter a
  | advance _ hlt =>
      exact ⟨h.inside, h.timely, fun r hr hclock => h.held r hr (hlt.trans hclock), h.anchored,
        h.joined, h.met⟩

theorem reaches {s' : RoutingState} (h : Exclusive job s) (htracked : Tracked job s)
    (hreach : Reaches job pace slacks s s') : Exclusive job s' := by
  induction hreach with
  | refl => exact h
  | tail hreach hstep ih => exact ih.step (htracked.reaches hreach) hstep

end Exclusive

theorem exclusive_start (job : RoutingJob) {f : Fabric} (hholds : f.grid.holds = [])
    (hteleports : f.teleports = []) : Exclusive job ⟨0, 0, f, [], [], []⟩ := by
  constructor <;> simp [hholds, hteleports]

end RoutingJob

/-- Two gates hold a cell at the same tick only if it is a switch, both hold it for the same window, and
one teleport of that window connects it and serves them both. -/
theorem run_locks_exclusive {c : Circuit} {l : Layout} {m : Mapping} {schedule : Schedule}
    {settings : RoutingSettings} {job : RoutingJob} {f f' : Fabric} {r : Routing}
    (hstart : RoutingJob.start c l m schedule settings = .ok (job, f))
    (hrun : job.run f = .ok (f', .ok r)) :
    ∀ (i j : Nat) (x y : Route), i ≠ j → r.routes[i]? = some x → r.routes[j]? = some y →
      ∀ k ∈ x.locks, ∀ k' ∈ y.locks, k.cell = k'.cell → k.start < k'.stop → k'.start < k.stop →
        (k.start = k'.start ∧ k.stop = k'.stop) ∧ k.cell ∈ job.switches ∧
          ∃ tp ∈ r.teleports, (tp.start = k.start ∧ tp.stop = k.stop) ∧ k.cell ∈ tp.endpoints ∧
            x.gate ∈ tp.gates ∧ y.gate ∈ tp.gates := by
  obtain ⟨grid, hgrid, rfl, rfl⟩ := RoutingJob.start_eq_ok_iff.1 hstart
  obtain ⟨-, rfl⟩ := LockGrid.ofLayout_eq_ok_iff.1 hgrid
  obtain ⟨slacks, s, hreach, -, -, rfl⟩ := RoutingJob.reaches_of_run hrun
  have htracked := (RoutingJob.tracked_start _ _).reaches hreach
  have hexclusive := (RoutingJob.exclusive_start _ rfl rfl).reaches (RoutingJob.tracked_start _ _) hreach
  intro i j x y hij hx hy k hk k' hk' hcell hlt hlt'
  have hne : x.gate ≠ y.gate := fun heq => hij (htracked.position_eq hx hy heq)
  have hx' := List.mem_of_getElem? hx
  have hy' := List.mem_of_getElem? hy
  obtain ⟨tp, htp, hm, hm'⟩ := hexclusive.met x hx' y hy' hne k hk k' hk' hcell hlt hlt'
  obtain ⟨⟨hfirst, hlast⟩, hgate⟩ := hexclusive.joined x hx' k hk tp htp hm
  obtain ⟨⟨hfirst', hlast'⟩, hgate'⟩ := hexclusive.joined y hy' k' hk' tp htp hm'
  refine ⟨⟨hfirst.trans hfirst'.symm, hlast.trans hlast'.symm⟩, ?_, tp, htp, ⟨hfirst.symm, hlast.symm⟩,
    hm.1, hgate, hgate'⟩
  exact (hexclusive.anchored tp htp k.cell hm.1).1

/-- The first two gates of the crossing both hold the switch in the middle at the first tick. -/
theorem crossing_shares_switch : ∃ job f f',
    RoutingJob.start Crossing.circuit Crossing.layout Crossing.mapping Crossing.schedule
        Crossing.settings = .ok (job, f) ∧
      job.run f = .ok (f', .ok Crossing.routing) ∧ ⟨1, 2⟩ ∈ job.switches ∧
      ∃ tp ∈ Crossing.routing.teleports, (tp.start = 0 ∧ tp.stop = 1) ∧ ⟨1, 2⟩ ∈ tp.endpoints ∧
        0 ∈ tp.gates ∧ 1 ∈ tp.gates := by
  obtain ⟨job, f, f', hstart, hrun⟩ := Crossing.exists_run_eq
  have hshared := run_locks_exclusive hstart hrun 0 1 _ _ (by decide) rfl rfl ⟨⟨1, 2⟩, 0, 1⟩
    (by decide) ⟨⟨1, 2⟩, 0, 1⟩ (by decide) rfl (by decide) (by decide)
  exact ⟨job, f, f', hstart, hrun, hshared.2⟩

end SurfaceFabric
