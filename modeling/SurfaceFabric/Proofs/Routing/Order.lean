import SurfaceFabric.Proofs.Circuit
import SurfaceFabric.Proofs.Routing.Step

/-!
A routing executes its circuit: every gate once, for as long as it takes, and not before the gates it
depends on have ended.
-/

namespace SurfaceFabric

namespace RoutingJob

variable {job : RoutingJob} {pace : Pace} {slacks : List Nat}

/-- What the state of a run knows about the gates: each routed gate is running or finished, a finished
one has ended, and none was admitted before its dependencies had ended. -/
structure Tracked (job : RoutingJob) (s : RoutingState) : Prop where
  nodup : (s.routes.map Route.gate).Nodup
  lt_size : ∀ r ∈ s.routes, r.gate < job.circuit.size
  split : (s.finished ++ s.running.map Route.gate).Perm (s.routes.map Route.gate)
  running_routed : ∀ r ∈ s.running, r ∈ s.routes
  finished_ended : ∀ n ∈ s.finished, ∃ r ∈ s.routes, r.gate = n ∧ r.finish ≤ s.clock
  timed : ∀ r ∈ s.routes, ∃ g, job.circuit.gate? r.gate = some g ∧
    r.finish = r.start + max g.cycles 1
  ordered : ∀ r ∈ s.routes, ∀ p ∈ job.circuit.dependencies r.gate,
    ∃ r' ∈ s.routes, r'.gate = p ∧ r'.finish ≤ r.start

theorem mem_due {s : RoutingState} {r : Route} : r ∈ due s ↔ r ∈ s.running ∧ r.finish ≤ s.clock := by
  simp [due]

theorem due_append_perm (s : RoutingState) :
    (due s ++ s.running.filter fun r => s.clock < r.finish).Perm s.running := by
  refine ((sortBy_perm _ _).append_right _).trans ?_
  have hnot : (fun r : Route => decide (s.clock < r.finish)) =
      fun r => !decide (r.finish ≤ s.clock) := by
    funext r
    rw [← decide_not, decide_eq_decide]
    omega
  rw [hnot]
  exact List.filter_append_perm _ _

theorem Tracked.complete {s : RoutingState} (h : Tracked job s) : Tracked job (job.completeDue s) := by
  refine ⟨h.nodup, h.lt_size, ?_, ?_, ?_, h.timed, h.ordered⟩
  · refine List.Perm.trans ?_ h.split
    simp only [completeDue, List.append_assoc]
    rw [← List.map_append]
    exact ((due_append_perm s).map _).append_left _
  · intro r hr
    exact h.running_routed r (List.mem_of_mem_filter hr)
  · intro n hn
    rcases List.mem_append.1 hn with hn | hn
    · exact h.finished_ended n hn
    · obtain ⟨r, hr, rfl⟩ := List.mem_map.1 hn
      obtain ⟨hrunning, hend⟩ := mem_due.1 hr
      exact ⟨r, h.running_routed r hrunning, rfl, hend⟩

theorem Tracked.enter {s : RoutingState} {n : Nat} (h : Tracked job s) (hn : job.Admissible s n)
    (a : Admission job s.fabric n s.clock) :
    Tracked job (s.enter a) := by
  have hgate : a.route.gate = n := rfl
  refine ⟨?_, ?_, ?_, ?_, ?_, ?_, ?_⟩
  · rw [List.map_append, List.nodup_append]
    refine ⟨h.nodup, by simp, ?_⟩
    rintro _ hx _ hy rfl
    obtain ⟨r, hr, heq⟩ := List.mem_map.1 hx
    simp only [List.map_cons, List.map_nil, List.mem_singleton] at hy
    exact hn.not_routed r hr (heq.trans hy)
  · intro r hr
    rcases List.mem_append.1 hr with hr | hr
    · exact h.lt_size r hr
    · rw [List.mem_singleton.1 hr]
      exact hn.lt_size
  · simp only [List.map_append, ← List.append_assoc]
    exact h.split.append_right _
  · intro r hr
    rcases List.mem_append.1 hr with hr | hr
    · exact List.mem_append_left _ (h.running_routed r hr)
    · exact List.mem_append_right _ hr
  · intro m hm
    obtain ⟨r, hr, heq, hend⟩ := h.finished_ended m hm
    exact ⟨r, List.mem_append_left _ hr, heq, hend⟩
  · intro r hr
    rcases List.mem_append.1 hr with hr | hr
    · exact h.timed r hr
    · rw [List.mem_singleton.1 hr]
      exact ⟨a.gate, a.gate_eq, rfl⟩
  · intro r hr p hp
    rcases List.mem_append.1 hr with hr | hr
    · obtain ⟨r', hr', heq, hend⟩ := h.ordered r hr p hp
      exact ⟨r', List.mem_append_left _ hr', heq, hend⟩
    · rw [List.mem_singleton.1 hr] at hp ⊢
      obtain ⟨r', hr', heq, hend⟩ := h.finished_ended p (hn.dependencies_finished p hp)
      exact ⟨r', List.mem_append_left _ hr', heq, hend⟩

theorem Tracked.step {s s' : RoutingState} (h : Tracked job s) (hstep : Step job pace slacks s s') :
    Tracked job s' := by
  cases hstep with
  | complete => exact h.complete
  | wait => exact ⟨h.nodup, h.lt_size, h.split, h.running_routed, h.finished_ended, h.timed, h.ordered⟩
  | enter hn a => exact h.enter hn a
  | advance _ hlt =>
      refine ⟨h.nodup, h.lt_size, h.split, h.running_routed, ?_, h.timed, h.ordered⟩
      intro n hn
      obtain ⟨r, hr, heq, hend⟩ := h.finished_ended n hn
      exact ⟨r, hr, heq, hend.trans hlt.le⟩

theorem tracked_start (job : RoutingJob) (f : Fabric) : Tracked job ⟨0, 0, f, [], [], []⟩ := by
  constructor <;> simp

theorem Tracked.reaches {s s' : RoutingState} (h : Tracked job s)
    (hreach : Reaches job pace slacks s s') : Tracked job s' := by
  induction hreach with
  | refl => exact h
  | tail _ hstep ih => exact ih.step hstep

theorem Tracked.position_eq {s : RoutingState} (h : Tracked job s) {i j : Nat} {x y : Route}
    (hx : s.routes[i]? = some x) (hy : s.routes[j]? = some y) (heq : x.gate = y.gate) : i = j := by
  have hx' : (s.routes.map Route.gate)[i]? = some x.gate := by
    rw [List.getElem?_map, hx, Option.map_some]
  have hy' : (s.routes.map Route.gate)[j]? = some x.gate := by
    rw [List.getElem?_map, hy, Option.map_some, heq]
  obtain ⟨hi, -⟩ := List.getElem?_eq_some_iff.1 hx'
  exact (List.getElem?_inj hi h.nodup).1 (hx'.trans hy'.symm)

theorem Tracked.finished_length_le {s : RoutingState} (h : Tracked job s) :
    s.finished.length ≤ job.circuit.size := by
  have hsub : s.routes.map Route.gate ⊆ List.range job.circuit.size := by
    intro n hn
    obtain ⟨r, hr, rfl⟩ := List.mem_map.1 hn
    exact List.mem_range.2 (h.lt_size r hr)
  have hlength := h.split.length_eq
  have hle := (h.nodup.subperm hsub).length_le
  rw [List.length_append] at hlength
  rw [List.length_range] at hle
  omega

/-- Once as many gates are finished as there are, all of them have been routed. -/
theorem Tracked.routes_perm {s : RoutingState} (h : Tracked job s)
    (hsize : job.circuit.size ≤ s.finished.length) :
    (s.routes.map Route.gate).Perm (List.range job.circuit.size) := by
  have hsub : s.routes.map Route.gate ⊆ List.range job.circuit.size := by
    intro n hn
    obtain ⟨r, hr, rfl⟩ := List.mem_map.1 hn
    exact List.mem_range.2 (h.lt_size r hr)
  refine (h.nodup.subperm hsub).perm_of_length_le ?_
  have hlength := h.split.length_eq
  rw [List.length_append] at hlength
  rw [List.length_range]
  omega

end RoutingJob

structure Routing.Executes (r : Routing) (c : Circuit) : Prop where
  once : (r.routes.map Route.gate).Perm (List.range c.size)
  timed : ∀ x ∈ r.routes, ∃ g, c.gate? x.gate = some g ∧ x.finish = x.start + g.cycles
  ordered : ∀ x ∈ r.routes, ∀ y ∈ r.routes, x.gate ∈ c.dependencies y.gate → x.finish ≤ y.start
  layers_length : r.layers.length = r.cycles
  layers_nodup : ∀ layer ∈ r.layers, layer.Nodup
  mem_layers : ∀ t n, n ∈ r.layers[t]?.getD [] ↔ ∃ x ∈ r.routes, x.gate = n ∧ x.start = t
  finish_le : ∀ x ∈ r.routes, x.finish ≤ r.cycles
  cycles_eq : if c.size = 0 then r.cycles = 0 else ∃ x ∈ r.routes, x.finish = r.cycles

theorem RoutingJob.Tracked.executes {job : RoutingJob} {s : RoutingState} (h : Tracked job s)
    (hc : job.circuit.Built) (hsize : job.circuit.size ≤ s.finished.length) :
    (routingOf s).Executes job.circuit := by
  have hperm := h.routes_perm hsize
  have htimed (x : Route) (hx : x ∈ s.routes) :
      ∃ g, job.circuit.gate? x.gate = some g ∧ 0 < g.cycles ∧ x.finish = x.start + g.cycles := by
    obtain ⟨g, hg, hfinish⟩ := h.timed x hx
    have hpos := hc.cycles_pos hg
    exact ⟨g, hg, hpos, by omega⟩
  have hle (x : Route) (hx : x ∈ s.routes) : x.finish ≤ (s.routes.map Route.finish).max?.getD 0 :=
    List.le_max?_getD_of_mem (List.mem_map_of_mem hx)
  refine ⟨hperm, ?_, ?_, ?_, ?_, ?_, hle, ?_⟩
  · intro x hx
    obtain ⟨g, hg, -, hfinish⟩ := htimed x hx
    exact ⟨g, hg, hfinish⟩
  · intro x hx y hy hdep
    obtain ⟨x', hx', heq, hend⟩ := h.ordered y hy x.gate hdep
    rwa [List.inj_on_of_nodup_map h.nodup hx' hx heq] at hend
  · simp [routingOf]
  · intro layer hlayer
    refine nodup_of_mem_layersOf ?_ hlayer
    simpa [Function.comp_def] using h.nodup
  · intro t n
    have hstarts : ∀ p ∈ s.routes.map (fun r => (r.gate, r.start)),
        p.2 < (s.routes.map Route.finish).max?.getD 0 := by
      intro p hp
      obtain ⟨x, hx, rfl⟩ := List.mem_map.1 hp
      obtain ⟨g, -, hpos, hfinish⟩ := htimed x hx
      have := hle x hx
      simp only
      omega
    simp [routingOf, mem_layersOf hstarts]
  · have hlength := hperm.length_eq
    rw [List.length_map, List.length_range] at hlength
    split
    · next hzero =>
        rw [hzero, List.length_eq_zero_iff] at hlength
        simp [routingOf, hlength]
    · next hne =>
        have hmap : s.routes.map Route.finish ≠ [] := by
          intro hnil
          rw [List.map_eq_nil_iff] at hnil
          simp [hnil] at hlength
          omega
        obtain ⟨x, hx, heq⟩ := List.mem_map.1 (max?_getD_mem hmap)
        exact ⟨x, hx, heq⟩

theorem RoutingJob.executes_of_run {job : RoutingJob} {f f' : Fabric} {r : Routing} (hc : job.circuit.Built)
    (hrun : job.run f = .ok (f', .ok r)) : r.Executes job.circuit := by
  obtain ⟨slacks, s, hreach, hsize, -, rfl⟩ := reaches_of_run hrun
  exact ((tracked_start _ _).reaches hreach).executes hc hsize

/-- A routing that comes out of a run executes the circuit it was made for. -/
theorem run_executes_circuit {c : Circuit} {l : Layout} {m : Mapping} {schedule : Schedule}
    {settings : RoutingSettings} {job : RoutingJob} {f f' : Fabric} {r : Routing} (hc : c.Built)
    (hstart : RoutingJob.start c l m schedule settings = .ok (job, f))
    (hrun : job.run f = .ok (f', .ok r)) : r.Executes c := by
  obtain ⟨grid, -, rfl, rfl⟩ := RoutingJob.start_eq_ok_iff.1 hstart
  exact RoutingJob.executes_of_run hc hrun

namespace Crossing

/-- Two gates whose routes cross at a switch of one corridor, and a third that waits for the first. -/
def circuit : Circuit :=
  ((Circuit.empty.append (.joint "cx" [.register "a", .register "b"] 2)).append
    (.joint "cx" [.register "c", .register "d"] 2)).append (.single "h" (.register "b") 1)

def layout : Layout :=
  .ofTiling ⟨3, 5, [.isolated 0 (.taken .register ⟨0, 0, 1, 1⟩),
    .isolated 1 (.taken .register ⟨0, 2, 1, 3⟩), .isolated 2 (.taken .route ⟨1, 0, 2, 5⟩),
    .isolated 3 (.taken .register ⟨2, 2, 3, 3⟩), .isolated 4 (.taken .register ⟨2, 4, 3, 5⟩)], 5⟩ 0

def mapping : Mapping :=
  ⟨.empty, [(.register "a", ⟨0, 0⟩), (.register "b", ⟨0, 2⟩), (.register "c", ⟨2, 2⟩),
    (.register "d", ⟨2, 4⟩)], ⟨[]⟩⟩

def schedule : Schedule := ⟨3, 2, [[0, 1], [], [2]], [0, 0, 2], [2, 2, 3], [none, none, none]⟩

def settings : RoutingSettings := { teleport := { minRouteLength := 2, minSwitchNeighbours := 1 } }

def leftArm : Teleport := ⟨[0], [⟨1, 0⟩, ⟨1, 1⟩, ⟨1, 2⟩], [⟨1, 0⟩, ⟨1, 1⟩, ⟨1, 2⟩], 0, 1⟩

def rightArm : Teleport := ⟨[1], [⟨1, 2⟩, ⟨1, 3⟩, ⟨1, 4⟩], [⟨1, 2⟩, ⟨1, 3⟩, ⟨1, 4⟩], 0, 1⟩

def routing : Routing where
  cycles := 3
  routes := [
    ⟨0, 0, 2, [⟨0, 0⟩, ⟨1, 0⟩, ⟨1, 1⟩, ⟨1, 2⟩, ⟨0, 2⟩], [leftArm],
      [⟨⟨0, 0⟩, 0, 2⟩, ⟨⟨0, 2⟩, 0, 2⟩, ⟨⟨1, 1⟩, 0, 1⟩, ⟨⟨1, 0⟩, 0, 1⟩, ⟨⟨1, 2⟩, 0, 1⟩]⟩,
    ⟨1, 0, 2, [⟨2, 2⟩, ⟨1, 2⟩, ⟨1, 3⟩, ⟨1, 4⟩, ⟨2, 4⟩], [rightArm],
      [⟨⟨2, 2⟩, 0, 2⟩, ⟨⟨2, 4⟩, 0, 2⟩, ⟨⟨1, 3⟩, 0, 1⟩, ⟨⟨1, 2⟩, 0, 1⟩, ⟨⟨1, 4⟩, 0, 1⟩]⟩,
    ⟨2, 2, 3, [⟨0, 2⟩], [], [⟨⟨0, 2⟩, 2, 3⟩]⟩]
  layers := [[0, 1], [], [2]]
  teleports := [leftArm.absorb rightArm]

theorem built_circuit : circuit.Built :=
  ((Circuit.Built.empty.extend (by decide)).extend (by decide)).extend (by decide)

theorem exists_run_eq : ∃ job f f',
    RoutingJob.start circuit layout mapping schedule settings = .ok (job, f) ∧
      job.run f = .ok (f', .ok routing) := by
  have h : (do
      let (job, f) ← RoutingJob.start circuit layout mapping schedule settings
      return (← job.run f).2) = .ok (.ok routing) := by
    decide +kernel
  obtain ⟨⟨job, f⟩, hstart, h⟩ := bind_eq_ok_iff.1 h
  obtain ⟨⟨f', r⟩, hrun, h⟩ := bind_eq_ok_iff.1 h
  cases h
  exact ⟨job, f, f', hstart, hrun⟩

end Crossing

theorem crossing_executed : Crossing.circuit.Built ∧ ∃ job f f',
    RoutingJob.start Crossing.circuit Crossing.layout Crossing.mapping Crossing.schedule
        Crossing.settings = .ok (job, f) ∧
      job.run f = .ok (f', .ok Crossing.routing) ∧ Crossing.routing.Executes Crossing.circuit := by
  obtain ⟨job, f, f', hstart, hrun⟩ := Crossing.exists_run_eq
  exact ⟨Crossing.built_circuit, job, f, f', hstart, hrun,
    run_executes_circuit Crossing.built_circuit hstart hrun⟩

end SurfaceFabric
