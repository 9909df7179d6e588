import SurfaceFabric.Proofs.Routing.LockPlan
import SurfaceFabric.Proofs.Routing.Order

/-!
Bridging against holding everything. A search that may use relaxed switches comes second, so whatever is found without
teleports is found with them. A bridge only shortens the time for which cells are held, so a plan that the grid grants
without bridges is granted with them.
-/

namespace SurfaceFabric

namespace RoutingJob

variable {job : RoutingJob} {f : Fabric} {n t start stop : Nat} {cells : List Cell} {inners : List (List Cell)}

def retuned (job : RoutingJob) (teleport : TeleportSettings) (switches : List Cell) : RoutingJob :=
  { job with settings := { job.settings with teleport := teleport }, switches := switches }

variable {teleport : TeleportSettings} {switches : List Cell}

/-- Legs that are found without teleports are found with them. -/
theorem legs_retuned {grid : LockGrid} {shared shared' blocked : List Cell} {legs : List (List Cell)}
    (hoff : job.settings.teleport.enabled = false)
    (h : job.legs grid shared start stop blocked cells = .ok (some legs)) :
    (job.retuned teleport switches).legs grid shared' start stop blocked cells = .ok (some legs) := by
  induction cells generalizing blocked legs with
  | nil => exact h
  | cons a tail ih =>
      cases tail with
      | nil => exact h
      | cons b rest =>
          obtain ⟨leg, later, rfl, hlength, hleg, hlater⟩ := legs_cons_cons h
          simp only [leg?, hoff, Bool.false_eq_true, if_false, Option.or_none] at hleg
          have hleg' : (job.retuned teleport switches).leg? grid shared' start stop
              (blocked.filter fun c => c ≠ a ∧ c ≠ b) a b = some leg := by
            simp only [leg?, hleg, Option.some_or]
          simp only [RoutingJob.legs, hleg', if_neg (Nat.not_lt.2 hlength), ih hlater]
          rfl

/-- Without teleports a gate holds all its cells for as long as it takes. -/
theorem planLocks_of_disabled (hoff : job.settings.teleport.enabled = false) :
    job.planLocks n start stop cells inners =
      ⟨(cells ++ inners.flatten).map fun c => ⟨c, start, stop⟩, [], []⟩ := by
  have hleg : job.planLeg n start stop false = fun inner => ⟨inner.map fun c => ⟨c, start, stop⟩, [], []⟩ := rfl
  simp [planLocks, hoff, hleg, List.flatMap_def, List.map_flatten, Function.comp_def]

/-- With teleports or without, a gate locks its operands and everything between them. -/
theorem exists_planLocks {c : Cell} (hc : c ∈ cells ∨ c ∈ inners.flatten) :
    ∃ l ∈ (job.planLocks n start stop cells inners).locks ++ (job.planLocks n start stop cells inners).ends,
      l.cell = c := by
  rcases hc with hc | hc
  · exact ⟨_, mem_planLocks.2 (.inl ⟨c, hc, rfl⟩), rfl⟩
  · obtain ⟨inner, hinner, hc⟩ := List.mem_flatten.1 hc
    have hleg : ∃ l ∈ (job.planLeg n start stop (job.isBridging inners) inner).locks ++
        (job.planLeg n start stop (job.isBridging inners) inner).ends, l.cell = c := by
      rcases planLeg_cases job n start stop (job.isBridging inners) inner with
        hplan | ⟨before, a, mid, b, after, rfl, -, -, hplan⟩
      · rw [hplan]
        simpa using hc
      · rw [hplan]
        simp only [List.mem_append, List.mem_cons, List.not_mem_nil, or_false] at hc
        simp only [List.mem_append, List.mem_map, List.mem_cons, List.not_mem_nil, or_false]
        grind
    obtain ⟨l, hl, hcell⟩ := hleg
    exact ⟨l, mem_planLocks.2 (.inr ⟨inner, hinner, hl⟩), hcell⟩

def Admission.retuned (a : Admission job f n t) (hoff : job.settings.teleport.enabled = false)
    (teleport : TeleportSettings) (switches : List Cell) : Admission (job.retuned teleport switches) f n t where
  gate := a.gate
  cells := a.cells
  tickets := a.tickets
  mapping := a.mapping
  legs := a.legs
  gate_eq := a.gate_eq
  stop_le := a.stop_le
  resolve_eq := by
    rw [← a.resolve_eq]
    exact resolve_of_schedule_eq (by rfl)
  cells_free := a.cells_free
  legs_eq := legs_retuned hoff a.legs_eq
  feasible := by
    refine isFeasible_of_free a.lt_stop a.cells_free (legs_retuned hoff a.legs_eq) fun c hc => ?_
    -- without teleports the plan has asked for the whole time
    have hlocks := (Bool.and_eq_true_iff.1 a.feasible).1
    rw [planLocks_of_disabled hoff, List.all_map, List.all_eq_true] at hlocks
    exact hlocks c (List.mem_append_right _ hc)

end RoutingJob

/-- A gate that is admitted without teleports is admitted with them from the same state, on the same path, for the same
ticks and with the same factories. It locks the same cells, and none of them for longer. -/
theorem bridging_costs_no_admission {job : RoutingJob} {f f' : Fabric} {n t : Nat} {r : Route}
    (hoff : job.settings.teleport.enabled = false) (hadmitted : job.tryRoute f n t = .ok (f', .ok (some r)))
    (teleport : TeleportSettings) (switches : List Cell) :
    ∃ f'' r', (job.retuned teleport switches).tryRoute f n t = .ok (f'', .ok (some r')) ∧ r'.path = r.path ∧
      r'.start = r.start ∧ r'.finish = r.finish ∧ f''.mapping = f'.mapping ∧
      (∀ c, (∃ k ∈ r'.locks, k.cell = c) ↔ ∃ l ∈ r.locks, l.cell = c) ∧
      ∀ k ∈ r'.locks, ∀ l ∈ r.locks, k.cell = l.cell → l.start ≤ k.start ∧ k.stop ≤ l.stop := by
  obtain ⟨a, rfl, rfl⟩ := RoutingJob.tryRoute_eq_some_iff.1 hadmitted
  have hlocks : a.route.locks = (a.cells ++ (a.legs.map RoutingJob.interior).flatten).map
      fun c => ⟨c, t, a.stop⟩ := by
    show a.plan.locks ++ a.plan.ends = _
    rw [RoutingJob.Admission.plan, RoutingJob.planLocks_of_disabled hoff, List.append_nil]
  let b := a.retuned hoff teleport switches
  refine ⟨b.fabric, b.route, RoutingJob.tryRoute_eq_some_iff.2 ⟨b, rfl, rfl⟩, rfl, rfl, rfl, rfl, fun c => ?_, ?_⟩
  · simp only [hlocks, List.mem_map, exists_exists_and_eq_and]
    constructor
    · rintro ⟨k, hk, rfl⟩
      exact ⟨k.cell, List.mem_append.2 (RoutingJob.planLocks_cells hk), rfl⟩
    · rintro ⟨d, hd, rfl⟩
      exact RoutingJob.exists_planLocks (List.mem_append.1 hd)
  · intro k hk l hl _
    rw [hlocks] at hl
    obtain ⟨d, -, rfl⟩ := List.mem_map.1 hl
    obtain ⟨hstart, -, hstop⟩ := b.plan_fits.timely k hk
    exact ⟨hstart, hstop⟩

/-- The first gate of the crossing holds the corridor throughout without teleports, and could bridge it. -/
theorem crossing_bridged : ∃ job f f' r, RoutingJob.start Crossing.circuit Crossing.layout Crossing.mapping
      Crossing.schedule { teleport := { enabled := false } } = .ok (job, f) ∧
    job.tryRoute f 0 0 = .ok (f', .ok (some r)) ∧ r.locks.all (fun l => l.start = 0 ∧ l.stop = 2) = true ∧
    ∃ f'' r', (job.retuned Crossing.settings.teleport [⟨1, 0⟩, ⟨1, 1⟩, ⟨1, 2⟩]).tryRoute f 0 0 =
      .ok (f'', .ok (some r')) ∧ r'.path = r.path := by
  have h : (do
      let (job, f) ← RoutingJob.start Crossing.circuit Crossing.layout Crossing.mapping Crossing.schedule
        { teleport := { enabled := false } }
      return (← job.tryRoute f 0 0).2) = .ok (.ok (some ⟨0, 0, 2, [⟨0, 0⟩, ⟨1, 0⟩, ⟨1, 1⟩, ⟨1, 2⟩, ⟨0, 2⟩], [],
        [⟨⟨0, 0⟩, 0, 2⟩, ⟨⟨0, 2⟩, 0, 2⟩, ⟨⟨1, 0⟩, 0, 2⟩, ⟨⟨1, 1⟩, 0, 2⟩, ⟨⟨1, 2⟩, 0, 2⟩]⟩)) := by
    decide +kernel
  obtain ⟨⟨job, f⟩, hstart, h⟩ := bind_eq_ok_iff.1 h
  obtain ⟨⟨f', found⟩, hadmitted, h⟩ := bind_eq_ok_iff.1 h
  cases h
  obtain ⟨grid, -, rfl, rfl⟩ := RoutingJob.start_eq_ok_iff.1 hstart
  obtain ⟨f'', r', hbridged, hpath, -⟩ :=
    bridging_costs_no_admission rfl hadmitted Crossing.settings.teleport [⟨1, 0⟩, ⟨1, 1⟩, ⟨1, 2⟩]
  exact ⟨_, _, f', _, hstart, hadmitted, by decide, f'', r', hbridged, hpath⟩

end SurfaceFabric
