import SurfaceFabric.Proofs.Outcome
import SurfaceFabric.Proofs.PathSearch
import SurfaceFabric.Routing.Admission

/-!
What the admission of a gate rests on: operand cells that are free for the whole gate, legs between
them that meet neither each other nor another operand, and a plan of locks that the grid grants.
-/

namespace SurfaceFabric

namespace RoutingJob

structure Admission (job : RoutingJob) (f : Fabric) (n t : Nat) where
  gate : Gate
  cells : List Cell
  tickets : List Ticket
  mapping : Mapping
  legs : List (List Cell)
  gate_eq : job.circuit.gate? n = some gate
  stop_le : t + max gate.cycles 1 ≤ Word.top
  resolve_eq : job.resolve n gate.isReset gate.operands [] [] f.mapping = (.found cells, tickets, mapping)
  cells_free : ∀ c ∈ cells, f.grid.isFree c t (t + max gate.cycles 1) = true
  legs_eq : job.legs f.grid (sharedEndpoints f (job.window t (t + max gate.cycles 1))) t
    (t + max gate.cycles 1) cells cells = .ok (some legs)
  feasible : isFeasible f.grid (sharedEndpoints f (job.window t (t + max gate.cycles 1)))
    (job.planLocks n t (t + max gate.cycles 1) cells (legs.map interior)) = true

namespace Admission

variable {job : RoutingJob} {f : Fabric} {n t : Nat} (a : Admission job f n t)

def stop : Nat := t + max a.gate.cycles 1

def shared : List Cell := sharedEndpoints f (job.window t a.stop)

def plan : LockPlan := job.planLocks n t a.stop a.cells (a.legs.map interior)

def route : Route :=
  ⟨n, t, a.stop, pathOf a.cells a.legs, a.plan.teleports, a.plan.locks ++ a.plan.ends⟩

def fabric : Fabric := commit { f with mapping := a.mapping } n a.tickets a.plan

theorem lt_stop : t < a.stop := by
  unfold stop
  omega

end Admission

theorem plan?_eq_some_iff {job : RoutingJob} {f : Fabric} {n t stop : Nat} {cells path : List Cell}
    {plan : LockPlan} :
    job.plan? f n t stop cells = .ok (some (path, plan)) ↔
      (∀ c ∈ cells, f.grid.isFree c t stop = true) ∧
      ∃ legs, job.legs f.grid (sharedEndpoints f (job.window t stop)) t stop cells cells =
          .ok (some legs) ∧
        isFeasible f.grid (sharedEndpoints f (job.window t stop))
          (job.planLocks n t stop cells (legs.map interior)) = true ∧
        path = pathOf cells legs ∧ plan = job.planLocks n t stop cells (legs.map interior) := by
  unfold plan?
  by_cases hfree : ∀ c ∈ cells, f.grid.isFree c t stop = true
  · have hall : (cells.all fun c => f.grid.isFree c t stop) = true := List.all_eq_true.2 hfree
    simp only [hall, Bool.not_true, Bool.false_eq_true, if_false, bind_eq_ok_iff]
    constructor
    · rintro ⟨found, hlegs, h⟩
      cases found with
      | none => simp at h
      | some legs =>
          simp only [pure_eq_ok_iff] at h
          split at h
          · next hfeasible =>
              simp only [Option.some.injEq, Prod.mk.injEq] at h
              exact ⟨hfree, legs, hlegs, hfeasible, h.1.symm, h.2.symm⟩
          · cases h
    · rintro ⟨-, legs, hlegs, hfeasible, rfl, rfl⟩
      exact ⟨some legs, hlegs, by simp [hfeasible]⟩
  · have hall : ¬(cells.all fun c => f.grid.isFree c t stop) = true := by
      rwa [List.all_eq_true]
    simp only [Bool.not_eq_true] at hall
    simp [hall, hfree]

theorem tryRoute_eq_some_iff {job : RoutingJob} {f f' : Fabric} {n t : Nat} {r : Route} :
    job.tryRoute f n t = .ok (f', .ok (some r)) ↔
      ∃ a : Admission job f n t, f' = a.fabric ∧ r = a.route := by
  unfold tryRoute
  constructor
  · intro h
    split at h
    · next g hg =>
        obtain ⟨stop, hstop, h⟩ := bind_eq_ok_iff.1 h
        obtain ⟨hle, rfl⟩ := Word.add_eq_ok_iff.1 hstop
        generalize hres : job.resolve n g.isReset g.operands [] [] f.mapping = res at h
        obtain ⟨operands, tickets, m⟩ := res
        cases operands with
        | unmapped s => simp at h
        | lacking => simp at h
        | found cells =>
            obtain ⟨found, hplan, h⟩ := bind_eq_ok_iff.1 h
            cases found with
            | none => simp at h
            | some p =>
                obtain ⟨path, plan⟩ := p
                simp only [pure_eq_ok_iff, Prod.mk.injEq, Except.ok.injEq, Option.some.injEq] at h
                obtain ⟨hfree, legs, hlegs, hfeasible, rfl, rfl⟩ := plan?_eq_some_iff.1 hplan
                exact ⟨⟨g, cells, tickets, m, legs, hg, hle, hres, hfree, hlegs, hfeasible⟩,
                  h.1.symm, h.2.symm⟩
    · simp at h
  · rintro ⟨a, rfl, rfl⟩
    have hplan : job.plan? { f with mapping := a.mapping } n t a.stop a.cells =
        .ok (some (pathOf a.cells a.legs, a.plan)) :=
      plan?_eq_some_iff.2 ⟨a.cells_free, a.legs, a.legs_eq, a.feasible, rfl, rfl⟩
    have hadd : Word.add t (max a.gate.cycles 1) = .ok a.stop :=
      Word.add_eq_ok_iff.2 ⟨a.stop_le, rfl⟩
    simp only [a.gate_eq, hadd, a.resolve_eq]
    refine bind_eq_ok_iff.2 ⟨_, rfl, ?_⟩
    exact bind_eq_ok_iff.2 ⟨_, hplan, rfl⟩

/-- Of a job, its schedule alone decides how operands are found. -/
theorem resolve_of_schedule_eq {job job' : RoutingJob} (h : job'.schedule = job.schedule) {n : Nat} {isReset : Bool}
    {operands : List Symbol} {cells : List Cell} {tickets : List Ticket} {m : Mapping} :
    job'.resolve n isReset operands cells tickets m = job.resolve n isReset operands cells tickets m := by
  induction operands generalizing cells tickets m with
  | nil => rfl
  | cons s rest ih => simp only [resolve, reserve?, h, ih]

/-- A gate that is not admitted gives back what it reserved while its operands were looked for. -/
theorem tryRoute_refused {job : RoutingJob} {f f' : Fabric} {n t : Nat}
    {result : Except CompileError (Option Route)} (h : job.tryRoute f n t = .ok (f', result))
    (hrefused : ∀ r, result ≠ .ok (some r)) :
    f' = f ∨ ∃ (g : Gate) (operands : Operands) (tickets : List Ticket) (m : Mapping),
      job.resolve n g.isReset g.operands [] [] f.mapping = (operands, tickets, m) ∧
      f' = Fabric.rollback { f with mapping := m } tickets := by
  rw [tryRoute] at h
  split at h
  · next g _ =>
      obtain ⟨stop, -, h⟩ := bind_eq_ok_iff.1 h
      generalize hres : job.resolve n g.isReset g.operands [] [] f.mapping = res at h
      obtain ⟨operands, tickets, m⟩ := res
      refine .inr ⟨g, operands, tickets, m, hres, ?_⟩
      cases operands with
      | unmapped s => exact (Prod.mk.inj (pure_eq_ok_iff.1 h)).1.symm
      | lacking => exact (Prod.mk.inj (pure_eq_ok_iff.1 h)).1.symm
      | found cells =>
          obtain ⟨found, -, h⟩ := bind_eq_ok_iff.1 h
          cases found with
          | none => exact (Prod.mk.inj (pure_eq_ok_iff.1 h)).1.symm
          | some p => exact absurd (Prod.mk.inj (pure_eq_ok_iff.1 h)).2.symm (hrefused _)
  · exact .inl (Prod.mk.inj (pure_eq_ok_iff.1 h)).1.symm

theorem leg?_isPath {job : RoutingJob} {grid : LockGrid} {shared blocked : List Cell}
    {start stop : Nat} {a b : Cell} {leg : List Cell} (ha : grid.inside a = true)
    (h : job.leg? grid shared start stop blocked a b = some leg) :
    ∃ q : PathQuery, q.grid = grid ∧ q.blocked = blocked ∧ PathSearch.IsPath q a b leg := by
  unfold leg? at h
  rcases Option.or_eq_some_iff.1 h with h | ⟨-, h⟩
  · exact ⟨_, rfl, rfl, PathSearch.findBy?_isPath (by exact ha) h⟩
  · split at h
    · exact ⟨_, rfl, rfl, PathSearch.findBy?_isPath (by exact ha) h⟩
    · cases h

theorem legs_cons_cons {job : RoutingJob} {grid : LockGrid} {shared blocked rest : List Cell}
    {start stop : Nat} {a b : Cell} {legs : List (List Cell)}
    (h : job.legs grid shared start stop blocked (a :: b :: rest) = .ok (some legs)) :
    ∃ leg later, legs = leg :: later ∧ 2 ≤ leg.length ∧
      job.leg? grid shared start stop (blocked.filter fun c => c ≠ a ∧ c ≠ b) a b = some leg ∧
      job.legs grid shared start stop ((blocked.filter fun c => c ≠ a ∧ c ≠ b) ++ leg) (b :: rest) =
        .ok (some later) := by
  simp only [RoutingJob.legs] at h
  split at h
  · simp at h
  · next leg hleg =>
      split at h
      · cases h
      · next hlength =>
          obtain ⟨found, hlater, h⟩ := bind_eq_ok_iff.1 h
          simp only [pure_eq_ok_iff, Option.map_eq_some_iff] at h
          obtain ⟨later, rfl, rfl⟩ := h
          exact ⟨leg, later, rfl, by omega, hleg, hlater⟩

/-- The cells between operands are routing, not blocked, and all different. -/
theorem legs_interiors {job : RoutingJob} {grid : LockGrid} {shared blocked cells : List Cell}
    {start stop : Nat} {legs : List (List Cell)}
    (h : job.legs grid shared start stop blocked cells = .ok (some legs))
    (hinside : ∀ c ∈ cells, grid.inside c = true) :
    (legs.map interior).flatten.Nodup ∧
      ∀ c ∈ (legs.map interior).flatten, grid.isRoute c = true ∧ c ∉ blocked := by
  induction cells generalizing blocked legs with
  | nil =>
      simp only [RoutingJob.legs, pure_eq_ok_iff, Option.some.injEq] at h
      simp [← h]
  | cons a tail ih =>
      cases tail with
      | nil =>
          simp only [RoutingJob.legs, pure_eq_ok_iff, Option.some.injEq] at h
          simp [← h]
      | cons b rest =>
          obtain ⟨leg, later, rfl, hlength, hleg, hlater⟩ := legs_cons_cons h
          obtain ⟨q, rfl, hblocked, hpath⟩ := leg?_isPath (hinside a (by simp)) hleg
          obtain ⟨inner, rfl⟩ := hpath.eq_cons_append hlength
          obtain ⟨hnodup, hinner⟩ := hpath.interior
          obtain ⟨hlaterNodup, hlaterCells⟩ := ih hlater fun c hc => hinside c (by simp [hc])
          have heq : interior (a :: (inner ++ [b])) = inner := by
            simp [interior]
          simp only [List.map_cons, List.flatten_cons, heq]
          refine ⟨List.nodup_append.2 ⟨hnodup, hlaterNodup, ?_⟩, ?_⟩
          · rintro c hc d hd rfl
            exact (hlaterCells c hd).2 (by simp [hc])
          · intro c hc
            rcases List.mem_append.1 hc with hc | hc
            · obtain ⟨hpass, hca, hcb⟩ := hinner c hc
              simp only [PathQuery.passable, Bool.and_eq_true, decide_eq_true_eq] at hpass
              refine ⟨hpass.1.1, ?_⟩
              intro hmem
              exact hpass.1.2 (by simp [hblocked, hmem, hca, hcb])
            · refine ⟨(hlaterCells c hc).1, ?_⟩
              -- what was blocked before stays blocked, the two ends of the leg as part of it
              intro hmem
              refine (hlaterCells c hc).2 ?_
              by_cases hca : c = a
              · simp [hca]
              · by_cases hcb : c = b
                · simp [hcb]
                · simp [hmem, hca, hcb]

end RoutingJob

end SurfaceFabric
