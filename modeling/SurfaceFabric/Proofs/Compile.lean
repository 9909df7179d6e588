import SurfaceFabric.Compile
import SurfaceFabric.Proofs.Mapping
import SurfaceFabric.Proofs.Optimise
import SurfaceFabric.Proofs.Placement.Place
import SurfaceFabric.Proofs.Routing.Order
import SurfaceFabric.Proofs.Routing.Progress
import SurfaceFabric.Proofs.Schedule.Progress

/-!
Ordinary circuits compile as soon as they can be placed. Without factories every plan that climbing tries
is a number of lanes, so the layout it settles on is served and has slots enough; mapping, scheduling and
routing then go through.
-/

namespace SurfaceFabric

namespace Proposal

variable {c : Circuit} {height width : Nat}

structure Bare (c : Circuit) (height width : Nat) (p : Proposal) : Prop where
  factories : p.plan.factories = []
  placed : Layout.place c height width p.plan = .ok p.layout

theorem bare_of_ofPlan {plan : Plan} {p : Proposal} (hplan : plan.factories = [])
    (h : ofPlan c height width plan = .ok p) : p.Bare c height width := by
  obtain ⟨rfl, hplaced, -⟩ := ofPlan_eq_ok h
  exact ⟨hplan, hplaced⟩

theorem Bare.moves {best p : Proposal} (hbest : best.Bare c height width) (h : Moves c height width best p) :
    p.Bare c height width := by
  obtain ⟨plans, hplans, plan, hplan, hp, -⟩ := h
  refine bare_of_ofPlan (List.eq_nil_iff_forall_not_mem.2 fun template hmem => ?_) hp
  have hnone := (of_mem_candidates hplans hplan).2 template hmem
  rw [hbest.factories] at hnone
  exact List.not_mem_nil hnone

theorem bare_of_optimise {plan : Plan} {rounds : Nat} {p : Proposal} (hplan : plan.factories = [])
    (h : optimise c height width plan rounds = .ok p) : p.Bare c height width := by
  obtain ⟨first, hfirst, h⟩ := bind_eq_ok_iff.1 h
  exact of_climb (fun _ _ => Bare.moves) (bare_of_ofPlan hplan hfirst) (Outcome.liftM_eq_ok_iff.1 h)

end Proposal

section Stages

variable {c : Circuit} {a b : Artifacts} {settings : Settings}

theorem StageResult.ofOutcome_eq_ok_iff {old : Artifacts} {r : Outcome CompileError Artifacts} :
    ofOutcome old r = .ok (a, .ok ()) ↔ r = .ok a := by
  constructor
  · intro h
    obtain ⟨result, hresult, h⟩ := bind_eq_ok_iff.1 h
    cases result with
    | error e => cases h
    | ok a' =>
        cases h
        exact Outcome.settle_eq_ok_ok_iff.1 hresult
  · rintro rfl
    rfl

/-- Placing goes by the first plan, or climbs from it. -/
theorem Artifacts.of_place (hsettings : a.settings = some settings) (h : a.place c = .ok b) :
    settings.flaw? = none ∧ ∃ plan, Plan.initial c settings = .ok plan ∧ ∃ p : Proposal,
      (Proposal.optimise c settings.height settings.width plan settings.placement.maxRounds = .ok p ∨
        p.plan = plan ∧ Layout.place c settings.height settings.width plan = .ok p.layout) ∧
      b = { a with plan := some p.plan, layout := some p.layout } := by
  obtain ⟨s, hs, h⟩ := bind_eq_ok_iff.1 h
  rw [hsettings] at hs
  cases hs
  cases hflaw : settings.flaw? with
  | some flaw =>
      simp only [hflaw] at h
      obtain ⟨_, hrefused, _⟩ := bind_eq_ok_iff.1 h
      exact absurd hrefused Outcome.refuse_ne_ok
  | none =>
      simp only [hflaw] at h
      obtain ⟨plan, hinitial, h⟩ := bind_eq_ok_iff.1 h
      refine ⟨rfl, plan, hinitial, ?_⟩
      split at h
      · obtain ⟨p, hp, h⟩ := bind_eq_ok_iff.1 h
        cases h
        exact ⟨p, .inl hp, rfl⟩
      · obtain ⟨l, hl, h⟩ := bind_eq_ok_iff.1 h
        cases h
        exact ⟨⟨plan, l, 0⟩, .inr ⟨rfl, Outcome.mapRefusal_eq_ok_iff.1 hl⟩, rfl⟩

/-- A circuit without factories is placed by a plan without factories. -/
theorem Artifacts.place_eq_ok (hbuilt : c.Built) (hplain : c.Plain)
    (h : ({ settings := some settings } : Artifacts).place c = .ok a) : ∃ p : Proposal,
      p.Bare c settings.height settings.width ∧
        a = { settings := some settings, plan := some p.plan, layout := some p.layout } := by
  obtain ⟨-, plan, hinitial, p, hp, rfl⟩ := of_place rfl h
  have hplan : plan.factories = [] := by
    rw [Plan.initial, hbuilt.templates_eq_nil hplain] at hinitial
    cases hinitial
    rfl
  refine ⟨p, ?_, rfl⟩
  obtain hp | ⟨rfl, hp⟩ := hp
  · exact Proposal.bare_of_optimise hplan hp
  · exact ⟨hplan, hp⟩

namespace Stage

theorem runAll_cons {s : Stage} {rest : List Stage} (hdue : s.isDue a = true)
    (h : s.run c a = .ok (b, .ok ())) : runAll c (s :: rest) a = runAll c rest b := by
  rw [runAll, if_pos hdue, h]
  rfl

/-- Mapping, scheduling and routing of an ordinary circuit on a layout that serves it. -/
theorem exists_runAll {l : Layout} {size : Rect} {anchor : Cell} (hbuilt : c.Built)
    (hordinary : c.Ordinary) (hfits : c.totalCycles ≤ Word.top)
    (hserved : l.tiling.Served size anchor) (hunits : l.units = [])
    (hcapacity : l.checkCapacity c = .ok ()) (hsize : l.height * l.width ≤ Word.top)
    (hsettings : a.settings = some settings) (hlayout : a.layout = some l)
    (hmapping : a.mapping = none) :
    ∃ m s r, r.Executes c ∧ runAll c [mapping, scheduling, routing] a = .ok ({ a with
      mapping := some m, schedule := some s, routing := some r }, .ok ()) := by
  obtain ⟨m, hmap, hhosts⟩ := Mapping.exists_mapCircuit hserved hunits hcapacity hbuilt hordinary.plain
  obtain ⟨s, hs⟩ := Schedule.exists_ofCircuit hbuilt hordinary.plain hfits m.pool l.channels
  have hgrid := LockGrid.ofLayout_eq_ok_iff.2 ⟨hsize, rfl⟩
  let grid : LockGrid := ⟨l.height, l.width, ((LockGrid.allCells l.height l.width).map
    (LockGrid.patchOf l)).toArray, []⟩
  let job : RoutingJob := ⟨c, s, settings.routing, grid.switches settings.routing.teleport⟩
  have hjob : job.Routable l grid m := ⟨hbuilt, hordinary, hfits, hhosts, hgrid, size, anchor, hserved⟩
  obtain ⟨f, r, hrun⟩ := hjob.exists_run
  refine ⟨f.mapping, s, r, RoutingJob.executes_of_run hbuilt hrun, ?_⟩
  have hmapped : mapping.run c a = .ok ({ a with mapping := some m }, .ok ()) := by
    simp only [mapping, Artifacts.map, hmapping, hlayout, hmap]
    rfl
  have hscheduled : scheduling.run c { a with mapping := some m } =
      .ok ({ a with mapping := some m, schedule := some s }, .ok ()) := by
    refine StageResult.ofOutcome_eq_ok_iff.2 ?_
    simp only [Artifacts.schedulePart, hlayout]
    refine bind_eq_ok_iff.2 ⟨l, rfl, bind_eq_ok_iff.2 ⟨m, rfl, bind_eq_ok_iff.2 ⟨s, ?_, rfl⟩⟩⟩
    exact Outcome.mapRefusal_eq_ok_iff.2 hs
  have hrouted : routing.run c { a with mapping := some m, schedule := some s } =
      .ok ({ a with mapping := some f.mapping, schedule := some s, routing := some r }, .ok ()) := by
    have hstart : RoutingJob.start c l m s settings.routing = .ok (job, ⟨grid, m, []⟩) :=
      RoutingJob.start_eq_ok_iff.2 ⟨grid, hgrid, rfl, rfl⟩
    simp only [routing, Artifacts.route, hsettings, hlayout]
    refine bind_eq_ok_iff.2 ⟨.ok (settings, l, s, m), rfl, ?_⟩
    exact bind_eq_ok_iff.2 ⟨_, hstart, bind_eq_ok_iff.2 ⟨_, hrun, rfl⟩⟩
  rw [runAll_cons rfl hmapped, runAll_cons rfl hscheduled, runAll_cons rfl hrouted]
  rfl

end Stage

/-- An ordinary circuit that can be placed is compiled onto the layout it was placed on, with a routing that executes
it. Settings with a flaw are refused when placing. -/
theorem compile_of_allocation (hbuilt : c.Built) (hordinary : c.Ordinary)
    (hgrid : settings.height * settings.width < 2 ^ 32)
    (hcycles : c.totalCycles + settings.routing.deadlockThreshold + 1 < 2 ^ 32)
    (hplaced : Stage.allocation.run c { settings := some settings } = .ok (a, .ok ())) :
    ∃ r, compile c settings = .ok r ∧ a.layout = some r.layout ∧ r.routing.Executes c := by
  obtain ⟨p, hbare, rfl⟩ :=
    Artifacts.place_eq_ok hbuilt hordinary.plain (StageResult.ofOutcome_eq_ok_iff.1 hplaced)
  obtain ⟨⟨row, hserved⟩, hunits, hcapacity⟩ := Layout.place_eq_ok hbare.factories hbare.placed
  have hsize : p.layout.height * p.layout.width ≤ Word.top := by
    have heq : p.layout.tiling.grid = ⟨0, 0, settings.height, settings.width⟩ := hserved.grid_eq
    rw [Tiling.grid, Rect.mk.injEq] at heq
    rw [Layout.height, Layout.width, heq.2.2.1, heq.2.2.2, Word.top]
    omega
  have hfits : c.totalCycles ≤ Word.top := by
    rw [Word.top]
    omega
  obtain ⟨m, s, r, hexecutes, hrest⟩ := Stage.exists_runAll (a := ⟨some settings, some p.plan, some p.layout, none,
    none, none, {}⟩) hbuilt hordinary hfits hserved hunits hcapacity hsize rfl rfl rfl
  refine ⟨⟨p.layout, s, r⟩, ?_, rfl, hexecutes⟩
  have hall : Stage.runAll c Stage.standard { settings := some settings } = _ :=
    (Stage.runAll_cons rfl hplaced).trans hrest
  exact bind_eq_ok_iff.2 ⟨_, Outcome.liftM_eq_ok_iff.2 hall, rfl⟩

end Stages

namespace Exchange

/-- Two gates side by side, one of them with an I/O symbol, and a third that waits for the first. -/
def circuit : Circuit :=
  ((Circuit.empty.append (.joint "cx" [.register "a", .register "b"] 2)).append
    (.joint "cx" [.register "c", .io "out"] 3)).append (.single "h" (.register "b") 1)

def settings : Settings where
  height := 6
  width := 6
  routing := { teleport := { policy := .alap, minRouteLength := 2 } }

theorem built_circuit : circuit.Built :=
  ((Circuit.Built.empty.extend (by decide)).extend (by decide)).extend (by decide)

theorem ordinary_circuit : circuit.Ordinary := by
  intro n g hg
  obtain ⟨node, hnode, rfl⟩ := Option.map_eq_some_iff.1 hg
  have hall : ∀ node ∈ circuit.nodes, node.gate.operands.length ≤ 2 ∧
      ∀ s ∈ node.gate.operands, s.isFactory = false := by
    decide
  exact hall node (List.mem_of_getElem? hnode)

theorem exists_allocation :
    ∃ a, Stage.allocation.run circuit { settings := some settings } = .ok (a, .ok ()) := by
  obtain ⟨⟨a, result⟩, hrun, hresult⟩ :=
    exists_ok_of_any (x := Stage.allocation.run circuit { settings := some settings })
      (p := fun x => x.2 = .ok ()) (by decide +kernel)
  exact ⟨a, hresult ▸ hrun⟩

end Exchange

theorem exchange_compiled : Exchange.circuit.Built ∧ Exchange.circuit.Ordinary ∧
    Exchange.settings.height * Exchange.settings.width < 2 ^ 32 ∧
    Exchange.circuit.totalCycles + Exchange.settings.routing.deadlockThreshold + 1 < 2 ^ 32 ∧
    ∃ a r, Stage.allocation.run Exchange.circuit { settings := some Exchange.settings } =
        .ok (a, .ok ()) ∧
      compile Exchange.circuit Exchange.settings = .ok r ∧ a.layout = some r.layout ∧
        r.routing.Executes Exchange.circuit := by
  obtain ⟨a, hplaced⟩ := Exchange.exists_allocation
  obtain ⟨r, hcompiled, hlayout, hexecutes⟩ := compile_of_allocation Exchange.built_circuit
    Exchange.ordinary_circuit (by decide) (by decide) hplaced
  exact ⟨Exchange.built_circuit, Exchange.ordinary_circuit, by decide, by decide, a, r, hplaced,
    hcompiled, hlayout, hexecutes⟩

end SurfaceFabric
