import SurfaceFabric.Proofs.Circuit.Countdown
import SurfaceFabric.Proofs.Compile
import SurfaceFabric.Proofs.Routing.Safety

/-!
How a compilation may fail. Settings are checked before anything else, and so are the templates that the circuit
asks for. From then on each stage finds what the one before has left, and fails only where there is no room on the
grid or where gates wait for each other for good. With the grid, the templates and all cycles within a word no stage
faults, unless segment numbers run out.
-/

namespace SurfaceFabric

/-- Refusals with a cause in the circuit or in the settings. -/
inductive CompileError.Documented (c : Circuit) (settings : Settings) : CompileError → Prop
  | flawed {flaw : SettingsFlaw} (h : settings.flaw? = some flaw) : Documented c settings (.flawed flaw)
  | unknownTemplate {name : String} (hname : name ∈ c.templates) (h : settings.template? name = none) :
      Documented c settings (.unknownTemplate name)
  | gridTooSmall (h : settings.height = 1) :
      Documented c settings (.placement (.gridTooSmall settings.height settings.width))
  | ioExhausted (h : settings.width < c.ioCount) : Documented c settings (.placement (.ioExhausted c.ioCount))
  | factoryExhausted {name : String} {template : Template} (hname : name ∈ c.templates)
      (h : settings.template? name = some template) :
      Documented c settings (.placement (.factoryExhausted template.symbol template.height template.width))
  | insufficientSlots {kind : SlotKind} {available : Nat} (h : available < c.demand kind) :
      Documented c settings (.placement (.insufficientSlots kind (c.demand kind) available))
  | deadlock {d : Deadlock} (h : 0 < d.waiting ∧ d.waiting ≤ c.size) : Documented c settings (.deadlock d)

namespace Settings

variable {settings : Settings}

theorem inhabited_of_templateFlaw? {seen : List String} {templates : List Template}
    (h : templateFlaw? seen templates = none) : ∀ template ∈ templates, template.Inhabited := by
  induction templates generalizing seen with
  | nil => simp
  | cons t rest ih =>
      unfold templateFlaw? at h
      split at h
      · cases h
      split at h
      · cases h
      split at h
      · cases h
      · next hsizes _ =>
          simp only [List.forall_mem_cons]
          exact ⟨⟨by omega, by omega⟩, ih h⟩

theorem of_flaw?_eq_none (h : settings.flaw? = none) :
    (0 < settings.height ∧ 0 < settings.width) ∧ ∀ template ∈ settings.templates, template.Inhabited := by
  unfold flaw? at h
  split at h
  · cases h
  · next hsize =>
      split at h
      · cases h
      · next htemplates => exact ⟨by omega, inhabited_of_templateFlaw? htemplates⟩

end Settings

/-! ### Placing -/

section Stages

variable {c : Circuit} {a : Artifacts} {settings : Settings} {B : Prop}

theorem Plan.failsOnly_initial :
    FailsOnly (Stop.Allowed B (CompileError.Documented c settings)) (initial c settings) := by
  refine (FailsOnly.mapM fun name hname => ?_).bind fun _ _ => .pure _
  exact .ofOption fun hnone => .unknownTemplate hname hnone

/-- The factories of the first plan are configured for templates of the circuit. -/
theorem Plan.of_initial {plan : Plan} (h : initial c settings = .ok plan) :
    plan.lanes = 0 ∧ ∀ template ∈ plan.factories,
      ∃ name ∈ c.templates, settings.template? name = some template := by
  obtain ⟨factories, hfactories, h⟩ := bind_eq_ok_iff.1 h
  cases h
  refine ⟨rfl, fun template hmem => ?_⟩
  obtain ⟨name, hname, hfound⟩ := exists_of_mem_mapM hfactories hmem
  exact ⟨name, hname, Outcome.ofOption_eq_ok_iff.1 hfound⟩

/-- A first plan is refused for a cause. -/
theorem PlacementError.Expected.documented {plan : Plan} {e : PlacementError}
    (hinitial : Plan.initial c settings = .ok plan) (hsound : settings.flaw? = none)
    (h : Expected c settings.height settings.width plan e) : CompileError.Documented c settings (.placement e) := by
  obtain ⟨hlanes, hfactories⟩ := Plan.of_initial hinitial
  obtain ⟨⟨hheight, hwidth⟩, -⟩ := Settings.of_flaw?_eq_none hsound
  cases e with
  | gridTooSmall height width =>
      obtain ⟨rfl, rfl, hsmall⟩ := h
      exact .gridTooSmall (by omega)
  | ioExhausted n =>
      obtain ⟨rfl, hnarrow⟩ := h
      exact .ioExhausted hnarrow
  | factoryExhausted symbol height width =>
      obtain ⟨template, hmem, rfl, rfl, rfl⟩ := h
      obtain ⟨name, hname, htemplate⟩ := hfactories template hmem
      exact .factoryExhausted hname htemplate
  | laneExhausted => exact absurd hlanes (Nat.ne_of_gt h)
  | insufficientSlots kind required available =>
      obtain ⟨rfl, hfew⟩ := h
      exact .insufficientSlots hfew
  | disconnected segment => exact h.elim
  | geometry e => exact h.elim

/-- Bounds within which all numbers of a compilation stay in their words. -/
structure Settings.Bounds (settings : Settings) (c : Circuit) : Prop where
  grid : settings.height * settings.width ≤ Word.top
  templates : ∀ template ∈ settings.templates, template.InWord
  ticks : c.totalCycles + settings.routing.deadlockThreshold + 1 ≤ Word.top

theorem Settings.Bounds.cycles (h : settings.Bounds c) : c.totalCycles ≤ Word.top := by
  have := h.ticks
  omega

theorem Artifacts.failsOnly_place (hbuilt : c.Built) (hsettings : a.settings = some settings)
    (hB : B → settings.Bounds c) :
    FailsOnly (Stop.Allowed B (CompileError.Documented c settings)) (a.place c) := by
  unfold Artifacts.place
  rw [hsettings]
  refine (FailsOnly.ok settings).bind fun settings' hsame => ?_
  cases hsame
  cases hflaw : settings.flaw? with
  | some flaw =>
      exact (FailsOnly.refuse (.flawed hflaw)).bind fun _ hnone => absurd hnone Outcome.refuse_ne_ok
  | none =>
      refine Plan.failsOnly_initial.bind fun plan hinitial => ?_
      obtain ⟨hlanes, hfactories⟩ := Plan.of_initial hinitial
      obtain ⟨-, hinhabited⟩ := Settings.of_flaw?_eq_none hflaw
      have hknown (template : Template) (ht : template ∈ plan.factories) : template ∈ settings.templates := by
        obtain ⟨name, -, hfound⟩ := hfactories template ht
        exact List.mem_of_find?_eq_some hfound
      have hplan (template : Template) (ht : template ∈ plan.factories) := hinhabited template (hknown template ht)
      have hword (hb : B) (template : Template) (ht : template ∈ plan.factories) :=
        (hB hb).templates template (hknown template ht)
      refine .ite (fun _ => ?_) fun _ => ?_
      · refine FailsOnly.bind ?_ fun _ _ => .pure _
        have hfirst : FailsOnly (Stop.Allowed B (CompileError.Documented c settings))
            (Proposal.ofPlan c settings.height settings.width plan) :=
          Proposal.failsOnly_ofPlan hbuilt hplan (fun _ => PlacementError.Expected.documented hinitial hflaw)
            (fun _ => .deadlock) fun hb => ⟨(hB hb).grid, hword hb, (hB hb).cycles⟩
        refine hfirst.bind fun first hrealised => .lift ?_
        exact (Proposal.grounded_of_ofPlan hbuilt hknown hlanes hrealised).failsOnly_climb hbuilt hinhabited
          fun hb => ⟨(hB hb).grid, (hB hb).templates, (hB hb).cycles⟩
      · refine (FailsOnly.mapRefusal ?_).bind fun _ _ => .pure _
        exact (Layout.failsOnly_place hplan fun hb => ⟨(hB hb).grid, hword hb⟩).weaken
          fun _ => PlacementError.Expected.documented hinitial hflaw

/-! ### From stage to stage -/

structure Artifacts.Placed (c : Circuit) (settings : Settings) (a : Artifacts) : Prop where
  settings_eq : a.settings = some settings
  layout : ∃ plan l, Layout.place c settings.height settings.width plan = .ok l ∧ a.layout = some l

structure Artifacts.Mapped (c : Circuit) (settings : Settings) (a : Artifacts) : Prop
    extends Placed c settings a where
  mapping : ∃ m, m.Accommodates c ∧ a.mapping = some m

structure Artifacts.Scheduled (c : Circuit) (settings : Settings) (a : Artifacts) : Prop
    extends Mapped c settings a where
  schedule : ∃ s, a.schedule = some s

structure Artifacts.Complete (a : Artifacts) : Prop where
  layout : ∃ l, a.layout = some l
  schedule : ∃ s, a.schedule = some s
  routing : ∃ r, a.routing = some r

/-- Placing leaves a layout on the whole grid. -/
theorem Artifacts.placed_of_place {b : Artifacts} (hbuilt : c.Built) (hsettings : a.settings = some settings)
    (h : a.place c = .ok b) : b.Placed c settings ∧ b.mapping = a.mapping := by
  obtain ⟨-, plan, hinitial, p, hp, rfl⟩ := of_place hsettings h
  obtain ⟨hlanes, -⟩ := Plan.of_initial hinitial
  refine ⟨⟨hsettings, ?_⟩, rfl⟩
  obtain hp | ⟨rfl, hp⟩ := hp
  · obtain ⟨first, hfirst, hclimb⟩ := bind_eq_ok_iff.1 hp
    have hgrounded := Proposal.grounded_of_ofPlan hbuilt (fun _ => id) hlanes hfirst
    have hend := Proposal.of_climb (fun _ _ => Proposal.Grounded.moves) hgrounded (Outcome.liftM_eq_ok_iff.1 hclimb)
    exact ⟨_, _, hend.placed, rfl⟩
  · exact ⟨_, _, hp, rfl⟩

/-- A result that fails only as allowed, and leaves artifacts of a kind if it does not. -/
structure StageResult.Ends (B : Prop) (Q : CompileError → Prop) (I : Artifacts → Prop) (r : StageResult) :
    Prop where
  fault : FailsOnly (Fault.Allowed B) r
  refusal : ∀ a e, r = .ok (a, .error e) → Q e
  leaves : ∀ a, r = .ok (a, .ok ()) → I a

namespace StageResult

variable {Q : CompileError → Prop} {I : Artifacts → Prop}

namespace Ends

theorem ok (h : I a) : Ends B Q I (pure (a, .ok ())) := by
  refine ⟨.pure _, ?_, ?_⟩
  · rintro b e ⟨⟩
  · rintro b ⟨⟩
    exact h

theorem refused {e : CompileError} (h : Q e) : Ends B Q I (pure (a, .error e)) := by
  refine ⟨.pure _, ?_, ?_⟩
  · rintro b e' ⟨⟩
    exact h
  · rintro b ⟨⟩

theorem bind {α : Type} {x : Checked α} {k : α → StageResult} (hx : FailsOnly (Fault.Allowed B) x)
    (hk : ∀ v, x = .ok v → (k v).Ends B Q I) : Ends B Q I (x >>= k) := by
  refine ⟨hx.bind fun v hv => (hk v hv).fault, fun a e h => ?_, fun a h => ?_⟩
  · obtain ⟨v, hv, h⟩ := bind_eq_ok_iff.1 h
    exact (hk v hv).refusal a e h
  · obtain ⟨v, hv, h⟩ := bind_eq_ok_iff.1 h
    exact (hk v hv).leaves a h

theorem ofOutcome {r : Outcome CompileError Artifacts} (hfails : FailsOnly (Stop.Allowed B Q) r)
    (hleaves : ∀ b, r = .ok b → I b) : (ofOutcome a r).Ends B Q I := by
  refine .bind hfails.settle fun result hresult => ?_
  cases result with
  | ok b => exact .ok (hleaves b (Outcome.settle_eq_ok_ok_iff.1 hresult))
  | error e => exact .refused (hfails _ (Outcome.settle_eq_ok_error_iff.1 hresult))

end Ends

end StageResult

namespace Stage

variable {Q : CompileError → Prop} {I J : Artifacts → Prop} {s : Stage} {rest : List Stage}

theorem ends_runAll_cons (hdue : s.isDue a = true) (hrun : (s.run c a).Ends B Q I)
    (hrest : ∀ b, I b → (runAll c rest b).Ends B Q J) : (runAll c (s :: rest) a).Ends B Q J := by
  rw [runAll, if_pos hdue]
  refine .bind hrun.fault fun x hb => ?_
  obtain ⟨b, result⟩ := x
  cases result with
  | error e => exact .refused (hrun.refusal b e hb)
  | ok _ => exact hrest b (hrun.leaves b hb)

theorem ends_allocation (hbuilt : c.Built) (hsettings : a.settings = some settings) (hmapping : a.mapping = none)
    (hB : B → settings.Bounds c) :
    (allocation.run c a).Ends B (CompileError.Documented c settings) fun b =>
      b.Placed c settings ∧ b.mapping = none :=
  .ofOutcome (Artifacts.failsOnly_place hbuilt hsettings hB) fun _ hb =>
    (Artifacts.placed_of_place hbuilt hsettings hb).imp_right fun hsame => hsame.trans hmapping

theorem ends_mapping (hbuilt : c.Built) (h : a.Placed c settings) (hmapping : a.mapping = none) :
    (mapping.run c a).Ends B Q (Artifacts.Mapped c settings) := by
  obtain ⟨plan, l, hplace, hlayout⟩ := h.layout
  obtain ⟨⟨anchor, hfounded⟩, howned, hcheck⟩ := Layout.founded_on_grid hplace
  obtain ⟨m, hmap, -, haccommodates⟩ := Mapping.exists_accommodates hfounded howned hcheck hbuilt
  have hrun : mapping.run c a = .ok ({ a with mapping := some m }, .ok ()) := by
    simp only [mapping, Artifacts.map, hmapping, hlayout, hmap]
    rfl
  rw [hrun]
  exact .ok (I := Artifacts.Mapped c settings) ⟨⟨h.settings_eq, plan, l, hplace, hlayout⟩, m, haccommodates, rfl⟩

theorem ends_scheduling (hbuilt : c.Built) (h : a.Mapped c settings) (hB : B → settings.Bounds c) :
    (scheduling.run c a).Ends B (CompileError.Documented c settings) (Artifacts.Scheduled c settings) := by
  obtain ⟨plan, l, hplace, hlayout⟩ := h.layout
  obtain ⟨m, haccommodates, hmapping⟩ := h.mapping
  have hrun : a.schedulePart c = (do
      let s ← (Schedule.ofCircuit c m.pool l.channels).mapRefusal .deadlock
      return { a with schedule := some s }) := by
    simp only [Artifacts.schedulePart, hlayout, hmapping]
    rfl
  refine .ofOutcome ?_ fun b hb => ?_
  · rw [hrun]
    refine (FailsOnly.mapRefusal ?_).bind fun _ _ => .pure _
    exact (Schedule.failsOnly_ofCircuit hbuilt fun hb => (hB hb).cycles).weaken fun _ => .deadlock
  · rw [hrun] at hb
    obtain ⟨s, -, hb⟩ := bind_eq_ok_iff.1 hb
    cases hb
    exact ⟨⟨⟨h.settings_eq, plan, l, hplace, hlayout⟩, m, haccommodates, hmapping⟩, s, rfl⟩

theorem ends_routing (hbuilt : c.Built) (h : a.Scheduled c settings) (hB : B → settings.Bounds c) :
    (routing.run c a).Ends B (CompileError.Documented c settings) Artifacts.Complete := by
  obtain ⟨plan, l, hplace, hlayout⟩ := h.layout
  obtain ⟨m, haccommodates, hmapping⟩ := h.mapping
  obtain ⟨s, hschedule⟩ := h.schedule
  have hsize (hb : B) : l.height * l.width ≤ Word.top := by
    rw [(Layout.size_of_place hplace).1, (Layout.size_of_place hplace).2]
    exact (hB hb).grid
  show (a.route c).Ends _ _ _
  unfold Artifacts.route
  rw [h.settings_eq, hlayout, hschedule, hmapping]
  refine .bind (FailsOnly.ok (Except.ok (settings, l, s, m))) fun parts hparts => ?_
  cases hparts
  refine .bind (RoutingJob.failsOnly_start hsize) fun start hstart => ?_
  obtain ⟨job, f⟩ := start
  obtain ⟨grid, hgrid, rfl, rfl⟩ := RoutingJob.start_eq_ok_iff.1 hstart
  have hholds := LockGrid.holds_ofLayout hgrid
  refine .bind (RoutingJob.failsOnly_run hbuilt haccommodates hholds fun hb => (hB hb).ticks) fun run hrun => ?_
  obtain ⟨f, result⟩ := run
  cases result with
  | ok r => exact .ok ⟨⟨l, rfl⟩, ⟨s, rfl⟩, r, rfl⟩
  | error e =>
      obtain ⟨d, rfl, hwaiting⟩ := RoutingJob.deadlock_of_run hbuilt haccommodates hholds hrun
      exact .refused (.deadlock hwaiting)

end Stage

/-- Compiling fails only for a cause in the circuit or in the settings, and within bounds it does not fault. -/
theorem failsOnly_compile (hbuilt : c.Built) (hB : B → settings.Bounds c) :
    FailsOnly (Stop.Allowed B (CompileError.Documented c settings)) (compile c settings) := by
  have hall : (Stage.runAll c Stage.standard { settings := some settings }).Ends B
      (CompileError.Documented c settings) Artifacts.Complete := by
    refine Stage.ends_runAll_cons rfl (Stage.ends_allocation hbuilt rfl rfl hB) fun a hplaced => ?_
    refine Stage.ends_runAll_cons rfl (Stage.ends_mapping hbuilt hplaced.1 hplaced.2) fun a hmapped => ?_
    refine Stage.ends_runAll_cons rfl (Stage.ends_scheduling hbuilt hmapped hB) fun a hscheduled => ?_
    exact Stage.ends_runAll_cons rfl (Stage.ends_routing hbuilt hscheduled hB) fun a hcomplete => .ok hcomplete
  refine (FailsOnly.lift hall.fault).bind fun x hx => ?_
  obtain ⟨a, result⟩ := x
  have hrun := Outcome.liftM_eq_ok_iff.1 hx
  cases result with
  | error e => exact .refuse (hall.refusal a e hrun)
  | ok _ =>
      obtain ⟨⟨l, hl⟩, ⟨s, hs⟩, r, hr⟩ := hall.leaves a hrun
      refine .of_eq_ok (a := ⟨l, s, r⟩) ?_
      simp only [hl, hs, hr]
      rfl

end Stages

/-! ### Counters and tables -/

theorem Job.accounted {job : Job} {pool : Pool} {m : Moment} (hbuilt : job.circuit.Built)
    (hreach : Reaches job ⟨0, pool, [], [], []⟩ m) :
    job.circuit.Accounted (m.started.map Start.node) m.finished (job.waiting m) := by
  have htracked := ((timely_start job pool).reaches hbuilt hreach).tracked
  refine hbuilt.accounted htracked.nodup ?_ htracked.split fun n => ?_
  · simpa using htracked.lt_size
  · rw [mem_waiting]
    simp

theorem RoutingJob.accounted {job : RoutingJob} {pace : Pace} {slacks : List Nat} {f : Fabric} {s : RoutingState}
    (hbuilt : job.circuit.Built) (hreach : Reaches job pace slacks ⟨0, 0, f, [], [], []⟩ s) :
    job.circuit.Accounted (s.routes.map Route.gate) s.finished (job.ready slacks s) := by
  have htracked := (tracked_start job f).reaches hreach
  refine hbuilt.accounted htracked.nodup ?_ htracked.split fun n => ?_
  · simpa using htracked.lt_size
  · rw [mem_ready]
    exact ⟨fun h => ⟨h.1, h.2, by simpa using h.3⟩, fun h => ⟨h.1, h.2.1, by simpa using h.2.2⟩⟩

/-- Whatever numbers index a layout and what is made of it: segments lie on the grid, every cell has its patch, and
the tree of slots holds together over all requests. -/
structure Layout.InRange (l : Layout) (height width : Nat) : Prop where
  segments : ∀ s ∈ l.tiling.segments, s.rect.y0 < s.rect.y1 ∧ s.rect.y1 ≤ height ∧ s.rect.x0 < s.rect.x1 ∧
    s.rect.x1 ≤ width
  patches : ∃ grid, LockGrid.ofLayout l = .ok grid ∧ grid.width = width ∧ grid.patches.size = height * width ∧
    ∀ cell, grid.inside cell = true → cell.y * grid.width + cell.x < grid.patches.size
  trees : ∀ t, SlotTree.Serves (SlotTree.build l) t → t.Serviceable

theorem Layout.inRange_of_place {c : Circuit} {height width : Nat} {plan : Plan} {l : Layout}
    (hword : height * width ≤ Word.top) (h : place c height width plan = .ok l) : l.InRange height width := by
  obtain ⟨⟨anchor, hfounded⟩, -⟩ := founded_on_grid h
  have hsize := size_of_place h
  refine ⟨fun s hs => ?_, ?_, fun t ht => ?_⟩
  · have hwell := hfounded.served.wellTiled
    have hinhabited := hwell.inhabited s hs
    have hincludes := (Rect.includes_iff hinhabited).2 (hwell.bounded s hs)
    rw [hfounded.served.grid_eq] at hincludes
    simp only [Rect.includes, Bool.and_eq_true, decide_eq_true_eq] at hincludes
    exact ⟨hinhabited.1, by omega, hinhabited.2, by omega⟩
  · obtain ⟨grid, hofLayout⟩ : ∃ grid, LockGrid.ofLayout l = .ok grid :=
      ⟨_, LockGrid.ofLayout_eq_ok_iff.2 ⟨by rwa [hsize.1, hsize.2], rfl⟩⟩
    refine ⟨grid, hofLayout, ?_, ?_, fun cell hcell => ?_⟩
    · obtain ⟨-, rfl⟩ := LockGrid.ofLayout_eq_ok_iff.1 hofLayout
      exact hsize.2
    · obtain ⟨-, rfl⟩ := LockGrid.ofLayout_eq_ok_iff.1 hofLayout
      simp [LockGrid.allCells_eq, hsize]
    · have hpatch := LockGrid.patch?_ofLayout hofLayout ((LockGrid.inside_ofLayout hofLayout).1 hcell)
      rw [LockGrid.patch?, if_pos hcell] at hpatch
      exact (Array.getElem?_eq_some_iff.1 hpatch).1
  · obtain ⟨rank, hstocked, -⟩ := SlotTree.exists_stocked_build hfounded.served
    exact (hstocked.serves ht).serviceable

/-- Compiling is refused for a cause in the circuit or in the settings only. -/
theorem compile_refusals_documented {c : Circuit} {settings : Settings} {e : CompileError} (hbuilt : c.Built)
    (h : compile c settings = .error (.refused e)) : e.Documented c settings :=
  failsOnly_compile (B := False) hbuilt False.elim _ h

namespace Depot

/-- Two gates use a state each. The first never gives its factory back. -/
def circuit : Circuit :=
  (Circuit.empty.append (.joint "cx" [.factory "T" 0, .register "a"] 2)).append
    (.joint "cx" [.factory "T" 1, .register "b"] 1)

def settings : Settings where
  height := 7
  width := 7
  templates := [⟨"T", 2, 2, 4⟩]

theorem built_circuit : circuit.Built :=
  (Circuit.Built.empty.extend (by decide)).extend (by decide)

end Depot

theorem depot_refused : Depot.circuit.Built ∧
    compile Depot.circuit Depot.settings = .error (.refused (.deadlock ⟨2, 1⟩)) ∧
    CompileError.Documented Depot.circuit Depot.settings (.deadlock ⟨2, 1⟩) := by
  have hrefused : compile Depot.circuit Depot.settings = .error (.refused (.deadlock ⟨2, 1⟩)) := by
    apply Outcome.settle_eq_ok_error_iff.1
    decide +kernel
  exact ⟨Depot.built_circuit, hrefused, compile_refusals_documented Depot.built_circuit hrefused⟩

/-- A circuit and settings within a word never make compiling fault, unless it runs out of segment numbers. The
slack of every gate is a word; while gates are scheduled and routed no counter is taken below zero; and what a
placed layout is indexed by is in range. -/
theorem compile_panic_free {c : Circuit} {settings : Settings} (hbuilt : c.Built)
    (hgrid : settings.height * settings.width < 2 ^ 32)
    (htemplates : ∀ template ∈ settings.templates, template.width * template.height < 2 ^ 32 ∧
      template.width < 2 ^ 32 - 1 ∧ template.height < 2 ^ 32 - 1)
    (hcycles : c.totalCycles + settings.routing.deadlockThreshold + 1 < 2 ^ 32) :
    (∀ f, compile c settings = .error (.fault f) → f = .idsExhausted) ∧
      (∃ slacks, c.slacks = .ok slacks ∧ slacks.length = c.size) ∧
      (∀ (job : Job) pool m, job.circuit = c → Job.Reaches job ⟨0, pool, [], [], []⟩ m →
        c.Accounted (m.started.map Start.node) m.finished (job.waiting m)) ∧
      (∀ (job : RoutingJob) pace slacks f s, job.circuit = c →
        RoutingJob.Reaches job pace slacks ⟨0, 0, f, [], [], []⟩ s →
        c.Accounted (s.routes.map Route.gate) s.finished (job.ready slacks s)) ∧
      ∀ plan l, Layout.place c settings.height settings.width plan = .ok l →
        l.InRange settings.height settings.width := by
  have hbounds : settings.Bounds c := by
    refine ⟨?_, fun template ht => ?_, ?_⟩
    · rw [Word.top]
      omega
    · obtain ⟨harea, hwidth, hheight⟩ := htemplates template ht
      constructor
      all_goals
        rw [Word.top]
        omega
    · rw [Word.top]
      omega
  refine ⟨fun f hf => ?_, ?_, ?_, ?_, fun plan l => Layout.inRange_of_place hbounds.grid⟩
  · exact failsOnly_compile hbuilt (fun _ => hbounds) _ hf trivial
  · obtain ⟨slacks, hslacks⟩ := hbuilt.exists_slacks
    exact ⟨slacks, hslacks, Circuit.length_slacks hslacks⟩
  · rintro job pool m rfl
    exact Job.accounted hbuilt
  · rintro job pace slacks f s rfl
    exact RoutingJob.accounted hbuilt

namespace Depot

/-- A state is made, used and its factory given back, twice; then the result goes out. -/
def rounds : Circuit :=
  ((((((Circuit.empty.append (.production (.factory "T" 0) 4)).append
    (.joint "cx" [.factory "T" 0, .register "a"] 2)).append (.resetOf (.factory "T" 0))).append
    (.production (.factory "T" 0) 4)).append (.joint "cx" [.factory "T" 0, .register "b"] 2)).append
    (.resetOf (.factory "T" 0))).append (.joint "cx" [.register "a", .register "b", .io "out"] 3)

theorem built_rounds : rounds.Built :=
  ((((((Circuit.Built.empty.extend (by decide)).extend (by decide)).extend (by decide)).extend (by decide)).extend
    (by decide)).extend (by decide)).extend (by decide)

def plan : Plan := ⟨settings.templates, 0⟩

theorem exists_place : ∃ l, Layout.place rounds settings.height settings.width plan = .ok l := by
  obtain ⟨l, h, -⟩ := exists_ok_of_any (x := Layout.place rounds settings.height settings.width plan)
    (p := fun _ => True) (by decide +kernel)
  exact ⟨l, h⟩

end Depot

theorem depot_panic_free : Depot.rounds.Built ∧ Depot.settings.height * Depot.settings.width < 2 ^ 32 ∧
    Depot.settings.templates = [⟨"T", 2, 2, 4⟩] ∧
    Depot.rounds.totalCycles + Depot.settings.routing.deadlockThreshold + 1 < 2 ^ 32 ∧
    (∀ f, compile Depot.rounds Depot.settings = .error (.fault f) → f = .idsExhausted) ∧
    ∃ l, Layout.place Depot.rounds 7 7 Depot.plan = .ok l ∧ l.InRange 7 7 := by
  obtain ⟨l, hplace⟩ := Depot.exists_place
  obtain ⟨hfaults, -, -, -, hrange⟩ :=
    @compile_panic_free Depot.rounds Depot.settings Depot.built_rounds (by decide) (by decide) (by decide)
  exact ⟨Depot.built_rounds, by decide, rfl, by decide, hfaults, l, hplace, hrange _ _ hplace⟩

end SurfaceFabric
