import SurfaceFabric.Proofs.Mapping
import SurfaceFabric.Proofs.Routing.Exclusion
import SurfaceFabric.Proofs.Routing.Passage
import SurfaceFabric.Proofs.Schedule.Progress

/-!
Ordinary circuits are always routed to the end. Gates of one or two operands never fault, and a gate that
finds nothing held is admitted, so while a gate is unfinished some gate is running after every round of
admissions. The clock then moves to a tick that is no later than the end of a running gate, and ends are
bounded by the cycles of the gates routed so far.
-/

namespace SurfaceFabric

namespace LockGrid

/-- A grid with its locks taken off. -/
def bare (g : LockGrid) : LockGrid := { g with holds := [] }

@[simp] theorem bare_release (g : LockGrid) (owner : Nat) : (g.release owner).bare = g.bare := rfl

@[simp] theorem bare_hold (g : LockGrid) (h : Hold) : (g.hold h).bare = g.bare := by
  unfold hold
  split <;> rfl

@[simp] theorem bare_foldl_hold (g : LockGrid) (taken : List Hold) :
    (taken.foldl hold g).bare = g.bare := by
  induction taken generalizing g with
  | nil => rfl
  | cons h taken ih => rw [List.foldl_cons, ih, bare_hold]

theorem eq_bare_of_holds_eq_nil {g : LockGrid} (h : g.holds = []) : g = g.bare := by
  unfold bare
  rw [← h]

theorem inside_of_isRoute {g : LockGrid} {c : Cell} (h : g.isRoute c = true) : g.inside c = true := by
  unfold isRoute patch? at h
  split at h
  · assumption
  · cases h

@[simp] theorem inside_bare (g : LockGrid) (c : Cell) : g.bare.inside c = g.inside c := rfl

end LockGrid

namespace RoutingJob

variable {job : RoutingJob} {pace : Pace} {slacks : List Nat}

/-- The cells of operands that are no factories are looked up one by one. -/
theorem resolve_eq {n : Nat} {isReset : Bool} {operands : List Symbol} {cells : List Cell}
    {tickets : List Ticket} {m : Mapping}
    (h : ∀ s ∈ operands, s.isFactory = false ∧ ∃ c, m.cell? s = some c) :
    job.resolve n isReset operands cells tickets m =
      (.found (cells ++ operands.filterMap m.cell?), tickets, m) := by
  induction operands generalizing cells with
  | nil => simp [resolve]
  | cons s rest ih =>
      obtain ⟨hplain, c, hc⟩ := h s List.mem_cons_self
      have hcoordinate : m.coordinate? s = some c := by
        rw [Mapping.coordinate?, hplain]
        exact hc
      rw [resolve, hcoordinate]
      dsimp only
      rw [ih fun s hs => h s (List.mem_cons_of_mem _ hs), List.filterMap_cons_some hc,
        List.append_assoc]
      rfl

/-- Looking for operands touches the pool only. -/
theorem resolve_cells (job : RoutingJob) (n : Nat) (isReset : Bool) (operands : List Symbol)
    (cells : List Cell) (tickets : List Ticket) (m : Mapping) :
    (job.resolve n isReset operands cells tickets m).2.2.cells = m.cells := by
  induction operands generalizing cells tickets m with
  | nil => rfl
  | cons s rest ih =>
      rw [resolve]
      split
      · exact ih ..
      split
      · rfl
      split
      · exact ih ..
      split
      · rfl
      · dsimp only
        split
        · exact ih ..
        · rfl

theorem two_le_length_of_isPath {q : PathQuery} {a b : Cell} {leg : List Cell} (hne : a ≠ b)
    (h : PathSearch.IsPath q a b leg) : 2 ≤ leg.length := by
  match leg, h.head, h.last with
  | [], hhead, _ => cases hhead
  | [c], hhead, hlast =>
      cases hhead
      cases hlast
      exact absurd rfl hne
  | _ :: _ :: _, _, _ => simp

theorem legs_pair_eq (job : RoutingJob) (grid : LockGrid) (shared : List Cell) (start stop : Nat)
    (a b : Cell) : job.legs grid shared start stop [a, b] [a, b] =
      match job.leg? grid shared start stop [] a b with
      | none => .ok none
      | some leg => if leg.length < 2 then .error .sharedCell else .ok (some [leg]) := by
  have hblocked : ([a, b].filter fun c => c ≠ a ∧ c ≠ b) = [] := by simp
  rw [legs, hblocked]
  cases job.leg? grid shared start stop [] a b with
  | none => rfl
  | some leg => rfl

theorem legs_pair {grid : LockGrid} {shared : List Cell} {start stop : Nat} {a b : Cell} (hne : a ≠ b)
    (ha : grid.inside a = true) :
    job.legs grid shared start stop [a, b] [a, b] =
      .ok ((job.leg? grid shared start stop [] a b).map fun leg => [leg]) := by
  rw [legs_pair_eq]
  cases hleg : job.leg? grid shared start stop [] a b with
  | none => rfl
  | some leg =>
      obtain ⟨q, -, -, hpath⟩ := leg?_isPath ha hleg
      exact if_neg (Nat.not_lt.2 (two_le_length_of_isPath hne hpath))

/-- Whatever comes of it, trying to admit a gate leaves every symbol in its cell. -/
theorem tryRoute_cells {f f' : Fabric} {n t : Nat} {result : Except CompileError (Option Route)}
    (h : job.tryRoute f n t = .ok (f', result)) : f'.mapping.cells = f.mapping.cells := by
  have hresolve : ∀ {g : Gate} {operands : Operands} {tickets : List Ticket} {m : Mapping},
      job.resolve n g.isReset g.operands [] [] f.mapping = (operands, tickets, m) →
        m.cells = f.mapping.cells := by
    intro g operands tickets m hres
    have hcells := resolve_cells job n g.isReset g.operands [] [] f.mapping
    rwa [hres] at hcells
  by_cases hadmitted : ∃ r, result = .ok (some r)
  · obtain ⟨r, rfl⟩ := hadmitted
    obtain ⟨a, rfl, -⟩ := tryRoute_eq_some_iff.1 h
    show a.mapping.cells = f.mapping.cells
    exact hresolve a.resolve_eq
  · rcases tryRoute_refused h (not_exists.1 hadmitted) with rfl | ⟨g, operands, tickets, m, hres, rfl⟩
    · rfl
    · show m.cells = f.mapping.cells
      exact hresolve hres

theorem complete_cells (job : RoutingJob) (f : Fabric) (r : Route) :
    (job.complete f r).mapping.cells = f.mapping.cells := by
  unfold complete
  split
  · rfl
  · split
    · cases Gate.factoryOperand? _ <;> rfl
    · rfl

/-- Gates that end give back what they hold, and nothing else changes on the fabric. -/
theorem foldl_complete_keeps (job : RoutingJob) (ended : List Route) (f : Fabric) :
    (ended.foldl job.complete f).mapping.cells = f.mapping.cells ∧
      (ended.foldl job.complete f).grid.bare = f.grid.bare := by
  induction ended generalizing f with
  | nil => exact ⟨rfl, rfl⟩
  | cons r ended ih =>
      obtain ⟨hcells, hbare⟩ := ih (job.complete f r)
      refine ⟨hcells.trans (complete_cells job f r), hbare.trans ?_⟩
      rw [complete_grid, LockGrid.bare_release]

/-- If nothing runs and not all gates are finished, then some gate is ready. -/
theorem Tracked.exists_ready {s : RoutingState} (h : Tracked job s) (hbuilt : job.circuit.Built)
    (hrunning : s.running = []) (hsize : s.finished.length < job.circuit.size) :
    job.ready slacks s ≠ [] := by
  obtain ⟨n, hn, hunfinished, hready⟩ := hbuilt.exists_ready s.finished hsize
  refine List.ne_nil_of_mem (mem_ready.2 ⟨hn, hready, fun r hr heq => hunfinished ?_⟩)
  have hsplit := h.split
  rw [hrunning, List.map_nil, List.append_nil] at hsplit
  exact hsplit.mem_iff.2 (List.mem_map.2 ⟨r, hr, heq⟩)

structure Routable (job : RoutingJob) (l : Layout) (grid : LockGrid) (m : Mapping) : Prop where
  built : job.circuit.Built
  ordinary : job.circuit.Ordinary
  fits : job.circuit.totalCycles ≤ Word.top
  hosts : m.Hosts job.circuit l.tiling
  grid_eq : LockGrid.ofLayout l = .ok grid
  served : ∃ size anchor, l.tiling.Served size anchor

namespace Routable

variable {l : Layout} {grid : LockGrid} {m : Mapping} {f : Fabric} {n : Nat} {g : Gate}

/-- The operands of a gate have their cells, each its own. -/
theorem operands (h : Routable job l grid m) (hcells : f.mapping.cells = m.cells)
    (hg : job.circuit.gate? n = some g) :
    ∃ cells, job.resolve n g.isReset g.operands [] [] f.mapping = (.found cells, [], f.mapping) ∧
      cells.length ≤ 2 ∧ cells.Nodup ∧
        ∀ c ∈ cells, ∃ role, l.tiling.roleAt? c = some role ∧ role.IsSlot := by
  obtain ⟨hlength, hplain⟩ := h.ordinary n g hg
  have hsame (s : Symbol) : f.mapping.cell? s = m.cell? s := by
    rw [Mapping.cell?, hcells]
    rfl
  refine ⟨g.operands.filterMap f.mapping.cell?, ?_, ?_, ?_, ?_⟩
  · refine resolve_eq fun s hs => ⟨hplain s hs, ?_⟩
    obtain ⟨c, -, hc, -⟩ := h.hosts.located n g hg s hs
    exact ⟨c, (hsame s).trans hc⟩
  · exact (List.length_filterMap_le ..).trans hlength
  · refine List.Nodup.filterMap ?_
      (h.built.nodup_operands hg)
    intro s s' c hs hs'
    rw [Option.mem_def, hsame] at hs hs'
    exact h.hosts.injective s s' c hs hs'
  · intro c hc
    obtain ⟨s, hs, hsc⟩ := List.mem_filterMap.1 hc
    obtain ⟨c', role, hc', hrole, hslot⟩ := h.hosts.located n g hg s hs
    rw [hsame, hc'] at hsc
    cases hsc
    exact ⟨role, hrole, hslot⟩

theorem inside (h : Routable job l grid m) (hbare : f.grid.bare = grid) {c : Cell} {role : Role}
    (hc : l.tiling.roleAt? c = some role) : f.grid.inside c = true := by
  obtain ⟨size, anchor, hserved⟩ := h.served
  rw [← LockGrid.inside_bare, hbare]
  exact (LockGrid.inside_ofLayout h.grid_eq).2 (mem_grid_of_roleAt? hserved.wellTiled hc)

/-- Legs between two operands at most never fault, and are found while nothing is held. -/
theorem exists_legs (h : Routable job l grid m) (hbare : f.grid.bare = grid) {cells : List Cell}
    (hlength : cells.length ≤ 2) (hnodup : cells.Nodup)
    (hslots : ∀ c ∈ cells, ∃ role, l.tiling.roleAt? c = some role ∧ role.IsSlot)
    (shared : List Cell) (start stop : Nat) :
    ∃ found, job.legs f.grid shared start stop cells cells = .ok found ∧
      (f.grid.holds = [] → ∃ legs, found = some legs) := by
  match cells with
  | [] => exact ⟨some [], rfl, fun _ => ⟨[], rfl⟩⟩
  | [_] => exact ⟨some [], rfl, fun _ => ⟨[], rfl⟩⟩
  | [a, b] =>
      have hne : a ≠ b := by simpa using hnodup
      obtain ⟨ra, ha, hra⟩ := hslots a (by simp)
      obtain ⟨rb, hb, hrb⟩ := hslots b (by simp)
      refine ⟨_, legs_pair hne (h.inside hbare ha), fun hfree => ?_⟩
      obtain ⟨size, anchor, hserved⟩ := h.served
      obtain ⟨leg, hleg⟩ := exists_leg? job h.grid_eq hserved shared start stop ha hra hb hrb
      rw [LockGrid.eq_bare_of_holds_eq_nil hfree, hbare, hleg]
      exact ⟨[leg], rfl⟩
  | _ :: _ :: _ :: _ =>
      simp only [List.length_cons] at hlength
      omega

/-- While nothing is held, a gate is admitted. -/
theorem exists_admission (h : Routable job l grid m) (hcells : f.mapping.cells = m.cells)
    (hbare : f.grid.bare = grid) (hfree : f.grid.holds = []) (hg : job.circuit.gate? n = some g)
    {t : Nat} (hstop : t + max g.cycles 1 ≤ Word.top) : Nonempty (Admission job f n t) := by
  obtain ⟨cells, hresolve, hlength, hnodup, hslots⟩ := h.operands hcells hg
  obtain ⟨found, hlegs, hfound⟩ := h.exists_legs hbare hlength hnodup hslots
    (sharedEndpoints f (job.window t (t + max g.cycles 1))) t (t + max g.cycles 1)
  obtain ⟨legs, rfl⟩ := hfound hfree
  have hinside (c : Cell) (hc : c ∈ cells) : f.grid.inside c = true := by
    obtain ⟨role, hrole, -⟩ := hslots c hc
    exact h.inside hbare hrole
  have hoperands (c : Cell) (hc : c ∈ cells) : f.grid.isFree c t (t + max g.cycles 1) = true :=
    LockGrid.isFree_of_holds_eq_nil hfree (hinside c hc) _ _
  refine ⟨⟨g, cells, [], f.mapping, legs, hg, hstop, hresolve, hoperands, hlegs, ?_⟩⟩
  refine isFeasible_of_free (by omega) hoperands hlegs fun c hc => ?_
  refine LockGrid.isFree_of_holds_eq_nil hfree ?_ _ _
  exact LockGrid.inside_of_isRoute ((legs_interiors hlegs hinside).2 c hc).1

/-- A gate is admitted or has to wait; nothing else can come of it. -/
theorem exists_tryRoute (h : Routable job l grid m) (hcells : f.mapping.cells = m.cells)
    (hbare : f.grid.bare = grid) (hg : job.circuit.gate? n = some g) {t : Nat}
    (hstop : t + max g.cycles 1 ≤ Word.top) :
    ∃ f' found, job.tryRoute f n t = .ok (f', .ok found) := by
  obtain ⟨cells, hresolve, hlength, hnodup, hslots⟩ := h.operands hcells hg
  obtain ⟨legs, hlegs, -⟩ := h.exists_legs hbare hlength hnodup hslots
    (sharedEndpoints f (job.window t (t + max g.cycles 1))) t (t + max g.cycles 1)
  obtain ⟨found, hplan⟩ : ∃ found, job.plan? f n t (t + max g.cycles 1) cells = .ok found := by
    unfold plan?
    split
    · exact ⟨none, rfl⟩
    · dsimp only
      rw [hlegs]
      cases legs with
      | none => exact ⟨none, rfl⟩
      | some legs => exact ⟨_, rfl⟩
  have hadd : Word.add t (max g.cycles 1) = .ok (t + max g.cycles 1) :=
    Word.add_eq_ok_iff.2 ⟨hstop, rfl⟩
  unfold tryRoute
  simp only [hg, hadd, hresolve]
  cases found with
  | none => exact ⟨_, none, bind_eq_ok_iff.2 ⟨_, rfl, bind_eq_ok_iff.2 ⟨_, hplan, rfl⟩⟩⟩
  | some p => exact ⟨_, some _, bind_eq_ok_iff.2 ⟨_, rfl, bind_eq_ok_iff.2 ⟨_, hplan, rfl⟩⟩⟩

end Routable

/-- What is held is held by gates that run. -/
def Manned (s : RoutingState) : Prop :=
  ∀ h ∈ s.fabric.grid.holds, ∃ r ∈ s.running, r.gate = h.lock.owner

theorem manned_of_holds_eq_nil {s : RoutingState} (h : s.fabric.grid.holds = []) : Manned s := by
  simp [Manned, h]

namespace Manned

variable {s s' : RoutingState}

theorem holds_eq_nil (h : Manned s) (hrunning : s.running = []) : s.fabric.grid.holds = [] := by
  rw [List.eq_nil_iff_forall_not_mem]
  intro x hx
  obtain ⟨r, hr, -⟩ := h x hx
  rw [hrunning] at hr
  cases hr

theorem complete (h : Manned s) : Manned (job.completeDue s) := by
  intro x hx
  obtain ⟨hold, hnot⟩ := ((foldl_complete job (due s) s.fabric).2.2 x).1 hx
  obtain ⟨r, hr, howner⟩ := h x hold
  refine ⟨r, List.mem_filter.2 ⟨hr, ?_⟩, howner⟩
  rw [decide_eq_true_iff]
  by_contra hended
  exact hnot r (mem_due.2 ⟨hr, Nat.le_of_not_lt hended⟩) howner.symm

theorem wait (h : Manned s) {n t : Nat} {f : Fabric} (htry : job.tryRoute s.fabric n t = .ok (f, .ok none)) :
    Manned { s with fabric := f } := by
  intro x hx
  rw [(tryRoute_none htry).1] at hx
  exact h x hx

theorem enter (h : Manned s) {n t : Nat} (a : Admission job s.fabric n t) : Manned (s.enter a) := by
  intro x hx
  rcases LockGrid.mem_holds_foldl_hold.1 hx with hx | ⟨hx, -⟩
  · obtain ⟨r, hr, howner⟩ := h x hx
    exact ⟨r, List.mem_append_left _ hr, howner⟩
  · obtain ⟨k, -, rfl⟩ := List.mem_map.1 hx
    exact ⟨a.route, List.mem_append_right _ List.mem_cons_self, rfl⟩

theorem step (h : Manned s) (hstep : Step job pace slacks s s') : Manned s' := by
  cases hstep with
  | complete => exact h.complete
  | wait _ htry => exact h.wait htry
  | enter _ a => exact h.enter a
  | advance => exact h

theorem reaches (h : Manned s) (hreach : Reaches job pace slacks s s') : Manned s' := by
  induction hreach with
  | refl => exact h
  | tail _ hstep ih => exact ih.step hstep

end Manned

def spent (job : RoutingJob) (s : RoutingState) : Nat :=
  ((s.routes.map Route.gate).map job.circuit.cyclesOf).sum

/-- A run that is getting on: symbols and roles of cells are as they were, what is held is held by running
gates, and no gate runs longer than the gates routed so far take together. -/
structure Advancing (job : RoutingJob) (grid : LockGrid) (m : Mapping) (s : RoutingState) : Prop where
  tracked : Tracked job s
  cells_eq : s.fabric.mapping.cells = m.cells
  bare_eq : s.fabric.grid.bare = grid
  manned : Manned s
  clock_le : s.clock ≤ job.spent s
  finish_le : ∀ r ∈ s.running, r.finish ≤ job.spent s

namespace Advancing

variable {l : Layout} {grid : LockGrid} {m : Mapping} {s : RoutingState} {n : Nat}

theorem spent_le (h : Advancing job grid m s) : job.spent s ≤ job.circuit.totalCycles := by
  refine Circuit.sum_cyclesOf_le h.tracked.nodup fun k hk => ?_
  obtain ⟨r, hr, rfl⟩ := List.mem_map.1 hk
  exact h.tracked.lt_size r hr

/-- A gate that has not been routed can still run within the cycles of all gates. -/
theorem clock_add_le (h : Advancing job grid m s) (hbuilt : job.circuit.Built) (hn : job.Admissible s n)
    {g : Gate} (hg : job.circuit.gate? n = some g) : s.clock + max g.cycles 1 ≤ job.circuit.totalCycles := by
  have hle : ((n :: s.routes.map Route.gate).map job.circuit.cyclesOf).sum ≤
      job.circuit.totalCycles := by
    refine Circuit.sum_cyclesOf_le (List.nodup_cons.2 ⟨?_, h.tracked.nodup⟩) ?_
    · intro hmem
      obtain ⟨r, hr, heq⟩ := List.mem_map.1 hmem
      exact hn.not_routed r hr heq
    · intro k hk
      rcases List.mem_cons.1 hk with rfl | hk
      · exact hn.lt_size
      · obtain ⟨r, hr, rfl⟩ := List.mem_map.1 hk
        exact h.tracked.lt_size r hr
  rw [List.map_cons, List.sum_cons, hbuilt.cyclesOf_eq hg] at hle
  have hclock := h.clock_le
  unfold spent at hclock
  omega

theorem stop_le (h : Advancing job grid m s) (hjob : Routable job l grid m) (hn : job.Admissible s n)
    {g : Gate} (hg : job.circuit.gate? n = some g) : s.clock + max g.cycles 1 ≤ Word.top :=
  (h.clock_add_le hjob.built hn hg).trans hjob.fits

theorem complete (h : Advancing job grid m s) : Advancing job grid m (job.completeDue s) := by
  obtain ⟨hcells, hbare⟩ := foldl_complete_keeps job (due s) s.fabric
  exact ⟨h.tracked.complete, hcells.trans h.cells_eq, hbare.trans h.bare_eq, h.manned.complete, h.clock_le,
    fun r hr => h.finish_le r (List.mem_of_mem_filter hr)⟩

theorem wait (h : Advancing job grid m s) {f : Fabric}
    (htry : job.tryRoute s.fabric n s.clock = .ok (f, .ok none)) :
    Advancing job grid m { s with fabric := f } := by
  have hgrid := (tryRoute_none htry).1
  have ht := h.tracked
  refine ⟨⟨ht.nodup, ht.lt_size, ht.split, ht.running_routed, ht.finished_ended, ht.timed, ht.ordered⟩,
    (tryRoute_cells htry).trans h.cells_eq, ?_, h.manned.wait htry, h.clock_le, h.finish_le⟩
  rw [hgrid]
  exact h.bare_eq

theorem enter (h : Advancing job grid m s) (hbuilt : job.circuit.Built) (hn : job.Admissible s n)
    (a : Admission job s.fabric n s.clock) :
    Advancing job grid m (s.enter a) := by
  have hspent : job.spent (s.enter a) =
        job.spent s + max a.gate.cycles 1 := by
    simp [spent, Admission.route, hbuilt.cyclesOf_eq a.gate_eq]
  have hclock := h.clock_le
  refine ⟨h.tracked.enter hn a, ?_, ?_, h.manned.enter a, ?_, ?_⟩
  · exact (tryRoute_cells (tryRoute_eq_some_iff.2 ⟨a, rfl, rfl⟩)).trans h.cells_eq
  · exact (LockGrid.bare_foldl_hold _ _).trans h.bare_eq
  · rw [hspent]
    exact hclock.trans (Nat.le_add_right _ _)
  · intro r hr
    rw [hspent]
    rcases List.mem_append.1 hr with hr | hr
    · exact (h.finish_le r hr).trans (Nat.le_add_right _ _)
    · rw [List.mem_singleton.1 hr]
      exact Nat.add_le_add_right hclock _

/-- A round of admissions: if a gate runs already or some gate is offered admission, then some gate runs
afterwards, and running gates still have time to run. -/
theorem exists_admitAll (hjob : Routable job l grid m) {nodes : List Nat} (h : Advancing job grid m s)
    (hlive : ∀ r ∈ s.running, s.clock < r.finish) (hnodup : nodes.Nodup)
    (hnodes : ∀ n ∈ nodes, job.Admissible s n) :
    ∃ s', job.admitAll nodes s = .ok (s', .ok ()) ∧ Advancing job grid m s' ∧
      (∀ r ∈ s'.running, s'.clock < r.finish) ∧ (s.running ≠ [] ∨ nodes ≠ [] → s'.running ≠ []) := by
  induction nodes generalizing s with
  | nil => exact ⟨s, rfl, h, hlive, fun hne => hne.elim id fun hnil => absurd rfl hnil⟩
  | cons n rest ih =>
      obtain ⟨hfirst, hrest⟩ := List.nodup_cons.1 hnodup
      have hn := hnodes n List.mem_cons_self
      obtain ⟨g, hg⟩ := Circuit.gate?_isSome hn.lt_size
      have hstop : s.clock + max g.cycles 1 ≤ Word.top := h.stop_le hjob hn hg
      obtain ⟨f, found, htry⟩ := hjob.exists_tryRoute h.cells_eq h.bare_eq hg hstop
      cases found with
      | none =>
          -- a gate that waits is kept from its cells by one that runs
          have hrunning : s.running ≠ [] := by
            intro hnil
            obtain ⟨a⟩ := hjob.exists_admission h.cells_eq h.bare_eq (h.manned.holds_eq_nil hnil) hg hstop
            rw [tryRoute_eq_some_iff.2 ⟨a, rfl, rfl⟩] at htry
            cases htry
          obtain ⟨s', hadmit, hs', hlive', hnonempty⟩ := ih (h.wait htry) hlive hrest fun k hk => by
            obtain ⟨hlt, hdeps, hrouted⟩ := hnodes k (List.mem_cons_of_mem _ hk)
            exact ⟨hlt, hdeps, hrouted⟩
          refine ⟨s', ?_, hs', hlive', fun _ => hnonempty (.inl hrunning)⟩
          rw [admitAll]
          exact bind_eq_ok_iff.2 ⟨_, htry, hadmit⟩
      | some r =>
          obtain ⟨a, rfl, rfl⟩ := tryRoute_eq_some_iff.1 htry
          obtain ⟨s', hadmit, hs', hlive', hnonempty⟩ := ih (h.enter hjob.built hn a) (by
              intro r hr
              rcases List.mem_append.1 hr with hr | hr
              · exact hlive r hr
              · rw [List.mem_singleton.1 hr]
                exact a.lt_stop) hrest fun k hk => by
            refine (hnodes k (List.mem_cons_of_mem _ hk)).enter ?_ a
            rintro rfl
            exact hfirst hk
          refine ⟨s', ?_, hs', hlive', fun _ => hnonempty (.inl (by simp))⟩
          rw [admitAll]
          exact bind_eq_ok_iff.2 ⟨_, htry, hadmit⟩

end Advancing

theorem jump_spec {g : LockGrid} {t finish : Nat} (h : t < finish) :
    t < jump g t finish ∧ jump g t finish ≤ finish := by
  unfold jump LockGrid.nextBoundary?
  cases hleast : ((g.holds.flatMap fun h => [h.lock.start, h.lock.stop]).filter (t < ·)).min? with
  | none => exact ⟨h, Nat.le_refl _⟩
  | some boundary =>
      have hlater := (List.mem_filter.1 (List.min?_eq_some_iff.1 hleast).1).2
      rw [decide_eq_true_iff] at hlater
      simp only [Option.map_some, Option.getD_some]
      omega

/-- While a gate runs, the clock moves on to a tick within the word. -/
theorem Advancing.exists_jump {l : Layout} {grid : LockGrid} {m : Mapping} {s : RoutingState}
    (hjob : Routable job l grid m) (h : Advancing job grid m s)
    (hlive : ∀ r ∈ s.running, s.clock < r.finish) (hrunning : s.running ≠ []) (slacks : List Nat) :
    ∃ t, s.clock < t ∧ t ≤ Word.top ∧
      (∀ progressed, job.advance jump slacks s progressed = .ok (t, 0)) ∧
      Advancing job grid m { s with clock := t, stalled := 0 } := by
  obtain ⟨finish, hfinish⟩ := exists_min? (l := s.running.map Route.finish) (by simpa using hrunning)
  obtain ⟨r, hr, rfl⟩ := List.mem_map.1 (List.min?_eq_some_iff.1 hfinish).1
  obtain ⟨hlt, hle⟩ := jump_spec (g := s.fabric.grid) (hlive r hr)
  have hspent := h.finish_le r hr
  have htop : r.finish ≤ Word.top := hspent.trans (h.spent_le.trans hjob.fits)
  have hadvance (progressed : Bool) : job.advance jump slacks s progressed =
      .ok (jump s.fabric.grid s.clock r.finish, 0) := by
    rw [advance, hfinish]
    rfl
  refine ⟨_, hlt, hle.trans htop, hadvance, ?_⟩
  exact ⟨h.tracked.step (.advance (hadvance true) hlt (hle.trans htop)), h.cells_eq, h.bare_eq, h.manned,
    hle.trans hspent, h.finish_le⟩

theorem Advancing.exists_runFrom {l : Layout} {grid : LockGrid} {m : Mapping} {s : RoutingState}
    (hjob : Routable job l grid m) (h : Advancing job grid m s) (slacks : List Nat) :
    ∃ f r, job.runFrom jump slacks s = .ok (f, .ok r) := by
  induction hleft : Word.top - s.clock using Nat.strong_induction_on generalizing s with
  | _ left ih =>
      rw [runFrom]
      split
      · have hcomplete := h.complete
        obtain ⟨s', hadmit, hs', hlive, hnonempty⟩ := hcomplete.exists_admitAll hjob
          (fun r hr => of_decide_eq_true (List.mem_filter.1 hr).2) (ready_nodup _)
          (fun n hn => mem_ready.1 hn)
        obtain ⟨hclock, hfinished⟩ := admitAll_keeps hadmit
        by_cases hdone : s'.finished.length = job.circuit.size
        · refine ⟨s'.fabric, routingOf s', bind_eq_ok_iff.2 ⟨_, hadmit, ?_⟩⟩
          dsimp only
          rw [if_pos hdone]
          rfl
        · -- an unfinished gate is running, or one was ready and has been admitted
          have hrunning : s'.running ≠ [] := by
            have hle := hs'.tracked.finished_length_le
            refine hnonempty ?_
            by_cases hnil : (job.completeDue s).running = []
            · refine .inr (hcomplete.tracked.exists_ready hjob.built hnil ?_)
              rw [← hfinished]
              omega
            · exact .inl hnil
          obtain ⟨t, hlt, htop, hadvance, hnext⟩ := hs'.exists_jump hjob hlive hrunning slacks
          have hmoved : s.clock < t := hclock ▸ hlt
          obtain ⟨f, routing, hrun⟩ := ih (Word.top - t) (by omega) hnext rfl
          refine ⟨f, routing, bind_eq_ok_iff.2 ⟨_, hadmit, ?_⟩⟩
          dsimp only
          rw [if_neg hdone]
          refine bind_eq_ok_iff.2 ⟨_, Outcome.settle_eq_ok_ok_iff.2 (hadvance _), ?_⟩
          dsimp only
          rw [if_pos ⟨hmoved, htop⟩]
          exact hrun
      · exact ⟨s.fabric, routingOf s, rfl⟩

/-- An ordinary circuit on a served layout is routed to the end. -/
theorem Routable.exists_run {l : Layout} {grid : LockGrid} {m : Mapping} (hjob : Routable job l grid m) :
    ∃ f r, job.run ⟨grid, m, []⟩ = .ok (f, .ok r) := by
  obtain ⟨slacks, hslacks⟩ := hjob.built.exists_slacks
  have hholds := LockGrid.holds_ofLayout hjob.grid_eq
  have hstart : Advancing job grid m ⟨0, 0, ⟨grid, m, []⟩, [], [], []⟩ := by
    exact ⟨tracked_start job _, rfl, (LockGrid.eq_bare_of_holds_eq_nil hholds).symm,
      manned_of_holds_eq_nil hholds, Nat.zero_le _, by simp⟩
  obtain ⟨f, r, hrun⟩ := hstart.exists_runFrom hjob slacks
  exact ⟨f, r, bind_eq_ok_iff.2 ⟨slacks, hslacks, hrun⟩⟩

end RoutingJob

end SurfaceFabric
