import SurfaceFabric.Proofs.Routing.Progress
import SurfaceFabric.Proofs.Routing.Seating

/-!
Paths of routes. The legs of a gate are put together at its operands. None of them meets another operand or
an earlier leg, so the path runs through the operands in order, by steps between neighbouring cells, and
through no cell twice. All of it is locked, and what is not bridged is locked for as long as the gate runs.
-/

namespace SurfaceFabric

/-- Register and I/O cells are left and entered from above and below only. -/
def Tiling.IsUpright (t : Tiling) (c : Cell) : Prop :=
  t.roleAt? c = some .register ∨ t.roleAt? c = some .io

/-- A step to a neighbouring cell, up or down if it leaves or enters an upright cell among the given ones. -/
def Tiling.StepsTo (t : Tiling) (cells : List Cell) (c d : Cell) : Prop :=
  ∃ side, c.NextTo side d ∧
    (c ∈ cells ∧ t.IsUpright c ∨ d ∈ cells ∧ t.IsUpright d → side.isVertical = true)

structure Route.Joins (x : Route) (l : Layout) (cells : List Cell) : Prop where
  head : x.path.head? = cells.head?
  last : x.path.getLast? = cells.getLast?
  visits : x.path.filter (· ∈ cells) = cells
  chain : x.path.IsChain (l.tiling.StepsTo cells)
  routing : ∀ c ∈ x.path, c ∉ cells → l.tiling.isRouteAt c = true
  nodup : x.path.Nodup
  locked : ∀ c ∈ x.path, ∃ k ∈ x.locks,
    k.cell = c ∧ x.start ≤ k.start ∧ k.start < k.stop ∧ k.stop ≤ x.finish
  held : ∀ c ∈ x.path, (c ∈ cells ∨ ∀ tp ∈ x.teleports, c ∉ tp.cells) → ⟨c, x.start, x.finish⟩ ∈ x.locks

theorem LockGrid.isVertical_ofLayout {l : Layout} {g : LockGrid} (h : ofLayout l = .ok g) {c : Cell}
    (hc : g.inside c = true) (hupright : l.tiling.IsUpright c) : g.isVertical c = true := by
  unfold isVertical
  rw [patch?_ofLayout h ((inside_ofLayout h).1 hc), patchOf]
  unfold Tiling.IsUpright Tiling.roleAt? at hupright
  cases hat : l.tiling.at? c with
  | none => simp [hat] at hupright
  | some s =>
      simp only [hat, Option.map_some, Option.some.injEq] at hupright
      rcases hupright with hrole | hrole <;> simp [Patch.orientation, hrole]

theorem PathQuery.Steps.nextTo {q : PathQuery} {source target c d : Cell} (h : q.Steps source target c d) :
    ∃ side, c.NextTo side d ∧ (c = source ∧ q.grid.isVertical source = true ∨
      d = target ∧ q.grid.isVertical target = true → side.isVertical = true) := by
  obtain ⟨vertical, hstep, hmay⟩ := h
  have hside : ∃ side, c.NextTo side d ∧ side.isVertical = vertical := by
    rcases LockGrid.mem_steps.1 hstep with ⟨rfl, hx, hy | hy⟩ | ⟨rfl, hy, hx | hx⟩
    · exact ⟨.above, ⟨hy, hx⟩, rfl⟩
    · exact ⟨.below, ⟨hy.1, hx⟩, rfl⟩
    · exact ⟨.left, ⟨hy, hx⟩, rfl⟩
    · exact ⟨.right, ⟨hy, hx.1⟩, rfl⟩
  obtain ⟨side, hnext, rfl⟩ := hside
  refine ⟨side, hnext, ?_⟩
  simp only [mayStep, Bool.and_eq_true, Bool.or_eq_true, bne_iff_ne] at hmay
  rintro (⟨rfl, hvertical⟩ | ⟨rfl, hvertical⟩)
  · simpa [hvertical] using hmay.1
  · simpa [hvertical] using hmay.2

namespace RoutingJob

variable {job : RoutingJob} {pace : Pace} {slacks : List Nat} {n t start stop : Nat}

inductive Threads (r : Cell → Cell → Prop) : List Cell → List (List Cell) → Prop
  | nil : Threads r [] []
  | single (c : Cell) : Threads r [c] []
  | leg {a b : Cell} {rest inner : List Cell} {legs : List (List Cell)}
      (hleg : (a :: (inner ++ [b])).IsChain r) (h : Threads r (b :: rest) legs) :
      Threads r (a :: b :: rest) ((a :: (inner ++ [b])) :: legs)

namespace Threads

variable {r : Cell → Cell → Prop} {cells : List Cell} {legs : List (List Cell)}

theorem pathOf_leg (a b : Cell) (rest inner : List Cell) (legs : List (List Cell)) :
    pathOf (a :: b :: rest) ((a :: (inner ++ [b])) :: legs) = a :: (inner ++ pathOf (b :: rest) legs) := by
  simp [pathOf]

theorem head?_pathOf (h : Threads r cells legs) : (pathOf cells legs).head? = cells.head? := by
  cases h with
  | nil => rfl
  | single => rfl
  | leg => rfl

theorem getLast?_pathOf (h : Threads r cells legs) : (pathOf cells legs).getLast? = cells.getLast? := by
  induction h with
  | nil => rfl
  | single => rfl
  | @leg a b rest inner legs _ h ih =>
      obtain ⟨tail, htail⟩ : ∃ tail, pathOf (b :: rest) legs = b :: tail := ⟨_, rfl⟩
      rw [pathOf_leg, List.getLast?_cons_cons, ← ih, htail, ← List.cons_append, List.getLast?_append_cons]

theorem isChain_pathOf (h : Threads r cells legs) : (pathOf cells legs).IsChain r := by
  induction h with
  | nil => exact .nil
  | single => exact .singleton _
  | @leg a b rest inner legs hleg _ ih =>
      rw [pathOf_leg]
      exact List.isChain_cons_split.2 ⟨hleg, ih⟩

/-- A path has the cells of the operands and those between them. -/
theorem pathOf_perm (h : Threads r cells legs) :
    (pathOf cells legs).Perm (cells ++ (legs.map interior).flatten) := by
  induction h with
  | nil => exact .refl _
  | single => exact .refl _
  | @leg a b rest inner legs _ _ ih =>
      have hinner : interior (a :: (inner ++ [b])) = inner := by simp [interior]
      rw [pathOf_leg, List.map_cons, List.flatten_cons, hinner]
      refine List.Perm.cons a ?_
      calc (inner ++ pathOf (b :: rest) legs).Perm (inner ++ (b :: rest ++ (legs.map interior).flatten)) :=
            ih.append_left inner
        _ |>.Perm (b :: rest ++ (inner ++ (legs.map interior).flatten)) := by
            rw [← List.append_assoc, ← List.append_assoc]
            exact List.perm_append_comm.append_right _

theorem filter_pathOf (h : Threads r cells legs) {operands : List Cell} (hcells : ∀ c ∈ cells, c ∈ operands)
    (hinner : ∀ c ∈ (legs.map interior).flatten, c ∉ operands) :
    (pathOf cells legs).filter (· ∈ operands) = cells := by
  induction h with
  | nil => rfl
  | single c => simpa [pathOf] using hcells
  | @leg a b rest inner legs _ _ ih =>
      have heq : interior (a :: (inner ++ [b])) = inner := by simp [interior]
      rw [List.map_cons, List.flatten_cons, heq] at hinner
      have htail := ih (fun c hc => hcells c (by simp [hc])) fun c hc => hinner c (by simp [hc])
      have hnone : inner.filter (· ∈ operands) = [] := by
        refine List.filter_eq_nil_iff.2 fun c hc => ?_
        simpa using hinner c (by simp [hc])
      rw [pathOf_leg, List.filter_cons_of_pos (by simpa using hcells a (by simp)), List.filter_append, hnone,
        htail]
      rfl

end Threads

/-- A step of a leg leaves no operand but the first and enters none but the last. -/
theorem isChain_leg {q : PathQuery} {l : Layout} {operands inner : List Cell} {a b : Cell}
    (hvertical : ∀ c ∈ operands, l.tiling.IsUpright c → q.grid.isVertical c = true)
    (hinner : ∀ c ∈ inner, c ∉ operands) (h : PathSearch.IsPath q a b (a :: (inner ++ [b]))) :
    (a :: (inner ++ [b])).IsChain (l.tiling.StepsTo operands) := by
  rw [List.isChain_iff_forall_rel_of_append_cons_cons]
  intro c d before after heq
  have hstep := List.isChain_iff_forall_rel_of_append_cons_cons.1 h.chain heq
  have hnodup := h.nodup
  rw [heq] at hnodup
  have hcb : c ≠ b := by
    rintro rfl
    have hlast := h.last
    rw [heq, List.getLast?_append_cons, List.getLast?_cons_cons] at hlast
    exact (List.nodup_cons.1 hnodup.of_append_right).1 (List.mem_of_getLast? hlast)
  have hda : d ≠ a := by
    rintro rfl
    have hhead := h.head
    rw [heq, List.append_cons, List.head?_append_of_ne_nil _ (by simp)] at hhead
    rw [List.append_cons] at hnodup
    exact (List.nodup_append.1 hnodup).2.2 d (List.mem_of_head? hhead) d (by simp) rfl
  have hmem (e : Cell) (he : e ∈ before ++ c :: d :: after) (hop : e ∈ operands) : e = a ∨ e = b := by
    rw [← heq] at he
    simp only [List.mem_cons, List.mem_append, List.not_mem_nil, or_false] at he
    rcases he with he | he | he
    · exact .inl he
    · exact absurd hop (hinner e he)
    · exact .inr he
  obtain ⟨side, hnext, hside⟩ := hstep.nextTo
  refine ⟨side, hnext, ?_⟩
  rintro (⟨hop, hupright⟩ | ⟨hop, hupright⟩)
  · obtain rfl := (hmem c (by simp) hop).resolve_right hcb
    exact hside (.inl ⟨rfl, hvertical c hop hupright⟩)
  · obtain rfl := (hmem d (by simp) hop).resolve_left hda
    exact hside (.inr ⟨rfl, hvertical d hop hupright⟩)

theorem threads_of_legs {grid : LockGrid} {l : Layout} {shared blocked cells operands : List Cell}
    {legs : List (List Cell)} (h : job.legs grid shared start stop blocked cells = .ok (some legs))
    (hinside : ∀ c ∈ cells, grid.inside c = true)
    (hvertical : ∀ c ∈ operands, l.tiling.IsUpright c → grid.isVertical c = true)
    (hinner : ∀ c ∈ (legs.map interior).flatten, c ∉ operands) :
    Threads (l.tiling.StepsTo operands) cells legs := by
  induction cells generalizing blocked legs with
  | nil =>
      simp only [RoutingJob.legs, pure_eq_ok_iff, Option.some.injEq] at h
      rw [← h]
      exact .nil
  | cons a tail ih =>
      cases tail with
      | nil =>
          simp only [RoutingJob.legs, pure_eq_ok_iff, Option.some.injEq] at h
          rw [← h]
          exact .single a
      | cons b rest =>
          obtain ⟨leg, later, rfl, hlength, hleg, hlater⟩ := legs_cons_cons h
          obtain ⟨q, rfl, -, hpath⟩ := leg?_isPath (hinside a (by simp)) hleg
          obtain ⟨inner, rfl⟩ := hpath.eq_cons_append hlength
          have heq : interior (a :: (inner ++ [b])) = inner := by simp [interior]
          rw [List.map_cons, List.flatten_cons, heq] at hinner
          refine .leg (isChain_leg hvertical (fun c hc => hinner c (by simp [hc])) hpath) ?_
          exact ih hlater (fun c hc => hinside c (by simp [hc])) fun c hc => hinner c (by simp [hc])

/-- Every cell of a leg is locked within the gate, and for the whole of it unless it is bridged. -/
theorem planLeg_locks (job : RoutingJob) (n : Nat) (teleporting : Bool) {inner : List Cell} {c : Cell}
    (h : start < stop) (hc : c ∈ inner) :
    (∃ k ∈ (job.planLeg n start stop teleporting inner).locks ++
        (job.planLeg n start stop teleporting inner).ends,
      k.cell = c ∧ start ≤ k.start ∧ k.start < k.stop ∧ k.stop ≤ stop) ∧
    ((∀ tp ∈ (job.planLeg n start stop teleporting inner).teleports, c ∉ tp.cells) →
      ⟨c, start, stop⟩ ∈ (job.planLeg n start stop teleporting inner).locks) := by
  obtain ⟨hfirst, hwindow, hlast⟩ := job.window_spec h
  rcases planLeg_cases job n start stop teleporting inner with
    hplan | ⟨before, a, mid, b, after, rfl, -, -, hplan⟩
  · rw [hplan]
    have hmem : (⟨c, start, stop⟩ : CellLock) ∈ inner.map fun c => ⟨c, start, stop⟩ :=
      List.mem_map_of_mem hc
    exact ⟨⟨_, List.mem_append_left _ hmem, rfl, le_refl _, h, le_refl _⟩, fun _ => hmem⟩
  · rw [hplan]
    by_cases hbridged : c ∈ a :: (mid ++ [b])
    · refine ⟨?_, fun hnot => absurd hbridged (hnot _ (List.mem_singleton_self _))⟩
      refine ⟨⟨c, (job.window start stop).1, (job.window start stop).2⟩, ?_, rfl, hfirst, hwindow, hlast⟩
      simp only [List.mem_cons, List.mem_append, List.not_mem_nil, or_false] at hbridged
      rcases hbridged with rfl | hmid | rfl
      · exact List.mem_append_right _ (by simp)
      · refine List.mem_append_left _ (List.mem_append_left _ (List.mem_append_right _ ?_))
        exact List.mem_map_of_mem hmid
      · exact List.mem_append_right _ (by simp)
    · have hmem : (⟨c, start, stop⟩ : CellLock) ∈ (before.map fun c => (⟨c, start, stop⟩ : CellLock))
          ++ (mid.map fun c => ⟨c, (job.window start stop).1, (job.window start stop).2⟩)
          ++ after.map fun c => ⟨c, start, stop⟩ := by
        rcases List.mem_append.1 hc with hc | hc
        · rcases List.mem_append.1 hc with hc | hc
          · exact List.mem_append_left _ (List.mem_append_left _ (List.mem_map_of_mem hc))
          · exact absurd hc hbridged
        · exact List.mem_append_right _ (List.mem_map_of_mem hc)
      exact ⟨⟨_, List.mem_append_left _ hmem, rfl, le_refl _, h, le_refl _⟩, fun _ => hmem⟩

namespace Admission

variable {f : Fabric} (a : Admission job f n t)

theorem inside_cells : ∀ c ∈ a.cells, f.grid.inside c = true := fun c hc =>
  (LockGrid.isFree_iff.1 (a.cells_free c hc)).1

theorem mem_path_iff {r : Cell → Cell → Prop} (h : Threads r a.cells a.legs) {c : Cell} :
    c ∈ a.route.path ↔ c ∈ a.cells ∨ c ∈ (a.legs.map interior).flatten := by
  rw [← List.mem_append]
  exact h.pathOf_perm.mem_iff

theorem held_of_mem_cells {c : Cell} (hc : c ∈ a.cells) : ⟨c, t, a.stop⟩ ∈ a.route.locks :=
  mem_planLocks.2 (.inl ⟨c, hc, rfl⟩)

/-- Cells between operands are locked as the leg has it that they belong to. -/
theorem locked_of_mem_inner {c : Cell} (hc : c ∈ (a.legs.map interior).flatten) :
    (∃ k ∈ a.route.locks, k.cell = c ∧ t ≤ k.start ∧ k.start < k.stop ∧ k.stop ≤ a.stop) ∧
      ((∀ tp ∈ a.route.teleports, c ∉ tp.cells) → ⟨c, t, a.stop⟩ ∈ a.route.locks) := by
  obtain ⟨inner, hinner, hc⟩ := List.mem_flatten.1 hc
  obtain ⟨⟨k, hk, hlocked⟩, hwhole⟩ := planLeg_locks job n (job.isBridging (a.legs.map interior)) a.lt_stop hc
  refine ⟨⟨k, mem_planLocks.2 (.inr ⟨inner, hinner, hk⟩), hlocked⟩, fun hnot => ?_⟩
  refine mem_planLocks.2 (.inr ⟨inner, hinner, List.mem_append_left _ (hwhole fun tp htp => ?_)⟩)
  apply hnot tp
  show tp ∈ (job.planLocks n t a.stop a.cells (a.legs.map interior)).teleports
  exact mem_planLocks_teleports.2 ⟨inner, hinner, htp⟩

/-- The route of a gate joins its operands if they are all in different cells. -/
theorem route_joins {l : Layout} {grid : LockGrid} (hgrid : LockGrid.ofLayout l = .ok grid)
    (hbare : f.grid.bare = grid) (hnodup : a.cells.Nodup) : a.route.Joins l a.cells := by
  obtain ⟨hinnerNodup, hinner⟩ := legs_interiors a.legs_eq a.inside_cells
  have hinside (c : Cell) (hc : f.grid.inside c = true) : grid.inside c = true := by
    rw [← hbare]
    exact hc
  have hvertical (c : Cell) (hc : c ∈ a.cells) (hupright : l.tiling.IsUpright c) :
      f.grid.isVertical c = true := by
    show f.grid.bare.isVertical c = true
    rw [hbare]
    exact LockGrid.isVertical_ofLayout hgrid (hinside c (a.inside_cells c hc)) hupright
  have hthreads : Threads (l.tiling.StepsTo a.cells) a.cells a.legs :=
    threads_of_legs a.legs_eq a.inside_cells hvertical fun c hc => (hinner c hc).2
  refine ⟨hthreads.head?_pathOf, hthreads.getLast?_pathOf, ?_, hthreads.isChain_pathOf, ?_, ?_, ?_, ?_⟩
  · exact hthreads.filter_pathOf (fun c hc => hc) fun c hc => (hinner c hc).2
  · intro c hc hcells
    obtain ⟨hroute, -⟩ := hinner c (((a.mem_path_iff hthreads).1 hc).resolve_left hcells)
    have hc := hinside c (LockGrid.inside_of_isRoute hroute)
    rw [← LockGrid.isRoute_ofLayout hgrid ((LockGrid.inside_ofLayout hgrid).1 hc), ← hbare]
    exact hroute
  · refine hthreads.pathOf_perm.nodup_iff.2 (List.nodup_append.2 ⟨hnodup, hinnerNodup, ?_⟩)
    rintro c hc d hd rfl
    exact (hinner c hd).2 hc
  · intro c hc
    rcases (a.mem_path_iff hthreads).1 hc with hc | hc
    · exact ⟨_, a.held_of_mem_cells hc, rfl, le_refl _, a.lt_stop, le_refl _⟩
    · exact (a.locked_of_mem_inner hc).1
  · intro c hc hwhole
    rcases (a.mem_path_iff hthreads).1 hc with hc | hc
    · exact a.held_of_mem_cells hc
    · exact (a.locked_of_mem_inner hc).2 (hwhole.resolve_left fun hcells => (hinner c hc).2 hcells)

end Admission

/-- What cells are used for does not change, and symbols stay in their cells. -/
theorem Reaches.keeps {s s' : RoutingState} (h : Reaches job pace slacks s s') :
    s'.fabric.grid.bare = s.fabric.grid.bare ∧ s'.fabric.mapping.cells = s.fabric.mapping.cells := by
  induction h with
  | refl => exact ⟨rfl, rfl⟩
  | @tail s₁ s₂ _ hstep ih =>
      have hkeep : s₂.fabric.grid.bare = s₁.fabric.grid.bare ∧
          s₂.fabric.mapping.cells = s₁.fabric.mapping.cells := by
        cases hstep with
        | complete => exact (foldl_complete_keeps job _ _).symm
        | wait _ htry => exact ⟨congrArg LockGrid.bare (tryRoute_none htry).1, tryRoute_cells htry⟩
        | enter _ a =>
            refine ⟨LockGrid.bare_foldl_hold _ _, ?_⟩
            exact tryRoute_cells (tryRoute_eq_some_iff.2 ⟨a, rfl, rfl⟩)
        | advance => exact ⟨rfl, rfl⟩
      exact ⟨hkeep.1.trans ih.1, hkeep.2.trans ih.2⟩

structure Took (job : RoutingJob) (slacks : List Nat) (f : Fabric) (x : Route) (s s' : RoutingState) :
    Prop where
  reached : Reaches job jump slacks ⟨0, 0, f, [], [], []⟩ s
  step : Step job jump slacks s s'
  routes_eq : s'.routes = s.routes ++ [x]
  start_eq : x.start = s.clock

theorem exists_took {f : Fabric} {s : RoutingState} (h : Reaches job jump slacks ⟨0, 0, f, [], [], []⟩ s)
    {x : Route} (hx : x ∈ s.routes) : ∃ s₁ n, ∃ a : Admission job s₁.fabric n s₁.clock, x = a.route ∧
      Took job slacks f x s₁ { s₁ with
        fabric := a.fabric, routes := s₁.routes ++ [a.route], running := s₁.running ++ [a.route] } := by
  induction h with
  | refl => cases hx
  | @tail s s' hreach hstep ih =>
      have hcases := hstep
      cases hcases with
      | complete => exact ih hx
      | wait => exact ih hx
      | @enter n hn a =>
          rcases List.mem_append.1 hx with hx | hx
          · exact ih hx
          · obtain rfl := List.mem_singleton.1 hx
            exact ⟨s, n, a, rfl, hreach, hstep, rfl, rfl⟩
      | advance => exact ih hx

end RoutingJob

/-- Every route of a run leads through the cells that its operands had when it was taken, in order, and holds
them and its whole path, as long as the operands were in different cells. -/
theorem run_routes_join_operands {c : Circuit} {l : Layout} {m : Mapping} {schedule : Schedule}
    {settings : RoutingSettings} {job : RoutingJob} {f f' : Fabric} {r : Routing}
    (hstart : RoutingJob.start c l m schedule settings = .ok (job, f))
    (hrun : job.run f = .ok (f', .ok r)) :
    ∃ slacks, c.slacks = .ok slacks ∧ ∀ x ∈ r.routes, ∃ s s' g cells, job.Took slacks f x s s' ∧
      c.gate? x.gate = some g ∧
      (job.resolve x.gate g.isReset g.operands [] [] s.fabric.mapping).1 = .found cells ∧
      (cells.Nodup →
        g.operands.filterMap s'.fabric.mapping.coordinate? = cells ∧ x.Joins l cells) := by
  obtain ⟨grid, hgrid, rfl, rfl⟩ := RoutingJob.start_eq_ok_iff.1 hstart
  obtain ⟨slacks, hslacks, hrun⟩ := bind_eq_ok_iff.1 hrun
  obtain ⟨s, hreach, -, -, rfl⟩ := RoutingJob.reaches_of_runFrom hrun
  refine ⟨slacks, hslacks, fun x hx => ?_⟩
  obtain ⟨s₁, n, a, rfl, htook⟩ := RoutingJob.exists_took hreach hx
  have hbare : s₁.fabric.grid.bare = grid :=
    (RoutingJob.Reaches.keeps htook.reached).1.trans
      (LockGrid.eq_bare_of_holds_eq_nil (LockGrid.holds_ofLayout hgrid)).symm
  refine ⟨s₁, _, a.gate, a.cells, htook, a.gate_eq, congrArg Prod.fst a.resolve_eq, fun hnodup => ?_⟩
  exact ⟨a.coordinates_eq hnodup, a.route_joins hgrid hbare hnodup⟩

/-- The second gate of the crossing runs through the switch in the middle from one operand to the other. -/
theorem crossing_route_joins : ∃ job f f' x,
    RoutingJob.start Crossing.circuit Crossing.layout Crossing.mapping Crossing.schedule
        Crossing.settings = .ok (job, f) ∧
      job.run f = .ok (f', .ok Crossing.routing) ∧ Crossing.routing.routes[1]? = some x ∧
      x.path = [⟨2, 2⟩, ⟨1, 2⟩, ⟨1, 3⟩, ⟨1, 4⟩, ⟨2, 4⟩] ∧ x.Joins Crossing.layout [⟨2, 2⟩, ⟨2, 4⟩] := by
  obtain ⟨job, f, f', hstart, hrun⟩ := Crossing.exists_run_eq
  obtain ⟨slacks, -, hroutes⟩ := run_routes_join_operands hstart hrun
  obtain ⟨s, s', g, cells, htook, hg, hfound, hjoins⟩ := hroutes _ (List.mem_of_getElem? (i := 1) rfl)
  obtain rfl : Gate.joint "cx" [.register "c", .register "d"] 2 = g := Option.some.inj hg
  obtain ⟨grid, -, rfl, rfl⟩ := RoutingJob.start_eq_ok_iff.1 hstart
  -- the symbols are where the mapping has them throughout the run
  have hcell (u : Symbol) : s.fabric.mapping.cell? u = Crossing.mapping.cell? u := by
    rw [Mapping.cell?, (RoutingJob.Reaches.keeps htook.reached).2]
    rfl
  have hcells : [⟨2, 2⟩, ⟨2, 4⟩] = cells := by
    have hseats : ∀ u ∈ (Gate.joint "cx" [.register "c", .register "d"] 2).operands,
        u.isFactory = false ∧ ∃ c, s.fabric.mapping.cell? u = some c := by
      simp only [hcell, ← Option.isSome_iff_exists]
      decide
    rw [RoutingJob.resolve_eq hseats, funext hcell] at hfound
    exact Operands.found.inj hfound
  subst hcells
  exact ⟨_, _, f', _, hstart, hrun, rfl, rfl, (hjoins (by decide)).2⟩

end SurfaceFabric
