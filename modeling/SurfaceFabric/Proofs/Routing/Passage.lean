import SurfaceFabric.Proofs.Placement.Served
import SurfaceFabric.Proofs.Routing.Step

/-!
Passage on a served layout. Its lock grid sees the roles of the cells, and as long as nothing is held a
path leads from every slot to every other: up or down into the routing, along it, and up or down again.
-/

namespace SurfaceFabric

namespace LockGrid

theorem allCells_eq (height width : Nat) :
    allCells height width = (List.range (height * width)).map fun i => ⟨i / width, i % width⟩ := by
  induction height with
  | zero => simp [allCells]
  | succ height ih =>
      have hrow : allCells (height + 1) width =
          allCells height width ++ (List.range width).map fun x => ⟨height, x⟩ := by
        simp [allCells, List.range_succ]
      rw [hrow, ih, Nat.succ_mul, List.range_add, List.map_append, List.map_map]
      congr 1
      refine List.map_congr_left fun x hx => ?_
      rw [List.mem_range] at hx
      have hpos : 0 < width := by omega
      simp only [Function.comp_apply, Cell.mk.injEq]
      constructor
      · rw [Nat.mul_comm, Nat.mul_add_div hpos, Nat.div_eq_of_lt hx, Nat.add_zero]
      · rw [Nat.mul_comm, Nat.mul_add_mod, Nat.mod_eq_of_lt hx]

variable {l : Layout} {g : LockGrid}

theorem inside_ofLayout (h : ofLayout l = .ok g) {c : Cell} :
    g.inside c = true ↔ c.y < l.height ∧ c.x < l.width := by
  obtain ⟨-, rfl⟩ := ofLayout_eq_ok_iff.1 h
  exact inside_iff

theorem holds_ofLayout (h : ofLayout l = .ok g) : g.holds = [] := by
  obtain ⟨-, rfl⟩ := ofLayout_eq_ok_iff.1 h
  rfl

theorem isFree_of_holds_eq_nil (h : g.holds = []) {c : Cell} (hc : g.inside c = true)
    (start stop : Nat) : g.isFree c start stop = true :=
  isFree_iff.2 ⟨hc, fun x hx => by rw [h] at hx; cases hx⟩

theorem patch?_ofLayout (h : ofLayout l = .ok g) {c : Cell} (hc : c.y < l.height ∧ c.x < l.width) :
    g.patch? c = some (patchOf l c) := by
  obtain ⟨-, rfl⟩ := ofLayout_eq_ok_iff.1 h
  obtain ⟨hy, hx⟩ := hc
  have hpos : 0 < l.width := by omega
  have hindex : c.y * l.width + c.x < l.height * l.width := by
    have := Nat.mul_le_mul_right l.width (Nat.succ_le_of_lt hy)
    rw [Nat.succ_mul] at this
    omega
  have hcell : (allCells l.height l.width)[c.y * l.width + c.x]? = some c := by
    rw [allCells_eq, List.getElem?_map, List.getElem?_range hindex, Option.map_some, Nat.mul_comm,
      Nat.mul_add_div hpos, Nat.div_eq_of_lt hx, Nat.mul_add_mod, Nat.mod_eq_of_lt hx]
    rfl
  unfold patch?
  rw [if_pos (inside_iff.2 ⟨hy, hx⟩)]
  dsimp only
  rw [List.getElem?_toArray, List.getElem?_map, hcell]
  rfl

theorem isRoute_ofLayout (h : ofLayout l = .ok g) {c : Cell} (hc : c.y < l.height ∧ c.x < l.width) :
    g.isRoute c = l.tiling.isRouteAt c := by
  unfold isRoute Tiling.isRouteAt Tiling.roleAt?
  rw [patch?_ofLayout h hc]
  unfold patchOf
  cases l.tiling.at? c with
  | none => rfl
  | some s => rfl

theorem mem_steps_of_nextTo {c d : Cell} {side : Side} (hnext : c.NextTo side d)
    (hd : g.inside d = true) : (d, side.isVertical) ∈ g.steps c := by
  rw [inside_iff] at hd
  rw [mem_steps]
  cases side <;> simp only [Cell.NextTo, Side.isVertical] at hnext ⊢ <;> simp <;> omega

end LockGrid

namespace RoutingJob

open Tiling

variable {l : Layout} {grid : LockGrid} {size : Rect} {anchor : Cell}

theorem mem_grid_of_roleAt? {t : Tiling} (h : t.WellTiled) {c : Cell} {role : Role}
    (hc : t.roleAt? c = some role) : c.y < t.height ∧ c.x < t.width := by
  obtain ⟨s, hs, hcs, -⟩ := h.roleAt?_eq_some_iff.1 hc
  have hgrid := Rect.mem_iff.1 (h.bounded s hs c hcs)
  exact ⟨hgrid.2.1, hgrid.2.2.2⟩

/-- Routing cells can be passed while nothing is held. -/
theorem passable_of_isRouteAt (hgrid : LockGrid.ofLayout l = .ok grid) (h : l.tiling.WellTiled)
    {start stop : Nat} {c : Cell} (hc : l.tiling.isRouteAt c = true) :
    grid.inside c = true ∧ PathQuery.passable ⟨grid, start, stop, [], none⟩ c = true := by
  obtain ⟨role, hrole, -⟩ := isRouteAt_iff.1 hc
  have hin := mem_grid_of_roleAt? h hrole
  have hroute : grid.isRoute c = true := (LockGrid.isRoute_ofLayout hgrid hin).trans hc
  have hinside := (LockGrid.inside_ofLayout hgrid).2 hin
  have hfree := LockGrid.isFree_of_holds_eq_nil (LockGrid.holds_ofLayout hgrid) hinside start stop
  exact ⟨hinside, by simp [PathQuery.passable, hroute, hfree]⟩

theorem exists_leg? (job : RoutingJob) (hgrid : LockGrid.ofLayout l = .ok grid)
    (h : l.tiling.Served size anchor) (shared : List Cell) (start stop : Nat) {a b : Cell}
    {ra rb : Role} (ha : l.tiling.roleAt? a = some ra) (hra : ra.IsSlot)
    (hb : l.tiling.roleAt? b = some rb) (hrb : rb.IsSlot) :
    ∃ leg, job.leg? grid shared start stop [] a b = some leg := by
  let q : PathQuery := ⟨grid, start, stop, [], none⟩
  have hslot {c : Cell} {role : Role} (hc : l.tiling.roleAt? c = some role) (hrole : role.IsSlot) :
      l.tiling.isRouteAt c ≠ true := by
    intro hroute
    obtain ⟨role', hc', hroute⟩ := isRouteAt_iff.1 hroute
    rw [hc] at hc'
    cases hc'
    rcases hrole with rfl | rfl <;> cases hroute
  have hinside {c : Cell} {role : Role} (hc : l.tiling.roleAt? c = some role) :
      grid.inside c = true :=
    (LockGrid.inside_ofLayout hgrid).2 (mem_grid_of_roleAt? h.wellTiled hc)
  have hpass (c : Cell) (hc : l.tiling.isRouteAt c = true) :
      grid.inside c = true ∧ q.passable c = true := passable_of_isRouteAt hgrid h.wellTiled hc
  obtain ⟨sideA, entryA, hverticalA, hnextA, hentryA⟩ := h.entered a ra ha hra
  obtain ⟨sideB, entryB, hverticalB, hnextB, hentryB⟩ := h.entered b rb hb hrb
  -- into the routing
  have hfirst : q.Steps a b a entryA := by
    refine ⟨sideA.isVertical, LockGrid.mem_steps_of_nextTo hnextA (hpass _ hentryA).1, ?_⟩
    have hne : entryA ≠ b := fun heq => hslot hb hrb (heq ▸ hentryA)
    simp [PathQuery.mayStep, hverticalA, hne, (hpass _ hentryA).2]
  -- along it
  have halong : Relation.ReflTransGen (q.Steps a b) entryA entryB := by
    refine Relation.ReflTransGen.mono ?_ _ _ ((h.joined _ hentryA).symm.trans (h.joined _ hentryB))
    rintro c d ⟨hc, hd, side, hnext⟩
    have hne : d ≠ b := fun heq => hslot hb hrb (heq ▸ hd)
    have hleft : c ≠ a := fun heq => hslot ha hra (heq ▸ hc)
    refine ⟨side.isVertical, LockGrid.mem_steps_of_nextTo hnext (hpass d hd).1, ?_⟩
    simp [PathQuery.mayStep, hleft, hne, (hpass d hd).2]
  -- and out of it
  have hlast : q.Steps a b entryB b := by
    refine ⟨true, ?_, by simp [PathQuery.mayStep]⟩
    have hstep := LockGrid.mem_steps_of_nextTo hnextB.symm (hinside hb)
    rwa [show sideB.opposite.isVertical = true by cases sideB <;> simp_all [Side.opposite, Side.isVertical]]
      at hstep
  have hfound : ∃ leg, PathSearch.find? q a b = some leg :=
    PathSearch.findBy?_isSome (hinside ha) (.head hfirst (halong.tail hlast))
  obtain ⟨leg, hleg⟩ := hfound
  exact ⟨leg, Option.or_eq_some_iff.2 (.inl hleg)⟩

end RoutingJob

end SurfaceFabric
