import SurfaceFabric.Proofs.Placement.Standing

/-!
Connectors. A probe ends on routing, and a connector makes the column above that cell routing, so all that
it makes is joined to what was there before. It does not matter which routing a probe was to look for. Routing
that is in one piece is linked to the segment of any of its cells, so there nothing is left to connect.
-/

namespace SurfaceFabric.Tiling

variable {t t' : Tiling} {grid : Rect} {anchor : Cell} {x y stop : Nat}

def FreeAt (t : Tiling) (c : Cell) : Prop := ∃ s ∈ t.segments, c ∈ s.rect ∧ s.isFree = true

/-- A probe goes over free cells and ends on routing. -/
theorem probeDown_eq_some {accept : Nat → Bool} (h : t.probeDown accept x y = some stop) :
    y ≤ stop ∧ t.isRouteAt ⟨stop, x⟩ = true ∧ ∀ k, y ≤ k → k < stop → t.FreeAt ⟨k, x⟩ := by
  induction hleft : t.height - y using Nat.strong_induction_on generalizing y with
  | _ left ih =>
      rw [probeDown] at h
      split at h
      · next hlt =>
          split at h
          · cases h
          · next s hat =>
              split at h
              · next hroute =>
                  split at h
                  · obtain rfl := Option.some.inj h
                    exact ⟨le_rfl, isRouteAt_iff.2 ⟨s.role, by rw [roleAt?, hat]; rfl, hroute⟩, by omega⟩
                  · cases h
              · split at h
                · next hfree =>
                    obtain ⟨hle, hroute, hclear⟩ := ih _ (by omega) h rfl
                    refine ⟨by omega, hroute, fun k hk hstop => ?_⟩
                    rcases hk.eq_or_lt with rfl | hlater
                    · exact ⟨s, List.mem_of_find?_eq_some hat, at?_contains hat, hfree⟩
                    · exact hclear k hlater hstop
                · cases h
      · cases h

/-- Routing down a column from a row to another, the last not included, and nothing else. -/
structure Dropped (t : Tiling) (x y stop : Nat) (t' : Tiling) : Prop where
  builds : Builds t t'
  grid : t'.grid = t.grid
  inside : ∀ c : Cell, c.x = x → y ≤ c.y → c.y < stop → t'.roleAt? c = some .route
  outside : ∀ c : Cell, ¬(c.x = x ∧ y ≤ c.y ∧ c.y < stop) → t'.roleAt? c = t.roleAt? c

theorem dropped_of_carveConnector (h : t.WellTiled) (hcarve : t.carveConnector x stop y = .ok t') :
    Dropped t x y stop t' := by
  induction hleft : stop - y using Nat.strong_induction_on generalizing t y with
  | _ left ih =>
      rw [carveConnector] at hcarve
      split at hcarve
      · next hlt =>
          split at hcarve
          · cases hcarve
          · next s hat =>
              obtain ⟨length, hlength, hcarve⟩ := bind_eq_ok_iff.1 hcarve
              obtain ⟨found, halloc, hcarve⟩ := bind_eq_ok_iff.1 hcarve
              rw [Outcome.liftM_eq_ok_iff] at hlength halloc
              obtain ⟨-, rfl⟩ := Word.sub_eq_ok_iff.1 hlength
              cases found with
              | none => cases hcarve
              | some made =>
                  obtain ⟨n, u⟩ := made
                  obtain ⟨hs, hmem⟩ := h.at?_eq_some_iff.1 hat
                  have hbelow : y < min s.rect.y1 stop := by
                    have := Rect.mem_iff.1 hmem
                    simp only at this
                    omega
                  obtain ⟨inner, hinner, hwell, hgrid, ⟨piece, hpiece, hrect, hrole⟩, houtside⟩ :=
                    h.allocAt hs halloc
                  obtain rfl := Rect.ofBox_eq_ok hinner
                  have hinner (c : Cell) : c ∈ piece.rect ↔ c.x = x ∧ y ≤ c.y ∧ c.y < min s.rect.y1 stop := by
                    rw [hrect, Rect.mem_iff]
                    dsimp only
                    omega
                  have hlater := ih _ (by omega) hwell hcarve rfl
                  refine ⟨(h.builds_allocAt halloc).1.trans hlater.builds, hlater.grid.trans hgrid, ?_, ?_⟩
                  · intro c hx hy hstop
                    by_cases hc : c.y < min s.rect.y1 stop
                    · rw [hlater.outside c (by omega), ← hrole]
                      exact hwell.roleAt?_eq hpiece ((hinner c).2 ⟨hx, hy, hc⟩)
                    · exact hlater.inside c hx (by omega) hstop
                  · intro c hc
                    rw [hlater.outside c (by omega)]
                    apply houtside c
                    rw [← hrect, hinner]
                    omega
      · cases hcarve
        exact ⟨.refl, rfl, fun c _ _ _ => by omega, fun _ _ => rfl⟩

namespace Dropped

theorem isRouteAt_inside (h : Dropped t x y stop t') {c : Cell} (hx : c.x = x) (hy : y ≤ c.y)
    (hstop : c.y < stop) : t'.isRouteAt c = true :=
  isRouteAt_iff.2 ⟨.route, h.inside c hx hy hstop, rfl⟩

theorem isRouteAt (h : Dropped t x y stop t') {c : Cell} (hc : t.isRouteAt c = true) :
    t'.isRouteAt c = true := by
  by_cases hcolumn : c.x = x ∧ y ≤ c.y ∧ c.y < stop
  · exact h.isRouteAt_inside hcolumn.1 hcolumn.2.1 hcolumn.2.2
  · rwa [Tiling.isRouteAt, h.outside c hcolumn]

/-- Routing that continues the column above its first row is joined to its end. -/
theorem joined (h : Dropped t x y stop t') (hend : t.isRouteAt ⟨stop, x⟩ = true) {top : Nat}
    (htop : top ≤ stop) (habove : ∀ k, top ≤ k → k < y → t'.isRouteAt ⟨k, x⟩ = true) :
    t'.Joined ⟨stop, x⟩ ⟨top, x⟩ := by
  have hdown : t'.Joined ⟨top, x⟩ ⟨top + (stop - top), x⟩ := by
    apply joined_below
    intro k hk
    by_cases hstop : top + k = stop
    · rw [hstop]
      exact h.isRouteAt hend
    · by_cases hcolumn : y ≤ top + k
      · exact h.isRouteAt_inside rfl hcolumn (by dsimp only; omega)
      · exact habove _ (by omega) (by omega)
  rw [Nat.add_sub_cancel' htop] at hdown
  exact hdown.symm

end Dropped

/-- A connector that ends on routing leaves all routing joined. -/
theorem Served.dropped (h : t.Served grid anchor) (hdrop : Dropped t x y stop t')
    (hend : t.isRouteAt ⟨stop, x⟩ = true) : t'.Served grid anchor := by
  apply h.extend (h.wellTiled.builds hdrop.builds) hdrop.grid fun _ => hdrop.isRouteAt
  · intro c hc
    by_cases hcolumn : c.x = x ∧ y ≤ c.y ∧ c.y < stop
    · obtain ⟨rfl, hy, hstop⟩ := hcolumn
      exact ⟨_, hend, hdrop.joined hend hstop.le fun k hk hky => by omega⟩
    · rw [isRouteAt, hdrop.outside c hcolumn] at hc
      exact ⟨c, hc, .refl⟩
  · intro c role hrole hslot
    by_cases hcolumn : c.x = x ∧ y ≤ c.y ∧ c.y < stop
    · rw [hdrop.inside c hcolumn.1 hcolumn.2.1 hcolumn.2.2] at hrole
      cases hrole
      rcases hslot with hslot | hslot <;> cases hslot
    · exact .inl (hdrop.outside c hcolumn ▸ hrole)

/-- Pieces that are cut out of a segment and joined to the end of a connector, with the connector. -/
theorem Carved.served_dropped {u : Tiling} {s : Segment} {pieces : List Piece} (h : t.Served grid anchor)
    (hcarved : Carved t s pieces u) (hdrop : Dropped u x y stop t') (hend : t.isRouteAt ⟨stop, x⟩ = true)
    (hroutes : ∀ p ∈ pieces, p.role.isRoute = true → ∀ c ∈ p.rect, t'.Joined ⟨stop, x⟩ c)
    (hslots : ∀ p ∈ pieces, ¬p.role.IsSlot) : t'.Served grid anchor := by
  have hkeep (c : Cell) (hc : t.isRouteAt c = true) : t'.isRouteAt c = true :=
    hdrop.isRouteAt (hcarved.isRouteAt hc)
  -- a cell is in the connector, in a piece, or as it was
  have hcases (c : Cell) (role : Role) (hrole : t'.roleAt? c = some role) :
      ((c.x = x ∧ y ≤ c.y ∧ c.y < stop) ∧ role = .route) ∨ role = .unassigned ∨
        (∃ p ∈ pieces, c ∈ p.rect ∧ p.role = role) ∨ t.roleAt? c = some role := by
    by_cases hcolumn : c.x = x ∧ y ≤ c.y ∧ c.y < stop
    · rw [hdrop.inside c hcolumn.1 hcolumn.2.1 hcolumn.2.2] at hrole
      exact .inl ⟨hcolumn, (Option.some.inj hrole).symm⟩
    · rw [hdrop.outside c hcolumn] at hrole
      by_cases hcs : c ∈ s.rect
      · rcases hcarved.rest c hcs with hfree | ⟨p, hp, hcp⟩
        · exact .inr (.inl (Option.some.inj (hrole.symm.trans hfree)))
        · have hpiece := (hcarved.inside p hp c hcp).2
          exact .inr (.inr (.inl ⟨p, hp, hcp, Option.some.inj (hpiece.symm.trans hrole)⟩))
      · exact .inr (.inr (.inr (hcarved.outside c hcs ▸ hrole)))
  apply h.extend (hcarved.wellTiled.builds hdrop.builds) (hdrop.grid.trans hcarved.grid) hkeep
  · intro c hc
    obtain ⟨role, hrole, hroute⟩ := isRouteAt_iff.1 hc
    rcases hcases c role hrole with ⟨⟨rfl, hy, hstop⟩, -⟩ | rfl | ⟨p, hp, hcp, rfl⟩ | hold
    · exact ⟨_, hend, hdrop.joined (hcarved.isRouteAt hend) hstop.le fun k hk hky => by omega⟩
    · cases hroute
    · exact ⟨_, hend, hroutes p hp hroute c hcp⟩
    · exact ⟨c, isRouteAt_iff.2 ⟨role, hold, hroute⟩, .refl⟩
  · intro c role hrole hslot
    rcases hcases c role hrole with ⟨-, rfl⟩ | rfl | ⟨p, hp, -, rfl⟩ | hold
    · rcases hslot with hslot | hslot <;> cases hslot
    · rcases hslot with hslot | hslot <;> cases hslot
    · exact absurd hslot (hslots p hp)
    · exact .inl hold

theorem dropFrom?_eq_some {r : Rect} {targets : List Nat} (h : t.dropFrom? r targets = some (x, stop)) :
    t.isRouteAt ⟨stop, x⟩ = true := by
  obtain ⟨column, -, hprobe⟩ := List.exists_of_findSome?_eq_some h
  obtain ⟨row, hrow, heq⟩ := Option.map_eq_some_iff.1 hprobe
  cases heq
  exact (probeDown_eq_some hrow).2.1

theorem Served.connectFrom {main : Segment} {n : Nat} (h : t.Served grid anchor)
    (hconnect : connectFrom main n t = .ok t') : Builds t t' ∧ t'.Served grid anchor := by
  induction n generalizing t with
  | zero =>
      cases hconnect
      exact ⟨.refl, h⟩
  | succ n ih =>
      rw [Tiling.connectFrom] at hconnect
      obtain ⟨-, hconnect⟩ := Outcome.guard_eq_ok_iff.1 hconnect
      dsimp only at hconnect
      split at hconnect
      · cases hconnect
        exact ⟨.refl, h⟩
      · split at hconnect
        · cases hconnect
        · next hdrop =>
            obtain ⟨u, hcarve, hconnect⟩ := bind_eq_ok_iff.1 hconnect
            have hdropped := dropped_of_carveConnector h.wellTiled hcarve
            obtain ⟨hbuilds, hserved⟩ := ih (h.dropped hdropped (dropFrom?_eq_some hdrop)) hconnect
            exact ⟨hdropped.builds.trans hbuilds, hserved⟩

theorem Served.connectRoutes {c : Cell} (h : t.Served grid anchor) (hconnect : t.connectRoutes c = .ok t') :
    Builds t t' ∧ t'.Served grid anchor := by
  rw [Tiling.connectRoutes] at hconnect
  split at hconnect
  · cases hconnect
  · exact h.connectFrom hconnect

/-! ### Routing in one piece -/

theorem mem_spreadOnce {ids : List Nat} {n : Nat} : n ∈ t.spreadOnce ids ↔
    ∃ s ∈ t.segments, s.role.isRoute = true ∧ (s.id ∈ ids ∨ ∃ side, ∃ k ∈ ids, k ∈ s.neighbours side) ∧
      s.id = n := by
  simp only [spreadOnce, List.mem_map, List.mem_filter, Bool.and_eq_true, Bool.or_eq_true, decide_eq_true_eq,
    List.any_eq_true, Segment.allNeighbours, List.mem_flatMap, and_assoc]
  refine exists_congr fun s => and_congr_right fun _ => and_congr_right fun _ => and_congr_left fun _ =>
    or_congr_right ?_
  constructor
  · rintro ⟨_, ⟨side, -, k, hk, rfl⟩, hids⟩
    exact ⟨side, k, hids, hk⟩
  · rintro ⟨side, k, hids, hk⟩
    exact ⟨(side, k), ⟨side, by cases side <;> simp [Side.all], k, hk, rfl⟩, hids⟩

def RouteIds (t : Tiling) (ids : List Nat) : Prop :=
  ids.Nodup ∧ ∀ k ∈ ids, ∃ s ∈ t.segments, s.id = k ∧ s.role.isRoute = true

theorem WellTiled.routeIds_spreadOnce (h : t.WellTiled) (ids : List Nat) : t.RouteIds (t.spreadOnce ids) := by
  refine ⟨?_, fun k hk => ?_⟩
  · exact List.Pairwise.map _ (fun s u hlt => Nat.ne_of_lt hlt) (h.ascending.filter _)
  · obtain ⟨s, hs, hroute, -, hid⟩ := mem_spreadOnce.1 hk
    exact ⟨s, hs, hid, hroute⟩

theorem RouteIds.subset_spreadOnce {ids : List Nat} (h : t.RouteIds ids) : ids ⊆ t.spreadOnce ids := by
  intro k hk
  obtain ⟨s, hs, rfl, hroute⟩ := h.2 k hk
  exact mem_spreadOnce.2 ⟨s, hs, hroute, .inl hk, rfl⟩

/-- Spreading often enough ends with all that is linked to the start. -/
theorem WellTiled.spread_closed (h : t.WellTiled) {ids : List Nat} (hids : t.RouteIds ids) {n : Nat}
    (hn : t.segments.length ≤ n + ids.length) :
    ids ⊆ t.spread n ids ∧ t.spreadOnce (t.spread n ids) ⊆ t.spread n ids := by
  induction n generalizing ids with
  | zero =>
      -- all segments are in already
      refine ⟨List.Subset.refl _, fun k hk => ?_⟩
      have hsub : ids ⊆ t.segments.map Segment.id := by
        intro k hk
        obtain ⟨s, hs, rfl, -⟩ := hids.2 k hk
        exact List.mem_map_of_mem hs
      have hperm := (hids.1.subperm hsub).perm_of_length_le (by simpa using hn)
      obtain ⟨s, hs, -, -, rfl⟩ := mem_spreadOnce.1 hk
      exact hperm.mem_iff.2 (List.mem_map_of_mem hs)
  | succ n ih =>
      have hsubperm := hids.1.subperm hids.subset_spreadOnce
      rw [spread]
      split
      · next hlength =>
          exact ⟨List.Subset.refl _, (hsubperm.perm_of_length_le hlength.le).symm.subset⟩
      · next hlength =>
          have hle := hsubperm.length_le
          obtain ⟨hsub, hclosed⟩ := ih (h.routeIds_spreadOnce ids) (by omega)
          exact ⟨fun k hk => hsub (hids.subset_spreadOnce hk), hclosed⟩

/-- All routing is linked to the segment that holds the anchor. -/
theorem Served.mem_routeComponent (h : t.Served grid anchor) {main s : Segment} (hmain : t.at? anchor = some main)
    (hs : s ∈ t.segments) (hroute : s.role.isRoute = true) : s.id ∈ t.routeComponent main.id := by
  have hwell := h.wellTiled
  have hsegment {c : Cell} (hc : t.isRouteAt c = true) :
      ∃ u ∈ t.segments, c ∈ u.rect ∧ u.role.isRoute = true := by
    obtain ⟨role, hrole, hroute⟩ := isRouteAt_iff.1 hc
    obtain ⟨u, hu, hc, rfl⟩ := hwell.roleAt?_eq_some_iff.1 hrole
    exact ⟨u, hu, hc, hroute⟩
  obtain ⟨hmainMem, hanchor⟩ := hwell.at?_eq_some_iff.1 hmain
  have hstart : t.RouteIds [main.id] := by
    refine ⟨List.nodup_singleton _, fun k hk => ?_⟩
    obtain ⟨u, hu, hc, hroute⟩ := hsegment h.anchored
    obtain rfl := hwell.eq_of_mem hu hmainMem hc hanchor
    exact ⟨u, hu, (List.mem_singleton.1 hk).symm, hroute⟩
  obtain ⟨hsub, hclosed⟩ := hwell.spread_closed hstart (n := t.segments.length) (Nat.le_add_right _ _)
  have hreach {c : Cell} (hc : t.Joined anchor c) : ∀ u ∈ t.segments, c ∈ u.rect → u.role.isRoute = true →
      u.id ∈ t.routeComponent main.id := by
    induction hc with
    | refl =>
        intro u hu hc _
        rw [hwell.eq_of_mem hu hmainMem hc hanchor]
        exact hsub (List.mem_singleton_self _)
    | @tail b c _ hstep ih =>
        obtain ⟨hb, hc, side, hnext⟩ := hstep
        intro u hu hcu huroute
        obtain ⟨v, hv, hbv, hvroute⟩ := hsegment hb
        have hvmem := ih v hv hbv hvroute
        by_cases hid : u.id = v.id
        · rwa [hid]
        · refine hclosed (mem_spreadOnce.2 ⟨u, hu, huroute, .inr ⟨side.opposite, v.id, hvmem, ?_⟩, rfl⟩)
          exact (hwell.mem_neighbours_iff hu hv).2 ⟨hid, c, hcu, b, hbv, hnext.symm⟩
  have hcorner : (⟨s.rect.y0, s.rect.x0⟩ : Cell) ∈ s.rect := by
    obtain ⟨hy, hx⟩ := hwell.inhabited s hs
    exact Rect.mem_iff.2 ⟨le_rfl, hy, le_rfl, hx⟩
  refine hreach (h.joined _ (isRouteAt_iff.2 ⟨_, hwell.roleAt?_eq hs hcorner, hroute⟩)) s hs hcorner hroute

/-- Where all routing is joined to the anchor there is nothing to connect. -/
theorem Served.connectRoutes_eq (h : t.Served grid anchor) : t.connectRoutes anchor = .ok t := by
  obtain ⟨role, hrole, hroute⟩ := isRouteAt_iff.1 h.anchored
  obtain ⟨main, hmain, rfl⟩ := Option.map_eq_some_iff.1 hrole
  have hnone : (t.segments.filter fun s => s.role.isRoute && s.id ∉ t.routeComponent main.id) = [] := by
    rw [List.filter_eq_nil_iff]
    intro s hs hdetached
    simp only [Bool.and_eq_true, decide_eq_true_eq] at hdetached
    exact hdetached.2 (h.mem_routeComponent hmain hs hdetached.1)
  unfold Tiling.connectRoutes
  rw [hmain]
  dsimp only
  cases t.segments.length with
  | zero => rfl
  | succ n =>
      rw [Tiling.connectFrom, hroute]
      dsimp only
      rw [hnone]
      rfl

end SurfaceFabric.Tiling
