import SurfaceFabric.Proofs.Placement.Connect
import SurfaceFabric.Proofs.Placement.Fill

/-!
The stages of a placement before and after its factories. The main routing row serves the I/O strip below
it, and neither filling nor splitting lanes leaves a slot without entry. So what is placed in the end is
served from the start of the main routing row.
-/

namespace SurfaceFabric

/-- The factories of a plan are ordered by their areas as numbers. -/
theorem Plan.byArea_eq_ok {plan : Plan} {templates : List Template} (h : plan.byArea = .ok templates) :
    templates = sortBy (fun a b => b.width * b.height ≤ a.width * a.height) plan.factories := by
  rw [byArea] at h
  split at h
  · next hfew =>
      rw [← pure_eq_ok_iff.1 h]
      generalize plan.factories = factories at hfew
      rcases factories with _ | ⟨_, _ | ⟨_, _⟩⟩
      · rfl
      · rfl
      · simp only [List.length_cons] at hfew
        omega
  · obtain ⟨areas, hareas, h⟩ := bind_eq_ok_iff.1 h
    obtain rfl := eq_map_of_mapM hareas fun t area harea => (Word.mul_eq_ok_iff.1 harea).2
    rw [← pure_eq_ok_iff.1 h, ← List.map_prod_right_eq_zip, ← map_sortBy fun _ _ => rfl, List.map_map]
    exact List.map_id _

namespace Layout

open Tiling

variable {t t' : Tiling} {grid : Rect} {anchor : Cell}

theorem widestStrip?_eq_some {w : Nat} {s : Segment} (h : widestStrip? t = .ok (some (w, s))) :
    s ∈ t.segments ∧ s.role = .register ∧ w = s.rect.x1 - s.rect.x0 ∧ 3 ≤ w := by
  unfold widestStrip? at h
  obtain ⟨strips, hstrips, h⟩ := bind_eq_ok_iff.1 h
  have hmem := mem_of_extreme? (Except.ok.inj h)
  obtain ⟨u, hu, hmade⟩ := exists_of_mem_mapM hstrips (List.mem_filter.1 hmem).1
  obtain ⟨_, hwidth, hpair⟩ := bind_eq_ok_iff.1 hmade
  cases hpair
  obtain ⟨hs, hrole⟩ := List.mem_filter.1 hu
  exact ⟨hs, beq_iff_eq.1 hrole, (Word.sub_eq_ok_iff.1 hwidth).2, of_decide_eq_true (List.mem_filter.1 hmem).2⟩

theorem lanePieces_eq_ok {r : Rect} {x : Nat} {pieces : List Piece} (h : lanePieces r x = .ok pieces) :
    pieces = dropAt x r := by
  simp only [lanePieces, Rect.height, bind_eq_ok_iff, Word.add_eq_ok_iff, Word.sub_eq_ok_iff] at h
  obtain ⟨_, ⟨hy, rfl⟩, _, ⟨hx0, rfl⟩, left, hleft, lane, hlane, _, ⟨-, rfl⟩, _, ⟨hx, rfl⟩, _, ⟨hx1, rfl⟩, right,
    hright, h⟩ := h
  obtain rfl := Rect.ofBox_eq_ok hleft
  obtain rfl := Rect.ofBox_eq_ok hlane
  obtain rfl := Rect.ofBox_eq_ok hright
  obtain rfl := pure_eq_ok_iff.1 h
  have hlast : x + 1 + (r.x1 - x - 1) = r.x1 := by omega
  simp only [dropAt, Piece.taken, Nat.add_sub_cancel' hy, Nat.add_sub_cancel' hx0, hlast]

/-- A lane takes the place of a released strip of registers, with registers on its sides. -/
theorem splitLane_eq_ok (hsplit : splitLane t = .ok t') : ∃ s ∈ t.segments, s.role = .register ∧ ∃ x u ids,
    s.rect.x0 < x ∧ x + 1 < s.rect.x1 ∧ t.release s.id = .ok u ∧
      u.partition s.id (dropAt x s.rect) = .ok (ids, t') := by
  unfold splitLane at hsplit
  obtain ⟨found, hfound, hsplit⟩ := bind_eq_ok_iff.1 hsplit
  rw [Outcome.liftM_eq_ok_iff] at hfound
  match found with
  | none => cases hsplit
  | some (w, s) =>
      obtain ⟨hs, hrole, hw, hwide⟩ := widestStrip?_eq_some hfound
      simp only [bind_eq_ok_iff] at hsplit
      obtain ⟨x, hx, u, hrelease, pieces, hpieces, ⟨ids, v⟩, hpart, hsplit⟩ := hsplit
      cases hsplit
      rw [Outcome.liftM_eq_ok_iff] at hx hpieces
      rw [Outcome.mapRefusal_eq_ok_iff] at hrelease hpart
      obtain rfl := lanePieces_eq_ok hpieces
      obtain ⟨-, rfl⟩ := Word.add_eq_ok_iff.1 hx
      exact ⟨s, hs, hrole, _, u, ids, by omega, by omega, hrelease, hpart⟩

/-- Releasing the strip and dividing it comes to carving the lane out of it. -/
theorem carved_of_splitLane (h : t.WellTiled) (hsplit : splitLane t = .ok t') :
    ∃ s ∈ t.segments, s.role = .register ∧ ∃ x, s.rect.x0 < x ∧ x + 1 < s.rect.x1 ∧ Builds t t' ∧
      Carved t s (dropAt x s.rect) t' := by
  obtain ⟨s, hs, hrole, x, u, ids, hleft, hright, hrelease, hpart⟩ := splitLane_eq_ok hsplit
  obtain ⟨hwell, hgrid, ⟨s', hs', hid, hrect, hfree⟩, houtside⟩ := h.release hs hrelease
  have hbuilds : Builds t t' := .head (.release hs hrole hrelease) (hwell.builds_partition hpart)
  rw [← hid] at hpart
  have hcarved := carved_of_partition hwell hs' (by rw [role_of_isFree hfree]; rfl) hpart
  have houtside' := hcarved.outside
  have hinside := hcarved.inside
  have hrest := hcarved.rest
  rw [hrect] at houtside' hinside hrest
  exact ⟨s, hs, hrole, x, hleft, hright, hbuilds, hcarved.wellTiled, hcarved.grid.trans hgrid,
    fun c hc => (houtside' c hc).trans (houtside c hc), hinside, hrest,
    fun c => h.not_mem_of_isRouteAt hs (by rw [hrole]; rfl)⟩

/-- A lane through a strip of registers: every cell of the strip had routing above or below it. -/
theorem served_splitLane (h : t.Served grid anchor) (hsplit : splitLane t = .ok t') :
    Builds t t' ∧ t'.Served grid anchor := by
  obtain ⟨s, hs, hrole, x, -, -, hbuilds, hcarved⟩ := carved_of_splitLane h.wellTiled hsplit
  have hentered (c : Cell) (hc : c ∈ s.rect) : t.Entered c :=
    h.entered c .register (by rw [h.wellTiled.roleAt?_eq hs hc, hrole]) (.inl rfl)
  refine ⟨hbuilds, hcarved.served h ?_ ?_⟩
  · intro p hp hroute c hc
    obtain ⟨side, d, -, hnext, hd⟩ := hentered c (hcarved.inside p hp c hc).1
    exact ⟨d, hd, .single ⟨hcarved.isRouteAt hd, hcarved.isRouteAt_piece hp hroute hc,
      side.opposite, hnext.symm⟩⟩
  · intro p hp _ c hc
    exact (hentered c (hcarved.inside p hp c hc).1).mono fun _ => hcarved.isRouteAt

theorem served_splitLanes {n : Nat} (h : t.Served grid anchor) (hsplit : splitLanes n t = .ok t') :
    Builds t t' ∧ t'.Served grid anchor := by
  induction n generalizing t with
  | zero =>
      cases hsplit
      exact ⟨.refl, h⟩
  | succ n ih =>
      obtain ⟨u, hu, hsplit⟩ := bind_eq_ok_iff.1 hsplit
      obtain ⟨hfirst, hserved⟩ := served_splitLane h hu
      obtain ⟨hrest, hserved⟩ := ih hserved hsplit
      exact ⟨hfirst.trans hrest, hserved⟩

/-- The main row over the strip: all there is besides is free. -/
theorem served_mainRow {row : Nat} (h : t.WellTiled)
    (hroles : ∀ c role, t.roleAt? c = some role → role = .unassigned ∨
      role = .io ∧ c.y = row + 1 ∧ c.x < t.width)
    (hwidth : 0 < t.width) {host : Segment} (hhost : host ∈ t.segments) {n : Nat}
    (halloc : t.allocAt host.id ⟨row, 0, 1, t.width⟩ .route = .ok (some (n, t'))) :
    t'.Served t.grid ⟨row, 0⟩ ∧ t'.Stands n ⟨row, 0, row + 1, t.width⟩ .route := by
  obtain ⟨-, _, hbox, hstands⟩ := h.builds_allocAt halloc
  obtain ⟨inner, hinner, hwell, hgrid, ⟨main, hmain, hrect, hrole⟩, houtside⟩ := h.allocAt hhost halloc
  obtain rfl := Rect.ofBox_eq_ok hinner
  obtain rfl := Rect.ofBox_eq_ok hbox
  rw [Nat.zero_add] at hrect houtside hstands
  have hmem (c : Cell) : c ∈ main.rect ↔ c.y = row ∧ c.x < t.width := by
    rw [hrect, Rect.mem_iff]
    dsimp only
    omega
  have hin (c : Cell) (hc : c ∈ main.rect) : t'.isRouteAt c = true := by
    exact isRouteAt_iff.2 ⟨_, hwell.roleAt?_eq hmain hc, by rw [hrole]; rfl⟩
  have hout (c : Cell) (role : Role) (hc : c ∉ main.rect) (hsome : t'.roleAt? c = some role) :
      role = .unassigned ∨ role = .io ∧ c.y = row + 1 ∧ c.x < t.width := by
    rw [hrect] at hc
    rw [houtside c hc] at hsome
    exact hroles c role hsome
  have hroute (c : Cell) (hc : t'.isRouteAt c = true) : c ∈ main.rect := by
    by_contra hnot
    obtain ⟨role, hsome, hrole⟩ := isRouteAt_iff.1 hc
    rcases hout c role hnot hsome with rfl | ⟨rfl, -⟩ <;> cases hrole
  have hanchor : (⟨row, 0⟩ : Cell) ∈ main.rect := (hmem _).2 ⟨rfl, hwidth⟩
  refine ⟨⟨hwell, hgrid, hin _ hanchor, fun c hc => joined_of_mem hin hanchor (hroute c hc), ?_⟩, hstands⟩
  intro c role hsome hslot
  by_cases hc : c ∈ main.rect
  · rw [hwell.roleAt?_eq hmain hc, hrole] at hsome
    cases hsome
    rcases hslot with hslot | hslot <;> cases hslot
  · rcases hout c role hc hsome with rfl | ⟨-, hy, hx⟩
    · rcases hslot with hslot | hslot <;> cases hslot
    · exact ⟨.above, ⟨row, c.x⟩, rfl, ⟨hy.symm, rfl⟩, hin _ ((hmem _).2 ⟨rfl, hx⟩)⟩

theorem roleAt?_ofSize {height width : Nat} {c : Cell} {role : Role}
    (h : (Tiling.ofSize height width).roleAt? c = some role) : role = .unassigned := by
  obtain ⟨s, hs, -, rfl⟩ := (wellTiled_ofSize height width).roleAt?_eq_some_iff.1 h
  unfold Tiling.ofSize at hs
  split at hs
  · rw [List.mem_singleton.1 hs]
    rfl
  · cases hs

theorem grid_ofSize (height width : Nat) :
    (Tiling.ofSize height width).grid = ⟨0, 0, height, width⟩ := by
  unfold Tiling.ofSize
  split <;> rfl

theorem mem_of_at? {c : Cell} {s : Segment} (h : t.at? c = some s) : s ∈ t.segments :=
  List.mem_of_find?_eq_some h

/-- The main routing row: the lowest, or the one above the I/O strip. -/
def mainRow (height io : Nat) : Nat := if io = 0 then height - 1 else height - 2

/-- There is no strip, or it is allocated at the left of the lowest row. -/
theorem placeStrip_cases {height width io row : Nat} (h : placeStrip height width io = .ok (row, t)) :
    ∃ root, (Tiling.ofSize height width).at? ⟨0, 0⟩ = some root ∧
      (io = 0 ∧ row = height - 1 ∧ t = .ofSize height width ∨ io ≠ 0 ∧ row = height - 2 ∧ ∃ n,
        (Tiling.ofSize height width).allocAt root.id ⟨height - 1, 0, 1, io⟩ .io = .ok (some (n, t))) := by
  unfold placeStrip at h
  obtain ⟨root, hroot, h⟩ := bind_eq_ok_iff.1 h
  obtain ⟨bottom, hbottom, h⟩ := bind_eq_ok_iff.1 h
  rw [Outcome.ofOption_eq_ok_iff] at hroot
  rw [Outcome.liftM_eq_ok_iff] at hbottom
  obtain ⟨-, rfl⟩ := Word.sub_eq_ok_iff.1 hbottom
  refine ⟨root, hroot, ?_⟩
  split at h
  · next hnone =>
      cases h
      exact .inl ⟨hnone, rfl, rfl⟩
  · next hsome =>
      obtain ⟨made, hmade, h⟩ := bind_eq_ok_iff.1 h
      obtain ⟨⟨n, u⟩, hstrip, h⟩ := bind_eq_ok_iff.1 h
      obtain ⟨upper, hupper, h⟩ := bind_eq_ok_iff.1 h
      cases h
      rw [Outcome.liftM_eq_ok_iff] at hupper
      obtain ⟨-, rfl⟩ := Word.sub_eq_ok_iff.1 hupper
      rw [Outcome.ofOption_eq_ok_iff] at hstrip
      rw [Outcome.liftM_eq_ok_iff, hstrip] at hmade
      exact .inr ⟨hsome, rfl, n, hmade⟩

theorem placeStrip_eq_ok {height width io row : Nat} (hheight : 2 ≤ height)
    (h : placeStrip height width io = .ok (row, t)) :
    row = mainRow height io ∧ t.WellTiled ∧ t.grid = ⟨0, 0, height, width⟩ ∧
      (∀ c role, t.roleAt? c = some role → role = .unassigned ∨ role = .io ∧ c.y = row + 1 ∧ c.x < io) ∧
      (0 < io → ∃ id, t.Stands id ⟨row + 1, 0, row + 2, io⟩ .io) := by
  have hempty := wellTiled_ofSize height width
  obtain ⟨root, hroot, ⟨hnone, rfl, rfl⟩ | ⟨hsome, rfl, m, hmade⟩⟩ := placeStrip_cases h
  · exact ⟨(if_pos hnone).symm, hempty, grid_ofSize height width,
      fun c role hsome => .inl (roleAt?_ofSize hsome), by omega⟩
  · have hrow : mainRow height io = height - 2 := if_neg hsome
    obtain ⟨inner, hinner, hwell, hgrid, ⟨strip, hmem, hrect, hrole⟩, houtside⟩ :=
      hempty.allocAt (mem_of_at? hroot) hmade
    obtain rfl := Rect.ofBox_eq_ok hinner
    obtain ⟨-, _, hbox, hstands⟩ := hempty.builds_allocAt hmade
    obtain rfl := Rect.ofBox_eq_ok hbox
    have hbottom : height - 1 = height - 2 + 1 := by omega
    rw [hbottom, Nat.zero_add] at hstands
    refine ⟨hrow.symm, hwell, hgrid.trans (grid_ofSize height width), fun c role hsome => ?_, fun _ => ⟨m, hstands⟩⟩
    by_cases hc : c ∈ strip.rect
    · rw [hwell.roleAt?_eq hmem hc, hrole] at hsome
      cases hsome
      rw [hrect, Rect.mem_iff] at hc
      dsimp only at hc
      exact .inr ⟨rfl, by omega, by omega⟩
    · rw [houtside c (hrect ▸ hc)] at hsome
      exact .inl (roleAt?_ofSize hsome)

/-- The main row is allocated on what the strip leaves. -/
theorem placeIo_allocates {height width io row : Nat} {l : Layout}
    (h : placeIo height width io = .ok (row, l)) :
    2 ≤ height ∧ 0 < width ∧ io ≤ width ∧ l.units = [] ∧ ∃ t, ∃ host ∈ t.segments, ∃ n,
      placeStrip height width io = .ok (row, t) ∧
        t.allocAt host.id ⟨row, 0, 1, width⟩ .route = .ok (some (n, l.tiling)) := by
  unfold placeIo at h
  obtain ⟨hsize, h⟩ := Outcome.guard_eq_ok_iff.1 h
  obtain ⟨hio, h⟩ := Outcome.guard_eq_ok_iff.1 h
  obtain ⟨⟨row', t⟩, hstrip, h⟩ := bind_eq_ok_iff.1 h
  obtain ⟨host, hhost, h⟩ := bind_eq_ok_iff.1 h
  obtain ⟨made, hmade, h⟩ := bind_eq_ok_iff.1 h
  obtain ⟨⟨n, t'⟩, hmain, h⟩ := bind_eq_ok_iff.1 h
  cases h
  rw [Outcome.ofOption_eq_ok_iff] at hhost hmain
  rw [Outcome.liftM_eq_ok_iff, hmain] at hmade
  exact ⟨by omega, by omega, by omega, rfl, t, host, mem_of_at? hhost, n, hstrip, hmade⟩

theorem placeIo_eq_ok {height width io row : Nat} {l : Layout}
    (h : placeIo height width io = .ok (row, l)) :
    row = mainRow height io ∧ l.tiling.Served ⟨0, 0, height, width⟩ ⟨row, 0⟩ ∧ l.units = [] ∧
      ∃ id, l.tiling.Stands id ⟨row, 0, row + 1, width⟩ .route := by
  obtain ⟨hheight, hwidth, hio, hunits, t, host, hhost, n, hstrip, hmade⟩ := placeIo_allocates h
  obtain ⟨hrow, hwell, hgrid, hroles, -⟩ := placeStrip_eq_ok hheight hstrip
  obtain rfl : t.width = width := congrArg Rect.x1 hgrid
  have hstrip (c : Cell) (role : Role) (hc : t.roleAt? c = some role) :
      role = .unassigned ∨ role = .io ∧ c.y = row + 1 ∧ c.x < t.width :=
    (hroles c role hc).imp_right fun ⟨hrole, hy, hx⟩ => ⟨hrole, hy, hx.trans_le hio⟩
  obtain ⟨hserved, hstands⟩ := served_mainRow hwell hstrip hwidth hhost hmade
  rw [hgrid] at hserved
  exact ⟨hrow, hserved, hunits, n, hstands⟩

/-- A plan without factories that can be placed gives a served layout with room for all symbols. -/
theorem place_eq_ok {c : Circuit} {height width : Nat} {plan : Plan} {l : Layout}
    (hplan : plan.factories = []) (h : place c height width plan = .ok l) :
    (∃ row, l.tiling.Served ⟨0, 0, height, width⟩ ⟨row, 0⟩) ∧ l.units = [] ∧
      l.checkCapacity c = .ok () := by
  unfold place at h
  obtain ⟨⟨row, start⟩, hio, h⟩ := bind_eq_ok_iff.1 h
  obtain ⟨factories, hfactories, h⟩ := bind_eq_ok_iff.1 h
  obtain ⟨built, hbuilt, h⟩ := bind_eq_ok_iff.1 h
  obtain ⟨connected, hconnected, h⟩ := bind_eq_ok_iff.1 h
  obtain ⟨filled, hfilled, h⟩ := bind_eq_ok_iff.1 h
  obtain ⟨split, hsplit, h⟩ := bind_eq_ok_iff.1 h
  obtain ⟨⟨⟩, hcapacity, h⟩ := bind_eq_ok_iff.1 h
  cases h
  obtain ⟨-, hserved, hunits, -⟩ := placeIo_eq_ok hio
  rw [Outcome.liftM_eq_ok_iff, Plan.byArea, hplan] at hfactories
  cases hfactories
  cases hbuilt
  have hconnected := (hserved.connectRoutes hconnected).2
  exact ⟨⟨row, (served_splitLanes (hconnected.fillRegisters hfilled) hsplit).2⟩, hunits, hcapacity⟩

end Layout

end SurfaceFabric
