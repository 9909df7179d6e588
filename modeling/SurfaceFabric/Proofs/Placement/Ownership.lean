import SurfaceFabric.Proofs.Placement.Navigable

/-!
Whose the factory cells of a placed layout are. A block adds the cells of one factory, and no other stage of a
placement makes any. The factories stand once they are placed, so in the end each factory cell lies in the
segment that the layout has on record for its handle.
-/

namespace SurfaceFabric

/-- The roles that stages of all kinds give: free space, registers and routing. -/
def Role.isCommon : Role → Bool
  | .unassigned | .register | .route | .localRoute => true
  | _ => false

namespace Tiling

variable {t t' u : Tiling} {x y stop : Nat} {s : Segment} {pieces : List Piece}

/-- Cells get common roles only. -/
def AddsCommon (t t' : Tiling) : Prop :=
  ∀ c role, t'.roleAt? c = some role → role.isCommon = true ∨ t.roleAt? c = some role

namespace AddsCommon

theorem refl (t : Tiling) : AddsCommon t t := fun _ _ => .inr

theorem trans (h : AddsCommon t u) (h' : AddsCommon u t') : AddsCommon t t' :=
  fun c role hc => (h' c role hc).elim .inl (h c role)

theorem of_regrouped (hwell : t.WellTiled) (h : Regrouped t t') : AddsCommon t t' := by
  intro c role hc
  rw [(h.sameRoles hwell).roleAt?] at hc
  exact .inr hc

theorem of_dropped (h : Dropped t x y stop t') : AddsCommon t t' := by
  intro c role hc
  by_cases hcolumn : c.x = x ∧ y ≤ c.y ∧ c.y < stop
  · rw [h.inside c hcolumn.1 hcolumn.2.1 hcolumn.2.2] at hc
    cases hc
    exact .inl rfl
  · rw [h.outside c hcolumn] at hc
    exact .inr hc

theorem of_carved (h : Carved t s pieces t') (hpieces : FillPieces pieces) : AddsCommon t t' := by
  intro c role hc
  by_cases hcs : c ∈ s.rect
  · rcases h.rest c hcs with hfree | ⟨p, hp, hcp⟩
    · rw [hfree] at hc
      cases hc
      exact .inl rfl
    · rw [(h.inside p hp c hcp).2] at hc
      rcases hpieces p hp with hrole | hrole <;> rw [hrole] at hc <;> cases hc <;> exact .inl rfl
  · rw [h.outside c hcs] at hc
    exact .inr hc

end AddsCommon

theorem WellTiled.addsCommon_fillMove (h : t.WellTiled) (hmove : FillMove t t') : AddsCommon t t' := by
  cases hmove with
  | merge hmerge => exact .of_regrouped h (h.mergeFree hmerge)
  | carve hs hpieces hcarve =>
      obtain ⟨hmem, hfree⟩ := mem_freeSegments.1 hs
      exact .of_carved (carved_of_carve h hmem hfree hcarve) hpieces

theorem WellTiled.addsCommon_fillMoves (h : t.WellTiled) (hmoves : Relation.ReflTransGen FillMove t t') :
    Builds t t' ∧ AddsCommon t t' := by
  induction hmoves with
  | refl => exact ⟨.refl, .refl _⟩
  | tail _ hmove ih =>
      have hwell := h.builds ih.1
      exact ⟨ih.1.trans (hwell.builds_fillMove hmove), ih.2.trans (hwell.addsCommon_fillMove hmove)⟩

theorem WellTiled.addsCommon_fillRegisters (h : t.WellTiled) (hfill : t.fillRegisters = .ok t') :
    AddsCommon t t' := by
  obtain ⟨budget, -, hfill⟩ := bind_eq_ok_iff.1 hfill
  exact (h.addsCommon_fillMoves (moves_of_fillFrom hfill)).2

theorem WellTiled.addsCommon_connectFrom (h : t.WellTiled) {main : Segment} {n : Nat}
    (hconnect : connectFrom main n t = .ok t') : AddsCommon t t' := by
  induction n generalizing t with
  | zero =>
      cases hconnect
      exact .refl _
  | succ n ih =>
      rw [Tiling.connectFrom] at hconnect
      obtain ⟨-, hconnect⟩ := Outcome.guard_eq_ok_iff.1 hconnect
      dsimp only at hconnect
      split at hconnect
      · cases hconnect
        exact .refl _
      · split at hconnect
        · cases hconnect
        · obtain ⟨u, hcarve, hconnect⟩ := bind_eq_ok_iff.1 hconnect
          have hdropped := dropped_of_carveConnector h hcarve
          exact (AddsCommon.of_dropped hdropped).trans (ih (h.builds hdropped.builds) hconnect)

theorem WellTiled.addsCommon_connectRoutes (h : t.WellTiled) {c : Cell}
    (hconnect : t.connectRoutes c = .ok t') : AddsCommon t t' := by
  rw [Tiling.connectRoutes] at hconnect
  split at hconnect
  · cases hconnect
  · exact h.addsCommon_connectFrom hconnect

end Tiling

namespace Layout

open Tiling

variable {t t' : Tiling} {l l' : Layout} {grid : Rect} {anchor : Cell} {template : Template}

theorem addsCommon_splitLane (h : t.WellTiled) (hsplit : splitLane t = .ok t') :
    Builds t t' ∧ AddsCommon t t' := by
  obtain ⟨s, -, -, x, -, -, hbuilds, hcarved⟩ := carved_of_splitLane h hsplit
  exact ⟨hbuilds, .of_carved hcarved (by simp [FillPieces, dropAt, Piece.taken])⟩

theorem addsCommon_splitLanes {n : Nat} (h : t.WellTiled) (hsplit : splitLanes n t = .ok t') :
    AddsCommon t t' := by
  induction n generalizing t with
  | zero =>
      cases hsplit
      exact .refl _
  | succ n ih =>
      obtain ⟨u, hu, hsplit⟩ := bind_eq_ok_iff.1 hsplit
      obtain ⟨hbuilds, hnone⟩ := addsCommon_splitLane h hu
      exact hnone.trans (ih (h.builds hbuilds) hsplit)

/-- Besides common roles, the first stage gives one to the cells of the I/O strip only. -/
theorem placeIo_strip {height width io row : Nat} (h : placeIo height width io = .ok (row, l)) :
    (∀ c role, l.tiling.roleAt? c = some role →
      role.isCommon = true ∨ role = .io ∧ c.y + 1 = height ∧ c.x < io) ∧
    (0 < io → ∃ id, l.tiling.Stands id ⟨height - 1, 0, height, io⟩ .io) := by
  obtain ⟨hheight, -, -, -, t, host, hhost, n, hstrip, hmade⟩ := placeIo_allocates h
  obtain ⟨hrow, hwell, -, hroles, hstands⟩ := placeStrip_eq_ok hheight hstrip
  obtain ⟨inner, -, hwell', -, ⟨main, hmain, hrect, hrole⟩, houtside⟩ := hwell.allocAt hhost hmade
  have hbottom (hio : 0 < io) : row + 1 = height - 1 ∧ row + 2 = height := by
    rw [hrow, mainRow, if_neg (by omega)]
    omega
  refine ⟨fun c role hc => ?_, fun hio => ?_⟩
  · by_cases hin : c ∈ inner
    · rw [hwell'.roleAt?_eq hmain (hrect ▸ hin), hrole] at hc
      cases hc
      exact .inl rfl
    · rw [houtside c hin] at hc
      rcases hroles c role hc with rfl | ⟨hrole, hy, hx⟩
      · exact .inl rfl
      · have hlast := hbottom (by omega)
        exact .inr ⟨hrole, by omega, hx⟩
  · obtain ⟨id, hid⟩ := hstands hio
    rw [(hbottom hio).1, (hbottom hio).2] at hid
    exact ⟨id, (hwell.builds_allocAt hmade).1.stands hwell (by simp) hid⟩

def Owned (l : Layout) : Prop :=
  ∀ c handle, l.tiling.roleAt? c = some (.factory handle) →
    ∃ u ∈ l.units, u.handle = handle ∧ ∃ body, l.tiling.Stands u.segment body (.factory handle) ∧ c ∈ body

theorem Owned.retile (h : Owned l) (hwell : l.tiling.WellTiled) (hbuilds : Builds l.tiling t)
    (hadds : AddsCommon l.tiling t) : Owned { l with tiling := t } := by
  intro c handle hc
  obtain ⟨u, hu, hhandle, body, hbody, hmem⟩ := h c handle ((hadds c _ hc).resolve_left Bool.false_ne_true)
  exact ⟨u, hu, hhandle, body, hbuilds.stands hwell (by simp) hbody, hmem⟩

/-- The pieces of a block have common roles, except for its body. -/
theorem isCommon_of_mem_block {site : Site} {handle : Nat} {rest : List Rect} {p : Piece}
    (hp : p ∈ block site template handle rest) :
    p.role.isCommon = true ∨ p.role = .factory handle ∧ p.rect = bodyOf site template := by
  simp only [block, List.mem_cons] at hp
  rcases hp with rfl | rfl | rfl | hp
  · exact .inr ⟨rfl, rfl⟩
  · exact .inl rfl
  · split <;> exact .inl rfl
  · obtain ⟨r, -, rfl⟩ := List.mem_map.1 hp
    exact .inl rfl

/-- What placing a factory adds: its body, on record under the next handle, and cells of common roles. -/
theorem placeFactory_adds (hwell : l.tiling.WellTiled) (hplace : l.placeFactory template = .ok l') :
    ∃ site id, Builds l.tiling l'.tiling ∧
      l'.units = l.units ++ [⟨l.nextHandle, template.symbol, id, template.cycles⟩] ∧
      l'.tiling.Stands id (bodyOf site template) (.factory l.nextHandle) ∧
      ∀ c role, l'.tiling.roleAt? c = some role → role.isCommon = true ∨ l.tiling.roleAt? c = some role ∨
        role = .factory l.nextHandle ∧ c ∈ bodyOf site template := by
  obtain ⟨merged, site, grown, rest, ids, cut, connected, joined, hmerged, hroom, hpart, hconnected, hjoined,
    rfl⟩ := placeFactory_eq_ok hplace
  have hmerge := hwell.mergeFree hmerged
  have hwell' := hwell.builds hmerge.builds
  obtain ⟨hgrow, room⟩ := WellTiled.findRoom hwell' hroom
  have hgrown := hwell'.builds hgrow.builds
  have hcarved := carved_of_partition hgrown room.mem (by rw [role_of_isFree room.isFree]; rfl) hpart
  have hcut := hgrown.builds_partition hpart
  have hdrop := dropped_of_carveConnector hcarved.wellTiled hconnected
  have hjoin := (hcarved.wellTiled.builds hdrop.builds).mergeFree hjoined
  have hbefore : AddsCommon l.tiling grown :=
    (AddsCommon.of_regrouped hwell hmerge).trans (.of_regrouped hwell' hgrow)
  have hafter : AddsCommon cut joined :=
    (AddsCommon.of_dropped hdrop).trans (.of_regrouped (hcarved.wellTiled.builds hdrop.builds) hjoin)
  have hlater : Builds cut joined := hdrop.builds.trans hjoin.builds
  refine ⟨site, ids.headD 0, (hmerge.builds.trans hgrow.builds).trans (hcut.trans hlater), rfl, ?_, ?_⟩
  · apply hlater.stands hcarved.wellTiled (by simp)
    exact stands_first (p := .taken (.factory l.nextHandle) (bodyOf site template)) rfl (partition_eq_ok hpart)
  · intro c role hc
    rcases hafter c role hc with hcommon | hcell
    · exact .inl hcommon
    by_cases hcs : c ∈ site.segment.rect
    · rcases hcarved.rest c hcs with hfree | ⟨p, hp, hcp⟩
      · rw [hfree] at hcell
        cases hcell
        exact .inl rfl
      · rw [(hcarved.inside p hp c hcp).2] at hcell
        cases hcell
        exact (isCommon_of_mem_block hp).imp_right fun ⟨hrole, hrect⟩ => .inr ⟨hrole, hrect ▸ hcp⟩
    · rw [hcarved.outside c hcs] at hcell
      exact (hbefore c role hcell).imp_right .inl

theorem Owned.placeFactory (h : Owned l) (hwell : l.tiling.WellTiled)
    (hplace : l.placeFactory template = .ok l') : Owned l' := by
  obtain ⟨site, id, hbuilds, hunits, hbody, hroles⟩ := placeFactory_adds hwell hplace
  intro c handle hc
  rw [hunits]
  rcases hroles c _ hc with hcommon | hold | ⟨hnew, hmem⟩
  · cases hcommon
  · obtain ⟨u, hu, hhandle, body, hstands, hmem⟩ := h c handle hold
    exact ⟨u, List.mem_append_left _ hu, hhandle, body, hbuilds.stands hwell (by simp) hstands, hmem⟩
  · cases hnew
    exact ⟨_, List.mem_append_right _ List.mem_cons_self, rfl, _, hbody, hmem⟩

theorem Owned.placeFactories {templates : List Template} (h : Owned l) (hfounded : Founded l grid anchor)
    (hplace : templates.foldlM Layout.placeFactory l = .ok l') : Owned l' := by
  induction templates generalizing l with
  | nil =>
      cases hplace
      exact h
  | cons template rest ih =>
      rw [List.foldlM_cons] at hplace
      obtain ⟨next, hnext, hrest⟩ := bind_eq_ok_iff.1 hplace
      exact ih (h.placeFactory hfounded.served.wellTiled hnext) (hfounded.placeFactory hnext).1 hrest

/-- The stages of a placement: the strip and the main row, the factories by area, and what changes the tiling
only, keeps it served and adds common roles. -/
theorem place_stages {c : Circuit} {height width : Nat} {plan : Plan} (h : place c height width plan = .ok l) :
    ∃ start templates built anchor, placeIo height width c.ioCount = .ok (mainRow height c.ioCount, start) ∧
      Founded start ⟨0, 0, height, width⟩ anchor ∧ plan.byArea = .ok templates ∧
      templates.foldlM Layout.placeFactory start = .ok built ∧ l = { built with tiling := l.tiling } ∧
      Builds built.tiling l.tiling ∧ AddsCommon built.tiling l.tiling ∧
      l.tiling.Served ⟨0, 0, height, width⟩ anchor ∧ l.checkCapacity c = .ok () := by
  obtain ⟨⟨row, start⟩, hio, h⟩ := bind_eq_ok_iff.1 h
  obtain ⟨templates, htemplates, h⟩ := bind_eq_ok_iff.1 h
  obtain ⟨built, hbuilt, h⟩ := bind_eq_ok_iff.1 h
  obtain ⟨connected, hconnected, h⟩ := bind_eq_ok_iff.1 h
  obtain ⟨filled, hfilled, h⟩ := bind_eq_ok_iff.1 h
  obtain ⟨lanes, hlanes, h⟩ := bind_eq_ok_iff.1 h
  obtain ⟨⟨⟩, hcapacity, h⟩ := bind_eq_ok_iff.1 h
  cases h
  obtain ⟨rfl, hserved, hunits, -⟩ := placeIo_eq_ok hio
  have hstart : Founded start _ _ := ⟨hserved, by simp [hunits], by simp [hunits]⟩
  obtain ⟨hfounded, -⟩ := hstart.placeFactories hbuilt
  obtain ⟨hconnect, hserved⟩ := hfounded.served.connectRoutes hconnected
  have hfill := hserved.wellTiled.builds_fillRegisters hfilled
  have hserved' := hserved.fillRegisters hfilled
  obtain ⟨hsplit, hserved''⟩ := served_splitLanes hserved' hlanes
  have hadds : AddsCommon built.tiling lanes :=
    ((hfounded.served.wellTiled.addsCommon_connectRoutes hconnected).trans
      (hserved.wellTiled.addsCommon_fillRegisters hfilled)).trans
      (addsCommon_splitLanes hserved'.wellTiled hlanes)
  exact ⟨start, templates, built, _, hio, hstart, Outcome.liftM_eq_ok_iff.1 htemplates, hbuilt, rfl,
    (hconnect.trans hfill).trans hsplit, hadds, hserved'', hcapacity⟩

/-- A placed layout stands on its foundations, knows all of its factory cells, and has room for the circuit. -/
theorem founded_on_grid {c : Circuit} {height width : Nat} {plan : Plan}
    (h : place c height width plan = .ok l) :
    (∃ anchor, Founded l ⟨0, 0, height, width⟩ anchor) ∧ Owned l ∧ l.checkCapacity c = .ok () := by
  obtain ⟨start, templates, built, anchor, hio, hstart, -, hbuilt, hl, hbuilds, hadds, hserved, hcapacity⟩ :=
    place_stages h
  have howned : Owned start := by
    intro c handle hc
    rcases (placeIo_strip hio).1 c _ hc with hnone | ⟨hnone, -⟩ <;> cases hnone
  have howned := howned.placeFactories hstart hbuilt
  obtain ⟨hfounded, -⟩ := hstart.placeFactories hbuilt
  have hwell := hfounded.served.wellTiled
  refine ⟨⟨anchor, hserved, ?_, ?_⟩, ?_, hcapacity⟩
  · rw [hl]
    exact hfounded.numbered
  · rw [hl]
    exact fun u hu => (hfounded.landed u hu).builds hwell hbuilds
  · rw [hl]
    exact howned.retile hwell hbuilds hadds

theorem founded_of_place {c : Circuit} {height width : Nat} {plan : Plan}
    (h : place c height width plan = .ok l) :
    (∃ grid anchor, Founded l grid anchor) ∧ Owned l ∧ l.checkCapacity c = .ok () :=
  ⟨⟨_, (founded_on_grid h).1⟩, (founded_on_grid h).2⟩

theorem size_of_place {c : Circuit} {height width : Nat} {plan : Plan} (h : place c height width plan = .ok l) :
    l.height = height ∧ l.width = width := by
  obtain ⟨⟨anchor, hfounded⟩, -⟩ := founded_on_grid h
  have hgrid : l.tiling.grid = ⟨0, 0, height, width⟩ := hfounded.served.grid_eq
  rw [Tiling.grid, Rect.mk.injEq] at hgrid
  exact hgrid.2.2

end Layout

end SurfaceFabric
