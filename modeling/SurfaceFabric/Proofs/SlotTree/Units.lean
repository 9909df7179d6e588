import SurfaceFabric.Proofs.Placement.Ownership
import SurfaceFabric.Proofs.SlotTree.Wares

/-!
The factories in the slot tree of a placed layout. The routing row below a factory links its segment to the main
component, so each factory on record has a leaf, and as every factory cell is on record no leaf is there for
anything else.
-/

namespace SurfaceFabric

namespace Layout

variable {l : Layout} {grid : Rect} {anchor : Cell} {s : Segment} {u v : FactoryUnit} {handle : Nat}

/-- A factory segment is the one on record for its handle. -/
theorem Owned.exists_unit (h : Owned l) (hwell : l.tiling.WellTiled) (hs : s ∈ l.tiling.segments)
    (hrole : s.role = .factory handle) : ∃ u ∈ l.units, u.handle = handle ∧ u.segment = s.id := by
  obtain ⟨hy, hx⟩ := hwell.inhabited s hs
  have hc : ⟨s.rect.y0, s.rect.x0⟩ ∈ s.rect := Rect.mem_iff.2 ⟨Nat.le_refl _, hy, Nat.le_refl _, hx⟩
  obtain ⟨u, hu, hhandle, body, ⟨s', hs', hid, rfl, -⟩, hmem⟩ :=
    h _ handle (hrole ▸ hwell.roleAt?_eq hs hc)
  exact ⟨u, hu, hhandle, by rw [← hid, hwell.eq_of_mem hs hs' hc hmem]⟩

theorem Founded.unit?_eq (h : Founded l grid anchor) (hu : u ∈ l.units) : l.unit? u.handle = some u := by
  obtain ⟨i, hi⟩ := List.mem_iff_getElem?.1 hu
  rw [h.numbered i u hi]
  exact hi

theorem Founded.of_unit? (h : Founded l grid anchor) (hu : l.unit? handle = some u) :
    u ∈ l.units ∧ u.handle = handle :=
  ⟨List.mem_of_getElem? hu, h.numbered handle u hu⟩

theorem Founded.eq_of_handle_eq (h : Founded l grid anchor) (hu : u ∈ l.units) (hv : v ∈ l.units)
    (heq : u.handle = v.handle) : u = v :=
  Option.some.inj ((h.unit?_eq hu).symm.trans (heq ▸ h.unit?_eq hv))

theorem Founded.pairwise_handles (h : Founded l grid anchor) :
    l.units.Pairwise fun u v => u.handle ≠ v.handle := by
  rw [List.pairwise_iff_getElem]
  intro i j hi hj hlt
  rw [h.numbered i _ (List.getElem?_eq_getElem hi), h.numbered j _ (List.getElem?_eq_getElem hj)]
  exact Nat.ne_of_lt hlt

/-- The segment of a factory is linked to the routing row below it. -/
theorem Founded.exists_linked (h : Founded l grid anchor) (hu : u ∈ l.units) :
    ∃ s ∈ l.tiling.segments, s.role = .factory u.handle ∧
      ∃ r ∈ l.tiling.segments, r.role.isRoute = true ∧ s.Linked r := by
  obtain ⟨body, row, id, ⟨s, hs, -, rfl, hrole, -⟩, ⟨r, hr, -, rfl, hroute, -⟩, hmem⟩ := h.landed u hu
  obtain ⟨hy, hx⟩ := h.served.wellTiled.inhabited s hs
  refine ⟨s, hs, hrole, r, hr, by rw [hroute]; rfl, .below, ?_, by rw [hrole, hroute]; rfl⟩
  refine ⟨⟨s.rect.y1 - 1, s.rect.x1 - 1⟩, ?_, _, hmem, ?_⟩
  · rw [Rect.mem_iff]
    dsimp only
    omega
  · exact ⟨by dsimp only; omega, rfl⟩

end Layout

namespace SlotTree

open AccessGraph
open Layout (Founded Owned)

variable {l : Layout} {g : AccessGraph} {routes : List Nat} {grid : Rect} {anchor : Cell} {s : Segment}
  {k : SlotNodeKind} {w : SlotKind × Slot} {main : List Segment}

/-- The ware of a leaf is a register or I/O cell, or the factory on record for its segment. -/
theorem leaf?_wares (h : leaf? l g routes s = some k) (hw : w ∈ k.wares) :
    (w.2.handle = none ∧ ∃ role, w.1.role? = some role) ∨
      ∃ u e handle, s.role = .factory handle ∧ l.unit? handle = some u ∧ l.entrance? handle = some e ∧
        w = (.factory u.template, ⟨e, some handle⟩) := by
  unfold leaf? at h
  split at h
  · cases h
  · unfold leafKind? at h
    split at h
    · cases h
      obtain ⟨c, -, rfl⟩ := List.mem_map.1 hw
      exact .inl ⟨rfl, _, rfl⟩
    · cases h
      obtain ⟨c, -, rfl⟩ := List.mem_map.1 hw
      exact .inl ⟨rfl, _, rfl⟩
    · next handle hrole =>
        obtain ⟨u, hu, h⟩ := Option.bind_eq_some_iff.1 h
        obtain ⟨e, he, h⟩ := Option.bind_eq_some_iff.1 h
        cases h
        exact .inr ⟨u, e, handle, hrole, hu, he, List.mem_singleton.1 hw⟩
    · cases h

/-- A factory that can be reached has a leaf. -/
theorem leaf?_of_factory {handle : Nat} {u : FactoryUnit} {e : Cell} (hacc : accesses g routes s.id ≠ [])
    (hrole : s.role = .factory handle) (hu : l.unit? handle = some u) (he : l.entrance? handle = some e) :
    leaf? l g routes s = some (.factory s.id handle u.template e false) := by
  rw [leaf?, if_neg (by simpa using hacc), leafKind?, hrole]
  simp [hu, he]

def unitWares (l : Layout) : List (SlotKind × Slot) :=
  l.units.filterMap fun u => (l.entrance? u.handle).map fun e => (.factory u.template, ⟨e, some u.handle⟩)

theorem mem_unitWares : w ∈ unitWares l ↔ ∃ u ∈ l.units, ∃ e, l.entrance? u.handle = some e ∧
    w = (.factory u.template, ⟨e, some u.handle⟩) := by
  simp only [unitWares, List.mem_filterMap, Option.map_eq_some_iff]
  constructor
  · rintro ⟨u, hu, e, he, rfl⟩
    exact ⟨u, hu, e, he, rfl⟩
  · rintro ⟨u, hu, e, he, rfl⟩
    exact ⟨u, hu, e, he, rfl⟩

theorem nodup_unitWares (h : Founded l grid anchor) : (unitWares l).Nodup := by
  refine List.pairwise_filterMap.2 (h.pairwise_handles.imp ?_)
  intro u v hne w hw w' hw'
  obtain ⟨e, -, rfl⟩ := Option.map_eq_some_iff.1 hw
  obtain ⟨e', -, rfl⟩ := Option.map_eq_some_iff.1 hw'
  intro heq
  simp only [Prod.mk.injEq, Slot.mk.injEq, Option.some.injEq] at heq
  exact hne heq.2.2

/-- No two leaves are there for one factory. -/
theorem nodup_factoryWares (h : Founded l grid anchor) (howned : Owned l)
    (hmain : l.tiling.Comprised main) :
    (((leavesOf l main).flatMap SlotNodeKind.wares).filter fun w => w.2.handle.isSome).Nodup := by
  have hwell := h.served.wellTiled
  rw [List.filter_flatMap]
  refine List.nodup_flatMap.2 ⟨fun k hk => ?_, ?_⟩
  · cases k with
    | cells segment kind left => simp [SlotNodeKind.wares, List.filter_map, Function.comp_def]
    | factory segment handle template entrance taken => cases taken <;> simp [SlotNodeKind.wares]
    | route segment => exact List.nodup_nil
    | junction => exact List.nodup_nil
  · refine List.pairwise_filterMap.2 ((hmain.ascending.filter _).imp_of_mem ?_)
    intro s s' hs hs' hlt k hk k' hk' w hw hw'
    -- both segments would be the one on record for the handle of the ware
    have hunit (v : Segment) (k : SlotNodeKind) (hv : v ∈ main.filter fun s => !s.role.isRoute)
        (hk : leaf? l (ofTiling l.tiling) (routesOf main) v = some k)
        (hw : w ∈ k.wares.filter fun w => w.2.handle.isSome) :
        ∃ u ∈ l.units, w.2.handle = some u.handle ∧ u.segment = v.id := by
      obtain ⟨hw, hsome⟩ := List.mem_filter.1 hw
      rcases leaf?_wares hk hw with ⟨hnone, -⟩ | ⟨u, e, handle, hrole, -, -, rfl⟩
      · rw [hnone] at hsome
        cases hsome
      · obtain ⟨u, hu, rfl, hid⟩ :=
          howned.exists_unit hwell (hmain.mem_segments v (List.mem_filter.1 hv).1) hrole
        exact ⟨u, hu, rfl, hid⟩
    obtain ⟨u, hu, hhandle, hid⟩ := hunit s k hs hk hw
    obtain ⟨u', hu', hhandle', hid'⟩ := hunit s' k' hs' hk' hw'
    have heq := h.eq_of_handle_eq hu hu' (Option.some.inj (hhandle.symm.trans hhandle'))
    rw [← hid, ← hid', heq] at hlt
    exact Nat.lt_irrefl _ hlt

theorem mem_factoryWares (h : Founded l grid anchor) (hmain? : (ofTiling l.tiling).main? = some main)
    (hmain : l.tiling.Comprised main) :
    w ∈ ((leavesOf l main).flatMap SlotNodeKind.wares).filter (fun w => w.2.handle.isSome) ↔
      w ∈ unitWares l := by
  rw [mem_unitWares, List.mem_filter, List.mem_flatMap]
  constructor
  · rintro ⟨⟨k, hk, hw⟩, hsome⟩
    obtain ⟨s, -, hleaf⟩ := List.mem_filterMap.1 hk
    rcases leaf?_wares hleaf hw with ⟨hnone, -⟩ | ⟨u, e, handle, -, hu, he, rfl⟩
    · rw [hnone] at hsome
      cases hsome
    · obtain ⟨hmem, rfl⟩ := h.of_unit? hu
      exact ⟨u, hmem, e, he, rfl⟩
  · rintro ⟨u, hu, e, he, rfl⟩
    obtain ⟨s, hs, hrole, r, hr, hroute, hlinked⟩ := h.exists_linked hu
    have hvertex : s ∈ (ofTiling l.tiling).vertices := mem_vertices.2 ⟨hs, .inr (by rw [hrole]; rfl)⟩
    have hinner : s.role.isRoute = false := by rw [hrole]; rfl
    have hmem := mem_main_of_linked h.served.wellTiled hmain? hvertex (hmain.mem_main r hr (.inl hroute)) hlinked
    have hacc := accesses_ne_nil_of_linked h.served.wellTiled hmain hvertex hinner hr hroute hlinked
    refine ⟨⟨_, List.mem_filterMap.2 ⟨s, List.mem_filter.2 ⟨hmem, by simp [hinner]⟩,
      leaf?_of_factory hacc hrole (h.unit?_eq hu) he⟩, ?_⟩, rfl⟩
    exact List.mem_singleton.2 rfl

/-- The tree of a placed layout offers each factory on record once, and nothing else but cells. -/
theorem exists_audited_build (h : Founded l grid anchor) (howned : Owned l) :
    ∃ rank, Audited (build l) rank ∧
      ((build l).wares.filter fun w => w.2.handle.isSome).Perm (unitWares l) ∧
      ∀ w ∈ (build l).wares, w.2.handle = none → ∃ role, w.1.role? = some role := by
  obtain ⟨main, rank, hmain?, hmain, hstocked, hleaves, hcapacity⟩ := exists_main_build h.served
  have hwares : (build l).wares = (leavesOf l main).flatMap SlotNodeKind.wares :=
    hleaves _ fun _ => SlotNodeKind.wares_of_inner
  refine ⟨rank, ⟨hstocked, fun kind => ?_⟩, ?_, ?_⟩
  · rw [hcapacity, hwares, length_filter_wares]
  · rw [hwares]
    exact (List.perm_ext_iff_of_nodup (nodup_factoryWares h howned hmain) (nodup_unitWares h)).2 fun _ =>
      mem_factoryWares h hmain? hmain
  · intro w hw hnone
    rw [hwares] at hw
    obtain ⟨k, hk, hw⟩ := List.mem_flatMap.1 hw
    obtain ⟨s, -, hleaf⟩ := List.mem_filterMap.1 hk
    rcases leaf?_wares hleaf hw with ⟨-, hrole⟩ | ⟨u, e, handle, -, -, -, rfl⟩
    · exact hrole
    · cases hnone

end SlotTree

end SurfaceFabric
