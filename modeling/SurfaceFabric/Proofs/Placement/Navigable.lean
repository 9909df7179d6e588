import SurfaceFabric.Proofs.Placement.Factory
import SurfaceFabric.Proofs.Placement.Place

/-!
Everything on a placed layout can be reached. The routing that the main row starts is one piece after every
stage of a placement, and the main row, the factories and the rows below them stand once they are placed.
-/

namespace SurfaceFabric

/-- Ordering the factories of a plan loses none. -/
theorem Plan.length_byArea {plan : Plan} {templates : List Template} (h : plan.byArea = .ok templates) :
    templates.length = plan.factories.length := by
  rw [byArea_eq_ok h, (sortBy_perm _ _).length_eq]

namespace Layout

open Tiling

/-- A layout on which everything can be reached: the routing is one piece with the main row in it, every
slot has routing above or below it, and so has every factory below its entrance. -/
structure Navigable (l : Layout) (row : Nat) : Prop where
  mainRow : ∀ x < l.width, l.tiling.isRouteAt ⟨row, x⟩ = true
  connected : ∀ c d, l.tiling.isRouteAt c = true → l.tiling.isRouteAt d = true → l.tiling.Joined c d
  slots : ∀ c role, l.tiling.roleAt? c = some role → role.IsSlot → l.tiling.Entered c
  entrances : ∀ u ∈ l.units, ∃ e, l.entrance? u.handle = some e ∧
    l.tiling.roleAt? e = some (.factory u.handle) ∧ l.tiling.isRouteAt ⟨e.y + 1, e.x⟩ = true

/-- The entrance of a factory is the last cell of its body. -/
theorem entrance?_of_stands {l : Layout} (hwell : l.tiling.WellTiled) {u : FactoryUnit} {handle : Nat}
    (hunit : l.unit? handle = some u) {body : Rect} {role : Role} (hbody : l.tiling.Stands u.segment body role) :
    l.entrance? handle = some ⟨body.y1 - 1, body.x1 - 1⟩ := by
  obtain ⟨s, hs, hid, rfl, -⟩ := hbody
  rw [entrance?, hunit]
  show (l.tiling.segment? u.segment).bind _ = _
  rw [(segment?_eq_some_iff hwell.ascending).2 ⟨hs, hid⟩]
  rfl

theorem Founded.entrance {l : Layout} {grid : Rect} {anchor : Cell} (h : Founded l grid anchor)
    {u : FactoryUnit} (hu : u ∈ l.units) : ∃ e, l.entrance? u.handle = some e ∧
      l.tiling.roleAt? e = some (.factory u.handle) ∧ l.tiling.isRouteAt ⟨e.y + 1, e.x⟩ = true := by
  have hwell := h.served.wellTiled
  obtain ⟨i, hi⟩ := List.mem_iff_getElem?.1 hu
  obtain ⟨body, row, id, hbody, hrow, hmem⟩ := h.landed u hu
  have hunit : l.unit? u.handle = some u := by
    rw [h.numbered i u hi]
    exact hi
  obtain ⟨hy, hx⟩ : body.Inhabited := by
    obtain ⟨s, hs, -, rfl, -⟩ := hbody
    exact hwell.inhabited s hs
  refine ⟨_, entrance?_of_stands hwell hunit hbody, ?_, ?_⟩
  · apply hbody.roleAt? hwell
    rw [Rect.mem_iff]
    dsimp only
    omega
  · apply hrow.isRouteAt hwell rfl
    rwa [Nat.sub_add_cancel (by omega)]

theorem Founded.navigable {l : Layout} {row id : Nat} {grid : Rect} {anchor : Cell}
    (h : Founded l grid anchor) (hmain : l.tiling.Stands id ⟨row, 0, row + 1, l.width⟩ .route) :
    l.Navigable row where
  mainRow x hx := hmain.isRouteAt h.served.wellTiled rfl (by rw [Rect.mem_iff]; dsimp only; omega)
  connected c d hc hd := (h.served.joined c hc).symm.trans (h.served.joined d hd)
  slots := h.served.entered
  entrances _ hu := h.entrance hu

end Layout

open Tiling Layout in
/-- Whatever is placed, with any number of factories and lanes, can be reached. -/
theorem place_navigable {c : Circuit} {height width : Nat} {plan : Plan} {l : Layout}
    (h : Layout.place c height width plan = .ok l) :
    l.height = height ∧ l.width = width ∧ l.units.length = plan.factories.length ∧
      l.Navigable (mainRow height c.ioCount) := by
  obtain ⟨⟨row, start⟩, hio, h⟩ := bind_eq_ok_iff.1 h
  obtain ⟨templates, htemplates, h⟩ := bind_eq_ok_iff.1 h
  obtain ⟨built, hbuilt, h⟩ := bind_eq_ok_iff.1 h
  obtain ⟨connected, hconnected, h⟩ := bind_eq_ok_iff.1 h
  obtain ⟨filled, hfilled, h⟩ := bind_eq_ok_iff.1 h
  obtain ⟨lanes, hlanes, h⟩ := bind_eq_ok_iff.1 h
  obtain ⟨⟨⟩, -, h⟩ := bind_eq_ok_iff.1 h
  cases h
  obtain ⟨rfl, hserved, hunits, id, hmain⟩ := placeIo_eq_ok hio
  have hstart : Founded start _ _ := ⟨hserved, by simp [hunits], by simp [hunits]⟩
  obtain ⟨hfounded, hfactories, hcount⟩ := hstart.placeFactories hbuilt
  -- the later stages change the tiling only, and keep it served
  obtain ⟨hconnect, hserved⟩ := hfounded.served.connectRoutes hconnected
  have hfill := hserved.wellTiled.builds_fillRegisters hfilled
  have hserved := hserved.fillRegisters hfilled
  obtain ⟨hsplit, hserved⟩ := served_splitLanes hserved hlanes
  have hlater : Builds built.tiling lanes := (hconnect.trans hfill).trans hsplit
  have hgrid : lanes.height = height ∧ lanes.width = width :=
    ⟨congrArg Rect.y1 hserved.grid_eq, congrArg Rect.x1 hserved.grid_eq⟩
  have hdone : Founded { built with tiling := lanes } _ _ :=
    ⟨hserved, hfounded.numbered, fun u hu => (hfounded.landed u hu).builds hfounded.served.wellTiled hlater⟩
  have hbuilds : Builds start.tiling lanes := hfactories.trans hlater
  have hstands := hbuilds.stands hstart.served.wellTiled (by simp) hmain
  rw [← hgrid.2] at hstands
  refine ⟨hgrid.1, hgrid.2, ?_, hdone.navigable hstands⟩
  show built.units.length = plan.factories.length
  rw [hcount, hunits, Plan.length_byArea (Outcome.liftM_eq_ok_iff.1 htemplates)]
  exact Nat.zero_add _

namespace Crowded

def circuit : Circuit :=
  ((Circuit.empty.append (.joint "cx" [.register "a", .io "b"] 2)).append
    (.joint "cx" [.factory "T" 0, .register "a"] 1)).append (.joint "cx" [.factory "S" 0, .register "c"] 1)

/-- Three factories of two kinds and a lane, which leave little room on a small grid. -/
def plan : Plan := ⟨[⟨"T", 1, 1, 3⟩, ⟨"S", 2, 1, 2⟩, ⟨"T", 1, 1, 3⟩], 1⟩

end Crowded

theorem crowded_navigable : ∃ l, Layout.place Crowded.circuit 6 6 Crowded.plan = .ok l ∧
    l.units.length = 3 ∧ l.Navigable 4 := by
  obtain ⟨l, hplace, -⟩ := exists_ok_of_any (x := Layout.place Crowded.circuit 6 6 Crowded.plan) (p := fun _ => True)
    (by decide +kernel)
  obtain ⟨-, -, hunits, hnavigable⟩ := place_navigable hplace
  exact ⟨l, hplace, hunits, hnavigable⟩

end SurfaceFabric
