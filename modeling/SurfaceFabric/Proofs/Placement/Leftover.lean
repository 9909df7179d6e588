import SurfaceFabric.Proofs.Placement.Navigable
import SurfaceFabric.Proofs.Placement.Plain

/-!
What a fill leaves free. A segment is passed over while no routing lies next to it and stays as it is from
then on, even if routing is put next to it by a later turn. Routing that was there before the fill is never next
to what is left.
-/

namespace SurfaceFabric

namespace Tiling

variable {t t' v : Tiling} {skipped skipped' : List Rect} {r : Rect} {s : Segment}

/-! ### Contact with routing -/

def Contacts (t : Tiling) (r : Rect) : Prop :=
  ∃ c ∈ r, ∃ side d, c.NextTo side d ∧ t.isRouteAt d = true

theorem Contacts.mono (h : t.Contacts r) (hkeep : ∀ c, t.isRouteAt c = true → t'.isRouteAt c = true) :
    t'.Contacts r := by
  obtain ⟨c, hc, side, d, hnext, hd⟩ := h
  exact ⟨c, hc, side, d, hnext, hkeep d hd⟩

/-- A free segment that is passed over has no contact with routing. -/
theorem WellTiled.not_contacts (h : t.WellTiled) (hs : s ∈ t.freeSegments) (hfits : t.Fits s.rect .skip) :
    ¬ t.Contacts s.rect := by
  rintro ⟨c, hc, side, d, hnext, hd⟩
  obtain ⟨habove, hbelow, hside⟩ := hfits
  obtain ⟨hmem, hfree⟩ := mem_freeSegments.1 hs
  have hout := h.not_mem_of_isRouteAt hmem (by rw [role_of_isFree hfree]; rfl) hd
  have hgrid := Rect.mem_iff.1 (h.mem_grid_of_isRouteAt hd)
  rw [Rect.mem_iff] at hc hout
  cases side with
  | above =>
      obtain ⟨hy, hx⟩ := hnext
      have hcolumn : d.x ∈ t.columnsAbove s.rect := by
        rw [columnsAbove, if_neg (by omega), h.mem_routeColumns_iff, show s.rect.y0 - 1 = d.y by omega]
        exact ⟨by omega, by omega, hd⟩
      rw [habove] at hcolumn
      cases hcolumn
  | below =>
      obtain ⟨hy, hx⟩ := hnext
      have hcolumn : d.x ∈ t.columnsBelow s.rect := by
        rw [columnsBelow, h.mem_routeColumns_iff, show s.rect.y1 = d.y by omega]
        exact ⟨by omega, by omega, hd⟩
      rw [hbelow] at hcolumn
      cases hcolumn
  | left =>
      obtain ⟨hy, hx⟩ := hnext
      have hcontact := hside d.y (by omega) (by omega)
      rw [sideContact, show s.rect.x0 - 1 = d.x by omega, hd] at hcontact
      simp only [Bool.and_true, Bool.or_eq_false_iff, decide_eq_false_iff_not] at hcontact
      omega
  | right =>
      obtain ⟨hy, hx⟩ := hnext
      have hcontact := hside d.y (by omega) (by omega)
      rw [sideContact, show s.rect.x1 = d.x by omega, hd] at hcontact
      simp only [Bool.and_true, Bool.or_eq_false_iff, decide_eq_false_iff_not] at hcontact
      exact hcontact.2 hgrid.2.2.2

/-! ### Passing over -/

/-- A rectangle that comes up free in one of the first `n` turns of a fill, without contact at that time. -/
def PassedOver (t : Tiling) (skipped : List Rect) (n : Nat) (r : Rect) : Prop :=
  ∃ k < n, ∃ v u, fillFrom k skipped t = .ok v ∧ v.mergeFree = .ok u ∧ r ∈ u.freeRects ∧ ¬ u.Contacts r

theorem PassedOver.mono {n m : Nat} (h : t.PassedOver skipped n r) (hle : n ≤ m) : t.PassedOver skipped m r := by
  obtain ⟨k, hk, hpassed⟩ := h
  exact ⟨k, by omega, hpassed⟩

theorem PassedOver.turn {n : Nat} (h : v.PassedOver skipped' n r) (hturn : Turn skipped t skipped' v) :
    t.PassedOver skipped (n + 1) r := by
  obtain ⟨k, hk, w, u, hfill, hpassed⟩ := h
  exact ⟨k + 1, by omega, w, u, hturn.fillFrom hfill, hpassed⟩

/-- What is passed over after a turn was so before, or in this turn. -/
theorem WellTiled.passedOver_of_turn (h : t.WellTiled) (hturn : Turn skipped t skipped' v) (hr : r ∈ skipped') :
    r ∈ skipped ∨ t.PassedOver skipped 1 r := by
  cases hturn with
  | @intro u v s step hmerge hfind hstep henact =>
      by_cases hskip : step = .skip
      · subst hskip
        rcases List.mem_cons.1 hr with rfl | hr
        · have hs := List.mem_of_find?_eq_some hfind
          have hu := h.changes (h.mergeFree hmerge).changes
          have hfits := fillStep_fits (hu.inhabited s (mem_freeSegments.1 hs).1) hstep
          exact .inr ⟨0, Nat.one_pos, t, u, rfl, hmerge, List.mem_map_of_mem hs, hu.not_contacts hs hfits⟩
        · exact .inl hr
      · rw [passed_of_ne hskip] at hr
        exact .inl hr

/-- A fill with turns enough leaves nothing free but what it passed over. -/
theorem WellTiled.passedOver_of_fillFrom (h : t.WellTiled) {n : Nat} (heffort : t.effort skipped < n)
    (hfill : fillFrom n skipped t = .ok t') (hr : r ∈ t'.freeRects) :
    r ∈ skipped ∨ t.PassedOver skipped n r := by
  -- the effort stays below the turns that are left, so the fill ends by itself
  induction n generalizing t skipped with
  | zero => omega
  | succ n ih =>
      rcases fillFrom_cases hfill with hdone | ⟨skipped', v, hturn, hrest⟩
      · exact .inl (hdone r hr)
      · have hless := h.effort_turn hturn
        rcases ih (h.turn hturn) (by omega) hrest with hmem | hpassed
        · exact (h.passedOver_of_turn hturn hmem).imp_right fun hpassed => hpassed.mono (by omega)
        · exact .inr (hpassed.turn hturn)

/-- Routing that a fill finds is not next to what it passes over. -/
theorem WellTiled.not_contacts_of_passedOver (h : t.WellTiled) {n : Nat} (hpassed : t.PassedOver skipped n r) :
    ¬ t.Contacts r := by
  obtain ⟨k, -, v, u, hfill, hmerge, -, hnone⟩ := hpassed
  -- a fill takes no routing away, so contact would still be there in the turn that passes over
  refine fun hcontacts => hnone (hcontacts.mono fun c hc => ?_)
  obtain ⟨hv, hc⟩ := h.isRouteAt_fillFrom hfill hc
  exact hv.isRouteAt_fillMove (.merge hmerge) hc

theorem fillRegisters_eq_ok (hfill : t.fillRegisters = .ok t') :
    fillFrom (t.height * t.width * 4 + 16) [] t = .ok t' := by
  obtain ⟨budget, hbudget, hfill⟩ := bind_eq_ok_iff.1 hfill
  rw [Outcome.liftM_eq_ok_iff] at hbudget
  obtain ⟨cells, hcells, hbudget⟩ := bind_eq_ok_iff.1 hbudget
  obtain ⟨turns, hturns, hbudget⟩ := bind_eq_ok_iff.1 hbudget
  obtain ⟨-, rfl⟩ := Long.mul_eq_ok_iff.1 hcells
  obtain ⟨-, rfl⟩ := Long.mul_eq_ok_iff.1 hturns
  obtain ⟨-, rfl⟩ := Long.add_eq_ok_iff.1 hbudget
  exact hfill

end Tiling

namespace Layout

open Tiling

/-- A layout before registers are filled in: the I/O strip and the main row, the factories of a plan, and
connectors for routing that is cut off. -/
def ground (height width io : Nat) (plan : Plan) : Outcome PlacementError Layout := do
  let (row, l) ← placeIo height width io
  let l ← (← plan.byArea).foldlM placeFactory l
  let t ← l.tiling.connectRoutes ⟨row, 0⟩
  return { l with tiling := t }

variable {height width io : Nat} {plan : Plan} {l g : Layout}

/-- What follows the ground: registers are filled in, and some of them are split by lanes. -/
theorem place_splits {c : Circuit} (h : place c height width plan = .ok l) :
    ∃ g filled, ground height width c.ioCount plan = .ok g ∧ g.tiling.fillRegisters = .ok filled ∧
      splitLanes plan.lanes filled = .ok l.tiling ∧ l = { g with tiling := l.tiling } := by
  unfold place at h
  obtain ⟨⟨row, start⟩, hio, h⟩ := bind_eq_ok_iff.1 h
  obtain ⟨templates, htemplates, h⟩ := bind_eq_ok_iff.1 h
  obtain ⟨built, hbuilt, h⟩ := bind_eq_ok_iff.1 h
  obtain ⟨connected, hconnected, h⟩ := bind_eq_ok_iff.1 h
  obtain ⟨filled, hfilled, h⟩ := bind_eq_ok_iff.1 h
  obtain ⟨split, hsplit, h⟩ := bind_eq_ok_iff.1 h
  obtain ⟨⟨⟩, -, h⟩ := bind_eq_ok_iff.1 h
  cases h
  refine ⟨{ built with tiling := connected }, filled, ?_, hfilled, hsplit, rfl⟩
  refine bind_eq_ok_iff.2 ⟨_, hio, bind_eq_ok_iff.2 ⟨_, htemplates, bind_eq_ok_iff.2 ⟨_, hbuilt, ?_⟩⟩⟩
  exact bind_eq_ok_iff.2 ⟨_, hconnected, rfl⟩

/-- Without lanes, filling is the last change. -/
theorem place_fills {c : Circuit} (h : place c height width plan = .ok l) (hlanes : plan.lanes = 0) :
    ∃ g, ground height width c.ioCount plan = .ok g ∧ g.tiling.fillRegisters = .ok l.tiling := by
  obtain ⟨g, filled, hground, hfilled, hsplit, -⟩ := place_splits h
  rw [hlanes] at hsplit
  rw [← pure_eq_ok_iff.1 hsplit]
  exact ⟨g, hground, hfilled⟩

theorem served_ground (h : ground height width io plan = .ok g) :
    g.tiling.Served ⟨0, 0, height, width⟩ ⟨mainRow height io, 0⟩ := by
  obtain ⟨⟨row, start⟩, hio, h⟩ := bind_eq_ok_iff.1 h
  obtain ⟨templates, -, h⟩ := bind_eq_ok_iff.1 h
  obtain ⟨built, hbuilt, h⟩ := bind_eq_ok_iff.1 h
  obtain ⟨connected, hconnected, h⟩ := bind_eq_ok_iff.1 h
  cases h
  obtain ⟨rfl, hserved, hunits, -⟩ := placeIo_eq_ok hio
  have hstart : Founded start _ _ := ⟨hserved, by simp [hunits], by simp [hunits]⟩
  exact ((hstart.placeFactories hbuilt).1.served.connectRoutes hconnected).2

theorem plain_ground (hplan : plan.factories = []) (h : ground height width io plan = .ok g) :
    g.tiling.Plain ∧ g.tiling.effort [] < height * width * 4 + 16 := by
  obtain ⟨⟨row, start⟩, hio, h⟩ := bind_eq_ok_iff.1 h
  obtain ⟨templates, htemplates, h⟩ := bind_eq_ok_iff.1 h
  obtain ⟨built, hbuilt, h⟩ := bind_eq_ok_iff.1 h
  obtain ⟨connected, hconnected, h⟩ := bind_eq_ok_iff.1 h
  cases h
  rw [Outcome.liftM_eq_ok_iff, Plan.byArea, hplan] at htemplates
  cases htemplates
  cases hbuilt
  have hsame := (placeIo_eq_ok hio).2.1.connectRoutes_eq
  obtain rfl : start.tiling = connected := Except.ok.inj (hsame.symm.trans hconnected)
  exact plain_placeIo hio

end Layout

open Tiling Layout in
/-- A placement without lanes leaves a segment free only if it came up in some turn of the fill when no routing
lay next to it, provided that the fill has turns enough. So none of the routing that the fill starts from is next
to it. Without factories nothing is left free. -/
theorem leftovers_passed_over {c : Circuit} {height width : Nat} {plan : Plan} {l : Layout}
    (h : Layout.place c height width plan = .ok l) (hlanes : plan.lanes = 0) :
    ∃ g, ground height width c.ioCount plan = .ok g ∧ g.tiling.fillRegisters = .ok l.tiling ∧
      (g.tiling.effort [] < height * width * 4 + 16 → ∀ r ∈ l.tiling.freeRects,
        g.tiling.PassedOver [] (height * width * 4 + 16) r ∧ ¬ g.tiling.Contacts r) ∧
      (plan.factories = [] → l.tiling.freeRects = []) := by
  obtain ⟨g, hground, hfill⟩ := place_fills h hlanes
  have hserved := served_ground hground
  have hturns := fillRegisters_eq_ok hfill
  rw [show g.tiling.height = height from congrArg Rect.y1 hserved.grid_eq,
    show g.tiling.width = width from congrArg Rect.x1 hserved.grid_eq] at hturns
  refine ⟨g, hground, hfill, fun heffort r hr => ?_, fun hplan => ?_⟩
  · rcases hserved.wellTiled.passedOver_of_fillFrom heffort hturns hr with hnone | hpassed
    · cases hnone
    · exact ⟨hpassed, hserved.wellTiled.not_contacts_of_passedOver hpassed⟩
  · obtain ⟨hplain, heffort⟩ := plain_ground hplan hground
    exact hplain.fillFrom heffort hturns

namespace Doorstep

/-- Two factories side by side on a grid of four rows, with free space above and right of them. -/
def plan : Plan := ⟨[⟨"T", 1, 1, 1⟩, ⟨"T", 1, 1, 1⟩], 0⟩

theorem exists_place : ∃ l, Layout.place Circuit.empty 4 6 plan = .ok l ∧
    l.tiling.freeRects = [⟨0, 0, 1, 1⟩, ⟨0, 2, 1, 6⟩] ∧ l.tiling.isRouteAt ⟨1, 4⟩ = true := by
  exact exists_ok_of_any (by decide +kernel)

theorem effort_lt {g : Layout} (h : Layout.ground 4 6 0 plan = .ok g) : g.tiling.effort [] < 4 * 6 * 4 + 16 := by
  have hshown : (Except.toOption (Layout.ground 4 6 0 plan)).all fun g => g.tiling.effort [] < 4 * 6 * 4 + 16 := by
    decide +kernel
  rw [h] at hshown
  exact of_decide_eq_true hshown

end Doorstep

theorem doorstep_passed_over : ∃ l g, Layout.place Circuit.empty 4 6 Doorstep.plan = .ok l ∧
    Doorstep.plan.lanes = 0 ∧ Layout.ground 4 6 0 Doorstep.plan = .ok g ∧ ⟨0, 2, 1, 6⟩ ∈ l.tiling.freeRects ∧
      g.tiling.PassedOver [] 112 ⟨0, 2, 1, 6⟩ ∧ ¬ g.tiling.Contacts ⟨0, 2, 1, 6⟩ := by
  obtain ⟨l, hplace, hfree, -⟩ := Doorstep.exists_place
  obtain ⟨g, hground, -, hleft, -⟩ := leftovers_passed_over hplace rfl
  have hmem : ⟨0, 2, 1, 6⟩ ∈ l.tiling.freeRects := by simp [hfree]
  exact ⟨l, g, hplace, rfl, hground, hmem, hleft (Doorstep.effort_lt hground) _ hmem⟩

/-- The end of the top row is passed over while a factory and free space lie below it. A later turn puts routing
there, and the segment is left free all the same. -/
theorem doorstep_touches_routing : ∃ l, Layout.place Circuit.empty 4 6 Doorstep.plan = .ok l ∧
    Doorstep.plan.lanes = 0 ∧ ∃ s ∈ l.tiling.freeSegments, l.tiling.Contacts s.rect := by
  obtain ⟨l, hplace, hfree, hroute⟩ := Doorstep.exists_place
  obtain ⟨s, hs, hrect⟩ : ∃ s ∈ l.tiling.freeSegments, s.rect = ⟨0, 2, 1, 6⟩ := by
    rw [← Tiling.mem_freeRects, hfree]
    simp
  refine ⟨l, hplace, rfl, s, hs, ⟨0, 4⟩, ?_, .below, ⟨1, 4⟩, ⟨rfl, rfl⟩, hroute⟩
  rw [hrect]
  decide

end SurfaceFabric
