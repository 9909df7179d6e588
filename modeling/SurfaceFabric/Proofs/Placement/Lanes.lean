import SurfaceFabric.Proofs.Placement.Leftover
import SurfaceFabric.Proofs.Placement.Realised

/-!
What one more lane does to a layout. Lanes are the last change of a placement, so a plan with one more of them
comes to the same tiling and splits one more strip there: a column of registers turns into routing.
-/

namespace SurfaceFabric

namespace Tiling

variable {t t' : Tiling} {e : Edit}

theorem map_role_fresh (start : Nat) (pieces : List Piece) :
    (fresh start pieces).map Segment.role = pieces.map Piece.role := by
  induction pieces generalizing start with
  | nil => rfl
  | cons p rest ih =>
      rw [fresh, List.map_cons, List.map_cons, ih]
      rfl

/-- The roles after an edit: those of the segments that stay, and those of the pieces. -/
theorem map_role_replace (t : Tiling) (e : Edit) (n : Nat) : (t.replace e n).segments.map Segment.role =
    (t.segments.filter fun s => s.id ∉ e.removed).map Segment.role ++ e.added.map Piece.role := by
  have hkept : Segment.role ∘ t.relinked e = Segment.role := funext fun s => t.relinked_role e s
  rw [replace_segments, List.map_append, List.map_map, List.map_map, hkept, ← map_role_fresh t.nextId]
  rfl

/-- Replacing a released segment leaves the other segments with their roles. -/
theorem WellTiled.count_role_partition (h : t.WellTiled) {s : Segment} (hs : s ∈ t.segments) {role : Role}
    (hrole : s.role ≠ role) {u : Tiling} {pieces : List Piece} {ids : List Nat} (hrelease : t.release s.id = .ok u)
    (hpart : u.partition s.id pieces = .ok (ids, t')) : (t'.segments.map Segment.role).count role =
      (t.segments.map Segment.role).count role + (pieces.map Piece.role).count role := by
  obtain ⟨-, rfl⟩ := setRole_eq_ok_iff.1 hrelease
  obtain ⟨-, -, -, rfl⟩ := commit_eq_ok_iff.1 (partition_eq_ok hpart)
  rw [map_role_replace, List.count_append]
  congr 1
  simp only [List.count_eq_countP, List.countP_map, List.countP_filter]
  refine List.countP_congr fun v hv => ?_
  by_cases hid : v.id = s.id
  · obtain rfl := h.eq_of_id_eq hv hs hid
    simp [hrole]
  · simp [hid]

end Tiling

namespace Layout

open Tiling

variable {t t' : Tiling} {l l' : Layout}

theorem splitLanes_succ (n : Nat) (t : Tiling) : splitLanes (n + 1) t = splitLanes n t >>= splitLane := by
  induction n generalizing t with
  | zero => exact bind_pure (splitLane t)
  | succ n ih =>
      calc splitLanes (n + 2) t = splitLane t >>= splitLanes (n + 1) := rfl
        _ = splitLane t >>= fun u => splitLanes n u >>= splitLane := by rw [funext ih]
        _ = splitLanes (n + 1) t >>= splitLane := (bind_assoc ..).symm

theorem channels_eq (l : Layout) : l.channels = max ((l.tiling.segments.map Segment.role).count .route) 1 := by
  rw [channels, List.count_eq_countP, List.countP_map, List.countP_eq_length_filter]
  rfl

/-- A lane is one routing segment more. -/
theorem count_route_splitLane (h : t.WellTiled) (hsplit : splitLane t = .ok t') :
    (t'.segments.map Segment.role).count .route = (t.segments.map Segment.role).count .route + 1 := by
  obtain ⟨s, hs, hrole, x, u, ids, -, -, hrelease, hpart⟩ := splitLane_eq_ok hsplit
  exact h.count_role_partition hs (by rw [hrole]; decide) hrelease hpart

/-- One more lane is split on the layout without it. -/
theorem splitLane_of_place {c : Circuit} {height width : Nat} {plan plan' : Plan} (hplan : plan.withLane = .ok plan')
    (h : place c height width plan = .ok l) (h' : place c height width plan' = .ok l') :
    splitLane l.tiling = .ok l'.tiling ∧ l' = { l with tiling := l'.tiling } := by
  obtain ⟨lanes, hlanes, hplan⟩ := bind_eq_ok_iff.1 hplan
  obtain ⟨-, rfl⟩ := Long.add_eq_ok_iff.1 hlanes
  obtain rfl := pure_eq_ok_iff.1 hplan
  obtain ⟨g, filled, hground, hfilled, hsplit, hl⟩ := place_splits h
  obtain ⟨g', filled', hground', hfilled', hsplit', hl'⟩ := place_splits h'
  obtain rfl : g = g' := Except.ok.inj (hground.symm.trans hground')
  obtain rfl : filled = filled' := Except.ok.inj (hfilled.symm.trans hfilled')
  obtain ⟨t, ht, hlast⟩ := bind_eq_ok_iff.1 ((splitLanes_succ _ _).symm.trans hsplit')
  obtain rfl : l.tiling = t := Except.ok.inj (hsplit.symm.trans ht)
  refine ⟨hlast, ?_⟩
  rw [hl, hl']

/-- Factories keep their entrances. -/
theorem Founded.entrance?_retile {grid : Rect} {anchor : Cell} (h : Founded l grid anchor)
    (hbuilds : Builds l.tiling t) (handle : Nat) : entrance? { l with tiling := t } handle = l.entrance? handle := by
  have hwell := h.served.wellTiled
  cases hunit : l.unit? handle with
  | none =>
      rw [entrance?, entrance?, hunit]
      show (l.unit? handle).bind _ = _
      rw [hunit]
      rfl
  | some u =>
      obtain ⟨body, -, -, hbody, -⟩ := h.landed u (List.mem_of_getElem? hunit)
      rw [entrance?_of_stands hwell hunit hbody]
      exact entrance?_of_stands (l := { l with tiling := t }) (hwell.builds hbuilds) hunit
        (hbuilds.stands hwell (by simp) hbody)

/-- The second tiling has a lane in the first one's strip `s`: the cells of column `x`, which have routing above or
below them, turn from registers into routing. -/
structure LaneIn (t t' : Tiling) (s : Segment) (x : Nat) : Prop where
  mem : s ∈ t.segments
  register : s.role = .register
  inhabited : s.rect.Inhabited
  wide : s.rect.x0 + 3 ≤ s.rect.x1
  between : s.rect.x0 < x ∧ x + 1 < s.rect.x1
  column : ∀ c ∈ s.rect, c.x = x →
    t.roleAt? c = some .register ∧ t'.roleAt? c = some .route ∧ t.Entered c ∧ t'.Entered c
  elsewhere : ∀ c, ¬(c ∈ s.rect ∧ c.x = x) → t'.roleAt? c = t.roleAt? c

theorem exists_mem_dropAt (x : Nat) {band : Rect} {c : Cell} (hc : c ∈ band) :
    ∃ p ∈ dropAt x band, c ∈ p.rect ∧ p.role = if c.x = x then .route else .register := by
  obtain ⟨hy0, hy1, hx0, hx1⟩ := Rect.mem_iff.1 hc
  rcases lt_trichotomy c.x x with hlt | heq | hgt
  · refine ⟨.taken .register { band with x1 := x }, by simp [dropAt], ?_, (if_neg hlt.ne).symm⟩
    exact Rect.mem_iff.2 ⟨hy0, hy1, hx0, hlt⟩
  · refine ⟨.taken .route { band with x0 := x, x1 := x + 1 }, by simp [dropAt], ?_, (if_pos heq).symm⟩
    exact Rect.mem_iff.2 ⟨hy0, hy1, heq.ge, Nat.lt_succ_of_le heq.le⟩
  · refine ⟨.taken .register { band with x0 := x + 1 }, by simp [dropAt], ?_, (if_neg hgt.ne').symm⟩
    exact Rect.mem_iff.2 ⟨hy0, hy1, hgt, hx1⟩

theorem laneIn_of_splitLane {grid : Rect} {anchor : Cell} (h : t.Served grid anchor) (hsplit : splitLane t = .ok t') :
    ∃ s x, LaneIn t t' s x := by
  obtain ⟨s, hs, hrole, x, hleft, hright, -, hcarved⟩ := carved_of_splitLane h.wellTiled hsplit
  have hwas (c : Cell) (hc : c ∈ s.rect) : t.roleAt? c = some .register := by
    rw [h.wellTiled.roleAt?_eq hs hc, hrole]
  have hnow (c : Cell) (hc : c ∈ s.rect) : t'.roleAt? c = some (if c.x = x then .route else .register) := by
    obtain ⟨p, hp, hmem, hrole⟩ := exists_mem_dropAt x hc
    rw [← hrole]
    exact (hcarved.inside p hp c hmem).2
  refine ⟨s, x, hs, hrole, h.wellTiled.inhabited s hs, by omega, ⟨hleft, hright⟩, fun c hc hx => ?_, fun c hc => ?_⟩
  · have hentered := h.entered c .register (hwas c hc) (.inl rfl)
    have hroute := hnow c hc
    rw [if_pos hx] at hroute
    exact ⟨hwas c hc, hroute, hentered, hentered.mono fun _ => hcarved.isRouteAt⟩
  · by_cases hin : c ∈ s.rect
    · rw [hwas c hin, hnow c hin, if_neg fun hx => hc ⟨hin, hx⟩]
    · exact hcarved.outside c hin

end Layout

open Layout in
/-- One more lane is one more channel. Factories and their entrances stay, and of all cells only those of the lane
change: a column inside of a strip of registers. -/
theorem lane_adds_channel {c : Circuit} {height width : Nat} {plan plan' : Plan} {l l' : Layout}
    (hplan : plan.withLane = .ok plan') (h : place c height width plan = .ok l)
    (h' : place c height width plan' = .ok l') : l'.channels = l.channels + 1 ∧ l' = { l with tiling := l'.tiling } ∧
      (∀ handle, l'.entrance? handle = l.entrance? handle) ∧ ∃ s x, LaneIn l.tiling l'.tiling s x := by
  obtain ⟨hsplit, hl'⟩ := splitLane_of_place hplan h h'
  obtain ⟨⟨anchor, hfounded⟩, -⟩ := founded_on_grid h
  obtain ⟨⟨_, s, hs, -, -, hroute, -⟩, -⟩ := place_stands h
  have hmain : 0 < (l.tiling.segments.map Segment.role).count .route :=
    List.count_pos_iff.2 (List.mem_map.2 ⟨s, hs, hroute⟩)
  refine ⟨?_, hl', fun handle => ?_, laneIn_of_splitLane hfounded.served hsplit⟩
  · rw [channels_eq, channels_eq, count_route_splitLane hfounded.served.wellTiled hsplit]
    omega
  · rw [hl']
    exact hfounded.entrance?_retile (served_splitLane hfounded.served hsplit).1 handle

/-- A second lane on a small grid, beside three factories. -/
theorem crowded_lane_adds_channel : ∃ plan l l', Crowded.plan.withLane = .ok plan ∧
    Layout.place Crowded.circuit 6 7 Crowded.plan = .ok l ∧ Layout.place Crowded.circuit 6 7 plan = .ok l' ∧
    l'.channels = l.channels + 1 ∧ l' = { l with tiling := l'.tiling } ∧
      (∀ handle, l'.entrance? handle = l.entrance? handle) ∧ ∃ s x, Layout.LaneIn l.tiling l'.tiling s x := by
  have hplan : Crowded.plan.withLane = .ok { Crowded.plan with lanes := 2 } := rfl
  obtain ⟨l, h, -⟩ := exists_ok_of_any (x := Layout.place Crowded.circuit 6 7 Crowded.plan) (p := fun _ => True)
    (by decide +kernel)
  obtain ⟨l', h', -⟩ := exists_ok_of_any (x := Layout.place Crowded.circuit 6 7 { Crowded.plan with lanes := 2 })
    (p := fun _ => True) (by decide +kernel)
  exact ⟨_, l, l', hplan, h, h', lane_adds_channel hplan h h'⟩

end SurfaceFabric
