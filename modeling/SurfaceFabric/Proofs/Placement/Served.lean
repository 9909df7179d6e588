import SurfaceFabric.Placement.Fill
import SurfaceFabric.Proofs.Tiling.Roles

/-!
Tilings whose routing serves them. All routing cells are joined to one of them by steps between routing
cells, and every register and I/O cell has routing directly above or below it. An edit of one segment
keeps this if it takes no routing away, joins the routing it makes to what was there, and makes slots
next to routing only.
-/

namespace SurfaceFabric

/-- Whether the cells of a segment are handed out to symbols. -/
def Role.IsSlot (role : Role) : Prop := role = .register ∨ role = .io

namespace Tiling

variable {t t' : Tiling}

def RouteStep (t : Tiling) (c d : Cell) : Prop :=
  t.isRouteAt c = true ∧ t.isRouteAt d = true ∧ ∃ side, c.NextTo side d

abbrev Joined (t : Tiling) : Cell → Cell → Prop := Relation.ReflTransGen t.RouteStep

theorem RouteStep.symm {c d : Cell} (h : t.RouteStep c d) : t.RouteStep d c := by
  obtain ⟨hc, hd, side, hnext⟩ := h
  exact ⟨hd, hc, side.opposite, hnext.symm⟩

theorem Joined.symm {c d : Cell} (h : t.Joined c d) : t.Joined d c := by
  induction h with
  | refl => exact .refl
  | tail _ hstep ih => exact .head hstep.symm ih

theorem Joined.mono {c d : Cell} (h : t.Joined c d)
    (hkeep : ∀ c, t.isRouteAt c = true → t'.isRouteAt c = true) : t'.Joined c d := by
  refine Relation.ReflTransGen.mono ?_ _ _ h
  rintro a b ⟨ha, hb, hnext⟩
  exact ⟨hkeep a ha, hkeep b hb, hnext⟩

def Entered (t : Tiling) (c : Cell) : Prop :=
  ∃ side d, side.isVertical = true ∧ c.NextTo side d ∧ t.isRouteAt d = true

theorem Entered.mono {c : Cell} (h : t.Entered c)
    (hkeep : ∀ c, t.isRouteAt c = true → t'.isRouteAt c = true) : t'.Entered c := by
  obtain ⟨side, d, hside, hnext, hd⟩ := h
  exact ⟨side, d, hside, hnext, hkeep d hd⟩

theorem joined_below {y x n : Nat} (h : ∀ k ≤ n, t.isRouteAt ⟨y + k, x⟩ = true) :
    t.Joined ⟨y, x⟩ ⟨y + n, x⟩ := by
  induction n with
  | zero => exact .refl
  | succ n ih =>
      refine (ih fun k hk => h k (by omega)).tail ⟨h n (by omega), h (n + 1) le_rfl, .below, ?_⟩
      exact ⟨by dsimp only; omega, rfl⟩

theorem joined_right {y x n : Nat} (h : ∀ k ≤ n, t.isRouteAt ⟨y, x + k⟩ = true) :
    t.Joined ⟨y, x⟩ ⟨y, x + n⟩ := by
  induction n with
  | zero => exact .refl
  | succ n ih =>
      refine (ih fun k hk => h k (by omega)).tail ⟨h n (by omega), h (n + 1) le_rfl, .right, ?_⟩
      exact ⟨rfl, by dsimp only; omega⟩

theorem joined_corner {r : Rect} (h : ∀ c ∈ r, t.isRouteAt c = true) {c : Cell} (hc : c ∈ r) :
    t.Joined ⟨r.y0, r.x0⟩ c := by
  obtain ⟨hy0, hy1, hx0, hx1⟩ := Rect.mem_iff.1 hc
  have hdown : t.Joined ⟨r.y0, r.x0⟩ ⟨r.y0 + (c.y - r.y0), r.x0⟩ := by
    refine joined_below fun k hk => h _ (Rect.mem_iff.2 ?_)
    dsimp only
    omega
  have hright : t.Joined ⟨c.y, r.x0⟩ ⟨c.y, r.x0 + (c.x - r.x0)⟩ := by
    refine joined_right fun k hk => h _ (Rect.mem_iff.2 ?_)
    dsimp only
    omega
  rw [Nat.add_sub_cancel' hy0] at hdown
  rw [Nat.add_sub_cancel' hx0] at hright
  exact hdown.trans hright

/-- Routing that fills a rectangle is joined. -/
theorem joined_of_mem {r : Rect} (h : ∀ c ∈ r, t.isRouteAt c = true) {c d : Cell} (hc : c ∈ r)
    (hd : d ∈ r) : t.Joined c d :=
  (joined_corner h hc).symm.trans (joined_corner h hd)

/-- What is joined to one cell next to a rectangle of routing is joined to all of it. -/
theorem Joined.rect {r : Rect} {a c d e : Cell} {side : Side} (hjoined : t.Joined a d)
    (hd : t.isRouteAt d = true) (h : ∀ c ∈ r, t.isRouteAt c = true) (he : e ∈ r)
    (hnext : e.NextTo side d) (hc : c ∈ r) : t.Joined a c :=
  (hjoined.tail ⟨hd, h e he, side.opposite, hnext.symm⟩).trans (joined_of_mem h he hc)

/-- A tiling of a grid whose routing is all joined to the anchor and gives entry to every slot. -/
structure Served (t : Tiling) (grid : Rect) (anchor : Cell) : Prop where
  wellTiled : t.WellTiled
  grid_eq : t.grid = grid
  anchored : t.isRouteAt anchor = true
  joined : ∀ c, t.isRouteAt c = true → t.Joined anchor c
  entered : ∀ c role, t.roleAt? c = some role → role.IsSlot → t.Entered c

variable {grid : Rect} {anchor : Cell}

/-- Routing that is joined to what was there before, and slots that were there before or have entry, keep a
tiling served. -/
theorem Served.extend (h : t.Served grid anchor) (hwell : t'.WellTiled) (hgrid : t'.grid = t.grid)
    (hkeep : ∀ c, t.isRouteAt c = true → t'.isRouteAt c = true)
    (hroutes : ∀ c, t'.isRouteAt c = true → ∃ d, t.isRouteAt d = true ∧ t'.Joined d c)
    (hslots : ∀ c role, t'.roleAt? c = some role → role.IsSlot → t.roleAt? c = some role ∨ t'.Entered c) :
    t'.Served grid anchor := by
  refine ⟨hwell, hgrid.trans h.grid_eq, hkeep _ h.anchored, ?_, ?_⟩
  · intro c hc
    obtain ⟨d, hd, hjoined⟩ := hroutes c hc
    exact ((h.joined d hd).mono hkeep).trans hjoined
  · intro c role hrole hslot
    rcases hslots c role hrole hslot with hold | hentered
    · exact (h.entered c role hold hslot).mono hkeep
    · exact hentered

theorem Served.regrouped (h : t.Served grid anchor) (hregrouped : Regrouped t t') :
    t'.Served grid anchor := by
  have hsame := hregrouped.sameRoles h.wellTiled
  have hroute (c : Cell) : t'.isRouteAt c = t.isRouteAt c := by rw [isRouteAt, isRouteAt, hsame.roleAt?]
  apply h.extend hsame.wellTiled hsame.grid
  · intro c hc
    rwa [hroute]
  · intro c hc
    exact ⟨c, hroute c ▸ hc, .refl⟩
  · intro c role hrole _
    exact .inl (hsame.roleAt? c ▸ hrole)

/-- Replacing a segment that is no routing. -/
structure Carved (t : Tiling) (s : Segment) (pieces : List Piece) (t' : Tiling) : Prop where
  wellTiled : t'.WellTiled
  grid : t'.grid = t.grid
  outside : ∀ c, c ∉ s.rect → t'.roleAt? c = t.roleAt? c
  inside : ∀ p ∈ pieces, ∀ c ∈ p.rect, c ∈ s.rect ∧ t'.roleAt? c = some p.role
  rest : ∀ c ∈ s.rect, t'.roleAt? c = some .unassigned ∨ ∃ p ∈ pieces, c ∈ p.rect
  keeps : ∀ c, t.isRouteAt c = true → c ∉ s.rect

namespace Carved

variable {s : Segment} {pieces : List Piece}

theorem isRouteAt (h : Carved t s pieces t') {c : Cell} (hc : t.isRouteAt c = true) :
    t'.isRouteAt c = true := by
  rwa [Tiling.isRouteAt, h.outside c (h.keeps c hc)]

theorem isRouteAt_piece (h : Carved t s pieces t') {p : Piece} (hp : p ∈ pieces)
    (hroute : p.role.isRoute = true) {c : Cell} (hc : c ∈ p.rect) : t'.isRouteAt c = true :=
  isRouteAt_iff.2 ⟨p.role, (h.inside p hp c hc).2, hroute⟩

theorem served (h : Carved t s pieces t') (hserved : t.Served grid anchor)
    (hroutes : ∀ p ∈ pieces, p.role.isRoute = true → ∀ c ∈ p.rect,
      ∃ d, t.isRouteAt d = true ∧ t'.Joined d c)
    (hslots : ∀ p ∈ pieces, p.role.IsSlot → ∀ c ∈ p.rect, t'.Entered c) : t'.Served grid anchor := by
  apply hserved.extend h.wellTiled h.grid fun _ => h.isRouteAt
  · intro c hc
    by_cases hcs : c ∈ s.rect
    · obtain ⟨role, hrole, hroute⟩ := isRouteAt_iff.1 hc
      rcases h.rest c hcs with hfree | ⟨p, hp, hcp⟩
      · rw [hfree] at hrole
        cases hrole
        cases hroute
      · have hpiece := (h.inside p hp c hcp).2
        obtain rfl : p.role = role := Option.some.inj (hpiece.symm.trans hrole)
        exact hroutes p hp hroute c hcp
    · rw [Tiling.isRouteAt, h.outside c hcs] at hc
      exact ⟨c, hc, .refl⟩
  · intro c role hrole hslot
    by_cases hcs : c ∈ s.rect
    · rcases h.rest c hcs with hfree | ⟨p, hp, hcp⟩
      · rw [hfree] at hrole
        cases hrole
        rcases hslot with hslot | hslot <;> cases hslot
      · have hpiece := (h.inside p hp c hcp).2
        obtain rfl : p.role = role := Option.some.inj (hpiece.symm.trans hrole)
        exact .inr (hslots p hp hslot c hcp)
    · rw [h.outside c hcs] at hrole
      exact .inl hrole

end Carved

theorem WellTiled.not_mem_of_isRouteAt (h : t.WellTiled) {s : Segment} (hs : s ∈ t.segments)
    (hrole : s.role.isRoute = false) {c : Cell} (hc : t.isRouteAt c = true) : c ∉ s.rect := by
  intro hcs
  obtain ⟨role, hsome, hroute⟩ := isRouteAt_iff.1 hc
  rw [h.roleAt?_eq hs hcs] at hsome
  cases hsome
  rw [hrole] at hroute
  cases hroute

theorem WellTiled.mem_grid_of_isRouteAt (h : t.WellTiled) {c : Cell} (hc : t.isRouteAt c = true) :
    c ∈ t.grid := by
  obtain ⟨role, hrole, -⟩ := isRouteAt_iff.1 hc
  by_contra hout
  rw [h.roleAt?_eq_none_iff.2 hout] at hrole
  cases hrole

theorem carved_of_partition (h : t.WellTiled) {s : Segment} (hs : s ∈ t.segments)
    (hrole : s.role.isRoute = false) {pieces : List Piece} {ids : List Nat}
    (hpart : t.partition s.id pieces = .ok (ids, t')) : Carved t s pieces t' := by
  obtain ⟨hrecast, houtside, hexact⟩ := h.recast_single hs (partition_eq_ok hpart)
  refine ⟨hrecast.wellTiled, hrecast.grid, houtside, ?_, ?_, fun c => h.not_mem_of_isRouteAt hs hrole⟩
  · intro p hp c hc
    exact ⟨(hexact c).1 ⟨p, hp, hc⟩, hrecast.inside hp hc⟩
  · intro c hc
    exact .inr ((hexact c).2 hc)

/-- A route row is carved out of its segment. -/
theorem carve_of_routeRow {s : Segment} {y : Nat} (hrow : t.routeRow s y = .ok t') :
    t.carve s (Box.rect ⟨y, s.rect.x0, 1, s.rect.x1 - s.rect.x0⟩)
      [.taken .route (Box.rect ⟨y, s.rect.x0, 1, s.rect.x1 - s.rect.x0⟩)] = .ok t' := by
  obtain ⟨width, hwidth, hrow⟩ := bind_eq_ok_iff.1 hrow
  obtain ⟨band, hband, hrow⟩ := bind_eq_ok_iff.1 hrow
  rw [Outcome.liftM_eq_ok_iff] at hwidth hband
  obtain ⟨-, rfl⟩ := Word.sub_eq_ok_iff.1 hwidth
  obtain rfl := Rect.ofBox_eq_ok hband
  exact hrow

/-- Pieces that are carved out of a free segment. -/
theorem carved_of_carve (h : t.WellTiled) {s : Segment} (hs : s ∈ t.segments) (hfree : s.isFree = true)
    {band : Rect} {pieces : List Piece} (hcarve : t.carve s band pieces = .ok t') :
    Carved t s pieces t' := by
  unfold carve at hcarve
  obtain ⟨⟨ids, u⟩, hpart, hcarve⟩ := bind_eq_ok_iff.1 hcarve
  cases hcarve
  rw [Outcome.mapRefusal_eq_ok_iff] at hpart
  have hrole : s.role.isRoute = false := by rw [role_of_isFree hfree]; rfl
  have hcarved := carved_of_partition h hs hrole hpart
  refine ⟨hcarved.wellTiled, hcarved.grid, hcarved.outside, ?_, ?_, hcarved.keeps⟩
  · intro p hp c hc
    refine hcarved.inside p (List.mem_append_left _ (List.mem_filter.2 ⟨hp, ?_⟩)) c hc
    rw [Bool.not_eq_true', ← Bool.not_eq_true, Rect.isEmpty_iff]
    exact fun hempty => hempty c hc
  · intro c hc
    rcases hcarved.rest c hc with hun | ⟨p, hp, hcp⟩
    · exact .inl hun
    · rcases List.mem_append.1 hp with hused | hrest
      · exact .inr ⟨p, (List.mem_filter.1 hused).1, hcp⟩
      · obtain ⟨r, -, rfl⟩ := List.mem_map.1 hrest
        exact .inl (hcarved.inside _ hp c hcp).2

end Tiling

end SurfaceFabric
