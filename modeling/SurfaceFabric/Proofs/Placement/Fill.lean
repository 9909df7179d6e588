import SurfaceFabric.Proofs.Placement.Served
import SurfaceFabric.Proofs.Placement.Stack

/-!
Filling free space keeps a tiling served. Where a step puts routing, the routing touches what was there
before; where it puts registers, they lie against routing. Steps that grow from the upper edge and from
the lower edge of a segment are treated at once: rows are counted by their depth from the edge.
-/

namespace SurfaceFabric.Tiling

variable {t t' : Tiling} {r grid : Rect} {anchor : Cell} {base : Side}

/-- Rows between a cell of a rectangle and the edge it is counted from. -/
def depth (base : Side) (r : Rect) (c : Cell) : Nat :=
  match base with
  | .below => r.y1 - 1 - c.y
  | _ => c.y - r.y0

theorem depth_lt (hvertical : base.isVertical = true) {c : Cell} (hc : c ∈ r) :
    depth base r c < r.y1 - r.y0 := by
  rw [Rect.mem_iff] at hc
  cases base <;> simp only [depth, Side.isVertical, Bool.false_eq_true] at hvertical ⊢ <;> omega

theorem depth_opposite (hvertical : base.isVertical = true) {c : Cell} (hc : c ∈ r) :
    depth base.opposite r c + depth base r c + 1 = r.y1 - r.y0 := by
  rw [Rect.mem_iff] at hc
  cases base <;> simp only [depth, Side.opposite, Side.isVertical, Bool.false_eq_true] at hvertical ⊢ <;>
    omega

/-- The next cell towards the edge. -/
theorem exists_toward (hvertical : base.isVertical = true) {c : Cell} (hc : c ∈ r)
    (hdepth : depth base r c ≠ 0) :
    ∃ d ∈ r, c.NextTo base d ∧ depth base r d + 1 = depth base r c ∧ d.x = c.x := by
  rw [Rect.mem_iff] at hc
  cases base with
  | above =>
      simp only [depth] at hdepth ⊢
      refine ⟨⟨c.y - 1, c.x⟩, Rect.mem_iff.2 ?_, ⟨?_, rfl⟩, ?_, rfl⟩ <;> dsimp only <;> omega
  | below =>
      simp only [depth] at hdepth ⊢
      refine ⟨⟨c.y + 1, c.x⟩, Rect.mem_iff.2 ?_, ⟨rfl, rfl⟩, ?_, rfl⟩ <;> dsimp only <;> omega
  | left => cases hvertical
  | right => cases hvertical

/-- The next cell away from the edge. -/
theorem exists_away (hvertical : base.isVertical = true) {c : Cell} (hc : c ∈ r)
    (hdepth : depth base r c + 1 < r.y1 - r.y0) :
    ∃ d ∈ r, c.NextTo base.opposite d ∧ depth base r d = depth base r c + 1 ∧ d.x = c.x := by
  have hopposite := depth_opposite hvertical hc
  have hsides : base.opposite.isVertical = true := by cases base <;> simp_all [Side.opposite, Side.isVertical]
  obtain ⟨d, hd, hnext, hdepth, hx⟩ := exists_toward hsides hc (by omega)
  have := depth_opposite hvertical hd
  exact ⟨d, hd, hnext, by omega, hx⟩

/-- The cell of a column on the edge. -/
theorem exists_edge (hvertical : base.isVertical = true) {c : Cell} (hc : c ∈ r) :
    ∃ e ∈ r, depth base r e = 0 ∧ e.x = c.x := by
  induction hdepth : depth base r c generalizing c with
  | zero => exact ⟨c, hc, hdepth, rfl⟩
  | succ n ih =>
      obtain ⟨d, hd, -, hstep, hx⟩ := exists_toward hvertical hc (by omega)
      obtain ⟨e, he, hedge, hex⟩ := ih hd (by omega)
      exact ⟨e, he, hedge, hex.trans hx⟩

/-- Rows of a rectangle by their depth. -/
theorem mem_rowsOf {i n : Nat} (hfit : i + n ≤ r.y1 - r.y0) {c : Cell} : c ∈ rowsOf base r i n ↔
    c ∈ r ∧ i ≤ depth base r c ∧ depth base r c < i + n := by
  cases base <;> simp only [rowsOf, Rect.mem_iff, depth] <;> omega

def LiesOn (t : Tiling) (r : Rect) (base : Side) : Prop :=
  base.isVertical = true ∧
    ∀ c ∈ r, depth base r c = 0 → ∃ d, c.NextTo base d ∧ t.isRouteAt d = true

theorem liesOn_below_iff (hr : r.Inhabited) :
    t.LiesOn r .below ↔ ∀ x, r.x0 ≤ x → x < r.x1 → t.isRouteAt ⟨r.y1, x⟩ = true := by
  obtain ⟨hy, -⟩ := hr
  constructor
  · intro h x hx0 hx1
    obtain ⟨⟨y, x'⟩, ⟨hdy, hdx⟩, hd⟩ := h.2 ⟨r.y1 - 1, x⟩ (Rect.mem_iff.2 (by dsimp only; omega)) (Nat.sub_self _)
    dsimp only at hdy hdx
    rwa [hdx, hdy, Nat.sub_add_cancel (by omega)] at hd
  · intro h
    refine ⟨rfl, fun c hc hdepth => ⟨⟨r.y1, c.x⟩, ⟨?_, rfl⟩, ?_⟩⟩ <;> rw [Rect.mem_iff] at hc
    · simp only [depth] at hdepth ⊢
      omega
    · exact h c.x hc.2.2.1 hc.2.2.2

theorem liesOn_above_iff (hr : r.Inhabited) : t.LiesOn r .above ↔
    0 < r.y0 ∧ ∀ x, r.x0 ≤ x → x < r.x1 → t.isRouteAt ⟨r.y0 - 1, x⟩ = true := by
  obtain ⟨hy, hx⟩ := hr
  constructor
  · intro h
    have hnext (x : Nat) (hx0 : r.x0 ≤ x) (hx1 : x < r.x1) :
        0 < r.y0 ∧ t.isRouteAt ⟨r.y0 - 1, x⟩ = true := by
      obtain ⟨⟨y, x'⟩, ⟨hdy, hdx⟩, hd⟩ := h.2 ⟨r.y0, x⟩ (Rect.mem_iff.2 (by dsimp only; omega)) (Nat.sub_self _)
      dsimp only at hdy hdx
      rw [hdx, show y = r.y0 - 1 by omega] at hd
      exact ⟨by omega, hd⟩
    exact ⟨(hnext r.x0 le_rfl hx).1, fun x hx0 hx1 => (hnext x hx0 hx1).2⟩
  · rintro ⟨hpos, h⟩
    refine ⟨rfl, fun c hc hdepth => ⟨⟨r.y0 - 1, c.x⟩, ⟨?_, rfl⟩, ?_⟩⟩ <;> rw [Rect.mem_iff] at hc
    · simp only [depth] at hdepth ⊢
      omega
    · exact h c.x hc.2.2.1 hc.2.2.2

theorem mem_routeColumns {y x : Nat} (h : x ∈ t.routeColumns r y) :
    r.x0 ≤ x ∧ x < r.x1 ∧ t.isRouteAt ⟨y, x⟩ = true := by
  unfold routeColumns at h
  split at h
  · obtain ⟨hrange, hroute⟩ := List.mem_filter.1 h
    rw [List.mem_range'_1] at hrange
    exact ⟨hrange.1, by omega, hroute⟩
  · cases h

theorem WellTiled.mem_routeColumns_iff (h : t.WellTiled) {y x : Nat} :
    x ∈ t.routeColumns r y ↔ r.x0 ≤ x ∧ x < r.x1 ∧ t.isRouteAt ⟨y, x⟩ = true := by
  refine ⟨mem_routeColumns, fun ⟨hx0, hx1, hroute⟩ => ?_⟩
  have hrow : y < t.height := (Rect.mem_iff.1 (h.mem_grid_of_isRouteAt hroute)).2.1
  rw [routeColumns, if_pos hrow]
  exact List.mem_filter.2 ⟨List.mem_range'_1.2 ⟨hx0, by omega⟩, hroute⟩

/-- Routing in a whole row is in every column of it. -/
theorem isRouteAt_of_routeColumns {y x : Nat} (hr : r.Inhabited)
    (h : (t.routeColumns r y).length = r.x1 - r.x0) (hx0 : r.x0 ≤ x) (hx1 : x < r.x1) :
    t.isRouteAt ⟨y, x⟩ = true := by
  unfold routeColumns at h
  obtain ⟨-, hx⟩ := hr
  split at h
  · have hall := List.length_filter_eq_length_iff.1 (h.trans List.length_range'.symm)
    exact hall x (List.mem_range'_1.2 ⟨hx0, by omega⟩)
  · simp only [List.length_nil] at h
    omega

theorem liesOn_above (hr : r.Inhabited) (h : (t.columnsAbove r).length = r.x1 - r.x0) :
    t.LiesOn r .above := by
  have hx := hr.2
  unfold columnsAbove at h
  split at h
  · simp only [List.length_nil] at h
    omega
  · exact (liesOn_above_iff hr).2 ⟨by omega, fun x => isRouteAt_of_routeColumns hr h⟩

theorem liesOn_below (hr : r.Inhabited) (h : (t.columnsBelow r).length = r.x1 - r.x0) :
    t.LiesOn r .below :=
  (liesOn_below_iff hr).2 fun _ => isRouteAt_of_routeColumns hr h

theorem mem_of_lt_runLength {l : List Nat} {a k : Nat} (h : k < runLength l) (hhead : l.head? = some a) :
    a + k ∈ l := by
  fun_induction runLength l generalizing a k with
  | case1 b rest ih =>
      obtain rfl : b = a := Option.some.inj hhead
      cases k with
      | zero => exact List.mem_cons_self ..
      | succ k =>
          have hlater := ih (k := k) (by omega) rfl
          rw [Nat.add_assoc, Nat.add_comm 1] at hlater
          exact List.mem_cons_of_mem _ hlater
  | case2 b c rest _ =>
      obtain rfl : b = a := Option.some.inj hhead
      obtain rfl : k = 0 := by omega
      exact List.mem_cons_self ..
  | case3 b =>
      obtain rfl : b = a := Option.some.inj hhead
      obtain rfl : k = 0 := by omega
      exact List.mem_cons_self ..
  | case4 => cases hhead

theorem runLength_pos {l : List Nat} (h : l ≠ []) : 0 < runLength l := by
  fun_cases runLength l with
  | case1 => exact Nat.succ_pos _
  | case2 => exact Nat.one_pos
  | case3 => exact Nat.one_pos
  | case4 => exact absurd rfl h

/-- A row of a rectangle lies in it. -/
theorem row_included (hr : r.Inhabited) {y : Nat} (hy : r.y0 ≤ y ∧ y < r.y1) :
    (Box.rect ⟨y, r.x0, 1, r.x1 - r.x0⟩).Inhabited ∧
      r.includes (Box.rect ⟨y, r.x0, 1, r.x1 - r.x0⟩) = true := by
  obtain ⟨-, hx⟩ := hr
  simp only [Rect.includes, Bool.and_eq_true, decide_eq_true_eq]
  simp only [Rect.Inhabited, Box.rect]
  omega

/-- The first run of columns with routing lies in the rectangle. -/
theorem run_included (hr : r.Inhabited) {y x : Nat} {rest : List Nat}
    (hcolumns : t.routeColumns r y = x :: rest) :
    (Box.rect ⟨r.y0, x, 1, runLength (t.routeColumns r y)⟩).Inhabited ∧
      r.includes (Box.rect ⟨r.y0, x, 1, runLength (t.routeColumns r y)⟩) = true := by
  have hpos : 0 < runLength (t.routeColumns r y) := runLength_pos (hcolumns ▸ List.cons_ne_nil x rest)
  have hfirst := mem_routeColumns (hcolumns ▸ List.mem_cons_self : x ∈ t.routeColumns r y)
  have hlast := mem_routeColumns (mem_of_lt_runLength (Nat.sub_one_lt hpos.ne') (by rw [hcolumns]; rfl))
  obtain ⟨hy, -⟩ := hr
  simp only [Rect.includes, Bool.and_eq_true, decide_eq_true_eq]
  simp only [Rect.Inhabited, Box.rect]
  omega

namespace Carved

variable {s : Segment} {pieces : List Piece}

/-- A register on the edge is entered from the routing along it. -/
theorem entered_edge (h : Carved t s pieces t') (hbase : t.LiesOn s.rect base) {c : Cell}
    (hc : c ∈ s.rect) (hdepth : depth base s.rect c = 0) : t'.Entered c := by
  obtain ⟨d, hnext, hd⟩ := hbase.2 c hc hdepth
  exact ⟨base, d, hbase.1, hnext, h.isRouteAt hd⟩

/-- Routing that reaches the edge is joined to the routing along it. -/
theorem joined_edge (h : Carved t s pieces t') (hbase : t.LiesOn s.rect base) {p : Piece}
    (hp : p ∈ pieces) (hroute : p.role.isRoute = true) {e c : Cell} (he : e ∈ p.rect)
    (hedge : depth base s.rect e = 0) (hc : c ∈ p.rect) :
    ∃ d, t.isRouteAt d = true ∧ t'.Joined d c := by
  obtain ⟨d, hnext, hd⟩ := hbase.2 e (h.inside p hp e he).1 hedge
  exact ⟨d, hd, Joined.rect .refl (h.isRouteAt hd) (fun _ => h.isRouteAt_piece hp hroute) he hnext hc⟩

theorem served_registers (h : Carved t s [.taken .register s.rect] t') (hserved : t.Served grid anchor)
    (hentered : ∀ c ∈ s.rect, t'.Entered c) : t'.Served grid anchor := by
  refine h.served hserved ?_ ?_ <;> intro p hp
  · rw [List.mem_singleton.1 hp]
    intro hroute
    cases hroute
  · rw [List.mem_singleton.1 hp]
    exact fun _ => hentered

theorem served_corridor {corridor last : Rect} {n : Nat}
    (h : Carved t s [.taken .route corridor, .taken .register last] t') (hserved : t.Served grid anchor)
    (hbase : t.LiesOn s.rect base) (hn : n ≠ 0)
    (hcorridor : ∀ c, c ∈ corridor ↔ c ∈ s.rect ∧ depth base s.rect c < n)
    (hlast : ∀ c, c ∈ last ↔ c ∈ s.rect ∧ depth base s.rect c = n) : t'.Served grid anchor := by
  refine h.served hserved ?_ ?_ <;> intro p hp hrole c hc <;>
    simp only [List.mem_cons, List.not_mem_nil, or_false] at hp
  · rcases hp with rfl | rfl
    · obtain ⟨e, he, hedge, -⟩ := exists_edge hbase.1 ((hcorridor c).1 hc).1
      exact h.joined_edge hbase (List.mem_cons_self ..) rfl ((hcorridor e).2 ⟨he, by omega⟩) hedge hc
    · cases hrole
  · rcases hp with rfl | rfl
    · rcases hrole with hrole | hrole <;> cases hrole
    · obtain ⟨hcs, hdepth⟩ := (hlast c).1 hc
      obtain ⟨d, hd, hnext, hstep, -⟩ := exists_toward hbase.1 hcs (by omega)
      refine ⟨base, d, hbase.1, hnext, h.isRouteAt_piece (List.mem_cons_self ..) rfl ?_⟩
      exact (hcorridor d).2 ⟨hd, by omega⟩

/-- One or two rows of registers with a drop between them, and a row of routing behind them. -/
theorem served_drop {near next : Rect} {x n : Nat}
    (h : Carved t s (dropAt x near ++ [.taken .route next]) t') (hserved : t.Served grid anchor)
    (hbase : t.LiesOn s.rect base) (hn : n = 1 ∨ n = 2) (hfit : n < s.rect.y1 - s.rect.y0)
    (hx0 : s.rect.x0 ≤ x) (hx1 : x < s.rect.x1) (hnear0 : near.x0 = s.rect.x0)
    (hnear1 : near.x1 = s.rect.x1)
    (hnear : ∀ c, c ∈ near ↔ c ∈ s.rect ∧ depth base s.rect c < n)
    (hnext : ∀ c, c ∈ next ↔ c ∈ s.rect ∧ depth base s.rect c = n) : t'.Served grid anchor := by
  have hleft (c : Cell) (hc : c ∈ ({ near with x1 := x } : Rect)) : c ∈ near := by
    rw [Rect.mem_iff] at hc ⊢
    dsimp only at hc
    omega
  have hright (c : Cell) (hc : c ∈ ({ near with x0 := x + 1 } : Rect)) : c ∈ near := by
    rw [Rect.mem_iff] at hc ⊢
    dsimp only at hc
    omega
  have hdrop (c : Cell) : c ∈ ({ near with x0 := x, x1 := x + 1 } : Rect) ↔ c ∈ near ∧ c.x = x := by
    rw [Rect.mem_iff, Rect.mem_iff]
    dsimp only
    omega
  have hregister (c : Cell) (hc : c ∈ near) : t'.Entered c := by
    obtain ⟨hcs, hdepth⟩ := (hnear c).1 hc
    by_cases hedge : depth base s.rect c = 0
    · exact h.entered_edge hbase hcs hedge
    · -- the second row lies against the routing behind it
      obtain ⟨d, hd, haway, hstep, -⟩ := exists_away hbase.1 hcs (by omega)
      refine ⟨base.opposite, d, ?_, haway, h.isRouteAt_piece (p := .taken .route next) ?_ rfl ?_⟩
      · have := hbase.1
        cases base <;> simp_all [Side.opposite, Side.isVertical]
      · simp [dropAt]
      · exact (hnext d).2 ⟨hd, by omega⟩
  have hdropped (c : Cell) (hc : c ∈ near) (hcx : c.x = x) :
      ∃ d, t.isRouteAt d = true ∧ t'.Joined d c := by
    obtain ⟨e, he, hedge, hex⟩ := exists_edge hbase.1 ((hnear c).1 hc).1
    refine h.joined_edge hbase (p := .taken .route { near with x0 := x, x1 := x + 1 }) (by simp [dropAt])
      rfl ((hdrop e).2 ⟨(hnear e).2 ⟨he, by omega⟩, by omega⟩) hedge ((hdrop c).2 ⟨hc, hcx⟩)
  refine h.served hserved ?_ ?_ <;> intro p hp hrole c hc <;>
    simp only [dropAt, List.cons_append, List.nil_append, List.mem_cons, List.not_mem_nil,
      or_false] at hp
  · rcases hp with rfl | rfl | rfl | rfl
    · cases hrole
    · obtain ⟨hcnear, hcx⟩ := (hdrop c).1 hc
      exact hdropped c hcnear hcx
    · cases hrole
    · -- the row behind the drop is reached through it
      obtain ⟨hcs, hdepth⟩ := (hnext c).1 hc
      have hmiddle : (⟨c.y, x⟩ : Cell) ∈ s.rect := by
        rw [Rect.mem_iff] at hcs ⊢
        exact ⟨hcs.1, hcs.2.1, hx0, hx1⟩
      have hsame : depth base s.rect ⟨c.y, x⟩ = n := hdepth ▸ by cases base <;> rfl
      obtain ⟨f, hf, htoward, hstep, hfx⟩ := exists_toward hbase.1 hmiddle (by omega)
      have hfnear : f ∈ near := (hnear f).2 ⟨hf, by omega⟩
      obtain ⟨d, hd, hjoined⟩ := hdropped f hfnear hfx
      refine ⟨d, hd, hjoined.rect ?_ ?_ ((hnext _).2 ⟨hmiddle, hsame⟩) htoward hc⟩
      · exact h.isRouteAt_piece (p := .taken .route { near with x0 := x, x1 := x + 1 })
          (by simp [dropAt]) rfl ((hdrop f).2 ⟨hfnear, hfx⟩)
      · exact fun _ => h.isRouteAt_piece (p := .taken .route next) (by simp [dropAt]) rfl
  · rcases hp with rfl | rfl | rfl | rfl
    · exact hregister c (hleft c hc)
    · rcases hrole with hrole | hrole <;> cases hrole
    · exact hregister c (hright c hc)
    · rcases hrole with hrole | hrole <;> cases hrole

/-- A row of routing that touches routing somewhere. -/
theorem served_row {band : Rect} (h : Carved t s [.taken .route band] t') (hserved : t.Served grid anchor)
    {e d : Cell} {side : Side} (he : e ∈ band) (hnext : e.NextTo side d) (hd : t.isRouteAt d = true) :
    t'.Served grid anchor := by
  refine h.served hserved ?_ ?_ <;> intro p hp hrole c hc
  · rw [List.mem_singleton.1 hp] at hc
    refine ⟨d, hd, Joined.rect .refl (h.isRouteAt hd) ?_ he hnext hc⟩
    exact fun _ => h.isRouteAt_piece (List.mem_singleton_self _) rfl
  · rw [List.mem_singleton.1 hp] at hrole
    rcases hrole with hrole | hrole <;> cases hrole

end Carved

section Steps

variable {s : Segment} (hserved : t.Served grid anchor) (hs : s ∈ t.segments) (hfree : s.isFree = true)

include hserved hs hfree

theorem Served.stack (hbase : t.LiesOn s.rect base) (hstack : t.stack s base = .ok t') :
    t'.Served grid anchor := by
  obtain ⟨hy, hx⟩ := hserved.wellTiled.inhabited s hs
  have hcarved := carved_of_carve hserved.wellTiled hs hfree (carve_of_stack hstack)
  rw [stackPlan] at hcarved
  split at hcarved
  · refine hcarved.served_registers hserved fun c hc => ?_
    have := depth_lt hbase.1 hc
    exact hcarved.entered_edge hbase hc (by omega)
  split at hcarved
  · refine hcarved.served_corridor hserved hbase (n := s.rect.y1 - s.rect.y0 - 1)
      (by omega) (fun c => (mem_rowsOf (by omega)).trans ?_) fun c => (mem_rowsOf (by omega)).trans ?_ <;>
      exact and_congr_right fun _ => by omega
  generalize hbehind : (if base = .below then t.columnsAbove s.rect else t.columnsBelow s.rect) = far
    at hcarved
  split at hcarved
  · split at hcarved
    · next hfar =>
        refine hcarved.served_registers hserved fun c hc => ?_
        by_cases hedge : depth base s.rect c = 0
        · exact hcarved.entered_edge hbase hc hedge
        · have hopposite := depth_opposite hbase.1 hc
          have hopposed : t.LiesOn s.rect base.opposite := by
            rw [← hbehind] at hfar
            cases base with
            | above => exact liesOn_below ⟨hy, hx⟩ hfar
            | below => exact liesOn_above ⟨hy, hx⟩ hfar
            | left => cases hbase.1
            | right => cases hbase.1
          exact hcarved.entered_edge hopposed hc (by omega)
    · refine hcarved.served_drop hserved hbase (.inl rfl) (by omega) (by omega) (by omega) (by cases base <;> rfl)
        (by cases base <;> rfl) (fun c => (mem_rowsOf (by omega)).trans ?_)
        fun c => (mem_rowsOf (by omega)).trans ?_ <;>
        exact and_congr_right fun _ => by omega
  · refine hcarved.served_drop hserved hbase (.inr rfl) (by omega) (by omega) (by omega) (by cases base <;> rfl)
      (by cases base <;> rfl) (fun c => (mem_rowsOf (by omega)).trans ?_)
      fun c => (mem_rowsOf (by omega)).trans ?_ <;>
      exact and_congr_right fun _ => by omega

theorem Served.routeRow {y : Nat} {e d : Cell} {side : Side} (he : e ∈ s.rect) (hy : e.y = y)
    (hnext : e.NextTo side d) (hd : t.isRouteAt d = true) (hrow : t.routeRow s y = .ok t') :
    t'.Served grid anchor := by
  have hcarved := carved_of_carve hserved.wellTiled hs hfree (carve_of_routeRow hrow)
  refine hcarved.served_row hserved (e := e) ?_ hnext hd
  rw [Rect.mem_iff] at he ⊢
  dsimp only [Box.rect]
  omega

theorem Served.contactRun {y : Nat} (hcolumns : t.routeColumns s.rect y ≠ [])
    (hnext : ∀ x, ∃ side, side.isVertical = true ∧ Cell.NextTo ⟨s.rect.y0, x⟩ side ⟨y, x⟩)
    (hrun : t.contactRun s y = .ok t') : t'.Served grid anchor := by
  unfold Tiling.contactRun at hrun
  dsimp only at hrun
  split at hrun
  · next hnil => exact absurd hnil hcolumns
  · next x rest hcons =>
      obtain ⟨band, hband, hrun⟩ := bind_eq_ok_iff.1 hrun
      rw [Outcome.liftM_eq_ok_iff] at hband
      obtain rfl := Rect.ofBox_eq_ok hband
      have hcarved := carved_of_carve hserved.wellTiled hs hfree hrun
      refine hcarved.served hserved ?_ ?_ <;> intro p hp hrole c hc <;>
        rw [List.mem_singleton.1 hp] at hrole hc
      · cases hrole
      · obtain ⟨hy0, hy1, hx0, hx1⟩ := Rect.mem_iff.1 hc
        dsimp only [Piece.taken] at hy0 hy1 hx0 hx1
        have hmem := mem_of_lt_runLength (l := t.routeColumns s.rect y) (k := c.x - x)
          (by omega) (by rw [hcons]; rfl)
        rw [Nat.add_sub_cancel' hx0] at hmem
        obtain ⟨side, hside, hnext⟩ := hnext c.x
        refine ⟨side, ⟨y, c.x⟩, hside, ?_, hcarved.isRouteAt (mem_routeColumns hmem).2.2⟩
        rwa [show c = ⟨s.rect.y0, c.x⟩ by cases c; congr; dsimp only at hy0 hy1; omega]

end Steps

def Fits (t : Tiling) (r : Rect) : FillStep → Prop
  | .stack base => t.LiesOn r base
  | .routeRow y => ∃ e ∈ r, e.y = y ∧ ∃ side d, e.NextTo side d ∧ t.isRouteAt d = true
  | .contactRun y => r.y1 = r.y0 + 1 ∧ t.routeColumns r y ≠ [] ∧
      ∀ x, ∃ side, side.isVertical = true ∧ Cell.NextTo ⟨r.y0, x⟩ side ⟨y, x⟩
  | .skip => t.columnsAbove r = [] ∧ t.columnsBelow r = [] ∧
      ∀ y, r.y0 ≤ y → y < r.y1 → t.sideContact r y = false

theorem sideStep_fits (hr : r.Inhabited) (habove : t.columnsAbove r = []) (hbelow : t.columnsBelow r = []) :
    t.Fits r (t.sideStep r) := by
  obtain ⟨hy, hx⟩ := hr
  unfold sideStep
  split
  · next y hfind =>
      have hrow := List.mem_of_find?_eq_some hfind
      have hcontact := List.find?_some hfind
      rw [List.mem_reverse, List.mem_range'_1] at hrow
      simp only [sideContact, Bool.or_eq_true, Bool.and_eq_true, decide_eq_true_eq] at hcontact
      rcases hcontact with ⟨hpos, hroute⟩ | ⟨-, hroute⟩
      · refine ⟨⟨y, r.x0⟩, Rect.mem_iff.2 ?_, rfl, .left, ⟨y, r.x0 - 1⟩, ⟨rfl, ?_⟩, hroute⟩ <;>
          dsimp only <;> omega
      · refine ⟨⟨y, r.x1 - 1⟩, Rect.mem_iff.2 ?_, rfl, .right, ⟨y, r.x1⟩, ⟨rfl, ?_⟩, hroute⟩ <;>
          dsimp only <;> omega
  · next hfind =>
      refine ⟨habove, hbelow, fun y hy0 hy1 => Bool.eq_false_iff.2 ?_⟩
      exact List.find?_eq_none.1 hfind y (List.mem_reverse.2 (List.mem_range'_1.2 ⟨hy0, by omega⟩))

theorem rowAbove_fits (hr : r.Inhabited) (h : t.columnsAbove r ≠ []) :
    t.Fits r (.routeRow r.y0) := by
  obtain ⟨hy, hx⟩ := hr
  unfold columnsAbove at h
  split at h
  · exact absurd rfl h
  · obtain ⟨x, hmem⟩ := List.exists_mem_of_ne_nil _ h
    obtain ⟨hx0, hx1, hroute⟩ := mem_routeColumns hmem
    refine ⟨⟨r.y0, x⟩, Rect.mem_iff.2 ?_, rfl, .above, ⟨r.y0 - 1, x⟩, ⟨?_, rfl⟩, hroute⟩ <;>
      dsimp only <;> omega

theorem rowBelow_fits (hr : r.Inhabited) (h : t.columnsBelow r ≠ []) :
    t.Fits r (.routeRow (r.y1 - 1)) := by
  obtain ⟨hy, hx⟩ := hr
  obtain ⟨x, hmem⟩ := List.exists_mem_of_ne_nil _ h
  obtain ⟨hx0, hx1, hroute⟩ := mem_routeColumns hmem
  refine ⟨⟨r.y1 - 1, x⟩, Rect.mem_iff.2 ?_, rfl, .below, ⟨r.y1, x⟩, ⟨?_, rfl⟩, hroute⟩ <;>
    dsimp only <;> omega

theorem runBelow_fits (hrow : r.y1 = r.y0 + 1) (h : t.columnsBelow r ≠ []) :
    t.Fits r (.contactRun r.y1) :=
  ⟨hrow, h, fun _ => ⟨.below, rfl, hrow, rfl⟩⟩

theorem runAbove_fits (hrow : r.y1 = r.y0 + 1) (h : t.columnsAbove r ≠ []) :
    t.Fits r (.contactRun (r.y0 - 1)) := by
  unfold columnsAbove at h
  split at h
  · exact absurd rfl h
  · exact ⟨hrow, h, fun _ => ⟨.above, rfl, by dsimp only; omega, rfl⟩⟩

theorem fillStep_fits (hr : r.Inhabited) {step : FillStep} (h : t.fillStep r = .ok step) :
    t.Fits r step := by
  unfold fillStep at h
  obtain ⟨height, hheight, h⟩ := bind_eq_ok_iff.1 h
  obtain ⟨width, hwidth, h⟩ := bind_eq_ok_iff.1 h
  obtain ⟨-, rfl⟩ := Word.sub_eq_ok_iff.1 hheight
  obtain ⟨-, rfl⟩ := Word.sub_eq_ok_iff.1 hwidth
  simp only [List.isEmpty_iff, Bool.not_eq_eq_eq_not, Bool.not_true] at h
  split at h
  · next htop =>
      cases h
      split
      · next hbelow => exact sideStep_fits hr (if_pos htop.1) hbelow
      · next hbelow => exact runBelow_fits (by omega) hbelow
  split at h
  · next habove =>
      cases h
      exact liesOn_above hr habove
  split at h
  · split at h
    · next hbelow =>
        cases h
        exact liesOn_below hr hbelow
    split at h
    · next hbelow =>
        obtain ⟨y, hy, h⟩ := bind_eq_ok_iff.1 h
        cases h
        obtain ⟨-, rfl⟩ := Word.sub_eq_ok_iff.1 hy
        exact rowBelow_fits hr (by simpa using hbelow)
    · next hbelow =>
        cases h
        split
        · next habove => exact rowAbove_fits hr (by simpa using habove)
        · next habove => exact sideStep_fits hr (by simpa using habove) (by simpa using hbelow)
  have := hr.1
  split at h
  · next hbelow =>
      cases h
      exact runBelow_fits (by omega) (by simpa using hbelow)
  split at h
  · next habove =>
      obtain ⟨y, hy, h⟩ := bind_eq_ok_iff.1 h
      cases h
      obtain ⟨-, rfl⟩ := Word.sub_eq_ok_iff.1 hy
      exact runAbove_fits (by omega) (by simpa using habove)
  · next hbelow habove =>
      cases h
      exact sideStep_fits hr (by simpa using habove) (by simpa using hbelow)

theorem Served.fillFrom {n : Nat} {skipped : List Rect} (h : t.Served grid anchor)
    (hfill : fillFrom n skipped t = .ok t') : t'.Served grid anchor := by
  induction n generalizing t skipped with
  | zero =>
      cases hfill
      exact h
  | succ n ih =>
      rw [Tiling.fillFrom] at hfill
      obtain ⟨u, hmerge, hfill⟩ := bind_eq_ok_iff.1 hfill
      have hu := h.regrouped (h.wellTiled.mergeFree (Outcome.liftM_eq_ok_iff.1 hmerge))
      split at hfill
      · cases hfill
        exact hu
      · next s hfind =>
          obtain ⟨hs, hfree⟩ := mem_freeSegments.1 (List.mem_of_find?_eq_some hfind)
          obtain ⟨step, hstep, hfill⟩ := bind_eq_ok_iff.1 hfill
          have hfits := fillStep_fits (hu.wellTiled.inhabited s hs) (Outcome.liftM_eq_ok_iff.1 hstep)
          cases step with
          | skip => exact ih hu hfill
          | stack base =>
              obtain ⟨v, hv, hfill⟩ := bind_eq_ok_iff.1 hfill
              exact ih (hu.stack hs hfree hfits hv) hfill
          | routeRow y =>
              obtain ⟨v, hv, hfill⟩ := bind_eq_ok_iff.1 hfill
              obtain ⟨e, he, hey, side, d, hnext, hd⟩ := hfits
              exact ih (hu.routeRow hs hfree he hey hnext hd hv) hfill
          | contactRun y =>
              obtain ⟨v, hv, hfill⟩ := bind_eq_ok_iff.1 hfill
              exact ih (hu.contactRun hs hfree hfits.2.1 hfits.2.2 hv) hfill

theorem Served.fillRegisters (h : t.Served grid anchor) (hfill : t.fillRegisters = .ok t') :
    t'.Served grid anchor := by
  obtain ⟨budget, -, hfill⟩ := bind_eq_ok_iff.1 hfill
  exact h.fillFrom hfill

end SurfaceFabric.Tiling
