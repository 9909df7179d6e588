import SurfaceFabric.Proofs.Placement.Safety
import SurfaceFabric.Proofs.Placement.Turns

/-!
Free space without factories: a block above the main row, and what the I/O strip leaves of the row below it. Both
lie against routing over their whole width. A fill takes them from there on, and what it leaves of a block lies on
the routing that it has put in, so it uses up everything.
-/

namespace SurfaceFabric

/-- What is left around a lower left corner: the rows above it and what is right of it. -/
theorem Rect.remainder_corner (r : Rect) (y x : Nat) : r.remainder ⟨y, r.x0, r.y1, x⟩ =
    [⟨r.y0, r.x0, y, r.x1⟩, ⟨y, x, r.y1, r.x1⟩].filter fun piece => !piece.isEmpty := by
  simp [Rect.remainder, List.filter_cons, Rect.isEmpty]

theorem Rect.remainder_self (r : Rect) : r.remainder r = [] := by
  rw [r.remainder_corner r.y0 r.x1]
  simp [Rect.isEmpty]

namespace Tiling

variable {t t' v : Tiling} {skipped skipped' : List Rect} {r : Rect} {s : Segment}

/-- A rectangle from the upper edge of the grid down to a row of routing. -/
structure Topmost (t : Tiling) (r : Rect) : Prop where
  top : r.y0 = 0
  left : r.x0 = 0
  right : r.x1 = t.width
  lies : t.LiesOn r .below

/-- The end of a row under a row of routing. -/
structure Undermost (t : Tiling) (r : Rect) : Prop where
  height : r.y1 = r.y0 + 1
  right : r.x1 = t.width
  lies : t.LiesOn r .above

/-- All free space lies against routing over its whole width, and on the right edge of the grid. -/
structure Plain (t : Tiling) : Prop where
  wellTiled : t.WellTiled
  free : ∀ r ∈ t.freeRects, t.Topmost r ∨ t.Undermost r

theorem LiesOn.mono {base : Side} (h : t.LiesOn r base)
    (hkeep : ∀ c, t.isRouteAt c = true → t'.isRouteAt c = true) : t'.LiesOn r base := by
  refine ⟨h.1, fun c hc hdepth => ?_⟩
  obtain ⟨d, hnext, hd⟩ := h.2 c hc hdepth
  exact ⟨d, hnext, hkeep d hd⟩

theorem WellTiled.inhabited_of_mem_freeRects (h : t.WellTiled) (hr : r ∈ t.freeRects) : r.Inhabited := by
  obtain ⟨s, hs, rfl⟩ := mem_freeRects.1 hr
  exact h.inhabited s (mem_freeSegments.1 hs).1

theorem WellTiled.not_isRouteAt_of_mem_freeRects (h : t.WellTiled) (hr : r ∈ t.freeRects) {c : Cell} (hc : c ∈ r) :
    t.isRouteAt c ≠ true := by
  obtain ⟨s, hs, rfl⟩ := mem_freeRects.1 hr
  obtain ⟨hmem, hfree⟩ := mem_freeSegments.1 hs
  exact fun hroute => h.not_mem_of_isRouteAt hmem (by rw [role_of_isFree hfree]; rfl) hroute hc

/-- Free space against routing is not under other free space. -/
theorem Plain.not_stacked (h : t.Plain) {q : Rect} (hq : q ∈ t.freeRects) (hr : r ∈ t.freeRects)
    (hy : q.y1 = r.y0) (hx : q.x0 = r.x0 ∧ q.x1 = r.x1) : False := by
  obtain ⟨hqy, hqx⟩ := h.wellTiled.inhabited_of_mem_freeRects hq
  obtain ⟨hry, hrx⟩ := h.wellTiled.inhabited_of_mem_freeRects hr
  rcases h.free q hq with hq' | hq'
  · have hroute := (liesOn_below_iff ⟨hqy, hqx⟩).1 hq'.lies q.x0 le_rfl hqx
    exact h.wellTiled.not_isRouteAt_of_mem_freeRects hr (Rect.mem_iff.2 (by dsimp only; omega)) hroute
  · rcases h.free r hr with hr' | hr'
    · have htop := hr'.top
      omega
    · obtain ⟨hpos, hroute⟩ := (liesOn_above_iff ⟨hry, hrx⟩).1 hr'.lies
      exact h.wellTiled.not_isRouteAt_of_mem_freeRects hq (Rect.mem_iff.2 (by dsimp only; omega))
        (hroute r.x0 le_rfl hrx)

theorem Plain.right (h : t.Plain) (hr : r ∈ t.freeRects) : r.x1 = t.width :=
  (h.free r hr).elim Topmost.right Undermost.right

/-- Free space that lies against routing cannot be joined. -/
theorem Plain.not_join (h : t.Plain) : ¬ Join t t' := by
  rintro (hmerge | hmerge) <;>
    obtain ⟨q, hq, r, hr, merged, hjoin, -⟩ := h.wellTiled.freeRects_mergePair hmerge
  · unfold stacked? at hjoin
    split at hjoin
    · next hy =>
        obtain ⟨hx, -⟩ := Option.ite_none_right_eq_some.1 hjoin
        exact h.not_stacked hq hr hy hx
    · obtain ⟨hy, hjoin⟩ := Option.ite_none_right_eq_some.1 hjoin
      obtain ⟨hx, -⟩ := Option.ite_none_right_eq_some.1 hjoin
      exact h.not_stacked hr hq hy hx
  -- side by side, one of the two would not reach the right edge
  · have hqx := (h.wellTiled.inhabited_of_mem_freeRects hq).2
    have hrx := (h.wellTiled.inhabited_of_mem_freeRects hr).2
    have hq1 := h.right hq
    have hr1 := h.right hr
    unfold besides? at hjoin
    split at hjoin
    · omega
    · obtain ⟨hx, -⟩ := Option.ite_none_right_eq_some.1 hjoin
      omega

theorem Plain.mergeFree (h : t.Plain) (hmerge : t.mergeFree = .ok t') : t' = t := by
  rcases (joins_of_mergeFree hmerge).cases_head with heq | ⟨u, hjoin, -⟩
  · exact heq.symm
  · exact absurd hjoin h.not_join

/-- Routing over the whole width of a rectangle is in all its columns. -/
theorem WellTiled.routeColumns_eq (h : t.WellTiled) (hr : r.Inhabited) {y : Nat}
    (hall : ∀ x, r.x0 ≤ x → x < r.x1 → t.isRouteAt ⟨y, x⟩ = true) :
    t.routeColumns r y = List.range' r.x0 (r.x1 - r.x0) := by
  have hrow : y < t.height := (Rect.mem_iff.1 (h.mem_grid_of_isRouteAt (hall r.x0 le_rfl hr.2))).2.1
  rw [routeColumns, if_pos hrow]
  refine List.filter_eq_self.2 fun x hx => ?_
  rw [List.mem_range'_1] at hx
  exact hall x hx.1 (by omega)

theorem runLength_range' (x n : Nat) : runLength (List.range' x n) = n := by
  induction n generalizing x with
  | zero => rfl
  | succ n ih =>
      cases n with
      | zero => rfl
      | succ n =>
          have hlater := ih (x + 1)
          rw [List.range'_succ] at hlater
          rw [List.range'_succ, List.range'_succ, runLength, if_pos rfl, hlater]

section Plain

variable (h : t.WellTiled) (hr : r.Inhabited)

include h hr

/-- A block on top is filled from below, and its last row all at once. -/
theorem Topmost.fillStep {step : FillStep} (htop : t.Topmost r) (hstep : t.fillStep r = .ok step) :
    r.y1 = 1 ∧ step = .contactRun 1 ∨ 2 ≤ r.y1 ∧ step = .stack .below := by
  have hy0 := htop.top
  have hbelow : t.columnsBelow r = List.range' r.x0 (r.x1 - r.x0) :=
    h.routeColumns_eq hr ((liesOn_below_iff hr).1 htop.lies)
  have habove : t.columnsAbove r = [] := if_pos hy0
  obtain ⟨hy, hx⟩ := hr
  unfold Tiling.fillStep at hstep
  obtain ⟨height, hheight, hstep⟩ := bind_eq_ok_iff.1 hstep
  obtain ⟨width, hwidth, hstep⟩ := bind_eq_ok_iff.1 hstep
  obtain ⟨-, rfl⟩ := Word.sub_eq_ok_iff.1 hheight
  obtain ⟨-, rfl⟩ := Word.sub_eq_ok_iff.1 hwidth
  have hsome : (List.range' r.x0 (r.x1 - r.x0)).isEmpty = false := by
    rw [List.isEmpty_eq_false_iff, Ne, List.range'_eq_nil_iff]
    omega
  dsimp only at hstep
  rw [habove, hbelow, hsome, List.length_range', List.length_nil] at hstep
  by_cases hone : r.y1 = 1
  · rw [if_pos ⟨hy0, by omega⟩] at hstep
    cases hstep
    exact .inl ⟨hone, by rw [hone]; rfl⟩
  · rw [if_neg (by omega), if_neg (by omega), if_pos (by omega), if_pos rfl] at hstep
    cases hstep
    exact .inr ⟨by omega, rfl⟩

/-- The end of a row is filled from above. -/
theorem Undermost.fillStep {step : FillStep} (hunder : t.Undermost r) (hstep : t.fillStep r = .ok step) :
    step = .stack .above := by
  obtain ⟨hpos, hroute⟩ := (liesOn_above_iff hr).1 hunder.lies
  have habove : t.columnsAbove r = List.range' r.x0 (r.x1 - r.x0) := by
    rw [columnsAbove, if_neg (by omega), h.routeColumns_eq hr hroute]
  unfold Tiling.fillStep at hstep
  obtain ⟨height, hheight, hstep⟩ := bind_eq_ok_iff.1 hstep
  obtain ⟨width, hwidth, hstep⟩ := bind_eq_ok_iff.1 hstep
  obtain ⟨-, rfl⟩ := Word.sub_eq_ok_iff.1 hwidth
  dsimp only at hstep
  rw [if_neg (by omega), habove, if_pos List.length_range'] at hstep
  cases hstep
  rfl

end Plain

/-- A row of free space over routing is taken all at once. -/
theorem WellTiled.carve_of_contactRun (h : t.WellTiled) (hr : s.rect.Inhabited) (hrow : s.rect.y1 = s.rect.y0 + 1)
    (hlies : t.LiesOn s.rect .below) (hrun : t.contactRun s s.rect.y1 = .ok t') :
    t.carve s s.rect [.taken .register s.rect] = .ok t' := by
  have hall := h.routeColumns_eq hr ((liesOn_below_iff hr).1 hlies)
  have hlength : runLength (t.routeColumns s.rect s.rect.y1) = s.rect.x1 - s.rect.x0 := by
    rw [hall, runLength_range']
  obtain ⟨hy, hx⟩ := hr
  rw [contactRun] at hrun
  split at hrun
  · next hnil =>
      rw [hall, List.range'_eq_nil_iff] at hnil
      omega
  · next x rest hcolumns =>
      obtain ⟨band, hband, hrun⟩ := bind_eq_ok_iff.1 hrun
      have hfirst : x = s.rect.x0 := by
        rw [hall, ← Nat.sub_add_cancel (Nat.sub_pos_of_lt hx), List.range'_succ] at hcolumns
        exact (List.cons.inj hcolumns).1.symm
      have hwhole : band = s.rect := by
        rw [Rect.ofBox_eq_ok (Outcome.liftM_eq_ok_iff.1 hband), hlength, hfirst, ← hrow]
        dsimp only
        rw [Nat.add_sub_cancel' hx.le]
      rwa [hwhole] at hrun

/-- What is carved out of plain free space leaves it plain, if its rest lies on routing again. -/
theorem Plain.carve (h : t.Plain) (hs : s ∈ t.freeSegments) {band : Rect} {pieces : List Piece}
    (htaken : ∀ p ∈ pieces, p.allocated = true) (hcarve : t.carve s band pieces = .ok t')
    (hrest : Carved t s pieces t' → ∀ q ∈ s.rect.remainder band, t'.Topmost q) : t'.Plain := by
  obtain ⟨hmem, hfree⟩ := mem_freeSegments.1 hs
  have hcarved := carved_of_carve h.wellTiled hmem hfree hcarve
  have hwidth : t'.width = t.width := congrArg Rect.x1 hcarved.grid
  refine ⟨hcarved.wellTiled, fun q hq => ?_⟩
  have hparts := (h.wellTiled.freeRects_carve hs htaken hcarve).mem_iff.1 (List.mem_cons_of_mem _ hq)
  rcases List.mem_append.1 hparts with hq | hq
  · exact .inl (hrest hcarved q hq)
  · refine (h.free q hq).imp (fun htop => ?_) fun hunder => ?_
    · exact ⟨htop.top, htop.left, htop.right.trans hwidth.symm, htop.lies.mono fun _ => hcarved.isRouteAt⟩
    · exact ⟨hunder.height, hunder.right.trans hwidth.symm, hunder.lies.mono fun _ => hcarved.isRouteAt⟩

/-- What a stack leaves of a block on top lies on the row of routing that ends the stack. -/
theorem Topmost.stack (htop : t.Topmost s.rect) (hr : s.rect.Inhabited)
    (hcarved : Carved t s (t.stackPlan s.rect .below).2 t') {q : Rect}
    (hq : q ∈ s.rect.remainder (t.stackPlan s.rect .below).1) : t'.Topmost q := by
  have hwidth : t'.width = t.width := congrArg Rect.x1 hcarved.grid
  have hinhabited := Rect.inhabited_of_remainder hq
  rcases stackPlan_cases hr .below with hband | ⟨hthree, hband, hrow⟩
  · rw [hband, Rect.remainder_self] at hq
    cases hq
  · have hcorner : rowsOf .below s.rect 0 3 = ⟨s.rect.y1 - 3, s.rect.x0, s.rect.y1, s.rect.x1⟩ := rfl
    rw [hband, hcorner, Rect.remainder_corner] at hq
    have hparts := (List.mem_filter.1 hq).1
    simp only [List.mem_cons, List.not_mem_nil, or_false] at hparts
    rcases hparts with rfl | rfl
    · refine ⟨htop.top, htop.left, htop.right.trans hwidth.symm, (liesOn_below_iff hinhabited).2 fun x hx0 hx1 => ?_⟩
      refine hcarved.isRouteAt_piece hrow rfl (Rect.mem_iff.2 ?_)
      dsimp only [Piece.taken, rowsOf] at hx0 hx1 ⊢
      omega
    · exact absurd hinhabited.2 (lt_irrefl _)

/-- No turn passes over plain free space, and what it leaves is plain. -/
theorem Plain.turn (h : t.Plain) (hturn : Turn skipped t skipped' v) : skipped' = skipped ∧ v.Plain := by
  cases hturn with
  | @intro u v s step hmerge hfind hstep henact =>
      obtain rfl := h.mergeFree hmerge
      have hs := List.mem_of_find?_eq_some hfind
      have hmem := List.mem_map_of_mem (f := Segment.rect) hs
      have hr := h.wellTiled.inhabited_of_mem_freeRects hmem
      rcases h.free s.rect hmem with htop | hunder
      · rcases htop.fillStep h.wellTiled hr hstep with ⟨hone, rfl⟩ | ⟨-, rfl⟩
        · have hrow : s.rect.y1 = s.rect.y0 + 1 := by rw [htop.top, hone]
          rw [← hone] at henact
          have hcarve := h.wellTiled.carve_of_contactRun hr hrow htop.lies henact
          refine ⟨rfl, h.carve hs (by simp [Piece.taken]) hcarve fun _ q hq => ?_⟩
          rw [Rect.remainder_self] at hq
          cases hq
        · refine ⟨rfl, h.carve hs (stackPlan_crosses hr .below).2 (carve_of_stack henact) ?_⟩
          exact fun hcarved _ => htop.stack hr hcarved
      · obtain rfl := hunder.fillStep h.wellTiled hr hstep
        -- one row is too low for a stack to leave anything
        refine ⟨rfl, h.carve hs (stackPlan_crosses hr .above).2 (carve_of_stack henact) fun _ q hq => ?_⟩
        rcases stackPlan_cases hr .above with hband | ⟨hthree, -⟩
        · rw [hband, Rect.remainder_self] at hq
          cases hq
        · have hheight := hunder.height
          omega

/-- A fill uses up plain free space. -/
theorem Plain.fillFrom {n : Nat} (h : t.Plain) (heffort : t.effort [] < n) (hfill : fillFrom n [] t = .ok t') :
    t'.freeRects = [] := by
  induction n generalizing t with
  | zero => omega
  | succ n ih =>
      rcases fillFrom_cases hfill with hdone | ⟨skipped, v, hturn, hrest⟩
      · exact List.eq_nil_iff_forall_not_mem.2 fun r hr => List.not_mem_nil (hdone r hr)
      · obtain ⟨rfl, hplain⟩ := h.turn hturn
        have hless := h.wellTiled.effort_turn hturn
        exact ih hplain (by omega) hrest

end Tiling

namespace Layout

open Tiling

variable {height width io row : Nat}

theorem freeRects_ofSize (hheight : 0 < height) (hwidth : 0 < width) :
    (Tiling.ofSize height width).freeRects = [⟨0, 0, height, width⟩] := by
  rw [Tiling.ofSize, if_pos ⟨hheight, hwidth⟩]
  rfl

/-- The free space around the I/O strip: all above it, and what is right of it. -/
theorem freeRects_placeStrip {t : Tiling} (hheight : 2 ≤ height) (hwidth : 0 < width)
    (h : placeStrip height width io = .ok (row, t)) : t.freeRects.Perm
      (⟨0, 0, row + 1, width⟩ :: [⟨row + 1, io, height, width⟩].filter fun r => !r.isEmpty) := by
  have hat := at?_ofSize (by omega : 0 < height) hwidth
  have hstart := freeRects_ofSize (by omega : 0 < height) hwidth
  obtain ⟨root, hroot, hcases⟩ := placeStrip_cases h
  obtain rfl := Option.some.inj (hat.symm.trans hroot)
  rcases hcases with ⟨hnone, rfl, rfl⟩ | ⟨-, rfl, m, hmade⟩
  · rw [hstart, Nat.sub_add_cancel (by omega)]
    simp [Rect.isEmpty]
  · have hfree : Segment.isolated 0 (.free ⟨0, 0, height, width⟩) ∈ (Tiling.ofSize height width).freeSegments :=
      mem_freeSegments.2 ⟨mem_of_at? hat, rfl⟩
    have hperm := (wellTiled_ofSize height width).freeRects_allocAt hfree hmade
    rw [hstart] at hperm
    have hrest := (hperm.trans (List.perm_append_singleton ..)).cons_inv
    refine hrest.trans (.of_eq ?_)
    have hrows : height - 2 + 1 = height - 1 := by omega
    have hbottom : height - 1 + 1 = height := by omega
    have hcorner := Rect.remainder_corner ⟨0, 0, height, width⟩ (height - 1) io
    rw [hrows]
    simp only [Segment.isolated, Piece.free, Box.rect, hbottom, Nat.zero_add]
    rw [hcorner, List.filter_cons, if_pos]
    rw [Bool.not_eq_true', Rect.isEmpty_eq_false_iff]
    exact ⟨by dsimp only; omega, hwidth⟩

/-- The free space around the strip and the main row. -/
theorem freeRects_placeIo {l : Layout} (h : placeIo height width io = .ok (row, l)) : l.tiling.freeRects.Perm
    ([⟨0, 0, row, width⟩, ⟨row + 1, io, height, width⟩].filter fun r => !r.isEmpty) := by
  obtain ⟨hheight, hwidth, hio, -, t, host, hhost, n, hstrip, hmade⟩ := placeIo_allocates h
  obtain ⟨-, hwell, -⟩ := placeStrip_eq_ok hheight hstrip
  have hfree := freeRects_placeStrip hheight hwidth hstrip
  obtain ⟨s, hs, hrect⟩ := mem_freeRects.1 (hfree.mem_iff.2 List.mem_cons_self)
  -- the row is allocated in the segment that covers its first cell
  have hsame : s = host := by
    obtain ⟨e, later, hsplit, -⟩ := allocAt_eq_some hmade
    obtain ⟨u, inner, hu, -, hinner, ⟨hinhabited, hincludes⟩, -⟩ := splitEdit_eq_ok hsplit
    obtain rfl := hwell.eq_of_id_eq (mem_of_segment? hu).1 hhost (mem_of_segment? hu).2
    obtain rfl := Rect.ofBox_eq_ok hinner
    have hcorner : (⟨row, 0⟩ : Cell) ∈ u.rect := by
      refine (Rect.includes_iff hinhabited).1 hincludes _ (Rect.mem_iff.2 ?_)
      dsimp only
      omega
    refine hwell.eq_of_mem (mem_freeSegments.1 hs).1 hhost ?_ hcorner
    rw [hrect, Rect.mem_iff]
    dsimp only
    omega
  subst hsame
  have hperm := hwell.freeRects_allocAt hs hmade
  rw [hrect] at hperm
  have habove : (⟨0, 0, row + 1, width⟩ : Rect).remainder (Box.rect ⟨row, 0, 1, width⟩) =
      [⟨0, 0, row, width⟩].filter fun r => !r.isEmpty := by
    have hcorner := Rect.remainder_corner ⟨0, 0, row + 1, width⟩ row width
    simp only [Box.rect, Nat.zero_add]
    rw [hcorner]
    simp [List.filter_cons, Rect.isEmpty]
  rw [habove] at hperm
  have hrest := ((hperm.trans (hfree.append_left _)).trans List.perm_middle).cons_inv
  rwa [← List.filter_append] at hrest

/-- Free space is plain before any factory is placed, and there is little of it. -/
theorem plain_placeIo {l : Layout} (h : placeIo height width io = .ok (row, l)) :
    l.tiling.Plain ∧ l.tiling.effort [] < height * width * 4 + 16 := by
  have hfree := freeRects_placeIo h
  obtain ⟨hrow, hserved, -, id, hmain⟩ := placeIo_eq_ok h
  have hwell := hserved.wellTiled
  have hwidth : l.tiling.width = width := congrArg Rect.x1 hserved.grid_eq
  have hheight : l.tiling.height = height := congrArg Rect.y1 hserved.grid_eq
  have hroute (x : Nat) (hx : x < width) : l.tiling.isRouteAt ⟨row, x⟩ = true :=
    hmain.isRouteAt hwell rfl (Rect.mem_iff.2 (by dsimp only; omega))
  refine ⟨⟨hwell, fun r hr => ?_⟩, ?_⟩
  · have hinhabited := hwell.inhabited_of_mem_freeRects hr
    have hparts := (List.mem_filter.1 (hfree.mem_iff.1 hr)).1
    simp only [List.mem_cons, List.not_mem_nil, or_false] at hparts
    rcases hparts with rfl | rfl
    · exact .inl ⟨rfl, rfl, hwidth.symm, (liesOn_below_iff hinhabited).2 fun x _ hx => hroute x hx⟩
    · refine .inr ⟨?_, hwidth.symm, (liesOn_above_iff hinhabited).2 ⟨Nat.succ_pos row, fun x _ hx => hroute x hx⟩⟩
      have hbelow := hinhabited.1
      dsimp only at hbelow ⊢
      unfold mainRow at hrow
      split at hrow <;> omega
  · have hcount := hfree.length_eq.trans_le (List.length_filter_le ..)
    have hle := hwell.effort_le []
    rw [hheight, hwidth] at hle
    simp only [List.length_cons, List.length_nil] at hcount
    omega

end Layout

end SurfaceFabric
