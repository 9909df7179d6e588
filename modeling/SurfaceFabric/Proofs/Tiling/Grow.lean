import SurfaceFabric.Proofs.Tiling.FixedPoint

/-!
A free segment grows over its neighbours on a side. As all of them lie along its edge, a band that is no deeper than
any of them is covered by them; what they have outside the band is left over. So growing is an exact edit, and it is
made for every segment that is free and has free neighbours there. It fails only for want of segment numbers.
-/

namespace SurfaceFabric

variable {side : Side} {c d : Cell}

namespace Rect

variable {r q g : Rect} {n : Nat}

/-- The extent of a rectangle away from a side: its rows from above and below, its columns from left and right. -/
def extent (r : Rect) : Side → Nat
  | .above | .below => r.y1 - r.y0
  | .left | .right => r.x1 - r.x0

def stretched (r : Rect) (n : Nat) : Side → Rect
  | .above => { r with y0 := r.y0 - n }
  | .below => { r with y1 := r.y1 + n }
  | .left => { r with x0 := r.x0 - n }
  | .right => { r with x1 := r.x1 + n }

theorem extent_pos (hr : r.Inhabited) : 0 < r.extent side := by
  simp only [Inhabited] at hr
  cases side <;> simp only [extent] <;> omega

theorem inhabited_stretched (hr : r.Inhabited) : (r.stretched n side).Inhabited := by
  simp only [Inhabited] at hr ⊢
  cases side <;> simp only [stretched] <;> omega

theorem mem_stretched (hc : c ∈ r) : c ∈ r.stretched n side := by
  rw [mem_iff] at hc ⊢
  cases side <;> simp only [stretched] <;> omega

theorem includes_meet (r q : Rect) : q.includes (r.meet q) = true := by
  simp [includes, meet]

/-- What a stretched rectangle takes of one that it touches. -/
theorem inhabited_meet_stretched (hapart : r.Apart q) (htouches : r.Touches q side) (hn : 0 < n) :
    ((r.stretched n side).meet q).Inhabited := by
  rw [touches_iff hapart] at htouches
  simp only [Inhabited] at htouches ⊢
  cases side <;> simp only [stretched, meet] at htouches ⊢ <;> omega

/-- A cell that stretching adds lies behind one next to the rectangle, so it is in whatever begins there and reaches
far enough. -/
theorem exists_behind (hr : r.Inhabited) (hc : c ∈ r.stretched n side) (hout : c ∉ r) :
    ∃ e ∈ r, ∃ d : Cell, d ∉ r ∧ e.NextTo side d ∧
      ∀ q : Rect, d ∈ q → q.edge side.opposite = r.edge side → n ≤ q.extent side → c ∈ q := by
  rw [mem_iff] at hc hout
  simp only [Inhabited] at hr
  cases side with
  | above =>
      refine ⟨⟨r.y0, c.x⟩, ?_, ⟨r.y0 - 1, c.x⟩, ?_, ?_, fun q => ?_⟩ <;>
        simp only [stretched, mem_iff, Cell.NextTo, edge, extent, Side.opposite, and_true] at hc ⊢ <;> omega
  | below =>
      refine ⟨⟨r.y1 - 1, c.x⟩, ?_, ⟨r.y1, c.x⟩, ?_, ?_, fun q => ?_⟩ <;>
        simp only [stretched, mem_iff, Cell.NextTo, edge, extent, Side.opposite, and_true] at hc ⊢ <;> omega
  | left =>
      refine ⟨⟨c.y, r.x0⟩, ?_, ⟨c.y, r.x0 - 1⟩, ?_, ?_, fun q => ?_⟩ <;>
        simp only [stretched, mem_iff, Cell.NextTo, edge, extent, Side.opposite, true_and] at hc ⊢ <;> omega
  | right =>
      refine ⟨⟨c.y, r.x1 - 1⟩, ?_, ⟨c.y, r.x1⟩, ?_, ?_, fun q => ?_⟩ <;>
        simp only [stretched, mem_iff, Cell.NextTo, edge, extent, Side.opposite, true_and] at hc ⊢ <;> omega

theorem edge_of_touches (hapart : r.Apart q) (htouches : r.Touches q side) :
    q.edge side.opposite = r.edge side := by
  rw [touches_iff hapart] at htouches
  cases side <;> exact htouches.2.2.2

/-- Every cell next to a rectangle on a side is in the grid if one of them is. -/
theorem mem_of_touches (hr : ∀ c ∈ r, c ∈ g) (hq : ∀ c ∈ q, c ∈ g) (hapart : r.Apart q) (htouches : r.Touches q side)
    (hc : c ∈ r) (hnext : c.NextTo side d) : d ∈ g := by
  obtain ⟨a, ha, b, hb, hnext'⟩ := htouches
  have hbr : b ∉ r := fun hbr => hapart b hbr hb
  have hbg := hq b hb
  have hcg := hr c hc
  rw [mem_iff] at hc ha hbr hbg hcg ⊢
  cases side <;> simp only [Cell.NextTo] at hnext hnext' <;> omega

end Rect

namespace Tiling

variable {t t' : Tiling} {s v : Segment} {n : Nat}

/-! ### Neighbours on a side -/

def beside (t : Tiling) (s : Segment) (side : Side) : List Segment :=
  t.segments.filter fun v => v.id ∈ s.neighbours side

theorem mem_beside : v ∈ t.beside s side ↔ v ∈ t.segments ∧ v.id ∈ s.neighbours side := by
  simp [beside]

theorem WellTiled.mem_beside_iff (h : t.WellTiled) (hs : s ∈ t.segments) :
    v ∈ t.beside s side ↔ v ∈ t.segments ∧ s.id ≠ v.id ∧ s.rect.Touches v.rect side := by
  rw [mem_beside]
  exact and_congr_right fun hv => h.mem_neighbours_iff hs hv

theorem WellTiled.map_id_beside (h : t.WellTiled) (hs : s ∈ t.segments) (side : Side) :
    (t.beside s side).map Segment.id = s.neighbours side := by
  have hascending : ((t.beside s side).map Segment.id).Pairwise (· < ·) :=
    List.pairwise_map.2 (h.ascending.filter _)
  have hlinks := h.links_ascending s hs side
  have hmem (id : Nat) : id ∈ (t.beside s side).map Segment.id ↔ id ∈ s.neighbours side := by
    simp only [List.mem_map, mem_beside]
    constructor
    · rintro ⟨v, ⟨-, hid⟩, rfl⟩
      exact hid
    · intro hid
      obtain ⟨v, hv, rfl, -⟩ := (h.linked s hs side id).1 hid
      exact ⟨v, ⟨hv, hid⟩, rfl⟩
  refine List.Perm.eq_of_pairwise (fun a b _ _ hab hba => absurd hab hba.asymm) hascending hlinks ?_
  exact (List.perm_ext_iff_of_nodup (hascending.imp Nat.ne_of_lt) (hlinks.imp Nat.ne_of_lt)).2 hmem

theorem freeRects?_map_id (h : t.WellTiled) {l : List Segment} (hl : ∀ v ∈ l, v ∈ t.segments) :
    t.freeRects? (l.map Segment.id) = if ∀ v ∈ l, v.isFree = true then some (l.map Segment.rect) else none := by
  induction l with
  | nil => rfl
  | cons v rest ih =>
      obtain ⟨hv, hrest⟩ := List.forall_mem_cons.1 hl
      rw [List.map_cons, freeRects?, (segment?_eq_some_iff h.ascending).2 ⟨hv, rfl⟩, ih hrest]
      by_cases hfree : v.isFree = true
      · rw [Option.bind_eq_bind, Option.bind_some, if_pos hfree]
        by_cases hall : ∀ u ∈ rest, u.isFree = true
        · have hboth : ∀ u ∈ v :: rest, u.isFree = true := List.forall_mem_cons.2 ⟨hfree, hall⟩
          rw [if_pos hall, if_pos hboth]
          rfl
        · rw [if_neg hall, if_neg fun hboth => hall (List.forall_mem_cons.1 hboth).2]
          rfl
      · rw [Option.bind_eq_bind, Option.bind_some, if_neg hfree, if_neg fun hboth => hfree (hboth v List.mem_cons_self)]

theorem WellTiled.freeRects?_neighbours (h : t.WellTiled) (hs : s ∈ t.segments) (side : Side) :
    t.freeRects? (s.neighbours side) =
      if ∀ v ∈ t.beside s side, v.isFree = true then some ((t.beside s side).map Segment.rect) else none := by
  rw [← h.map_id_beside hs side]
  exact freeRects?_map_id h fun v hv => (mem_beside.1 hv).1

/-! ### The edit -/

/-- What the neighbours of a segment have outside its band. -/
def leftovers (t : Tiling) (s : Segment) (side : Side) (n : Nat) : List Rect :=
  (t.beside s side).flatMap fun v => v.rect.remainder ((s.rect.stretched n side).meet v.rect)

theorem WellTiled.mem_beside_of_stretched (h : t.WellTiled) (hs : s ∈ t.segments) (hne : t.beside s side ≠ [])
    (hdeep : ∀ v ∈ t.beside s side, n ≤ v.rect.extent side) (hc : c ∈ s.rect.stretched n side) (hout : c ∉ s.rect) :
    ∃ v ∈ t.beside s side, c ∈ v.rect := by
  obtain ⟨u, hu⟩ := List.exists_mem_of_ne_nil _ hne
  obtain ⟨hu, hneu, htouches⟩ := (h.mem_beside_iff hs).1 hu
  obtain ⟨e, he, d, hd, hnext, hbehind⟩ := Rect.exists_behind (h.inhabited s hs) hc hout
  have hgrid : d ∈ t.grid :=
    Rect.mem_of_touches (h.bounded s hs) (h.bounded u hu) (h.apart s hs u hu hneu) htouches he hnext
  obtain ⟨v, hv, hdv⟩ := h.covered d hgrid
  have hnev : s.id ≠ v.id := fun hid => hd (h.eq_of_id_eq hs hv hid ▸ hdv)
  have hbeside : v ∈ t.beside s side := (h.mem_beside_iff hs).2 ⟨hv, hnev, e, he, d, hdv, hnext⟩
  have hedge := Rect.edge_of_touches (h.apart s hs v hv hnev) ⟨e, he, d, hdv, hnext⟩
  exact ⟨v, hbeside, hbehind v.rect hdv hedge (hdeep v hbeside)⟩

section

variable (h : t.WellTiled) (hs : s ∈ t.segments) (hn : 0 < n)

include h hs hn

/-- A neighbour is tiled by its part of the band and its leftovers. -/
theorem WellTiled.tiles_beside (hv : v ∈ t.beside s side) :
    v.rect.Tiles ((s.rect.stretched n side).meet v.rect ::
      v.rect.remainder ((s.rect.stretched n side).meet v.rect)) := by
  obtain ⟨hv, hne, htouches⟩ := (h.mem_beside_iff hs).1 hv
  exact Rect.tiles_remainder (Rect.inhabited_meet_stretched (h.apart s hs v hv hne) htouches hn)
    (Rect.includes_meet ..)

/-- What is left over is what the neighbours have outside the band. -/
theorem WellTiled.exists_leftover_iff : (∃ r ∈ t.leftovers s side n, c ∈ r) ↔
    (∃ v ∈ t.beside s side, c ∈ v.rect) ∧ c ∉ s.rect.stretched n side := by
  simp only [leftovers, List.mem_flatMap]
  constructor
  · rintro ⟨r, ⟨v, hv, hr⟩, hc⟩
    have htiles := h.tiles_beside hs hn hv
    have hcv := (htiles.exact c).2 ⟨r, List.mem_cons_of_mem _ hr, hc⟩
    refine ⟨⟨v, hv, hcv⟩, fun hband => ?_⟩
    exact (List.pairwise_cons.1 htiles.apart).1 r hr c (Rect.mem_meet.2 ⟨hband, hcv⟩) hc
  · rintro ⟨⟨v, hv, hcv⟩, hout⟩
    obtain ⟨r, hr, hc⟩ := ((h.tiles_beside hs hn hv).exact c).1 hcv
    rcases List.mem_cons.1 hr with rfl | hr
    · exact absurd (Rect.mem_meet.1 hc).1 hout
    · exact ⟨r, ⟨v, hv, hr⟩, hc⟩

theorem WellTiled.pairwise_leftovers : (t.leftovers s side n).Pairwise Rect.Apart := by
  refine List.pairwise_flatMap.2 ⟨fun v hv => (List.pairwise_cons.1 (h.tiles_beside hs hn hv).apart).2, ?_⟩
  refine (h.ascending.filter _).imp_of_mem fun {v w} hv hw hlt r hr q hq c hcr hcq => ?_
  have hcv := ((h.tiles_beside hs hn hv).exact c).2 ⟨r, List.mem_cons_of_mem _ hr, hcr⟩
  have hcw := ((h.tiles_beside hs hn hw).exact c).2 ⟨q, List.mem_cons_of_mem _ hq, hcq⟩
  exact h.apart v (mem_beside.1 hv).1 w (mem_beside.1 hw).1 hlt.ne c hcv hcw

/-- A segment with the band takes the place of the segment and its neighbours. -/
theorem WellTiled.replaces_grown (hne : t.beside s side ≠ [])
    (hdeep : ∀ v ∈ t.beside s side, n ≤ v.rect.extent side) : t.Replaces ⟨s.id :: s.neighbours side,
      (s.rect.stretched n side :: t.leftovers s side n).map Piece.free⟩ := by
  refine ⟨?_, ?_, ?_, ?_, fun c => ?_⟩
  · refine List.nodup_cons.2 ⟨fun hid => ?_, (h.links_ascending s hs side).imp Nat.ne_of_lt⟩
    exact ((h.mem_neighbours_iff hs hs).1 hid).1 rfl
  · refine List.forall_mem_cons.2 ⟨⟨s, hs, rfl⟩, fun id hid => ?_⟩
    obtain ⟨v, hv, rfl, -⟩ := (h.linked s hs side id).1 hid
    exact ⟨v, hv, rfl⟩
  · simp only [List.forall_mem_map, List.forall_mem_cons, leftovers, List.mem_flatMap]
    refine ⟨Rect.inhabited_stretched (h.inhabited s hs), ?_⟩
    rintro r ⟨v, hv, hr⟩
    exact Rect.inhabited_of_remainder hr
  · rw [List.pairwise_map, List.pairwise_cons]
    refine ⟨fun r hr c hc hcr => ?_, h.pairwise_leftovers hs hn⟩
    exact ((h.exists_leftover_iff hs hn).1 ⟨r, hr, hcr⟩).2 hc
  · have hbeside : (∃ v ∈ t.segments, v.id ∈ s.id :: s.neighbours side ∧ c ∈ v.rect) ↔
        c ∈ s.rect ∨ ∃ v ∈ t.beside s side, c ∈ v.rect := by
      simp only [List.mem_cons, mem_beside]
      constructor
      · rintro ⟨v, hv, hid | hid, hc⟩
        · exact .inl (h.eq_of_id_eq hv hs hid ▸ hc)
        · exact .inr ⟨v, ⟨hv, hid⟩, hc⟩
      · rintro (hc | ⟨v, ⟨hv, hid⟩, hc⟩)
        · exact ⟨s, hs, .inl rfl, hc⟩
        · exact ⟨v, hv, .inr hid, hc⟩
    have hpieces : (∃ p ∈ (s.rect.stretched n side :: t.leftovers s side n).map Piece.free, c ∈ p.rect) ↔
        c ∈ s.rect.stretched n side ∨ ∃ r ∈ t.leftovers s side n, c ∈ r := by
      simp [Piece.free]
    rw [hbeside, hpieces, h.exists_leftover_iff hs hn]
    -- outside the band both sides speak of the neighbours; inside it the neighbours cover what is not the segment's
    by_cases hband : c ∈ s.rect.stretched n side
    · refine iff_of_true (.inl hband) (or_iff_not_imp_left.2 fun hout => ?_)
      exact h.mem_beside_of_stretched hs hne hdeep hband hout
    · have hout : c ∉ s.rect := fun hc => hband (Rect.mem_stretched hc)
      simp [hband, hout]

end

/-! ### Growing -/

structure Growth.On (g : Growth) (side : Side) : Prop where
  links : ∀ s, g.links s = s.neighbours side
  extent : ∀ r, r.Inhabited → g.extent r = .ok (r.extent side)
  upTo : ∀ s n, g.upTo s (g.edge s + n) = s.stretched n side
  band : ∀ s r n, s.Inhabited → r.Inhabited → r.edge side.opposite = s.edge side → n ≤ r.extent side →
    r.y1 ≤ Word.top ∧ r.x1 ≤ Word.top →
      g.rest s n r = .ok (r.remainder ((s.stretched n side).meet r)) ∧ g.edge s + n ≤ Word.top

theorem Growth.right_on : Growth.right.On .right := by
  refine ⟨fun s => rfl, fun r hr => Rect.width_eq_ok hr.2.le, fun s n => rfl, fun s r n hs hr hedge hle hword => ?_⟩
  simp only [Rect.Inhabited, Rect.edge, Rect.extent, Side.opposite] at hs hr hedge hle
  have hrect : (⟨max r.y0 s.y0, r.x0, min r.y1 s.y1, r.x0 + n⟩ : Rect) = (s.stretched n .right).meet r := by
    simp only [Rect.stretched, Rect.meet, Rect.mk.injEq]
    omega
  refine ⟨bind_eq_ok_iff.2 ⟨_, Word.add_eq_ok_iff.2 ⟨by omega, rfl⟩, by rw [hrect]; rfl⟩, ?_⟩
  show s.x1 + n ≤ _
  omega

theorem Growth.down_on : Growth.down.On .below := by
  refine ⟨fun s => rfl, fun r hr => Rect.height_eq_ok hr.1.le, fun s n => rfl, fun s r n hs hr hedge hle hword => ?_⟩
  simp only [Rect.Inhabited, Rect.edge, Rect.extent, Side.opposite] at hs hr hedge hle
  have hrect : (⟨r.y0, max r.x0 s.x0, r.y0 + n, min r.x1 s.x1⟩ : Rect) = (s.stretched n .below).meet r := by
    simp only [Rect.stretched, Rect.meet, Rect.mk.injEq]
    omega
  refine ⟨bind_eq_ok_iff.2 ⟨_, Word.add_eq_ok_iff.2 ⟨by omega, rfl⟩, by rw [hrect]; rfl⟩, ?_⟩
  show s.y1 + n ≤ _
  omega

structure CanGrow (t : Tiling) (side : Side) (s : Segment) : Prop where
  mem : s ∈ t.segments
  free : s.isFree = true
  beside : t.beside s side ≠ []
  besideFree : ∀ v ∈ t.beside s side, v.isFree = true

def LeastExtent (t : Tiling) (side : Side) (s : Segment) (n : Nat) : Prop :=
  (∃ v ∈ t.beside s side, v.rect.extent side = n) ∧ ∀ v ∈ t.beside s side, n ≤ v.rect.extent side

section

variable {g : Growth} (hg : g.On side) (h : t.WordTiled)

include hg h

theorem Growth.run_of_not_canGrow {id : Nat} (hnot : ¬∃ s, s.id = id ∧ t.CanGrow side s) :
    g.run t id = .ok none := by
  unfold Growth.run
  cases hsegment : t.segment? id with
  | none => rfl
  | some s =>
      obtain ⟨hs, rfl⟩ := (segment?_eq_some_iff h.ascending).1 hsegment
      dsimp only
      by_cases hfree : s.isFree = true
      · rw [hfree, hg.links, h.freeRects?_neighbours hs]
        by_cases hall : ∀ v ∈ t.beside s side, v.isFree = true
        · have hnil : t.beside s side = [] := by
            by_contra hne
            exact hnot ⟨s, rfl, hs, hfree, hne, hall⟩
          rw [if_pos hall, hnil]
          rfl
        · rw [if_neg hall]
          rfl
      · rw [if_pos (by simpa using hfree)]
        rfl

/-- A segment that can grow is joined with the band that its neighbours all offer. -/
theorem Growth.run_of_canGrow (hgrow : t.CanGrow side s) : ∃ n, t.LeastExtent side s n ∧
    g.run t s.id = t.mergeInto (s.id :: s.neighbours side) (s.rect.stretched n side) (t.leftovers s side n) := by
  have hs := hgrow.mem
  obtain ⟨n, hleast⟩ := exists_min? (l := (t.beside s side).map fun v => v.rect.extent side)
    (by simpa using hgrow.beside)
  obtain ⟨hmem, hle⟩ := List.min?_eq_some_iff.1 hleast
  rw [List.forall_mem_map] at hle
  -- every neighbour begins where the segment ends and lies on the grid, so no sum leaves the word
  have hband (v) (hv : v ∈ t.beside s side) :
      g.rest s.rect n v.rect = .ok (v.rect.remainder ((s.rect.stretched n side).meet v.rect)) ∧
        g.edge s.rect + n ≤ Word.top := by
    obtain ⟨hv', hne, htouches⟩ := (h.mem_beside_iff hs).1 hv
    have hbounds := h.bounds hv'
    exact hg.band s.rect v.rect n (h.inhabited s hs) (h.inhabited v hv')
      (Rect.edge_of_touches (h.apart s hs v hv' hne) htouches) (hle v hv)
      ⟨hbounds.1.trans h.height_le, hbounds.2.trans h.width_le⟩
  have hextents : ((t.beside s side).map Segment.rect).mapM g.extent =
      pure ((t.beside s side).map fun v => v.rect.extent side) :=
    mapM_map_eq_ok fun v hv => hg.extent v.rect (h.inhabited v (mem_beside.1 hv).1)
  have hrests : ((t.beside s side).map Segment.rect).mapM (g.rest s.rect n) =
      pure ((t.beside s side).map fun v => v.rect.remainder ((s.rect.stretched n side).meet v.rect)) :=
    mapM_map_eq_ok fun v hv => (hband v hv).1
  have hedge : Word.add (g.edge s.rect) n = pure (g.edge s.rect + n) := by
    obtain ⟨v, hv⟩ := List.exists_mem_of_ne_nil _ hgrow.beside
    exact Word.add_eq_ok_iff.2 ⟨(hband v hv).2, rfl⟩
  have hrects := (h.freeRects?_neighbours hs side).trans (if_pos hgrow.besideFree)
  refine ⟨n, ⟨List.mem_map.1 hmem, hle⟩, ?_⟩
  unfold Growth.run
  simp only [(segment?_eq_some_iff h.ascending).2 ⟨hs, rfl⟩, hgrow.free, Bool.not_true, Bool.false_eq_true, if_false,
    hg.links, hrects, hextents, pure_bind, hleast, hrests, hedge, hg.upTo, leftovers, List.flatMap_def]

end

/-! ### What growing makes of a tiling -/

/-- A tiling in which segment `s` has grown by `n` on a side: it has number `m` now, what its neighbours had outside
the band is in new free segments, and every other segment is as it was. -/
structure Grown (t : Tiling) (side : Side) (s : Segment) (n m : Nat) (t' : Tiling) : Prop where
  grown : ∃ g ∈ t'.segments, g.id = m ∧ g.isFree = true ∧ g.rect = s.rect.stretched n side
  gone : ∀ w ∈ t'.segments, w.id ≠ s.id ∧ w.id ∉ s.neighbours side
  kept : ∀ v ∈ t.segments, v.id ≠ s.id → v.id ∉ s.neighbours side → ∃ w ∈ t'.segments, v.Alike w
  origin : ∀ w ∈ t'.segments, (∃ v ∈ t.segments, v.Alike w) ∨ t.nextId ≤ w.id ∧ w.isFree = true
  leftover : ∀ c, (∃ w ∈ t'.segments, t.nextId ≤ w.id ∧ w.id ≠ m ∧ c ∈ w.rect) ↔
    (∃ v ∈ t.beside s side, c ∈ v.rect) ∧ c ∉ s.rect.stretched n side

/-- The cells of the segments that an edit adds after the first. -/
theorem WellTiled.exists_later_iff (h : t.WellTiled) {removed : List Nat} {first : Piece} {rest : List Piece}
    {k : Nat} :
    (∃ w ∈ (t.replace ⟨removed, first :: rest⟩ k).segments, t.nextId ≤ w.id ∧ w.id ≠ t.nextId ∧ c ∈ w.rect) ↔
      ∃ p ∈ rest, c ∈ p.rect := by
  rw [exists_mem_replace (p := fun id rect => t.nextId ≤ id ∧ id ≠ t.nextId ∧ c ∈ rect)]
  constructor
  · rintro (⟨u, hu, -, hle, -⟩ | ⟨u, hu, -, hne, hc⟩)
    · exact absurd (h.lt_nextId u hu) (Nat.not_lt.2 hle)
    · rcases List.mem_cons.1 hu with rfl | hu
      · exact absurd rfl hne
      · obtain ⟨-, -, p, hp, heq⟩ := mem_fresh hu
        exact ⟨p, hp, by rwa [heq] at hc⟩
  · rintro ⟨p, hp, hc⟩
    obtain ⟨m, hm⟩ := exists_mem_fresh (t.nextId + 1) hp
    have hle : t.nextId + 1 ≤ m := (mem_fresh hm).1
    exact .inr ⟨_, List.mem_cons_of_mem _ hm, Nat.le_of_succ_le hle, Nat.ne_of_gt hle, hc⟩

theorem WellTiled.grown_replace (h : t.WellTiled) (hs : s ∈ t.segments) (hn : 0 < n) (k : Nat) :
    t.Grown side s n t.nextId (t.replace ⟨s.id :: s.neighbours side,
      (s.rect.stretched n side :: t.leftovers s side n).map Piece.free⟩ k) := by
  have hremoved (id : Nat) (hid : id ∈ s.id :: s.neighbours side) : id < t.nextId := by
    rcases List.mem_cons.1 hid with rfl | hid
    · exact h.lt_nextId s hs
    · obtain ⟨v, hv, rfl, -⟩ := (h.linked s hs side id).1 hid
      exact h.lt_nextId v hv
  refine ⟨?_, fun w hw => ?_, fun v hv hne hout => ?_, fun w hw => ?_, fun c => ?_⟩
  · exact ⟨_, mem_replace.2 (.inr ⟨_, List.mem_cons_self, rfl⟩), rfl, rfl, rfl⟩
  · have hkept : w.id ∉ s.id :: s.neighbours side := by
      rcases mem_replace_cases hw with ⟨v, -, hkept, halike⟩ | ⟨p, -, hle, -⟩
      · exact halike.id ▸ hkept
      · exact fun hid => absurd (hremoved w.id hid) (Nat.not_lt.2 hle)
    exact ⟨fun hid => hkept (hid ▸ List.mem_cons_self), fun hid => hkept (List.mem_cons_of_mem _ hid)⟩
  · have hkept : v.id ∉ s.id :: s.neighbours side := by simp [hne, hout]
    exact ⟨_, mem_replace.2 (.inl ⟨v, hv, hkept, rfl⟩), alike_relinked ..⟩
  · rcases mem_replace_cases hw with ⟨v, hv, -, halike⟩ | ⟨p, hp, hle, -, hfree⟩
    · exact .inl ⟨v, hv, halike⟩
    · obtain ⟨r, -, rfl⟩ := List.mem_map.1 hp
      exact .inr ⟨hle, hfree⟩
  · rw [List.map_cons, h.exists_later_iff, ← h.exists_leftover_iff hs hn]
    simp [Piece.free]

/-- What comes of growing the segment with a number on a side: it grows by the least extent of its neighbours exactly
if it can, unless the segment numbers run out. -/
structure GrowSettled (t : Tiling) (side : Side) (id : Nat) (result : Checked (Option (Nat × Tiling))) : Prop where
  refused : result = .ok none ↔ ¬∃ s, s.id = id ∧ t.CanGrow side s
  grown : ∀ m t', result = .ok (some (m, t')) →
    ∃ s n, s.id = id ∧ t.CanGrow side s ∧ t.LeastExtent side s n ∧ t.Grown side s n m t'
  faulted : ∀ f, result = .error f → f = .idsExhausted ∧
    ∃ s, s.id = id ∧ t.CanGrow side s ∧ Word.top < t.nextId + (4 * (s.neighbours side).length + 1)

theorem WellTiled.length_leftovers_le (h : t.WellTiled) (hs : s ∈ t.segments) (side : Side) (n : Nat) :
    (t.leftovers s side n).length ≤ 4 * (s.neighbours side).length := by
  rw [← h.map_id_beside hs side, List.length_map, leftovers, List.length_flatMap]
  have hle := List.sum_le_card_nsmul
    ((t.beside s side).map fun v => (v.rect.remainder ((s.rect.stretched n side).meet v.rect)).length) 4
    (List.forall_mem_map.2 fun v _ => length_remainder_le ..)
  simpa [Nat.mul_comm] using hle

theorem Growth.growSettled {g : Growth} (hg : g.On side) (h : t.WordTiled) (id : Nat) :
    t.GrowSettled side id (g.run t id) := by
  by_cases hcan : ∃ s, s.id = id ∧ t.CanGrow side s
  · obtain ⟨s, rfl, hgrow⟩ := hcan
    have hs := hgrow.mem
    obtain ⟨n, hleast, hrun⟩ := Growth.run_of_canGrow hg h hgrow
    have hn : 0 < n := by
      obtain ⟨v, hv, rfl⟩ := hleast.1
      exact Rect.extent_pos (h.inhabited v (mem_beside.1 hv).1)
    have he := h.replaces_grown hs hn hgrow.beside hleast.2
    rw [hrun, h.mergeInto_eq he]
    by_cases hids : t.nextId + ((t.leftovers s side n).length + 1) ≤ Word.top
    · rw [if_pos hids]
      refine ⟨iff_of_false nofun fun hnot => hnot ⟨s, rfl, hgrow⟩, fun m t' heq => ?_, nofun⟩
      cases heq
      exact ⟨s, n, rfl, hgrow, hleast, h.grown_replace hs hn _⟩
    · rw [if_neg hids]
      refine ⟨iff_of_false nofun fun hnot => hnot ⟨s, rfl, hgrow⟩, nofun, fun f heq => ?_⟩
      cases heq
      have hfew := h.length_leftovers_le hs side n
      exact ⟨rfl, s, rfl, hgrow, by omega⟩
  · rw [Growth.run_of_not_canGrow hg h hcan]
    exact ⟨iff_of_true rfl hcan, nofun, nofun⟩

theorem WellTiled.failsOnly_growDown (h : t.WellTiled) {id : Nat} {B : Prop} (hB : B → t.InWord) :
    FailsOnly (Fault.Allowed B) (t.growDown id) := by
  intro f hf hb
  rcases h.segments_eq_nil_or_wordTiled (hB hb) with hnil | hword
  · have hresult : t.growDown id = .ok none := by
      rw [Tiling.growDown, Growth.run, segment?, hnil]
      rfl
    rw [hresult] at hf
    cases hf
  · exact ((Growth.growSettled Growth.down_on hword id).faulted f hf).1

theorem WellTiled.failsOnly_growFully (h : t.WellTiled) {n id : Nat} {B : Prop} (hB : B → t.InWord) :
    FailsOnly (Fault.Allowed B) (Tiling.growFully n id t) := by
  induction n generalizing t id with
  | zero => exact .pure _
  | succ n ih =>
      rw [Tiling.growFully]
      refine (h.failsOnly_growDown hB).bind fun found hfound => ?_
      cases found with
      | none => exact .pure _
      | some grown =>
          have hregrouped : Regrouped t grown.2 := .single (h.growDown hfound)
          exact ih (h.changes hregrouped.changes) fun hb => (hB hb).changes hregrouped.changes

theorem WellTiled.failsOnly_growAll (h : t.WellTiled) {B : Prop} (hB : B → t.InWord) :
    FailsOnly (Fault.Allowed B) t.growAll := by
  refine (FailsOnly.foldlM (fun u => u.WellTiled ∧ (B → u.InWord)) ⟨h, hB⟩ ?_ ?_).bind fun u hu => ?_
  · exact fun u s _ hu => hu.1.failsOnly_growFully hu.2
  · intro u s _ u' hu hgrow
    have hchanges := (hu.1.growFully hgrow).changes
    exact ⟨hu.1.changes hchanges, fun hb => (hu.2 hb).changes hchanges⟩
  · have hchanges := (h.growEach hu).changes
    exact ((h.changes hchanges).failsOnly_mergeAligned (fun _ => rfl) joinsOn_besides
      fun hb => (hB hb).changes hchanges).bind fun _ _ => .pure _

/-- On every tiling that operations lead to, a segment grows to the right or downwards by the least extent of its
neighbours there exactly if it is free and has neighbours there that are all free. -/
theorem grows_over_free_neighbours {height width : Nat} {ops : List Operation} {t : Tiling}
    (hheight : height ≤ Word.top) (hwidth : width ≤ Word.top)
    (hreach : (ofSize height width).performAll ops = .ok t) (id : Nat) :
    t.GrowSettled .right id (t.growRight id) ∧ t.GrowSettled .below id (t.growDown id) := by
  have h := wordTiled_of_performAll hheight hwidth hreach
  rw [growRight, growDown]
  exact ⟨Growth.growSettled Growth.right_on h id, Growth.growSettled Growth.down_on h id⟩

/-- In the grid with a corner cut off, the last cell of the upper row grows over half of what lies below it, and the
rest of the row cannot grow over an allocated cell. -/
theorem corner_grown_down : (ofSize 2 3).performAll Corner.ops = .ok Corner.tiling ∧
    (∃ t', Corner.tiling.growDown 3 = .ok (some (6, t')) ∧
      ∃ s n, s.id = 3 ∧ Corner.tiling.LeastExtent .below s n ∧ Corner.tiling.Grown .below s n 6 t') ∧
    ¬∃ s, s.id = 1 ∧ Corner.tiling.CanGrow .below s := by
  have hreach : (ofSize 2 3).performAll Corner.ops = .ok Corner.tiling := by decide +kernel
  have hsettled (id : Nat) := (grows_over_free_neighbours (by decide) (by decide) hreach id).2
  have hgrown : Corner.tiling.growDown 3 = .ok (some (6, _)) := rfl
  obtain ⟨s, n, hid, -, hleast, hresult⟩ := (hsettled 3).grown _ _ hgrown
  exact ⟨hreach, ⟨_, hgrown, s, n, hid, hleast, hresult⟩, (hsettled 1).refused.1 rfl⟩

end Tiling

end SurfaceFabric
