import SurfaceFabric.Proofs.Tiling.Safety

/-!
Which edits are accepted. Pieces tile a region exactly if none is empty, every cell of the region lies in one of
them and in no second, and none has a cell outside. An edit whose areas can be computed is refused if its pieces
do not tile what it removes, and made if they do, unless the segment numbers run out. Replacing a single segment
is refused for its own reasons before the edit is tried, and the edit is then not refused any more.
-/

namespace SurfaceFabric

variable {t : Tiling} {e : Edit}

/-! ### Exact tilings -/

def Rect.Ordered (r : Rect) : Prop := r.y0 ≤ r.y1 ∧ r.x0 ≤ r.x1

instance (r : Rect) : Decidable r.Ordered := inferInstanceAs (Decidable (_ ∧ _))

theorem Rect.inhabited_iff {r : Rect} : r.Inhabited ↔ ∃ c, c ∈ r := by
  rw [← isEmpty_eq_false_iff, ← Bool.not_eq_true, isEmpty_iff]
  push Not
  rfl

/-- No cell lies in two of the rectangles. -/
theorem Rect.pairwise_apart_iff {rects : List Rect} :
    rects.Pairwise Rect.Apart ↔ ∀ c : Cell, rects.countP (fun r => c ∈ r) ≤ 1 := by
  induction rects with
  | nil => simp
  | cons r rest ih =>
      rw [List.pairwise_cons, ih]
      simp only [List.countP_cons, decide_eq_true_eq]
      constructor
      · rintro ⟨hfirst, hrest⟩ c
        by_cases hc : c ∈ r
        · have hnone : rest.countP (fun s => c ∈ s) = 0 :=
            List.countP_eq_zero.2 fun s hs => by simpa using hfirst s hs c hc
          rw [hnone, if_pos hc]
        · rw [if_neg hc]
          exact hrest c
      · intro hcount
        refine ⟨fun s hs c hc hcs => ?_, fun c => (Nat.le_add_right _ _).trans (hcount c)⟩
        have hpos : 0 < rest.countP (fun s => c ∈ s) :=
          List.countP_pos_iff.2 ⟨s, hs, by simpa using hcs⟩
        have hle := hcount c
        rw [if_pos hc] at hle
        omega

namespace Rect

theorem Tiles.countP_mem {r : Rect} {pieces : List Rect} (h : r.Tiles pieces) (c : Cell) :
    pieces.countP (fun p => c ∈ p) = if c ∈ r then 1 else 0 := by
  have hle := pairwise_apart_iff.1 h.apart c
  have hpos : 0 < pieces.countP (fun p => c ∈ p) ↔ c ∈ r := by
    rw [List.countP_pos_iff, h.exact]
    simp only [decide_eq_true_eq]
  split
  · next hc => exact Nat.le_antisymm hle (hpos.2 hc)
  · next hc => exact Nat.eq_zero_of_not_pos fun hmem => hc (hpos.1 hmem)

def edge (r : Rect) : Side → Nat
  | .above => r.y0
  | .below => r.y1
  | .left => r.x0
  | .right => r.x1

/-- There is a piece of the remainder for each edge that is not touched. -/
theorem length_remainder {r inner : Rect} (hinner : inner.Inhabited) (h : r.includes inner = true) :
    (r.remainder inner).length = Side.all.countP fun side => inner.edge side ≠ r.edge side := by
  obtain ⟨hy, hx⟩ := hinner
  simp only [includes, Bool.and_eq_true, decide_eq_true_eq] at h
  rw [remainder, ← List.countP_eq_length_filter]
  simp only [Side.all, List.countP_cons, List.countP_nil, isEmpty, edge, Bool.not_eq_true', Bool.or_eq_false_iff,
    decide_eq_false_iff_not]
  iterate 4 refine congrArg₂ (· + ·) ?_ (if_congr (Iff.trans (by omega) decide_eq_true_iff.symm) rfl rfl)
  rfl

/-- A box and what remains around it tile the rectangle it is cut from. -/
theorem remainder_completes_tiling {outer inner : Rect} (hinner : inner.Inhabited)
    (hinside : ∀ c ∈ inner, c ∈ outer) :
    (∀ p ∈ inner :: outer.remainder inner, p.Inhabited) ∧
      (inner :: outer.remainder inner).Pairwise Apart ∧
      (∀ c, (inner :: outer.remainder inner).countP (fun p => c ∈ p) = if c ∈ outer then 1 else 0) ∧
      (outer.remainder inner).length = Side.all.countP fun side => inner.edge side ≠ outer.edge side := by
  have hincludes := (includes_iff hinner).2 hinside
  have htiles := tiles_remainder hinner hincludes
  refine ⟨fun p hp => ?_, htiles.apart, htiles.countP_mem, length_remainder hinner hincludes⟩
  rcases List.mem_cons.1 hp with rfl | hp
  · exact hinner
  · exact inhabited_of_remainder hp

/-- A box in a corner leaves two bands. -/
theorem corner_cut_tiles : (⟨0, 0, 2, 3⟩ : Rect).Inhabited ∧
    ((⟨0, 0, 2, 3⟩ : Rect) :: (⟨0, 0, 5, 6⟩ : Rect).remainder ⟨0, 0, 2, 3⟩).Pairwise Apart ∧
      ((⟨0, 0, 5, 6⟩ : Rect).remainder ⟨0, 0, 2, 3⟩).length = 2 := by
  have hinner : (⟨0, 0, 2, 3⟩ : Rect).Inhabited := isEmpty_eq_false_iff.1 rfl
  have hinside : ∀ c ∈ (⟨0, 0, 2, 3⟩ : Rect), c ∈ (⟨0, 0, 5, 6⟩ : Rect) := (includes_iff hinner).1 rfl
  obtain ⟨-, hapart, -, hlength⟩ := remainder_completes_tiling hinner hinside
  exact ⟨hinner, hapart, hlength⟩

end Rect

/-- Pieces that share out a region among them: none is empty, every cell of the region lies in exactly one, and
none has a cell that is not of the region. -/
structure TilesExactly (pieces : List Piece) (region : Cell → Prop) : Prop where
  nonempty : ∀ p ∈ pieces, ∃ c, c ∈ p.rect
  once : ∀ c, region c → pieces.countP (fun p => c ∈ p.rect) = 1
  inside : ∀ p ∈ pieces, ∀ c ∈ p.rect, region c

theorem tilesExactly_iff {pieces : List Piece} {region : Cell → Prop} : TilesExactly pieces region ↔
    (∀ p ∈ pieces, p.rect.Inhabited) ∧ (pieces.Pairwise fun p q => p.rect.Apart q.rect) ∧
      ∀ c, (∃ p ∈ pieces, c ∈ p.rect) ↔ region c := by
  have hapart : (pieces.Pairwise fun p q => p.rect.Apart q.rect) ↔
      ∀ c : Cell, pieces.countP (fun p => c ∈ p.rect) ≤ 1 := by
    rw [← List.pairwise_map (R := Rect.Apart), Rect.pairwise_apart_iff]
    simp only [List.countP_map, Function.comp_def]
  have hpos (c : Cell) : 0 < pieces.countP (fun p => c ∈ p.rect) ↔ ∃ p ∈ pieces, c ∈ p.rect := by
    simp only [List.countP_pos_iff, decide_eq_true_eq]
  rw [hapart]
  constructor
  · intro h
    refine ⟨fun p hp => Rect.inhabited_iff.2 (h.nonempty p hp), fun c => ?_, fun c => ⟨?_, fun hc => ?_⟩⟩
    · by_contra hmore
      obtain ⟨p, hp, hc⟩ := (hpos c).1 (by omega)
      exact hmore (h.once c (h.inside p hp c hc)).le
    · rintro ⟨p, hp, hc⟩
      exact h.inside p hp c hc
    · exact (hpos c).1 (by rw [h.once c hc]; exact Nat.one_pos)
  · rintro ⟨hinhabited, honce, hregion⟩
    refine ⟨fun p hp => Rect.inhabited_iff.1 (hinhabited p hp), fun c hc => ?_, fun p hp c hc => ?_⟩
    · exact Nat.le_antisymm (honce c) ((hpos c).2 ((hregion c).2 hc))
    · exact (hregion c).1 ⟨p, hp, hc⟩

/-- Separate rectangles inside another with as many cells as it has leave none out. -/
theorem Rect.tiles_of_sum {r : Rect} {pieces : List Rect} (hapart : pieces.Pairwise Rect.Apart)
    (hinside : ∀ p ∈ pieces, ∀ c ∈ p, c ∈ r) (hsum : (pieces.map Rect.cellCount).sum = r.cellCount) :
    r.Tiles pieces := by
  have hunion : Rect.union pieces = r.cover := by
    refine Finset.eq_of_subset_of_card_le (fun p hp => ?_) ?_
    · obtain ⟨s, hs, hmem⟩ := Rect.mem_union.1 hp
      exact Rect.mem_cover.2 (hinside s hs _ hmem)
    · rw [Rect.card_union hapart, hsum, Rect.card_cover]
  refine ⟨hapart, fun c => ?_⟩
  have hcell : (c.y, c.x) ∈ Rect.union pieces ↔ (c.y, c.x) ∈ r.cover := by rw [hunion]
  rw [Rect.mem_union, Rect.mem_cover] at hcell
  exact hcell.symm

theorem tilesExactly_rect_iff {pieces : List Piece} {r : Rect} : TilesExactly pieces (· ∈ r) ↔
    (∀ p ∈ pieces, p.rect.Inhabited) ∧ r.Tiles (pieces.map Piece.rect) := by
  rw [tilesExactly_iff]
  refine and_congr_right fun _ => ?_
  constructor
  · rintro ⟨hapart, hregion⟩
    refine ⟨List.pairwise_map.2 hapart, fun c => ?_⟩
    simp only [List.mem_map, exists_exists_and_eq_and, hregion]
  · intro h
    refine ⟨List.pairwise_map.1 h.apart, fun c => ?_⟩
    simp only [h.exact c, List.mem_map, exists_exists_and_eq_and]

namespace Tiling

/-- An edit that names present segments, each once, and whose pieces share out their cells. -/
structure ExactEdit (t : Tiling) (e : Edit) : Prop where
  nodup : e.removed.Nodup
  present : ∀ id ∈ e.removed, ∃ s ∈ t.segments, s.id = id
  tiled : TilesExactly e.added fun c => ∃ s ∈ t.segments, s.id ∈ e.removed ∧ c ∈ s.rect

theorem exactEdit_iff : t.ExactEdit e ↔ t.Replaces e := by
  constructor
  · rintro ⟨hnodup, hpresent, htiled⟩
    obtain ⟨hinhabited, hapart, hexact⟩ := tilesExactly_iff.1 htiled
    exact ⟨hnodup, hpresent, hinhabited, hapart, hexact⟩
  · rintro ⟨hnodup, hpresent, hinhabited, hapart, hexact⟩
    exact ⟨hnodup, hpresent, tilesExactly_iff.2 ⟨hinhabited, hapart, hexact⟩⟩

end Tiling

/-! ### Checks that do not fault -/

def Stop.IsRefusal {ε : Type} : Stop ε → Prop
  | .fault _ => False
  | .refused _ => True

namespace FailsOnly

variable {ε α : Type}

theorem check {p : Prop} [Decidable p] {e : ε} {k : Unit → Outcome ε α}
    (hk : ¬p → FailsOnly Stop.IsRefusal (k ())) :
    FailsOnly Stop.IsRefusal (if p then Outcome.refuse e >>= k else k ()) :=
  .ite (fun _ => (FailsOnly.error trivial).bind fun _ ha => by cases ha) hk

theorem found {e : ε} {o : Option α} : FailsOnly Stop.IsRefusal (Outcome.ofOption e o) := by
  cases o with
  | none => exact .error trivial
  | some a => exact .ok a

/-- A computation that ends well fails in no way at all. -/
theorem lift_ok {x : Checked α} (h : ∃ a, x = .ok a) : FailsOnly Stop.IsRefusal (liftM x : Outcome ε α) := by
  obtain ⟨a, rfl⟩ := h
  exact .ok a

end FailsOnly

structure Measured (pieces : List Piece) : Prop where
  ordered : ∀ p ∈ pieces, p.rect.Ordered
  sum_le : ((pieces.map Piece.rect).map Rect.cellCount).sum ≤ Long.top

namespace Tiling

variable {pieces : List Piece}

theorem totalArea_eq_ok (h : Measured pieces) :
    totalArea (pieces.map Piece.rect) = .ok ((pieces.map Piece.rect).map Rect.cellCount).sum :=
  totalArea_eq_ok_iff.2 ⟨List.forall_mem_map.2 h.ordered, h.sum_le, rfl⟩

theorem exists_coveredArea {removed : List Rect} (hsum : (removed.map Rect.cellCount).sum ≤ Long.top) (r : Rect) :
    ∃ n, coveredArea removed r = .ok n := by
  have hshares : (removed.map fun s => (s.meet r).cellCount).sum ≤ (removed.map Rect.cellCount).sum :=
    List.sum_le_sum fun s _ => Rect.cellCount_le fun c hc => (Rect.mem_meet.1 hc).1
  refine ⟨_, totalArea_eq_ok_iff.2 ⟨fun m hm => ?_, ?_, rfl⟩⟩
  · obtain ⟨s, -, hmeet⟩ := List.mem_filterMap.1 hm
    obtain ⟨hy, hx⟩ := Rect.inhabited_of_intersection? hmeet
    exact ⟨hy.le, hx.le⟩
  · rw [sum_intersections]
    exact hshares.trans hsum

theorem refusesOnly_removedRects {seen ids : List Nat} :
    FailsOnly Stop.IsRefusal (t.removedRects seen ids) := by
  induction ids generalizing seen with
  | nil => exact .pure _
  | cons id rest ih =>
      rw [removedRects]
      exact .check fun _ => FailsOnly.found.bind fun s _ => ih.bind fun rects _ => .pure _

theorem refusesOnly_checkPieces {removed rects : List Rect} (hordered : ∀ r ∈ rects, r.Ordered)
    (hsum : (removed.map Rect.cellCount).sum ≤ Long.top) :
    FailsOnly Stop.IsRefusal (checkPieces removed rects) := by
  induction rects with
  | nil => exact .pure _
  | cons r rest ih =>
      obtain ⟨hr, hrest⟩ := List.forall_mem_cons.1 hordered
      rw [checkPieces]
      refine .check fun _ => (FailsOnly.lift_ok (exists_coveredArea hsum r)).bind fun _ _ => ?_
      refine (FailsOnly.lift_ok ⟨_, Rect.area_eq_ok_iff.2 ⟨hr, rfl⟩⟩).bind fun _ _ => ?_
      exact .check fun _ => ih hrest

section Accepts

variable (h : t.WellTiled) (hlong : t.height * t.width ≤ Long.top)

include h hlong

/-- An edit whose areas can be computed is checked without a fault. -/
theorem WellTiled.refusesOnly_checkEdit (he : Measured e.added) :
    FailsOnly Stop.IsRefusal (t.checkEdit e) := by
  refine refusesOnly_removedRects.bind fun rects hremoved => ?_
  obtain ⟨hnodup, -, removed, hids, hpresent, rfl⟩ := removedRects_eq_ok hremoved
  have hsum : ((removed.map Segment.rect).map Rect.cellCount).sum ≤ Long.top :=
    (h.sum_le (hids ▸ hnodup) hpresent).trans hlong
  have hordered : ∀ r ∈ removed.map Segment.rect, r.y0 ≤ r.y1 ∧ r.x0 ≤ r.x1 := by
    refine List.forall_mem_map.2 fun s hs => ?_
    obtain ⟨hy, hx⟩ := h.inhabited s (hpresent s hs)
    exact ⟨hy.le, hx.le⟩
  refine (FailsOnly.lift_ok ⟨_, totalArea_eq_ok_iff.2 ⟨hordered, hsum, rfl⟩⟩).bind fun _ _ => ?_
  refine (FailsOnly.lift_ok ⟨_, totalArea_eq_ok he⟩).bind fun _ _ => ?_
  exact .check fun _ => refusesOnly_checkPieces (List.forall_mem_map.2 he.ordered) hsum

/-- The check of an edit comes out one way or the other. -/
theorem WellTiled.checkEdit_cases (he : Measured e.added) :
    (t.Replaces e ∧ t.checkEdit e = .ok ()) ∨
      (¬t.Replaces e ∧ ∃ err, t.checkEdit e = .error (.refused err)) := by
  cases hcheck : t.checkEdit e with
  | ok u => exact .inl ⟨replaces_of_checkEdit h.ascending h.apart hcheck, rfl⟩
  | error stop =>
      cases stop with
      | fault f => exact (h.refusesOnly_checkEdit hlong he _ hcheck).elim
      | refused err =>
          refine .inr ⟨fun hexact => ?_, err, rfl⟩
          exact h.failsOnly_checkEdit (B := False) hexact.inhabited False.elim _ hcheck hexact

/-- The three ways in which an edit ends. -/
theorem WellTiled.commit_cases (he : Measured e.added) :
    (t.Replaces e ∧ t.nextId + e.added.length ≤ Word.top ∧ ∃ ids t', t.commit e = .ok (ids, t')) ∨
      (t.Replaces e ∧ Word.top < t.nextId + e.added.length ∧ t.commit e = .error (.fault .idsExhausted)) ∨
        (¬t.Replaces e ∧ ∃ err, t.commit e = .error (.refused err)) := by
  rcases h.checkEdit_cases hlong he with ⟨hexact, hcheck⟩ | ⟨hexact, err, hcheck⟩
  · by_cases hids : t.nextId + e.added.length ≤ Word.top
    · exact .inl ⟨hexact, hids, _, _, commit_eq_ok_iff.2 ⟨hcheck, hids, rfl, rfl⟩⟩
    · refine .inr (.inl ⟨hexact, Nat.lt_of_not_le hids, ?_⟩)
      rw [Tiling.commit, hcheck, nextIdAfter, if_neg hids]
      rfl
  · refine .inr (.inr ⟨hexact, err, ?_⟩)
    rw [Tiling.commit, hcheck]
    rfl

end Accepts

/-- What comes of an edit: it is made exactly if its pieces tile what it removes and there are numbers for them,
and refused exactly if they do not tile it. -/
structure CommitSettled (t : Tiling) (e : Edit) : Prop where
  made_iff : (∃ ids t', t.commit e = .ok (ids, t')) ↔
    t.ExactEdit e ∧ t.nextId + e.added.length ≤ Word.top
  refused_iff : (∃ err, t.commit e = .error (.refused err)) ↔ ¬t.ExactEdit e

theorem WellTiled.commitSettled (h : t.WellTiled) (hlong : t.height * t.width ≤ Long.top)
    (he : Measured e.added) : t.CommitSettled e := by
  rcases h.commit_cases hlong he with ⟨hexact, hids, hmade⟩ | ⟨hexact, hids, hfault⟩ | ⟨hexact, hrefused⟩
  · refine ⟨⟨fun _ => ⟨exactEdit_iff.2 hexact, hids⟩, fun _ => hmade⟩, ?_⟩
    obtain ⟨ids, t', hmade⟩ := hmade
    simp [hmade, exactEdit_iff.2 hexact]
  · constructor
    · simp [hfault, Nat.not_le.2 hids]
    · simp [hfault, exactEdit_iff.2 hexact]
  · rw [← exactEdit_iff] at hexact
    refine ⟨?_, ⟨fun _ => hexact, fun _ => hrefused⟩⟩
    obtain ⟨err, hrefused⟩ := hrefused
    simp [hrefused, hexact]

/-! ### Replacing one segment -/

/-- The test of pieces against the rectangle they are to replace. -/
theorem partition_test_iff {r : Rect} :
    (decide (((pieces.map Piece.rect).map Rect.cellCount).sum ≠ r.cellCount) ||
        !pairwiseApart (pieces.map Piece.rect) ||
          (pieces.map Piece.rect).any fun p => p.isEmpty || !r.includes p) = true ↔
      ¬TilesExactly pieces (· ∈ r) := by
  rw [← Bool.not_eq_false, not_iff_not, tilesExactly_rect_iff]
  simp only [Bool.or_eq_false_iff, decide_eq_false_iff_not, not_not, Bool.not_eq_false',
    pairwiseApart_eq_true_iff, List.any_eq_false, Bool.not_eq_true, Rect.isEmpty_eq_false_iff]
  constructor
  · rintro ⟨⟨hsum, hapart⟩, hinside⟩
    refine ⟨fun p hp => (hinside _ (List.mem_map_of_mem hp)).1, Rect.tiles_of_sum hapart (fun p hp => ?_) hsum⟩
    exact (Rect.includes_iff (hinside p hp).1).1 (hinside p hp).2
  · rintro ⟨hinhabited, htiles⟩
    refine ⟨⟨htiles.sum_cellCount, htiles.apart⟩, fun r hr => ?_⟩
    have hr' : r.Inhabited := by
      obtain ⟨p, hp, rfl⟩ := List.mem_map.1 hr
      exact hinhabited p hp
    exact ⟨hr', (Rect.includes_iff hr').2 fun c hc => htiles.inside hr hc⟩

theorem partition_of_absent (pieces : List Piece) {id : Nat} (habsent : ∀ s ∈ t.segments, s.id ≠ id) :
    t.partition id pieces = .error (.refused (.unknownSegment id)) := by
  have hnone : t.segment? id = none := List.find?_eq_none.2 fun s hs => by simpa using habsent s hs
  rw [Tiling.partition, segment, hnone]
  rfl

section Present

variable (h : t.WellTiled) {s : Segment} (hs : s ∈ t.segments)

include h hs

theorem WellTiled.partition_of_allocated (pieces : List Piece) (hallocated : s.allocated = true) :
    t.partition s.id pieces = .error (.refused (.allocated s.id)) := by
  rw [Tiling.partition, segment, (segment?_eq_some_iff h.ascending).2 ⟨hs, rfl⟩]
  show (if s.allocated = true then _ else _) = _
  rw [if_pos hallocated]
  rfl

/-- A segment that may be replaced is, if the pieces pass their test. -/
theorem WellTiled.partition_of_free (hfree : s.allocated = false) (hpieces : Measured pieces)
    [Decidable (TilesExactly pieces (· ∈ s.rect))] : t.partition s.id pieces =
      if TilesExactly pieces (· ∈ s.rect) then t.commit ⟨[s.id], pieces⟩
      else .error (.refused (.badPartition s.id)) := by
  obtain ⟨hy, hx⟩ := h.inhabited s hs
  rw [Tiling.partition, segment, (segment?_eq_some_iff h.ascending).2 ⟨hs, rfl⟩]
  show (if s.allocated = true then _ else _) = _
  rw [if_neg (by simp [hfree]), totalArea_eq_ok hpieces, Rect.area_eq_ok_iff.2 ⟨⟨hy.le, hx.le⟩, rfl⟩]
  show (if _ then _ else _) = _
  by_cases htiled : TilesExactly pieces (· ∈ s.rect)
  · rw [if_pos htiled, if_neg (by rw [partition_test_iff]; exact not_not.2 htiled)]
  · rw [if_neg htiled, if_pos (partition_test_iff.2 htiled)]
    rfl

/-- There is one segment of a number. -/
theorem WellTiled.exists_id_iff {P : Segment → Prop} :
    (∃ u ∈ t.segments, u.id = s.id ∧ P u) ↔ P s := by
  constructor
  · rintro ⟨u, hu, hid, hP⟩
    rwa [← h.eq_of_id_eq hu hs hid]
  · exact fun hP => ⟨s, hs, rfl, hP⟩

end Present

/-- What comes of replacing a segment: it is done exactly if the segment is present, not allocated and tiled by
the pieces, and there are numbers for them. Otherwise the refusal says which of these does not hold, in this
order. -/
structure PartitionSettled (t : Tiling) (id : Nat) (pieces : List Piece) : Prop where
  made_iff : (∃ ids t', t.partition id pieces = .ok (ids, t')) ↔
    ∃ s ∈ t.segments, s.id = id ∧ s.allocated = false ∧ TilesExactly pieces (· ∈ s.rect) ∧
      t.nextId + pieces.length ≤ Word.top
  unknown_iff : t.partition id pieces = .error (.refused (.unknownSegment id)) ↔
    ¬∃ s ∈ t.segments, s.id = id
  allocated_iff : t.partition id pieces = .error (.refused (.allocated id)) ↔
    ∃ s ∈ t.segments, s.id = id ∧ s.allocated = true
  badPartition_iff : t.partition id pieces = .error (.refused (.badPartition id)) ↔
    ∃ s ∈ t.segments, s.id = id ∧ s.allocated = false ∧ ¬TilesExactly pieces (· ∈ s.rect)
  refused : ∀ err, t.partition id pieces = .error (.refused err) →
    err = .unknownSegment id ∨ err = .allocated id ∨ err = .badPartition id

theorem WellTiled.partitionSettled (h : t.WellTiled) (hlong : t.height * t.width ≤ Long.top) (id : Nat)
    (hpieces : Measured pieces) : t.PartitionSettled id pieces := by
  classical
  by_cases hpresent : ∃ s ∈ t.segments, s.id = id
  · obtain ⟨s, hs, rfl⟩ := hpresent
    have hpresent : ∃ u ∈ t.segments, u.id = s.id := ⟨s, hs, rfl⟩
    cases hallocated : s.allocated with
    | true =>
        have hresult := h.partition_of_allocated hs pieces hallocated
        constructor <;> simp [hresult, h.exists_id_iff hs, hallocated, hpresent]
    | false =>
        have hresult := h.partition_of_free hs hallocated hpieces
        by_cases htiled : TilesExactly pieces (· ∈ s.rect)
        · obtain ⟨hinhabited, htiles⟩ := tilesExactly_rect_iff.1 htiled
          have hexact := h.replaces_single hs htiles hinhabited
          rw [if_pos htiled] at hresult
          rcases h.commit_cases hlong (e := ⟨[s.id], pieces⟩) hpieces with
            ⟨-, hids, ids, t', hmade⟩ | ⟨-, hids, hfault⟩ | ⟨hnot, -⟩
          · constructor <;> simp [hresult, hmade, h.exists_id_iff hs, hallocated, hpresent, htiled, hids]
          · constructor <;>
              simp [hresult, hfault, h.exists_id_iff hs, hallocated, hpresent, htiled, Nat.not_le.2 hids]
          · exact absurd hexact hnot
        · rw [if_neg htiled] at hresult
          constructor <;> simp [hresult, h.exists_id_iff hs, hallocated, hpresent, htiled]
  · have hresult := partition_of_absent pieces fun s hs hid => hpresent ⟨s, hs, hid⟩
    have hnone (P : Segment → Prop) : ¬∃ s ∈ t.segments, s.id = id ∧ P s :=
      fun ⟨s, hs, hid, _⟩ => hpresent ⟨s, hs, hid⟩
    constructor <;> simp only [hresult, hpresent, hnone] <;> simp

theorem Changes.size_eq {height width : Nat} (h : Changes (ofSize height width) t) :
    t.height = height ∧ t.width = width := by
  have hofSize : (ofSize height width).height = height ∧ (ofSize height width).width = width := by
    unfold ofSize
    split <;> exact ⟨rfl, rfl⟩
  exact ⟨h.grid_eq.1.trans hofSize.1, h.grid_eq.2.trans hofSize.2⟩

/-- On every tiling that operations lead to, edits and replacements are accepted exactly if their pieces tile what
they take the place of. The areas are those of ordered pieces with fewer than `2 ^ 64` cells, and an exact edit
can still find that there are no segment numbers left. -/
theorem exact_tilings_accepted {height width : Nat} {ops : List Operation} {t : Tiling}
    (hheight : height ≤ Word.top) (hwidth : width ≤ Word.top)
    (hreach : (ofSize height width).performAll ops = .ok t) :
    (∀ e, Measured e.added → t.CommitSettled e) ∧
      ∀ id pieces, Measured pieces → t.PartitionSettled id pieces := by
  have hchanges := changes_of_performAll hreach
  have hwell := (wellTiled_ofSize height width).changes hchanges
  have hlong : t.height * t.width ≤ Long.top := by
    rw [hchanges.size_eq.1, hchanges.size_eq.2]
    exact (Nat.mul_le_mul hheight hwidth).trans (by decide)
  exact ⟨fun e he => hwell.commitSettled hlong he, fun id pieces hp => hwell.partitionSettled hlong id hp⟩

/-! A grid cut into two rows, the second of them allocated. -/

namespace Rows

def ops : List Operation :=
  [.partition 0 [.free ⟨0, 0, 1, 3⟩, .free ⟨1, 0, 2, 3⟩], .setRole 2 .register true]

def tiling : Tiling :=
  { height := 2
    width := 3
    segments :=
      [{ id := 1, rect := ⟨0, 0, 1, 3⟩, allocated := false, role := .unassigned,
         above := [], below := [2], left := [], right := [] },
       { id := 2, rect := ⟨1, 0, 2, 3⟩, allocated := true, role := .register,
         above := [1], below := [], left := [], right := [] }]
    nextId := 3 }

def columns : Edit := ⟨[2, 1], [.taken .route ⟨0, 0, 2, 1⟩, .free ⟨0, 1, 2, 3⟩]⟩

/-- The same area, with a column twice and another not at all. -/
def overlapping : Edit := ⟨[1, 2], [.free ⟨0, 0, 2, 1⟩, .free ⟨0, 0, 2, 2⟩]⟩

/-- The first row and a piece without cells. -/
def hollow : List Piece := [.free ⟨0, 0, 1, 3⟩, .free ⟨0, 3, 1, 3⟩]

theorem performAll_ops : (ofSize 2 3).performAll ops = .ok tiling := by decide +kernel

theorem measured : Measured columns.added ∧ Measured overlapping.added ∧ Measured hollow :=
  ⟨⟨by decide, by decide⟩, ⟨by decide, by decide⟩, ⟨by decide, by decide⟩⟩

end Rows

theorem rows_settled : (ofSize 2 3).performAll Rows.ops = .ok Rows.tiling ∧
    Rows.tiling.ExactEdit Rows.columns ∧ ¬Rows.tiling.ExactEdit Rows.overlapping ∧
    (∃ s ∈ Rows.tiling.segments, s.id = 1 ∧ s.allocated = false ∧ ¬TilesExactly Rows.hollow (· ∈ s.rect)) ∧
    Rows.tiling.partition 2 Rows.hollow = .error (.refused (.allocated 2)) := by
  obtain ⟨hcommit, hpartition⟩ := exact_tilings_accepted (by decide) (by decide) Rows.performAll_ops
  obtain ⟨hcolumns, hoverlapping, hhollow⟩ := Rows.measured
  refine ⟨Rows.performAll_ops, ((hcommit _ hcolumns).made_iff.1 ⟨_, _, rfl⟩).1,
    (hcommit _ hoverlapping).refused_iff.1 ⟨_, rfl⟩, (hpartition 1 _ hhollow).badPartition_iff.1 rfl,
    (hpartition 2 _ hhollow).allocated_iff.2 ⟨_, List.mem_cons_of_mem _ List.mem_cons_self, rfl, rfl⟩⟩

end Tiling

end SurfaceFabric
