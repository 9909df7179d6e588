import SurfaceFabric.Proofs.Tiling.Edit
import SurfaceFabric.Tiling.Audit
import SurfaceFabric.Tiling.Operation

/-!
Well tiled grids: every cell lies in exactly one segment, and a segment lists on each side exactly the
segments that lie against it there. An edit keeps this although it looks at former neighbours only: what
touches a new piece touches a removed segment in the same cell.
-/

namespace SurfaceFabric

structure Tiling.WellTiled (t : Tiling) : Prop where
  ascending : t.segments.Pairwise fun s u => s.id < u.id
  lt_nextId : ∀ s ∈ t.segments, s.id < t.nextId
  inhabited : ∀ s ∈ t.segments, s.rect.Inhabited
  bounded : ∀ s ∈ t.segments, ∀ c ∈ s.rect, c ∈ t.grid
  covered : ∀ c ∈ t.grid, ∃ s ∈ t.segments, c ∈ s.rect
  apart : ∀ s ∈ t.segments, ∀ u ∈ t.segments, s.id ≠ u.id → s.rect.Apart u.rect
  linked : ∀ s ∈ t.segments, ∀ side n, n ∈ s.neighbours side ↔
    ∃ u ∈ t.segments, u.id = n ∧ s.id ≠ n ∧ s.rect.Touches u.rect side
  links_ascending : ∀ s ∈ t.segments, ∀ side, (s.neighbours side).Pairwise (· < ·)

namespace Tiling

variable {t t' : Tiling} {e : Edit}

theorem WellTiled.eq_of_id_eq (h : t.WellTiled) {s u : Segment} (hs : s ∈ t.segments)
    (hu : u ∈ t.segments) (heq : s.id = u.id) : s = u :=
  Segment.eq_of_id_eq h.ascending hs hu heq

theorem WellTiled.eq_of_mem (h : t.WellTiled) {s u : Segment} (hs : s ∈ t.segments)
    (hu : u ∈ t.segments) {c : Cell} (hcs : c ∈ s.rect) (hcu : c ∈ u.rect) : s = u := by
  by_contra hne
  exact h.apart s hs u hu (fun heq => hne (h.eq_of_id_eq hs hu heq)) c hcs hcu

theorem wellTiled_ofSize (height width : Nat) : (ofSize height width).WellTiled := by
  unfold ofSize
  split
  · next hpos =>
      constructor
      · simp
      · simp [Segment.isolated]
      · simp [Segment.isolated, Piece.free, Rect.Inhabited, hpos]
      · simp [Segment.isolated, Piece.free, grid]
      · simp [Segment.isolated, Piece.free, grid]
      · simp
      · intro s hs side n
        rw [List.mem_singleton.1 hs]
        constructor
        · cases side <;> simp [Segment.isolated, Segment.neighbours]
        · rintro ⟨u, hu, rfl, hne, -⟩
          rw [List.mem_singleton.1 hu] at hne
          exact absurd rfl hne
      · intro s hs side
        rw [List.mem_singleton.1 hs]
        cases side <;> simp [Segment.isolated, Segment.neighbours]
  · next hempty =>
      constructor <;> simp
      intro c hc
      rw [Rect.mem_iff] at hc
      simp only [grid] at hc
      omega

theorem mem_touchingIds {r : Rect} {side : Side} {others : List Segment} {n : Nat} :
    n ∈ touchingIds r side others ↔
      ∃ s ∈ others, s.id = n ∧ r.touchingSide? s.rect = some side := by
  simp only [touchingIds, List.mem_map, List.mem_filter, beq_iff_eq]
  constructor
  · rintro ⟨s, ⟨hs, hside⟩, rfl⟩
    exact ⟨s, hs, rfl, hside⟩
  · rintro ⟨s, hs, rfl, hside⟩
    exact ⟨s, ⟨hs, hside⟩, rfl⟩

theorem mem_fresh {start : Nat} {pieces : List Piece} {s : Segment} (h : s ∈ fresh start pieces) :
    start ≤ s.id ∧ s.id < start + pieces.length ∧ ∃ p ∈ pieces, s = .isolated s.id p := by
  induction pieces generalizing start with
  | nil => simp [fresh] at h
  | cons p rest ih =>
      rcases List.mem_cons.1 h with rfl | h
      · exact ⟨le_rfl, by simp [Segment.isolated], p, by simp, rfl⟩
      · obtain ⟨hle, hlt, q, hq, heq⟩ := ih h
        exact ⟨by omega, by rw [List.length_cons]; omega, q, by simp [hq], heq⟩

theorem map_rect_fresh (start : Nat) (pieces : List Piece) :
    (fresh start pieces).map Segment.rect = pieces.map Piece.rect := by
  induction pieces generalizing start with
  | nil => rfl
  | cons p rest ih => rw [fresh, List.map_cons, ih, List.map_cons, Segment.isolated]

theorem fresh_ascending (start : Nat) (pieces : List Piece) :
    (fresh start pieces).Pairwise fun s u => s.id < u.id := by
  induction pieces generalizing start with
  | nil => exact .nil
  | cons p rest ih =>
      refine .cons ?_ (ih _)
      intro u hu
      have := (mem_fresh hu).1
      simp only [Segment.isolated]
      omega

/-- A segment that stays in an edit, with its links renewed if it was linked to a removed one. -/
def relinked (t : Tiling) (e : Edit) (s : Segment) : Segment :=
  if s.id ∈ (t.rim e.removed).map Segment.id then
    s.mapLinks fun side links =>
      links.filter (· ∉ e.removed) ++ touchingIds s.rect side (fresh t.nextId e.added)
  else s

def linkedAnew (t : Tiling) (e : Edit) (s : Segment) : Segment :=
  s.mapLinks fun side _ => touchingIds s.rect side (t.rim e.removed ++ fresh t.nextId e.added)

theorem replace_segments (t : Tiling) (e : Edit) (n : Nat) : (t.replace e n).segments =
    (t.segments.filter fun s => s.id ∉ e.removed).map (t.relinked e) ++
      (fresh t.nextId e.added).map (t.linkedAnew e) := rfl

@[simp] theorem relinked_id (t : Tiling) (e : Edit) (s : Segment) : (t.relinked e s).id = s.id := by
  unfold relinked
  split <;> rfl

@[simp] theorem relinked_rect (t : Tiling) (e : Edit) (s : Segment) :
    (t.relinked e s).rect = s.rect := by
  unfold relinked
  split <;> rfl

@[simp] theorem linkedAnew_id (t : Tiling) (e : Edit) (s : Segment) :
    (t.linkedAnew e s).id = s.id := rfl

@[simp] theorem linkedAnew_rect (t : Tiling) (e : Edit) (s : Segment) :
    (t.linkedAnew e s).rect = s.rect := rfl

theorem mem_replace {n : Nat} {s : Segment} : s ∈ (t.replace e n).segments ↔
    (∃ u ∈ t.segments, u.id ∉ e.removed ∧ t.relinked e u = s) ∨
      ∃ u ∈ fresh t.nextId e.added, t.linkedAnew e u = s := by
  simp only [replace_segments, List.mem_append, List.mem_map, List.mem_filter, decide_eq_true_eq,
    and_assoc]

/-- What depends on numbers and rectangles only can be asked of the parts of an edit. -/
theorem exists_mem_replace {n : Nat} {p : Nat → Rect → Prop} :
    (∃ s ∈ (t.replace e n).segments, p s.id s.rect) ↔
      (∃ s ∈ t.segments, s.id ∉ e.removed ∧ p s.id s.rect) ∨
        ∃ s ∈ fresh t.nextId e.added, p s.id s.rect := by
  simp only [mem_replace, or_and_right, exists_or]
  refine or_congr ?_ ?_
  · constructor
    · rintro ⟨_, ⟨u, hu, hkept, rfl⟩, hp⟩
      exact ⟨u, hu, hkept, by simpa using hp⟩
    · rintro ⟨u, hu, hkept, hp⟩
      exact ⟨_, ⟨u, hu, hkept, rfl⟩, by simpa using hp⟩
  · constructor
    · rintro ⟨_, ⟨u, hu, rfl⟩, hp⟩
      exact ⟨u, hu, hp⟩
    · rintro ⟨u, hu, hp⟩
      exact ⟨_, ⟨u, hu, rfl⟩, hp⟩

theorem mem_rim {removed : List Nat} {s : Segment} : s ∈ t.rim removed ↔
    s ∈ t.segments ∧ s.id ∉ removed ∧
      ∃ u ∈ t.segments, u.id ∈ removed ∧ ∃ side, s.id ∈ u.neighbours side := by
  rw [rim, List.mem_filter, Bool.and_eq_true, decide_eq_true_iff, decide_eq_true_iff]
  simp [Segment.allNeighbours, and_assoc]

theorem Replaces.mem_removed (he : t.Replaces e) {s : Segment} (hs : s ∈ fresh t.nextId e.added) {c : Cell}
    (hc : c ∈ s.rect) : ∃ u ∈ t.segments, u.id ∈ e.removed ∧ c ∈ u.rect := by
  obtain ⟨-, -, p, hp, heq⟩ := mem_fresh hs
  rw [heq] at hc
  exact (he.exact c).1 ⟨p, hp, hc⟩

theorem Replaces.fresh_apart (he : t.Replaces e) {s u : Segment} (hs : s ∈ fresh t.nextId e.added)
    (hu : u ∈ fresh t.nextId e.added) (hne : s.id ≠ u.id) : s.rect.Apart u.rect := by
  have hpairwise : (fresh t.nextId e.added).Pairwise fun s u => s.rect.Apart u.rect := by
    rw [← List.pairwise_map (f := Segment.rect), map_rect_fresh, List.pairwise_map]
    exact he.apart
  have : Std.Symm fun s u : Segment => s.rect.Apart u.rect := ⟨fun _ _ h => h.symm⟩
  exact hpairwise.forall hs hu fun heq => hne (heq ▸ rfl)

theorem Replaces.fresh_inhabited (he : t.Replaces e) {s : Segment} (hs : s ∈ fresh t.nextId e.added) :
    s.rect.Inhabited := by
  obtain ⟨-, -, p, hp, heq⟩ := mem_fresh hs
  rw [heq]
  exact he.inhabited p hp

theorem WellTiled.links_ascending_replace (h : t.WellTiled) {n : Nat} {s : Segment}
    (hs : s ∈ (t.replace e n).segments) (side : Side) : (s.neighbours side).Pairwise (· < ·) := by
  have htouching {r : Rect} {others : List Segment}
      (hothers : others.Pairwise fun s u => s.id < u.id) :
      (touchingIds r side others).Pairwise (· < ·) :=
    List.pairwise_map.2 (hothers.sublist List.filter_sublist)
  have hbelow {u v : Segment} (hu : u ∈ t.segments) (hv : v ∈ fresh t.nextId e.added) :
      u.id < v.id := (h.lt_nextId u hu).trans_le (mem_fresh hv).1
  rcases mem_replace.1 hs with ⟨u, hu, hkept, rfl⟩ | ⟨u, hu, rfl⟩
  · unfold relinked
    split
    · rw [Segment.neighbours_mapLinks, List.pairwise_append]
      refine ⟨(h.links_ascending u hu side).sublist List.filter_sublist,
        htouching (fresh_ascending _ _), ?_⟩
      intro a ha b hb
      obtain ⟨v, hv, rfl, -⟩ := (h.linked u hu side a).1 (List.mem_of_mem_filter ha)
      obtain ⟨w, hw, rfl, -⟩ := mem_touchingIds.1 hb
      exact hbelow hv hw
    · exact h.links_ascending u hu side
  · rw [linkedAnew, Segment.neighbours_mapLinks]
    refine htouching (List.pairwise_append.2 ⟨h.ascending.sublist List.filter_sublist,
      fresh_ascending _ _, ?_⟩)
    intro v hv w hw
    exact hbelow (mem_rim.1 hv).1 hw

section

variable (h : t.WellTiled) (he : t.Replaces e)
include h he

theorem kept_apart_fresh {s u : Segment} (hs : s ∈ t.segments) (hkept : s.id ∉ e.removed)
    (hu : u ∈ fresh t.nextId e.added) : s.rect.Apart u.rect := by
  intro c hcs hcu
  obtain ⟨v, hv, hremoved, hcv⟩ := he.mem_removed hu hcu
  rw [h.eq_of_mem hs hv hcs hcv] at hkept
  exact hkept hremoved

/-- A segment that stays and touches a new one was linked to a removed one. -/
theorem mem_rim_of_touches {s u : Segment} (hs : s ∈ t.segments) (hkept : s.id ∉ e.removed)
    (hu : u ∈ fresh t.nextId e.added) {side : Side} (htouch : s.rect.Touches u.rect side) :
    s ∈ t.rim e.removed := by
  obtain ⟨c, hc, d, hd, hnext⟩ := htouch
  obtain ⟨v, hv, hremoved, hdv⟩ := he.mem_removed hu hd
  refine mem_rim.2 ⟨hs, hkept, v, hv, hremoved, side.opposite, ?_⟩
  rw [h.linked v hv]
  refine ⟨s, hs, rfl, ?_, d, hdv, c, hc, hnext.symm⟩
  intro heq
  exact hkept (heq ▸ hremoved)

theorem mem_neighbours_relinked {s : Segment} (hs : s ∈ t.segments) (hkept : s.id ∉ e.removed)
    {side : Side} {n : Nat} : n ∈ (t.relinked e s).neighbours side ↔
      (n ∈ s.neighbours side ∧ n ∉ e.removed) ∨
        ∃ u ∈ fresh t.nextId e.added, u.id = n ∧ s.rect.Touches u.rect side := by
  have htouching : n ∈ touchingIds s.rect side (fresh t.nextId e.added) ↔
      ∃ u ∈ fresh t.nextId e.added, u.id = n ∧ s.rect.Touches u.rect side := by
    rw [mem_touchingIds]
    refine exists_congr fun u => and_congr_right fun hu => and_congr_right fun _ => ?_
    exact Rect.touchingSide?_eq_some_iff (h.inhabited s hs) (he.fresh_inhabited hu)
      (kept_apart_fresh h he hs hkept hu)
  by_cases hrim : s ∈ t.rim e.removed
  · have hids : s.id ∈ (t.rim e.removed).map Segment.id := List.mem_map_of_mem hrim
    simp only [relinked, hids, if_true, Segment.neighbours_mapLinks, List.mem_append,
      List.mem_filter, decide_eq_true_eq, htouching]
  · have hids : s.id ∉ (t.rim e.removed).map Segment.id := by
      intro hin
      obtain ⟨u, hu, heq⟩ := List.mem_map.1 hin
      rw [h.eq_of_id_eq (mem_rim.1 hu).1 hs heq] at hu
      exact hrim hu
    simp only [relinked, hids, if_false]
    constructor
    · intro hn
      refine .inl ⟨hn, fun hremoved => hrim ?_⟩
      obtain ⟨u, hu, rfl, hne, htouch⟩ := (h.linked s hs side n).1 hn
      refine mem_rim.2 ⟨hs, hkept, u, hu, hremoved, side.opposite, ?_⟩
      exact (h.linked u hu _ _).2 ⟨s, hs, rfl, hne.symm, htouch.symm⟩
    · rintro (⟨hn, -⟩ | ⟨u, hu, rfl, htouch⟩)
      · exact hn
      · exact absurd (mem_rim_of_touches h he hs hkept hu htouch) hrim

theorem mem_neighbours_linkedAnew {s : Segment} (hs : s ∈ fresh t.nextId e.added)
    {side : Side} {n : Nat} : n ∈ (t.linkedAnew e s).neighbours side ↔
      (∃ u ∈ t.segments, u.id ∉ e.removed ∧ u.id = n ∧ s.rect.Touches u.rect side) ∨
        ∃ u ∈ fresh t.nextId e.added, u.id = n ∧ s.id ≠ n ∧ s.rect.Touches u.rect side := by
  rw [linkedAnew, Segment.neighbours_mapLinks, mem_touchingIds]
  simp only [List.mem_append, or_and_right, exists_or]
  refine or_congr ⟨?_, ?_⟩ ⟨?_, ?_⟩
  · rintro ⟨u, hu, rfl, hside⟩
    obtain ⟨hmem, hkept, -⟩ := mem_rim.1 hu
    refine ⟨u, hmem, hkept, rfl, ?_⟩
    exact (Rect.touchingSide?_eq_some_iff (he.fresh_inhabited hs) (h.inhabited u hmem)
      (kept_apart_fresh h he hmem hkept hs).symm).1 hside
  · rintro ⟨u, hu, hkept, rfl, htouch⟩
    have hrim := mem_rim_of_touches h he hu hkept hs htouch.symm
    refine ⟨u, hrim, rfl, ?_⟩
    exact (Rect.touchingSide?_eq_some_iff (he.fresh_inhabited hs) (h.inhabited u hu)
      (kept_apart_fresh h he hu hkept hs).symm).2 htouch
  · rintro ⟨u, hu, rfl, hside⟩
    have hne : s.id ≠ u.id := by
      intro heq
      rw [Segment.eq_of_id_eq (fresh_ascending _ _) hs hu heq,
        Rect.touchingSide?_self (he.fresh_inhabited hu)] at hside
      cases hside
    refine ⟨u, hu, rfl, hne, ?_⟩
    exact (Rect.touchingSide?_eq_some_iff (he.fresh_inhabited hs) (he.fresh_inhabited hu)
      (he.fresh_apart hs hu hne)).1 hside
  · rintro ⟨u, hu, rfl, hne, htouch⟩
    refine ⟨u, hu, rfl, ?_⟩
    exact (Rect.touchingSide?_eq_some_iff (he.fresh_inhabited hs) (he.fresh_inhabited hu)
      (he.fresh_apart hs hu hne)).2 htouch

theorem linked_replace {n : Nat} {s : Segment} (hs : s ∈ (t.replace e n).segments) (side : Side)
    (m : Nat) : m ∈ s.neighbours side ↔
      ∃ u ∈ (t.replace e n).segments, u.id = m ∧ s.id ≠ m ∧ s.rect.Touches u.rect side := by
  rw [exists_mem_replace (p := fun id r => id = m ∧ s.id ≠ m ∧ s.rect.Touches r side)]
  rcases mem_replace.1 hs with ⟨u, hu, hkept, rfl⟩ | ⟨u, hu, rfl⟩
  · rw [mem_neighbours_relinked h he hu hkept, h.linked u hu, relinked_id, relinked_rect]
    refine or_congr ⟨?_, ?_⟩ ⟨?_, ?_⟩
    · rintro ⟨⟨v, hv, rfl, hne, htouch⟩, hnot⟩
      exact ⟨v, hv, hnot, rfl, hne, htouch⟩
    · rintro ⟨v, hv, hnot, rfl, hne, htouch⟩
      exact ⟨⟨v, hv, rfl, hne, htouch⟩, hnot⟩
    · rintro ⟨v, hv, rfl, htouch⟩
      have hlt := (h.lt_nextId u hu).trans_le (mem_fresh hv).1
      exact ⟨v, hv, rfl, hlt.ne, htouch⟩
    · rintro ⟨v, hv, rfl, -, htouch⟩
      exact ⟨v, hv, rfl, htouch⟩
  · rw [mem_neighbours_linkedAnew h he hu, linkedAnew_id, linkedAnew_rect]
    refine or_congr ⟨?_, ?_⟩ Iff.rfl
    · rintro ⟨v, hv, hnot, rfl, htouch⟩
      have hlt := (h.lt_nextId v hv).trans_le (mem_fresh hu).1
      exact ⟨v, hv, hnot, rfl, hlt.ne', htouch⟩
    · rintro ⟨v, hv, hnot, rfl, -, htouch⟩
      exact ⟨v, hv, hnot, rfl, htouch⟩

/-- An exact edit keeps a grid well tiled. -/
theorem WellTiled.replace : (t.replace e (t.nextId + e.added.length)).WellTiled := by
  refine ⟨?_, ?_, ?_, ?_, ?_, ?_, fun s hs => linked_replace h he hs,
    fun s hs => h.links_ascending_replace hs⟩
  · rw [replace_segments, List.pairwise_append]
    refine ⟨List.pairwise_map.2 ?_, List.pairwise_map.2 (fresh_ascending _ _), ?_⟩
    · simp only [relinked_id]
      exact h.ascending.sublist List.filter_sublist
    · intro a ha b hb
      obtain ⟨u, hu, rfl⟩ := List.mem_map.1 ha
      obtain ⟨v, hv, rfl⟩ := List.mem_map.1 hb
      rw [relinked_id, linkedAnew_id]
      exact (h.lt_nextId u (List.mem_of_mem_filter hu)).trans_le (mem_fresh hv).1
  · intro s hs
    rcases mem_replace.1 hs with ⟨u, hu, -, rfl⟩ | ⟨u, hu, rfl⟩
    · rw [relinked_id]
      exact (h.lt_nextId u hu).trans_le (Nat.le_add_right _ _)
    · exact (mem_fresh hu).2.1
  · intro s hs
    rcases mem_replace.1 hs with ⟨u, hu, -, rfl⟩ | ⟨u, hu, rfl⟩
    · rw [relinked_rect]
      exact h.inhabited u hu
    · rw [linkedAnew_rect]
      exact he.fresh_inhabited hu
  · intro s hs c hc
    rcases mem_replace.1 hs with ⟨u, hu, -, rfl⟩ | ⟨u, hu, rfl⟩
    · rw [relinked_rect] at hc
      exact h.bounded u hu c hc
    · obtain ⟨v, hv, -, hcv⟩ := he.mem_removed hu hc
      exact h.bounded v hv c hcv
  · intro c hc
    rw [exists_mem_replace (p := fun _ r => c ∈ r)]
    obtain ⟨s, hs, hcs⟩ := h.covered c hc
    by_cases hremoved : s.id ∈ e.removed
    · obtain ⟨q, hq, hcq⟩ := (he.exact c).2 ⟨s, hs, hremoved, hcs⟩
      have hrect := List.mem_map_of_mem (f := Piece.rect) hq
      rw [← map_rect_fresh t.nextId] at hrect
      obtain ⟨u, hu, heq⟩ := List.mem_map.1 hrect
      exact .inr ⟨u, hu, heq ▸ hcq⟩
    · exact .inl ⟨s, hs, hremoved, hcs⟩
  · intro s hs u hu hne
    rcases mem_replace.1 hs with ⟨v, hv, hkept, rfl⟩ | ⟨v, hv, rfl⟩ <;>
      rcases mem_replace.1 hu with ⟨w, hw, hkept', rfl⟩ | ⟨w, hw, rfl⟩ <;>
      simp only [relinked_id, relinked_rect, linkedAnew_id, linkedAnew_rect] at hne ⊢
    · exact h.apart v hv w hw hne
    · exact kept_apart_fresh h he hv hkept hw
    · exact (kept_apart_fresh h he hw hkept' hv).symm
    · exact he.fresh_apart hv hw hne

end

end Tiling

end SurfaceFabric
